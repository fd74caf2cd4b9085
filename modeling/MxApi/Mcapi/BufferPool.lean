/-
The pool of buffers under the calls on endpoints with FIFO buffers: the sends and receives,
the tests and cancellations of requests, `mcapi_trans_pktchan_free`, the closes of channels
and `mcapi_trans_endpoint_delete` (`transport_sm_abb.c`,
`Fragments/transport_sm_pktchan_abb.c`, `Fragments/transport_sm_endpoint_abb.c`).

A buffer that is in use is referred to by an entry of the queue of a valid endpoint, or by
the receiver that was handed the packet in it. A send lets one entry name a buffer that was
free, and a receive clears one entry, and frees the buffer or hands it out.

A close clears the flag of the endpoint, and a delete zeroes its entry of the database. Both
leave the buffers of the messages that are still in the queue alone.
-/
import MxApi.Lib.References
import MxApi.Mcapi.FifoWorld

set_option autoImplicit false

namespace MxApi.BufferPool

open Lib Transfers Calls channel_type mcapi_buffer_state mcapi_status_t mcapi_request_state
  mcapi_request_type mcapi_buffer_type

/-! ## The calls -/

/-- The buffer is released with what `mcapi_trans_free_buffer` finds in its marker, so that
the exchange succeeds. `home` is the endpoint whose entry `parent` points to, which the
world does not keep. -/
def mcapi_trans_pktchan_free (w : World) (home : Place) (i : ℕ) : World × Bool :=
  if (w.buffers i).magic_num = MAGIC_NUM then
    ({ w with buffers := Function.update w.buffers i { w.buffers i with magic_num := 0 } }, true)
  else
    match (w.buffers i).parent with
    | some qindex =>
      (w.setShared home ((w.shared home).casState qindex BUFFER_RECEIVED BUFFER_ALLOCATED).2, true)
    | none => (w, true)

/-- The world and the flags `open`. Recorded beside them are the packets that were handed out
and not freed yet. -/
structure Pool where
  world : World
  opened : Place → Bool
  held : ℕ → Bool

/-- The four functions that close an endpoint; `type` is `CLOSE_PKTCHAN` or
`CLOSE_SCLCHAN`. -/
def mcapi_trans_close_i (s : Pool) (rand handle : ℕ) (mcapi_status : Status)
    (type : mcapi_request_type) : Option (Pool × Status) :=
  match Calls.mcapi_trans_reserve_request s.world rand with
  | none => some (s, .MCAPI_ERR_REQUEST_LIMIT)
  | some (w, r) =>
    if mcapi_status = .MCAPI_SUCCESS then
      match mcapi_trans_decode_handle handle with
      | none => none
      | some p =>
        (Calls.setup_request w r handle mcapi_status true 0 type).map fun w =>
          ({ s with world := w, opened := Function.update s.opened p false }, mcapi_status)
    else
      (Calls.setup_request w r handle mcapi_status true 0 type).map fun w =>
        ({ s with world := w }, mcapi_status)

/-- An endpoint of zeroed memory. -/
def deletedEndpoint : Endpoint :=
  ⟨false, MCAPI_ENDP_ATTR_FIFO_BUFFER, 0, 0, .zero MCAPI_NO_CHAN⟩

/-- The number of endpoints of the node is counted down too, which is not kept here. -/
def mcapi_trans_endpoint_delete (s : Pool) (endpoint : ℕ) : Option Pool :=
  (mcapi_trans_decode_handle endpoint).map fun p =>
    { s with
      world := { s.world with endpoints := Function.update s.world.endpoints p deletedEndpoint }
      opened := Function.update s.opened p false }

/-- A wait is a sequence of tests. -/
inductive PoolCall
  | call (c : FifoCall)
  | pktchan_free (home : Place) (i : ℕ)
  | recv_close_i (rand handle : ℕ) (mcapi_status : Status) (type : mcapi_request_type)
  | send_close_i (rand handle : ℕ) (mcapi_status : Status) (type : mcapi_request_type)
  | endpoint_delete (endpoint : ℕ)

/-- The packet that is handed out. -/
def packet (d : Delivery) : Option ℕ :=
  match d.payload with
  | .packet i => some i
  | _ => none

/-- The packets that receivers hold after some are handed out. -/
def hand (held : ℕ → Bool) (ds : List Delivery) : ℕ → Bool :=
  fun i => held i || ds.any fun d => decide (packet d = some i)

def poolStep (s : Pool) : PoolCall → Option Pool
  | .call c =>
    (fifoCallResult s.world c).map fun t => { s with world := t.1, held := hand s.held t.2 }
  | .pktchan_free home i =>
    some { s with
      world := (mcapi_trans_pktchan_free s.world home i).1
      held := Function.update s.held i false }
  | .recv_close_i rand handle st type | .send_close_i rand handle st type =>
    (mcapi_trans_close_i s rand handle st type).map Prod.fst
  | .endpoint_delete endpoint => mcapi_trans_endpoint_delete s endpoint

/-! ## Conservation -/

/-- What refers to a buffer: an entry of the queue of an endpoint, or the receiver of the
packet. -/
inductive Ref
  | entry (p : Place) (qindex : ℕ)
  | receiver (i : ℕ)
  deriving DecidableEq

/-- What an entry stands for. -/
def entryRef (valid : Bool) (qindex buff_index : ℕ) : Option ℕ :=
  if valid = true ∧ qindex < MCAPI_MAX_QUEUE_ENTRIES ∧ buff_index ≠ 0 then
    some (bufferIndex buff_index)
  else none

/-- The index that an entry stores. -/
def named (q : queue) (qindex : ℕ) : ℕ := (q.elements qindex).buff_index

def refs (w : World) (held : ℕ → Bool) : Ref → Option ℕ
  | .entry p qindex => entryRef (w.endpoints p).valid qindex (named (w.endpoints p).recv_queue qindex)
  | .receiver i => if held i then some i else none

/-- The buffer is in use. -/
def used (w : World) (i : ℕ) : Prop := (w.buffers i).magic_num ≠ 0

/-- The buffers in use are those that are referred to, each by one entry or one receiver. -/
def Pool.Conserved (s : Pool) : Prop := Exact (refs s.world s.held) (used s.world)

/-- The endpoint whose pending messages a call is to discard. -/
def PoolCall.discards (w : World) : PoolCall → Option Place
  | .recv_close_i rand handle st _ =>
    if st = .MCAPI_SUCCESS ∧ (Calls.mcapi_trans_reserve_request w rand).isSome = true then
      mcapi_trans_decode_handle handle
    else none
  | .endpoint_delete endpoint => mcapi_trans_decode_handle endpoint
  | _ => none

/-- The call gives the buffers of the messages it discards back. -/
def GivesBack (s : Pool) (c : PoolCall) (s' : Pool) : Prop :=
  ∀ p ∈ c.discards s.world, ∀ qindex i,
    refs s.world s.held (.entry p qindex) = some i → ¬ used s'.world i

/-! ## The condition -/

/-- Nothing is pending on the endpoint. -/
def Drained (w : World) (p : Place) : Prop :=
  ∀ qindex, qindex < MCAPI_MAX_QUEUE_ENTRIES → named (w.endpoints p).recv_queue qindex = 0

/-- Messages are sent to valid endpoints, a buffer is not freed while it is in a queue, and
no endpoint is deleted, and none closed that receives, while a message is pending on it. -/
def PoolMeets (s : Pool) (c : PoolCall) (_ : Pool) : Prop :=
  (∀ p ∈ c.discards s.world, Drained s.world p) ∧
    match c with
    | .call c => ∀ p ∈ c.target s.world, (s.world.endpoints p).valid = true
    | .pktchan_free _ i => ∀ p qindex, refs s.world s.held (.entry p qindex) ≠ some i
    | _ => True

/-- All endpoints have FIFO buffers, nothing is pending and no buffer in use. -/
structure Pool.Fresh (s : Pool) : Prop where
  world : s.world.Fresh
  unused : ∀ i, (s.world.buffers i).magic_num = 0
  unheld : ∀ i, s.held i = false

/-! ## What the transfers do to entries and markers -/

section Transfers

def marker (buffers : ℕ → buffer_entry) (i : ℕ) : ℕ := (buffers i).magic_num

variable {sh sh' : Shared} {m : Msg} {size qindex : ℕ}

theorem named_setElement (sh : Shared) (qindex : ℕ) (e : buffer_descriptor) :
    named (sh.setElement qindex e).q = Function.update (named sh.q) qindex e.buff_index := by
  funext k
  by_cases hk : k = qindex
  · rw [hk, Function.update_self, named, Shared.setElement_self]
  · rw [Function.update_of_ne hk, named, named, Shared.setElement_of_ne sh hk]

/-- The entry keeps its index. -/
theorem named_setElement_same (sh : Shared) (qindex : ℕ) {e : buffer_descriptor}
    (he : e.buff_index = named sh.q qindex) : named (sh.setElement qindex e).q = named sh.q := by
  rw [named_setElement, he, Function.update_eq_self]

theorem named_congr {q q' : queue} (h : q'.elements = q.elements) : named q' = named q := by
  funext k
  rw [named, named, h]

theorem marker_update (buffers : ℕ → buffer_entry) (i : ℕ) (b : buffer_entry) :
    marker (Function.update buffers i b) = Function.update (marker buffers) i b.magic_num := by
  funext k
  by_cases hk : k = i
  · rw [hk, Function.update_self, marker, Function.update_self]
  · rw [Function.update_of_ne hk, marker, marker, Function.update_of_ne hk]

/-- The buffer keeps its marker. -/
theorem marker_update_same (buffers : ℕ → buffer_entry) (i : ℕ) {b : buffer_entry}
    (hb : b.magic_num = marker buffers i) : marker (Function.update buffers i b) = marker buffers := by
  rw [marker_update, hb, Function.update_eq_self]

theorem qindexOf_lt (c : ℕ) : qindexOf c < MCAPI_MAX_QUEUE_ENTRIES := Nat.mod_lt _ (by decide)

theorem head_lt {q : queue} {status : mcapi_status_t}
    (h : mcapi_trans_queue_head q = (qindex, status)) : qindex < MCAPI_MAX_QUEUE_ENTRIES := by
  rw [mcapi_trans_queue_head, Prod.mk.injEq] at h
  rw [← h.1]
  exact qindexOf_lt _

theorem tail_lt {q : queue} {status : mcapi_status_t}
    (h : mcapi_trans_queue_tail q = (qindex, status)) : qindex < MCAPI_MAX_QUEUE_ENTRIES := by
  rw [mcapi_trans_queue_tail, Prod.mk.injEq] at h
  rw [← h.1]
  exact qindexOf_lt _

theorem push_elements {q q' : queue} {x : ℕ} (h : mcapi_trans_push_queue q = some (.ok x, q')) :
    q'.elements = q.elements := by
  unfold mcapi_trans_push_queue at h
  dsimp only at h
  split at h
  · cases h
  · split at h
    · cases h
      rfl
    · cases h

theorem pop_elements {q q' : queue} {x : ℕ} (h : mcapi_trans_pop_queue q = some (.ok x, q')) :
    q'.elements = q.elements := by
  unfold mcapi_trans_pop_queue at h
  dsimp only at h
  split at h
  · cases h
  · split at h
    · cases h
      rfl
    · cases h

theorem fill_magic_num (ct : channel_type) (m : Msg) (qindex : ℕ) (b : buffer_entry) :
    (fill ct m qindex b).magic_num = b.magic_num := by
  unfold fill
  split <;> rfl

/-- **A send** lets an entry that was empty name a buffer that was free, or changes nothing. -/
theorem send_moves {ok : Bool} (h : mcapi_trans_send sh m = some (sh', ok)) :
    (named sh'.q = named sh.q ∧ marker sh'.buffers = marker sh.buffers) ∨
    ∃ qindex i, qindex < MCAPI_MAX_QUEUE_ENTRIES ∧ i < MCAPI_MAX_BUFFERS ∧
      named sh.q qindex = 0 ∧ marker sh.buffers i = 0 ∧
      named sh'.q = Function.update (named sh.q) qindex (validIndex i) ∧
      marker sh'.buffers = Function.update (marker sh.buffers) i MAGIC_NUM := by
  unfold mcapi_trans_send at h
  split at h
  · rename_i qindex htail
    dsimp only at h
    split at h
    · rename_i hentry
      split at h
      · simp only [Option.some.injEq, Prod.mk.injEq] at h
        obtain ⟨rfl, -⟩ := h
        refine .inl ⟨?_, rfl⟩
        rw [named_setElement, named_setElement, Function.update_idem, Shared.setElement_self]
        exact Function.update_eq_self qindex (named sh.q)
      · rename_i i buffers halloc
        rw [mcapi_trans_alloc_buffer, Option.map_eq_some_iff] at halloc
        obtain ⟨i', hi', heq⟩ := halloc
        obtain ⟨rfl, rfl⟩ := Prod.mk.inj heq
        obtain ⟨hpool, hfree⟩ := search_some hi'
        split at h
        · rename_i x q hpush
          split at h
          · simp only [Option.some.injEq, Prod.mk.injEq] at h
            obtain ⟨rfl, -⟩ := h
            refine .inr ⟨qindex, i', tail_lt htail, hpool, hentry.1, of_decide_eq_true hfree,
              ?_, ?_⟩
            · rw [named_congr (push_elements hpush), named_setElement]
            · rw [Shared.setElement_buffers, marker_update, marker_update, Function.update_idem,
                fill_magic_num, Function.update_self]
          · cases h
        · cases h
    · cases h
  · simp only [Option.some.injEq, Prod.mk.injEq] at h
    obtain ⟨rfl, -⟩ := h
    exact .inl ⟨rfl, rfl⟩
  · cases h

/-- What a receive from an entry does: the entry is cleared, and its buffer handed out as a
packet or freed. -/
structure Takes (sh sh' : Shared) (d : Delivery) (qindex : ℕ) : Prop where
  cleared : named sh'.q = Function.update (named sh.q) qindex 0
  buffer :
    packet d = some (bufferIndex (named sh.q qindex)) ∧ marker sh'.buffers = marker sh.buffers ∨
    packet d = none ∧ marker sh'.buffers =
      Function.update (marker sh.buffers) (bufferIndex (named sh.q qindex)) 0

theorem takes_of_recv {d : Delivery} (h : mcapi_trans_recv_ sh size qindex = some (sh', d)) :
    Takes sh sh' d qindex := by
  unfold mcapi_trans_recv_ at h
  dsimp only at h
  -- setting `parent` does not change the marker
  have hparent := marker_update_same sh.buffers (bufferIndex (sh.q.elements qindex).buff_index)
    (b := { sh.buffers (bufferIndex (sh.q.elements qindex).buff_index) with
      parent := some qindex }) rfl
  split at h
  · rename_i hct
    simp only [Option.some.injEq, Prod.mk.injEq] at h
    obtain ⟨rfl, rfl⟩ := h
    refine ⟨named_setElement _ qindex _, .inl ⟨?_, hparent⟩⟩
    simp only [packet, handOut, hct]
    rfl
  · rename_i hct
    split at h
    · rename_i hcas
      simp only [Option.some.injEq, Prod.mk.injEq] at h
      obtain ⟨rfl, rfl⟩ := h
      unfold Shared.casMagic at hcas ⊢
      split
      · refine ⟨named_setElement _ qindex _, .inr ⟨?_, ?_⟩⟩
        · unfold packet handOut
          cases hch : sh.q.channel_type with
          | MCAPI_PKT_CHAN => exact absurd hch hct
          | MCAPI_SCL_CHAN => rfl
          | MCAPI_NO_CHAN => rfl
        · refine (marker_update _ _ _).trans ?_
          rw [Shared.setElement_buffers]
          exact congrArg (fun f => Function.update f _ 0) hparent
      · rename_i hne
        rw [if_neg hne] at hcas
        cases hcas
    · cases h

/-- The entry at the head is marked, received from and popped. -/
theorem Takes.marked {e : buffer_descriptor} {d : Delivery} {q : queue} {x : ℕ}
    (h : Takes (sh.setElement qindex e) sh' d qindex) (he : e.buff_index = named sh.q qindex)
    (hpop : mcapi_trans_pop_queue sh'.q = some (.ok x, q)) :
    Takes sh { sh' with q := q } d qindex := by
  have hsame := named_setElement_same sh qindex he
  have hcleared := h.cleared
  have hbuffer := h.buffer
  rw [hsame] at hcleared hbuffer
  exact ⟨(named_congr (pop_elements hpop)).trans hcleared, hbuffer⟩

/-- **A receive** takes what an entry names, or changes nothing. -/
theorem recv_moves {d : Option Delivery} (h : mcapi_trans_recv sh size = some (sh', d)) :
    (d = none ∧ sh' = sh) ∨
    ∃ d' qindex, d = some d' ∧ qindex < MCAPI_MAX_QUEUE_ENTRIES ∧ named sh.q qindex ≠ 0 ∧
      Takes sh sh' d' qindex := by
  unfold mcapi_trans_recv at h
  split at h
  · rename_i qindex hhead
    dsimp only at h
    split at h
    · rename_i hsent
      split at h
      · cases h
      · rename_i sh₁ d' hrecv
        split at h
        · rename_i x q hpop
          simp only [Option.some.injEq, Prod.mk.injEq] at h
          obtain ⟨rfl, rfl⟩ := h
          exact .inr ⟨d', qindex, rfl, head_lt hhead, hsent.2,
            (takes_of_recv hrecv).marked rfl hpop⟩
        · cases h
    · simp only [Option.some.injEq, Prod.mk.injEq] at h
      exact .inl ⟨h.2.symm, h.1.symm⟩
  · simp only [Option.some.injEq, Prod.mk.injEq] at h
    exact .inl ⟨h.2.symm, h.1.symm⟩
  · cases h

/-- **A test** takes what the entry at the head names, or changes nothing. -/
theorem check_moves {w w' : World} {r : ℕ} {d : Option Delivery}
    (h : check_receive_request_ w r = some (w', d)) :
    (d = none ∧ w' = w) ∨
    ∃ p d' qindex sh' req, d = some d' ∧ qindex < MCAPI_MAX_QUEUE_ENTRIES ∧
      named (w.shared p).q qindex ≠ 0 ∧ Takes (w.shared p) sh' d' qindex ∧
      w' = (w.setShared p sh').setRequest r req := by
  unfold check_receive_request_ at h
  dsimp only at h
  split at h
  · cases h
  · rename_i p hp
    split at h
    · rename_i front hhead
      split at h
      · rename_i hfront
        have hsent : named (w.shared p).q front ≠ 0 := by
          have hboth := hfront.2
          simp only [LockFree.sent, Bool.and_eq_true, decide_eq_true_eq] at hboth
          exact hboth.2
        split at h
        · split at h
          · cases h
          · rename_i sh₁ d' hrecv
            split at h
            · rename_i x q hpop
              simp only [Option.some.injEq, Prod.mk.injEq] at h
              obtain ⟨rfl, rfl⟩ := h
              exact .inr ⟨p, d', front, _, _, rfl, head_lt hhead, hsent,
                (takes_of_recv hrecv).marked rfl hpop, rfl⟩
            · cases h
        · cases h
      · simp only [Option.some.injEq, Prod.mk.injEq] at h
        exact .inl ⟨h.2.symm, h.1.symm⟩
    · simp only [Option.some.injEq, Prod.mk.injEq] at h
      exact .inl ⟨h.2.symm, h.1.symm⟩

end Transfers

/-! ## The invariant -/

/-- What holds between two calls. -/
structure Balanced (w : World) (held : ℕ → Bool) : Prop where
  buffers : ∀ p, (w.endpoints p).buffer_type = MCAPI_ENDP_ATTR_FIFO_BUFFER
  conserved : Exact (refs w held) (used w)
  marked : ∀ i, (w.buffers i).magic_num = 0 ∨ (w.buffers i).magic_num = MAGIC_NUM
  deleted : ∀ p, (w.endpoints p).valid = false → Drained w p

section Invariant

variable {w : World} {held : ℕ → Bool} {p : Place} {sh : Shared} {qindex i : ℕ} {d : Delivery}

theorem entryRef_zero (valid : Bool) (qindex : ℕ) : entryRef valid qindex 0 = none :=
  if_neg (by simp)

theorem Drained.ref (h : Drained w p) (qindex : ℕ) : refs w held (.entry p qindex) = none := by
  simp only [refs, entryRef]
  by_cases hlt : qindex < MCAPI_MAX_QUEUE_ENTRIES
  · rw [h qindex hlt]
    exact if_neg (by simp)
  · exact if_neg (by simp [hlt])

/-- One entry of the queue of an endpoint changes. -/
theorem refs_setShared {b : ℕ}
    (h : named sh.q = Function.update (named (w.endpoints p).recv_queue) qindex b) :
    refs (w.setShared p sh) held = Function.update (refs w held) (.entry p qindex)
      (entryRef (w.endpoints p).valid qindex b) := by
  funext r
  cases r with
  | receiver i => rw [Function.update_of_ne (by simp), refs, refs]
  | entry p' k =>
    by_cases hp : p' = p
    · rw [hp]
      by_cases hk : k = qindex
      · rw [hk, Function.update_self, refs, World.endpoints_setShared_self, h,
          Function.update_self]
      · rw [Function.update_of_ne (by simp [hk]), refs, refs, World.endpoints_setShared_self, h,
          Function.update_of_ne hk]
    · rw [Function.update_of_ne (by simp [hp]), refs, refs,
        World.endpoints_setShared_of_ne _ _ _ hp]

theorem refs_setShared_same (h : named sh.q = named (w.endpoints p).recv_queue) :
    refs (w.setShared p sh) held = refs w held := by
  have hsame : named sh.q = Function.update (named (w.endpoints p).recv_queue) 0
      (named (w.endpoints p).recv_queue 0) := h.trans (Function.update_eq_self 0 _).symm
  rw [refs_setShared hsame]
  exact Function.update_eq_self (Ref.entry p 0) (refs w held)

/-- A packet is handed out, or freed. -/
theorem refs_update (i : ℕ) (b : Bool) : refs w (Function.update held i b) =
    Function.update (refs w held) (.receiver i) (if b then some i else none) := by
  funext r
  cases r with
  | entry p' k => rw [Function.update_of_ne (by simp), refs, refs]
  | receiver j =>
    by_cases hj : j = i
    · rw [hj, Function.update_self, refs, Function.update_self]
    · rw [Function.update_of_ne (by simp [hj]), refs, refs, Function.update_of_ne hj]

theorem hand_nil (held : ℕ → Bool) : hand held [] = held := by
  funext i
  simp [hand]

theorem hand_append (held : ℕ → Bool) (ds ds' : List Delivery) :
    hand held (ds ++ ds') = hand (hand held ds) ds' := by
  funext i
  simp [hand, Bool.or_assoc]

theorem hand_packet (h : packet d = some i) : hand held [d] = Function.update held i true := by
  funext j
  by_cases hj : j = i
  · simp [hand, h, hj]
  · have hne : ¬ i = j := fun heq => hj heq.symm
    simp [hand, h, hj, hne]

theorem hand_other (h : packet d = none) : hand held [d] = held := by
  funext j
  simp [hand, h]

theorem used_iff_marker (w : World) (i : ℕ) : used w i ↔ marker w.buffers i ≠ 0 := Iff.rfl

namespace Balanced

/-- Nothing that matters changes. -/
theorem same (h : Balanced w held) (hnamed : named sh.q = named (w.endpoints p).recv_queue)
    (hmarker : marker sh.buffers = marker w.buffers) : Balanced (w.setShared p sh) held where
  buffers := by
    intro p'
    by_cases hp : p' = p
    · rw [hp, World.endpoints_setShared_self]
      exact h.buffers p
    · rw [World.endpoints_setShared_of_ne _ _ _ hp]
      exact h.buffers p'
  conserved := by
    rw [refs_setShared_same hnamed]
    have hused : used (w.setShared p sh) = used w := by
      funext i
      exact congrArg (· ≠ 0) (congrFun hmarker i)
    rw [hused]
    exact h.conserved
  marked := by
    intro i
    change marker sh.buffers i = 0 ∨ marker sh.buffers i = MAGIC_NUM
    rw [hmarker]
    exact h.marked i
  deleted := by
    intro p' hp' k hk
    by_cases hp : p' = p
    · rw [hp, World.endpoints_setShared_self] at hp' ⊢
      rw [hnamed]
      exact h.deleted p hp' k hk
    · rw [World.endpoints_setShared_of_ne _ _ _ hp] at hp' ⊢
      exact h.deleted p' hp' k hk

/-- One entry of a valid endpoint changes, and the references stay exact. -/
theorem change (h : Balanced w held) {held' : ℕ → Bool}
    (hvalid : (w.endpoints p).valid = true)
    (hmarked : ∀ i, marker sh.buffers i = 0 ∨ marker sh.buffers i = MAGIC_NUM)
    (hconserved : Exact (refs (w.setShared p sh) held') fun i => marker sh.buffers i ≠ 0) :
    Balanced (w.setShared p sh) held' where
  buffers := by
    intro p'
    by_cases hp : p' = p
    · rw [hp, World.endpoints_setShared_self]
      exact h.buffers p
    · rw [World.endpoints_setShared_of_ne _ _ _ hp]
      exact h.buffers p'
  conserved := hconserved
  marked := hmarked
  deleted := by
    intro p' hp' k hk
    by_cases hp : p' = p
    · rw [hp, World.endpoints_setShared_self] at hp'
      exact absurd (hvalid.symm.trans hp') (by simp)
    · rw [World.endpoints_setShared_of_ne _ _ _ hp] at hp' ⊢
      exact h.deleted p' hp' k hk

/-- An entry that names a buffer is one of a valid endpoint, and refers to it. -/
theorem ref (h : Balanced w held) (hlt : qindex < MCAPI_MAX_QUEUE_ENTRIES)
    (hne : named (w.endpoints p).recv_queue qindex ≠ 0) :
    (w.endpoints p).valid = true ∧ refs w held (.entry p qindex) =
      some (bufferIndex (named (w.endpoints p).recv_queue qindex)) := by
  have hvalid : (w.endpoints p).valid = true := by
    by_contra hinvalid
    exact hne (h.deleted p (Bool.eq_false_iff.mpr hinvalid) qindex hlt)
  exact ⟨hvalid, if_pos ⟨hvalid, hlt, hne⟩⟩

/-- A packet that is held is in use. -/
theorem used_of_held (h : Balanced w held) (hheld : held i = true) : used w i :=
  h.conserved.used_of_ref (r := .receiver i) (by rw [refs, hheld, if_pos rfl])

/-- An entry comes to name a buffer that was free. -/
theorem put (h : Balanced w held) (hvalid : (w.endpoints p).valid = true)
    (hlt : qindex < MCAPI_MAX_QUEUE_ENTRIES) (hpool : i < MCAPI_MAX_BUFFERS)
    (hempty : named (w.endpoints p).recv_queue qindex = 0) (hfree : marker w.buffers i = 0)
    (hnamed : named sh.q =
      Function.update (named (w.endpoints p).recv_queue) qindex (validIndex i))
    (hmarker : marker sh.buffers = Function.update (marker w.buffers) i MAGIC_NUM) :
    Balanced (w.setShared p sh) held := by
  refine h.change hvalid (fun j => ?_) ?_
  · rw [hmarker]
    by_cases hj : j = i
    · rw [hj, Function.update_self]
      exact .inr rfl
    · rw [Function.update_of_ne hj]
      exact h.marked j
  · have hentry : entryRef (w.endpoints p).valid qindex (validIndex i) = some i := by
      rw [entryRef, if_pos ⟨hvalid, hlt, validIndex_ne_zero hpool⟩, bufferIndex_validIndex hpool]
    have hnone : refs w held (.entry p qindex) = none := by
      rw [refs, hempty, entryRef_zero]
    rw [refs_setShared hnamed, hentry]
    refine h.conserved.acquire hnone (fun hused => hused hfree) fun j => ?_
    rw [hmarker, used_iff_marker]
    by_cases hj : j = i
    · simp [hj, MAGIC_NUM_ne_zero]
    · simp [hj]

/-- What an entry names is freed or handed out. -/
theorem take (h : Balanced w held) (hlt : qindex < MCAPI_MAX_QUEUE_ENTRIES)
    (hne : named (w.shared p).q qindex ≠ 0) (htakes : Takes (w.shared p) sh d qindex) :
    Balanced (w.setShared p sh) (hand held [d]) := by
  obtain ⟨hvalid, href⟩ := h.ref hlt hne
  have hrefs : refs (w.setShared p sh) held =
      Function.update (refs w held) (.entry p qindex) none := by
    rw [refs_setShared htakes.cleared, entryRef_zero]
  rcases htakes.buffer with ⟨hpacket, hmarker⟩ | ⟨hother, hmarker⟩
  · refine h.change hvalid (fun j => ?_) ?_
    · rw [hmarker]
      exact h.marked j
    · have hnone : refs w held
          (.receiver (bufferIndex (named (w.endpoints p).recv_queue qindex))) = none := by
        rw [refs]
        refine if_neg fun hheld => ?_
        have hsame := h.conserved.unique _ (.receiver _) _ href (if_pos hheld)
        cases hsame
      rw [hand_packet hpacket, refs_update, hrefs, if_pos rfl, hmarker]
      exact h.conserved.move href hnone
  · refine h.change hvalid (fun j => ?_) ?_
    · rw [hmarker]
      by_cases hj : j = bufferIndex (named (w.shared p).q qindex)
      · rw [hj, Function.update_self]
        exact .inl rfl
      · rw [Function.update_of_ne hj]
        exact h.marked j
    · rw [hand_other hother, hrefs]
      refine h.conserved.release href fun j => ?_
      rw [hmarker, used_iff_marker]
      by_cases hj : j = bufferIndex (named (w.shared p).q qindex)
      · rw [hj, Function.update_self]
        exact iff_of_false (fun hne => hne rfl) fun hother => hother.1 rfl
      · rw [Function.update_of_ne hj]
        exact ⟨fun hused => ⟨hj, hused⟩, And.right⟩

/-- What the sends, the receives and the requests keep. -/
theorem kept (held : ℕ → Bool) :
    FifoKept (fun e => e.valid = true) fun w ds => Balanced w (hand held ds) where
  buffers _ _ p h := h.buffers p
  request _ _ _ _ h := ⟨h.buffers, h.conserved, h.marked, h.deleted⟩
  reserve _ _ _ _ h := h.same (named_setElement_same _ _ rfl) rfl
  send := by
    intro w ds p m sh ok h hvalid hsend
    rcases send_moves hsend with ⟨hnamed, hmarker⟩ |
        ⟨qindex, i, hlt, hpool, hempty, hfree, hnamed, hmarker⟩
    · exact h.same hnamed hmarker
    · exact h.put hvalid hlt hpool hempty hfree hnamed hmarker
  recv := by
    intro w ds p size sh d h hrecv
    rcases recv_moves hrecv with ⟨rfl, rfl⟩ | ⟨d', qindex, rfl, hlt, hne, htakes⟩
    · rw [Option.toList_none, List.append_nil]
      exact h.same rfl rfl
    · rw [Option.toList_some, hand_append]
      exact h.take hlt hne htakes
  check := by
    intro w ds r w' d h hcheck
    rcases check_moves hcheck with ⟨rfl, rfl⟩ | ⟨p, d', qindex, sh', req, rfl, hlt, hne, htakes, rfl⟩
    · rwa [Option.toList_none, List.append_nil]
    · rw [Option.toList_some, hand_append]
      have hnext := h.take hlt hne htakes
      exact ⟨hnext.buffers, hnext.conserved, hnext.marked, hnext.deleted⟩

theorem call (h : Balanced w held) {w' : World} {ds : List Delivery} {c : FifoCall}
    (htarget : ∀ p ∈ c.target w, (w.endpoints p).valid = true)
    (hstep : fifoCallResult w c = some (w', ds)) : Balanced w' (hand held ds) :=
  (kept held).step [] (by rwa [hand_nil]) htarget hstep

end Balanced

end Invariant

end MxApi.BufferPool
