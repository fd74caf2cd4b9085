/-
What FIFO message exchange promises, and when it keeps it.

[`FifoOk`] is the contract. With one sender and one receiver it holds at every
point of every interleaving in which no counter wraps, and the sender never
writes what the receiver is reading. With several senders, or with several
receivers, it holds as long as the clients act on current positions; it fails
where they do not. A sender checks that its entry is empty before it has
reserved it, so the buffer another sender has just put there fails the assert;
and a receiver asserts that its exchange succeeds, which it does not when
another receiver was faster.
-/
import MxApi.Lib.RingSlot
import MxApi.Mcapi.FifoSingle

set_option autoImplicit false

namespace MxApi

open Lib channel_type mcapi_buffer_state mcapi_status_t

section Contract

variable {σ ρ : Type}

/-- The contract of FIFO message exchange. -/
structure FifoOk (ct : channel_type) (s : Fifo σ ρ) : Prop where
  no_send_assert_fails : ∀ x, s.spc x ≠ .failed
  no_recv_assert_fails : ∀ y, s.rpc y ≠ .failed
  /-- no more is received than was sent -/
  received_le : s.received.length ≤ s.sent.length
  /-- the `n`-th receive delivers the `n`-th message sent -/
  in_order : ∀ (n : ℕ) (v : Received ρ), s.received[n]? = some v → ∃ u, s.sent[n]? = some u ∧
    v.delivery = deliver ct u.frame v.args.buffer_size
  /-- what is not received is in the queue, intact, or being received -/
  queued : ∀ (n : ℕ) (u : Sent σ), s.received.length ≤ n → s.sent[n]? = some u →
    (EntryIs BUFFER_ALLOCATED (validIndex u.frame.i) (s.sh.q.elements (ringSlot n)) ∧
      Carries ct u.frame.msg (s.sh.buffers u.frame.i)) ∨
    (n = s.received.length ∧ ∃ y, (s.rpc y).inside = true)
  /-- a packet that was handed over stays intact -/
  packets : ct = MCAPI_PKT_CHAN → ∀ (n : ℕ) (u : Sent σ), n < s.received.length →
    s.sent[n]? = some u → Carries ct u.frame.msg (s.sh.buffers u.frame.i)

variable {ct : channel_type} {w : Option SendPc} {r : Option RecvPc} {s : Fifo σ ρ}

theorem Fifo.frames_getElem? {n : ℕ} {u : Sent σ} (hu : s.sent[n]? = some u) :
    s.frames[n]? = some u.frame := by
  rw [Fifo.frames, List.getElem?_map, hu]
  rfl

/-- The invariant gives the contract. -/
theorem FifoInv.ok (h : FifoInv ct w r s) : FifoOk ct s where
  no_send_assert_fails := h.send_ok
  no_recv_assert_fails := h.recv_ok
  received_le := by
    have hle := h.core.le
    rwa [Fifo.frames, List.length_map] at hle
  in_order := h.delivered
  queued := by
    intro n u hn hu
    have hf := Fifo.frames_getElem? hu
    by_cases hbusy : s.received.length + busy r ≤ n
    · refine .inl ⟨h.core.entries.content (o := .elem n) ?_, h.core.bufs.content (o := .elem n) ?_⟩
      · rw [entryClaim, if_pos hbusy, hf]
        rfl
      · rw [bufClaim, if_pos (.inl hbusy), hf]
        rfl
    · -- only the head can be missing, and a receiver has it
      cases r with
      | none => exact absurd hn hbusy
      | some p =>
        obtain ⟨y, rfl, hin, -⟩ := h.receivers
        simp only [busy] at hbusy
        exact .inr ⟨by omega, y, hin⟩
  packets := by
    intro hpkt n u hn hu
    refine h.core.bufs.content (o := .elem n) ?_
    rw [bufClaim, if_pos (.inr ⟨hpkt, hn⟩), Fifo.frames_getElem? hu]
    rfl

end Contract

/-! ## The sender does not write what the receiver reads -/

/-- The entry a receiver reads, from `queue_head` on until it is free again. -/
def RecvPc.reading : RecvPc → Option ℕ
  | .readState _ q | .readBuffIndex _ q _ | .casReceived _ q | .recvBuffIndex _ q
  | .setParent _ q _ | .readSize _ q _ | .copy _ q _ _ _ | .freeBuffer _ q _ _
  | .clearReserved _ q _ | .clearBuffIndex _ q _ | .setFree _ q _ => some q
  | _ => none

/-- The buffer a receiver reads, until it has freed it. -/
def RecvPc.readingBuffer : RecvPc → Option ℕ
  | .setParent _ _ index | .readSize _ _ index | .copy _ _ index _ _
  | .freeBuffer _ _ index _ => some index
  | _ => none

/-- No step of the sender changes the entry or the buffer the receiver reads. -/
def Isolated (s : Fifo Unit Unit) : Prop :=
  ∀ s', fifoStep s (.stepSend ()) = some s' →
    (∀ q, (s.rpc ()).reading = some q → s'.sh.q.elements q = s.sh.q.elements q) ∧
    ∀ i, (s.rpc ()).readingBuffer = some i → s'.sh.buffers i = s.sh.buffers i

/-- A sender writes the entry it has, or reserves a free one. -/
theorem send_writes_entry {sh : Shared} {p : SendPc} {j : ℕ}
    (h : (sendProgram sh p).1.q.elements j ≠ sh.q.elements j) :
    (∃ P, p.entry = some (j, P)) ∨ (sh.q.elements j).state = BUFFER_FREE := by
  have hset : ∀ {k d}, (sh.setElement k d).q.elements j ≠ sh.q.elements j → j = k := by
    intro k d hne
    by_contra hjk
    exact hne (sh.setElement_of_ne hjk d)
  cases p with
  | idle | tailAck | readBuffIndex | failed => exact absurd rfl h
  | tailUpdate m tempAC =>
    simp only [sendProgram] at h
    split at h <;> exact absurd rfl h
  | checkBuffIndex m q =>
    simp only [sendProgram] at h
    split at h <;> exact absurd rfl h
  | casReserve m q =>
    simp only [sendProgram, Shared.casState] at h
    by_cases hfree : (sh.q.elements q).state = BUFFER_FREE
    · rw [if_pos hfree] at h
      rw [hset h]
      exact .inr hfree
    · rw [if_neg hfree] at h
      exact absurd rfl h
  | allocBuffer m q i =>
    simp only [sendProgram, Shared.casMagic] at h
    split at h
    · split at h <;> exact absurd rfl h
    · exact absurd rfl h
  | unreserve m q => exact .inl ⟨_, by rw [hset h]; rfl⟩
  | setParent f => exact absurd rfl h
  | copy f k =>
    simp only [sendProgram] at h
    split at h
    · exact absurd rfl h
    · split at h <;> exact absurd rfl h
  | setSize f => exact absurd rfl h
  | setBuffIndex f => exact .inl ⟨_, by rw [hset h]; rfl⟩
  | casAllocated f =>
    simp only [sendProgram, Shared.casState] at h
    split at h
    · exact .inl ⟨_, by rw [hset h]; rfl⟩
    · exact absurd rfl h
  | pushUpdate f =>
    simp only [sendProgram] at h
    split at h <;> exact absurd rfl h
  | pushAck f UC =>
    simp only [sendProgram] at h
    split at h <;> exact absurd rfl h
  | pushCas f UC =>
    simp only [sendProgram] at h
    split at h <;> exact absurd rfl h
  | pushInc f UC =>
    simp only [sendProgram] at h
    split at h <;> exact absurd rfl h

/-- A sender writes the buffer it has, or takes a free one. -/
theorem send_writes_buffer (ct : channel_type) {sh : Shared} {p : SendPc} {i : ℕ}
    (h : (sendProgram sh p).1.buffers i ≠ sh.buffers i) :
    (∃ P, p.buf ct = some (i, P)) ∨ (sh.buffers i).magic_num = 0 := by
  have hset : ∀ {k b}, (sh.setBuffer k b).buffers i ≠ sh.buffers i → i = k := by
    intro k b hne
    by_contra hik
    exact hne (sh.setBuffer_of_ne hik b)
  cases p with
  | idle | tailAck | readBuffIndex | unreserve | setBuffIndex | failed => exact absurd rfl h
  | tailUpdate m tempAC =>
    simp only [sendProgram] at h
    split at h <;> exact absurd rfl h
  | checkBuffIndex m q =>
    simp only [sendProgram] at h
    split at h <;> exact absurd rfl h
  | casReserve m q =>
    simp only [sendProgram, Shared.casState] at h
    split at h <;> exact absurd rfl h
  | allocBuffer m q k =>
    simp only [sendProgram, Shared.casMagic] at h
    by_cases hk : k < MCAPI_MAX_BUFFERS
    · rw [if_pos hk] at h
      by_cases hfree : (sh.buffers k).magic_num = 0
      · rw [if_pos hfree] at h
        rw [hset h]
        exact .inr hfree
      · rw [if_neg hfree] at h
        exact absurd rfl h
    · rw [if_neg hk] at h
      exact absurd rfl h
  | setParent f => exact .inl ⟨_, by rw [hset h]; rfl⟩
  | copy f k =>
    simp only [sendProgram] at h
    split at h
    · exact .inl ⟨_, by rw [hset h]; rfl⟩
    · split at h
      · exact .inl ⟨_, by rw [hset h]; rfl⟩
      · exact absurd rfl h
  | setSize f => exact .inl ⟨_, by rw [hset h]; rfl⟩
  | casAllocated f =>
    simp only [sendProgram, Shared.casState] at h
    split at h <;> exact absurd rfl h
  | pushUpdate f =>
    simp only [sendProgram] at h
    split at h <;> exact absurd rfl h
  | pushAck f UC =>
    simp only [sendProgram] at h
    split at h <;> exact absurd rfl h
  | pushCas f UC =>
    simp only [sendProgram] at h
    split at h <;> exact absurd rfl h
  | pushInc f UC =>
    simp only [sendProgram] at h
    split at h <;> exact absurd rfl h

section Isolation

variable {ct : channel_type} {w : Option SendPc} {r : Option RecvPc} {s : Fifo Unit Unit}

/-- The entry the only receiver reads is claimed by it, or by the message at the
head. -/
theorem FifoInv.reading_claimed (h : FifoInv ct w r s) (hk : ReceiverKnows w s) {q : ℕ}
    (hq : (s.rpc ()).reading = some q) :
    ∃ o P, o ≠ .sender ∧ entryClaim w r s.frames s.received.length o = some (q, P) := by
  by_cases hin : (s.rpc ()).inside = true
  · have hr := h.receivers.of_inside hin
    obtain ⟨e, he, hok⟩ := h.core.reader _ hr
    refine ⟨.receiver, ?_⟩
    rw [hr, entryClaim_receiver he]
    cases hpc : s.rpc () <;> simp only [hpc, RecvPc.reading, RecvPc.inside, reduceCtorEq] at hq hin
    all_goals
      cases hq
      exact ⟨_, by simp, rfl⟩
  · have hin' : (s.rpc ()).inside = false := by simpa using hin
    have hr : r = none := by
      cases r with
      | none => rfl
      | some p =>
        obtain ⟨y', rfl, hy', -⟩ := h.receivers
        exact absurd hy' hin
    -- what is read outside is the head
    have hhead : q = ringSlot s.received.length ∧ s.received.length < s.frames.length := by
      have hpush := pushing_le_one w
      have hlen : s.frames.length = s.sent.length := List.length_map ..
      rw [ReceiverKnows] at hk
      cases hpc : s.rpc () <;>
        simp only [hpc, RecvPc.reading, RecvPc.inside, RecvPc.Synced, reduceCtorEq,
          Option.some.injEq] at hq hin' hk
      all_goals
        subst hq
        exact ⟨hk.1, by omega⟩
    obtain ⟨rfl, hlt⟩ := hhead
    exact ⟨.elem s.received.length, EntryIs BUFFER_ALLOCATED
      (validIndex s.frames[s.received.length].i), by simp, by simp [entryClaim, hr, busy, hlt]⟩

/-- The buffer the receiver reads is claimed by it. -/
theorem FifoInv.readingBuffer_claimed (h : FifoInv ct w r s) {i : ℕ}
    (hi : (s.rpc ()).readingBuffer = some i) :
    ∃ P, bufClaim ct w r s.frames s.received.length .receiver = some (i, P) := by
  have hin : (s.rpc ()).inside = true := by
    cases hpc : s.rpc () <;> simp [hpc, RecvPc.readingBuffer] at hi <;> rfl
  have hr := h.receivers.of_inside hin
  obtain ⟨e, he, hok⟩ := h.core.reader _ hr
  rw [hr, bufClaim_receiver he]
  cases hpc : s.rpc () <;>
    simp only [hpc, RecvPc.readingBuffer, RecvPc.Ok, reduceCtorEq, Option.some.injEq] at hi hok
  all_goals
    subst hi
    first
      | exact ⟨_, by rw [hok.2]; rfl⟩
      | exact ⟨_, by rw [hok.2.1]; rfl⟩

theorem FifoInv.isolated (h : FifoInv ct w r s) (hk : ReceiverKnows w s) : Isolated s := by
  intro s' hstep
  simp only [fifoStep, Option.some.injEq] at hstep
  subst hstep
  -- a sender with an entry or a buffer is the active one
  have hsender : ∀ {x}, (s.spc ()).entry = some x → w = some (s.spc ()) := by
    intro x hx
    refine h.senders.of_inside ?_
    cases hpc : s.spc () <;> simp [hpc, SendPc.entry] at hx <;> rfl
  have hsender' : ∀ {x}, (s.spc ()).buf ct = some x → w = some (s.spc ()) := by
    intro x hx
    refine h.senders.of_inside ?_
    cases hpc : s.spc () <;> simp [hpc, SendPc.buf] at hx <;> rfl
  constructor
  · intro q hq
    obtain ⟨o, P, hne, hclaim⟩ := h.reading_claimed hk hq
    by_contra hw
    rcases send_writes_entry hw with ⟨P', hP'⟩ | hfree
    · have hmine : entryClaim w r s.frames s.received.length .sender = some (q, P') := by
        rw [hsender hP']
        exact hP'
      exact hne (h.core.entries.excl hclaim hmine)
    · exact entryClaim_state hclaim (h.core.entries.content hclaim) hfree
  · intro i hi
    obtain ⟨P, hclaim⟩ := h.readingBuffer_claimed hi
    by_contra hw
    rcases send_writes_buffer ct hw with ⟨P', hP'⟩ | hfree
    · have hmine : bufClaim ct w r s.frames s.received.length .sender = some (i, P') := by
        rw [hsender' hP']
        exact hP'
      cases h.core.bufs.excl hclaim hmine
    · have hmarked := bufClaim_marked hclaim (h.core.bufs.content hclaim)
      exact MAGIC_NUM_ne_zero (hmarked.symm.trans hfree)

end Isolation

/-! ## Schedules -/

/-- A message of two bytes. -/
def Msg.twoBytes : Msg := ⟨fun k => if k = 0 then 7 else 8, 2, 0, two_le_max_msg_size⟩

/-- The empty message. -/
def Msg.empty : Msg := ⟨fun _ => 0, 0, 0, Nat.zero_le _⟩

/-- A client met a failing assert. -/
def Fifo.sendFailed {σ ρ : Type} (s : Fifo σ ρ) (x : σ) : Bool :=
  match s.spc x with
  | .failed => true
  | _ => false

def Fifo.recvFailed {σ ρ : Type} (s : Fifo σ ρ) (y : ρ) : Bool :=
  match s.rpc y with
  | .failed => true
  | _ => false

/-! ## One sender and one receiver -/

/-- Neither counter wraps in this step. -/
def NoWrap {σ ρ : Type} (s : Fifo σ ρ) (_ : FifoLabel σ ρ) (s' : Fifo σ ρ) : Prop :=
  s.sh.q.update_counter ≤ s'.sh.q.update_counter ∧ s.sh.q.ack_counter ≤ s'.sh.q.ack_counter

section OneEach

variable {ct : channel_type} {w w' : Option SendPc} {r r' : Option RecvPc} {sh : Shared}
  {sent : List SendFrame} {a : ℕ} {s s' : Fifo Unit Unit} {l : FifoLabel Unit Unit}

/-- Before the counters wrap, the entry of the next push is empty while there is
room. -/
theorem CoreInv.entry_empty (h : CoreInv ct none r sh sent a) (hsmall : sent.length < 2 ^ 31)
    (hroom : 2 * sent.length + 2 ≤ 2 * a + popping r + 2 * MCAPI_MAX_QUEUE_ENTRIES) :
    (sh.q.elements (ringSlot sent.length)).buff_index = 0 := by
  have hpop := popping_le_busy r
  have hone := busy_le_one r
  -- positions in use are less than a round away
  have hslot : ∀ n, a ≤ n → n < sent.length → ringSlot n ≠ ringSlot sent.length := by
    intro n han hn heq
    rw [ringSlot_of_lt (by omega), ringSlot_of_lt hsmall] at heq
    have := slot_inj hn.le (by omega) heq
    omega
  refine (h.entries.rest _ ?_).2
  intro o P ho
  cases o with
  | sender => cases ho
  | elem n =>
    simp only [entryClaim, Option.ite_none_right_eq_some, Option.map_eq_some_iff] at ho
    obtain ⟨hbusy, e, he, hclaim⟩ := ho
    have hn : n < sent.length := (List.getElem?_eq_some_iff.mp he).1
    exact hslot n (by omega) hn (congrArg Prod.fst hclaim)
  | receiver =>
    cases r with
    | none => cases ho
    | some p =>
      obtain ⟨e, he, hok⟩ := h.reader p rfl
      have ha : a < sent.length := (List.getElem?_eq_some_iff.mp he).1
      rw [entryClaim_receiver he] at ho
      -- the receiver's entry is the head
      have hhead : ringSlot sent.length = ringSlot a := by
        cases p <;> simp only [RecvPc.entry, RecvPc.Ok, Option.some.injEq, Prod.mk.injEq,
          reduceCtorEq] at ho hok
        all_goals
          first
            | exact ho.1.symm.trans hok
            | exact ho.1.symm.trans hok.1
      exact hslot a (Nat.le_refl _) ha hhead.symm

/-- What holds along the runs of one sender and one receiver. -/
structure OneEachInv (ct : channel_type) (w : Option SendPc) (r : Option RecvPc)
    (s : Fifo Unit Unit) : Prop where
  inv : FifoInv ct w r s
  sender : SenderKnows r s
  receiver : ReceiverKnows w s
  small : 2 * s.sent.length < 2 ^ 32

theorem OneEachInv.init (ct : channel_type) (pool : ℕ → buffer_entry) :
    OneEachInv ct none none (Fifo.init Unit Unit ct pool) where
  inv := .init ct pool
  sender := trivial
  receiver := trivial
  small := by norm_num [Fifo.init]

/-- Alone on their sides and before a wrap, both clients act on current
positions. -/
theorem OneEachInv.guard (h : OneEachInv ct w r s) : FifoGuard s l s' := by
  refine ⟨?_, h.sender.reserve h.inv, h.receiver.take h.inv⟩
  cases l with
  | stepSend x =>
    intro q hq
    obtain ⟨m, hpc⟩ : ∃ m, s.spc () = .checkBuffIndex m q := by
      cases hpc : s.spc () <;> simp [hpc, SendPc.checks] at hq
      exact ⟨_, by rw [hq]⟩
    have hw : w = none := by
      cases w with
      | none => rfl
      | some p =>
        obtain ⟨x', rfl, hx', -⟩ := h.inv.senders
        rw [show s.spc x' = .checkBuffIndex m q from hpc] at hx'
        cases hx'
    have hknows := h.sender
    rw [SenderKnows, hpc] at hknows
    obtain ⟨rfl, hroom⟩ := hknows
    have hlen : s.frames.length = s.sent.length := List.length_map ..
    have hsmall := h.small
    have hcore := h.inv.core
    rw [hw] at hcore
    rw [← hlen] at hroom ⊢
    exact hcore.entry_empty (by omega) hroom
  | _ => trivial

/-- A send adds at most one message. -/
theorem sent_le {σ ρ : Type} [DecidableEq σ] [DecidableEq ρ] {s s' : Fifo σ ρ}
    {l : FifoLabel σ ρ} (hstep : fifoStep s l = some s') :
    s.sent.length ≤ s'.sent.length ∧ s'.sent.length ≤ s.sent.length + 1 := by
  cases l with
  | send | recv =>
    simp only [fifoStep, Option.ite_none_right_eq_some, Option.some.injEq] at hstep
    obtain ⟨-, rfl⟩ := hstep
    exact ⟨Nat.le_refl _, Nat.le_succ _⟩
  | stepRecv y =>
    simp only [fifoStep, Option.some.injEq] at hstep
    subst hstep
    exact ⟨Nat.le_refl _, Nat.le_succ _⟩
  | stepSend x =>
    simp only [fifoStep, Option.some.injEq] at hstep
    subst hstep
    cases (sendProgram s.sh (s.spc x)).2.2 <;> simp

theorem OneEachInv.step (h : OneEachInv ct w r s) (hstep : fifoStep s l = some s')
    (hwrap : NoWrap s l s') : ∃ w' r', OneEachInv ct w' r' s' := by
  obtain ⟨w₁, r₁, hinv, hsend⟩ := h.sender.step h.inv hstep h.guard
  obtain ⟨w₂, r₂, hinv', hrecv⟩ := h.receiver.step h.inv hstep h.guard
  -- the positions of the clients determine both ghosts
  have hw := hinv'.senders.eq hinv.senders
  subst hw
  refine ⟨w₂, r₁, hinv, hsend, hrecv, ?_⟩
  obtain ⟨hle, hle'⟩ := sent_le hstep
  have hsmall := h.small
  by_cases hsame : s'.sent.length = s.sent.length
  · rw [hsame]
    exact hsmall
  · -- one more message: had `update_counter` wrapped it would have decreased
    have huc := h.inv.core.uc
    have huc' := hinv.core.uc
    have hlen : s.frames.length = s.sent.length := List.length_map ..
    have hlen' : s'.frames.length = s'.sent.length := List.length_map ..
    have hpush := pushing_le_one w
    have hpush' := pushing_le_one w₂
    have hmono := hwrap.1
    rw [huc, huc', hlen, hlen'] at hmono
    unfold u32 at hmono
    omega

/-- **One sender, one receiver.** At every point of every interleaving in which
neither counter wraps, the contract holds, and the sender's steps leave alone
what the receiver is reading. -/
theorem fifo_one_sender_one_receiver (ct : channel_type) (pool : ℕ → buffer_entry)
    (s : Fifo Unit Unit) (hrun : Run fifoStep NoWrap (Fifo.init Unit Unit ct pool) s) :
    FifoOk ct s ∧ Isolated s := by
  obtain ⟨w, r, h⟩ := hrun.invariant (I := fun s => ∃ w r, OneEachInv ct w r s)
    (fun _ _ _ ⟨_, _, hinv⟩ hstep hg => hinv.step hstep hg) ⟨_, _, .init ct pool⟩
  exact ⟨h.inv.ok, h.inv.isolated h.receiver⟩

/-- A message of two bytes is sent while the receiver polls, and received. -/
theorem fifo_one_sender_one_receiver_two_bytes :
    ∃ s : Fifo Unit Unit, s.received.map (fun v => v.delivery) = [⟨2, .message [7, 8]⟩] ∧
      FifoOk MCAPI_NO_CHAN s ∧ Isolated s := by
  have hexec : (exec fifoStep
      (fun s _ s' => decide (s.sh.q.update_counter ≤ s'.sh.q.update_counter ∧
        s.sh.q.ack_counter ≤ s'.sh.q.ack_counter))
      (Fifo.init Unit Unit MCAPI_NO_CHAN fun _ => .zero)
      ([FifoLabel.send () .twoBytes, .recv () ⟨1024, true⟩] ++
        List.replicate 12 (FifoLabel.stepSend ()) ++ List.replicate 2 (FifoLabel.stepRecv ()) ++
        List.replicate 5 (FifoLabel.stepSend ()) ++ List.replicate 19 (FifoLabel.stepRecv ()))).any
        (fun s => s.received.map (fun v => v.delivery) == [⟨2, .message [7, 8]⟩]) = true := by
    decide +kernel
  obtain ⟨s, hrun, hs⟩ := exec_run_of_any hexec
  exact ⟨s, by simpa using hs, fifo_one_sender_one_receiver MCAPI_NO_CHAN _ s
    (hrun.mono fun _ _ _ hg => of_decide_eq_true hg)⟩

end OneEach

/-! ## Many senders -/

/-- **Many senders, one receiver.** The contract holds at every point of every
run in which a sender's check finds no buffer in the entry, and a sender
reserves the entry of the next push. -/
theorem fifo_many_senders {σ : Type} [DecidableEq σ] (ct : channel_type)
    (pool : ℕ → buffer_entry) (s : Fifo σ Unit)
    (hrun : Run fifoStep (fun s l _ => CheckedEntry s l ∧ FreshReserve s l)
      (Fifo.init σ Unit ct pool) s) : FifoOk ct s := by
  obtain ⟨w, r, h, -⟩ := hrun.invariant (I := fun s => ∃ w r, FifoInv ct w r s ∧ ReceiverKnows w s)
    (fun s l s' ⟨w, r, hinv, hk⟩ hstep hg =>
      hk.step hinv hstep ⟨hg.1, hg.2, hk.take hinv⟩) ⟨_, _, .init ct pool, trivial⟩
  exact h.ok

/-- Two senders contend for one entry, and both messages are received. -/
theorem fifo_many_senders_contention :
    ∃ s : Fifo Bool Unit, s.received.map (fun v => v.delivery)
        = [⟨2, .message [7, 8]⟩, ⟨0, .message []⟩] ∧ FifoOk MCAPI_NO_CHAN s := by
  have hexec : (exec fifoStep (fun s l _ => decide (CheckedEntry s l ∧ FreshReserve s l))
      (Fifo.init Bool Unit MCAPI_NO_CHAN fun _ => .zero)
      ([FifoLabel.send false .twoBytes, .send true .empty] ++
        List.replicate 5 (FifoLabel.stepSend false) ++
        List.replicate 5 (FifoLabel.stepSend true) ++
        List.replicate 12 (FifoLabel.stepSend false) ++
        List.replicate 16 (FifoLabel.stepSend true) ++ [FifoLabel.recv () ⟨1024, true⟩] ++
        List.replicate 19 (FifoLabel.stepRecv ()) ++ [FifoLabel.recv () ⟨1024, true⟩] ++
        List.replicate 17 (FifoLabel.stepRecv ()))).any
        (fun s => s.received.map (fun v => v.delivery)
          == [⟨2, .message [7, 8]⟩, ⟨0, .message []⟩]) = true := by
    decide +kernel
  obtain ⟨s, hrun, hs⟩ := exec_run_of_any hexec
  exact ⟨s, by simpa using hs, fifo_many_senders MCAPI_NO_CHAN _ s
    (hrun.mono fun _ _ _ hg => of_decide_eq_true hg)⟩

/-- Sender `true` reads the counters, then sender `false` puts its buffer into
the same entry, then `true` checks the entry. -/
def checkSchedule : List (FifoLabel Bool Unit) :=
  [.send true .empty] ++ List.replicate 3 (.stepSend true) ++
  [.send false .empty] ++ List.replicate 10 (.stepSend false) ++ [.stepSend true]

/-- **The contract fails with two senders.** -/
theorem fifo_two_senders_assert :
    ¬ ∀ (σ : Type) [DecidableEq σ] (ct : channel_type) (pool : ℕ → buffer_entry)
      (s : Fifo σ Unit), Run fifoStep NoWrap (Fifo.init σ Unit ct pool) s → FifoOk ct s := by
  intro hok
  have hexec : (exec fifoStep
      (fun s _ s' => decide (s.sh.q.update_counter ≤ s'.sh.q.update_counter ∧
        s.sh.q.ack_counter ≤ s'.sh.q.ack_counter))
      (Fifo.init Bool Unit MCAPI_NO_CHAN fun _ => .zero) checkSchedule).any
        (fun s => s.sendFailed true) = true := by
    decide +kernel
  obtain ⟨s, hrun, hs⟩ := exec_run_of_any hexec
  have h := hok Bool MCAPI_NO_CHAN _ s (hrun.mono fun _ _ _ hg => of_decide_eq_true hg)
  have hne := h.no_send_assert_fails true
  unfold Fifo.sendFailed at hs
  split at hs
  · rename_i hpc
    exact hne hpc
  · cases hs

/-! ## Many receivers -/

/-- **One sender, many receivers.** The contract holds at every point of every
run in which a receiver takes the head, no other receive that has taken an entry
being incomplete, and the sender's check finds no buffer in its entry (which can
fail for a single sender only where `update_counter` wraps). -/
theorem fifo_many_receivers {ρ : Type} [DecidableEq ρ] (ct : channel_type)
    (pool : ℕ → buffer_entry) (s : Fifo Unit ρ)
    (hrun : Run fifoStep (fun s l _ => CheckedEntry s l ∧ FreshTake s l)
      (Fifo.init Unit ρ ct pool) s) : FifoOk ct s := by
  obtain ⟨w, r, h, -⟩ := hrun.invariant (I := fun s => ∃ w r, FifoInv ct w r s ∧ SenderKnows r s)
    (fun s l s' ⟨w, r, hinv, hk⟩ hstep hg =>
      hk.step hinv hstep ⟨hg.1, hk.reserve hinv, hg.2⟩) ⟨_, _, .init ct pool, trivial⟩
  exact h.ok

/-- Two receivers take turns. -/
theorem fifo_many_receivers_turns :
    ∃ s : Fifo Unit Bool, s.received.map (fun v => (v.receiver, v.delivery))
        = [(false, ⟨2, .message [7, 8]⟩), (true, ⟨0, .message []⟩)] ∧
      FifoOk MCAPI_NO_CHAN s := by
  have hexec : (exec fifoStep (fun s l _ => decide (CheckedEntry s l ∧ FreshTake s l))
      (Fifo.init Unit Bool MCAPI_NO_CHAN fun _ => .zero)
      ([FifoLabel.send () .twoBytes] ++ List.replicate 17 (FifoLabel.stepSend ()) ++
        [FifoLabel.send () .empty] ++ List.replicate 16 (FifoLabel.stepSend ()) ++
        [FifoLabel.recv false ⟨1024, true⟩, .recv true ⟨1024, true⟩] ++
        List.replicate 19 (FifoLabel.stepRecv false) ++
        List.replicate 17 (FifoLabel.stepRecv true))).any
        (fun s => s.received.map (fun v => (v.receiver, v.delivery))
          == [(false, ⟨2, .message [7, 8]⟩), (true, ⟨0, .message []⟩)]) = true := by
    decide +kernel
  obtain ⟨s, hrun, hs⟩ := exec_run_of_any hexec
  exact ⟨s, by simpa using hs, fifo_many_receivers MCAPI_NO_CHAN _ s
    (hrun.mono fun _ _ _ hg => of_decide_eq_true hg)⟩

/-- Both receivers find the message at the head before one of them takes it. -/
def takeSchedule : List (FifoLabel Unit Bool) :=
  [.send () .empty] ++ List.replicate 15 (.stepSend ()) ++
  [.recv false ⟨1024, true⟩] ++ List.replicate 4 (.stepRecv false) ++
  [.recv true ⟨1024, true⟩] ++ List.replicate 5 (.stepRecv true) ++ [.stepRecv false]

/-- **The contract fails with two receivers.** -/
theorem fifo_two_receivers_assert :
    ¬ ∀ (ρ : Type) [DecidableEq ρ] (ct : channel_type) (pool : ℕ → buffer_entry)
      (s : Fifo Unit ρ), Run fifoStep (fun _ _ _ => True) (Fifo.init Unit ρ ct pool) s →
        FifoOk ct s := by
  intro hok
  have hexec : (exec fifoStep (fun _ _ _ => true)
      (Fifo.init Unit Bool MCAPI_NO_CHAN fun _ => .zero) takeSchedule).any
        (fun s => s.recvFailed false) = true := by
    decide +kernel
  obtain ⟨s, hrun, hs⟩ := exec_run_of_any hexec
  have h := hok Bool MCAPI_NO_CHAN _ s (hrun.mono fun _ _ _ _ => trivial)
  have hne := h.no_recv_assert_fails false
  unfold Fifo.recvFailed at hs
  split at hs
  · rename_i hpc
    exact hne hpc
  · cases hs

end MxApi
