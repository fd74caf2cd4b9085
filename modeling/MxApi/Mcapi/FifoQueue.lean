/-
The receive queue of an endpoint with FIFO buffers, as one client alone works on it
([`MxApi.Transfers`]), for all types of channels.

The elements of the queue are the messages that were sent and not received yet. Message
`k` of them is in the entry of position `a + k`, where `a` counts the receives so far, and
in a buffer of its own ([`FifoQueue`]). A send adds an element at the end, and a receive
takes the first one; both look at nothing else, so whether an entry is reserved for a
request does not matter to them.
-/
import Mathlib.Data.List.Nodup
import MxApi.Mcapi.FifoInvariant
import MxApi.Mcapi.Transfers

set_option autoImplicit false

namespace MxApi

open Lib Transfers channel_type mcapi_buffer_state mcapi_status_t

/-- `(tempUC - tempAC)/2`, on unsigned counters. -/
def mcapi_trans_queue_elements (q : queue) : ℕ := subU32 q.update_counter q.ack_counter / 2

/-- The queue holds the elements, and `a` have been received before them. -/
structure FifoQueue (ct : channel_type) (sh : Shared) (pending : List SendFrame) (a : ℕ) :
    Prop where
  channel : sh.q.channel_type = ct
  uc : sh.q.update_counter = u32 (2 * (a + pending.length))
  ac : sh.q.ack_counter = u32 (2 * a)
  bound : pending.length ≤ MCAPI_MAX_QUEUE_ENTRIES
  entry : ∀ (k : ℕ) (x : SendFrame), pending[k]? = some x →
    EntryIs BUFFER_ALLOCATED (validIndex x.i) (sh.q.elements (ringSlot (a + k)))
  in_pool : ∀ x ∈ pending, x.i < MCAPI_MAX_BUFFERS
  carries : ∀ x ∈ pending, Carries ct x.msg (sh.buffers x.i)
  slots : ∀ k k', k < pending.length → k' < pending.length →
    ringSlot (a + k) = ringSlot (a + k') → k = k'
  nodup : (pending.map SendFrame.i).Nodup

namespace FifoQueue

variable {ct : channel_type} {sh sh' : Shared} {pending : List SendFrame} {x : SendFrame}
  {a : ℕ} {m : Msg}

theorem zero (ct : channel_type) (buffers : ℕ → buffer_entry) :
    FifoQueue ct ⟨queue.zero ct, buffers⟩ [] 0 where
  channel := rfl
  uc := rfl
  ac := rfl
  bound := Nat.zero_le _
  entry := nofun
  in_pool := nofun
  carries := nofun
  slots := nofun
  nodup := List.nodup_nil

/-- Writes to other buffers do not matter, nor do reservations. -/
theorem frame (h : FifoQueue ct sh pending a) (hchannel : sh'.q.channel_type = ct)
    (huc : sh'.q.update_counter = sh.q.update_counter)
    (hac : sh'.q.ack_counter = sh.q.ack_counter)
    (hstate : ∀ j, (sh'.q.elements j).state = (sh.q.elements j).state)
    (hindex : ∀ j, (sh'.q.elements j).buff_index = (sh.q.elements j).buff_index)
    (hbuffers : ∀ x ∈ pending, sh'.buffers x.i = sh.buffers x.i) :
    FifoQueue ct sh' pending a where
  channel := hchannel
  uc := huc.trans h.uc
  ac := hac.trans h.ac
  bound := h.bound
  entry := by
    intro k x hx
    obtain ⟨hst, hb⟩ := h.entry k x hx
    exact ⟨(hstate _).trans hst, (hindex _).trans hb⟩
  in_pool := h.in_pool
  carries := by
    intro x hx
    rw [hbuffers x hx]
    exact h.carries x hx
  slots := h.slots
  nodup := h.nodup

/-! ## The counters -/

theorem diff (h : FifoQueue ct sh pending a) :
    subU32 sh.q.update_counter sh.q.ack_counter = 2 * pending.length := by
  have hbound := h.bound
  rw [MCAPI_MAX_QUEUE_ENTRIES_eq] at hbound
  rw [h.uc, h.ac, subU32_u32 (by omega) (by omega)]
  omega

/-- The count of the elements. -/
theorem queue_elements (h : FifoQueue ct sh pending a) :
    mcapi_trans_queue_elements sh.q = pending.length := by
  rw [mcapi_trans_queue_elements, h.diff]
  omega

theorem head_cons (h : FifoQueue ct sh (x :: pending) a) :
    mcapi_trans_queue_head sh.q = (ringSlot a, MCAPI_SUCCESS) := by
  have hdiff := h.diff
  rw [h.uc, h.ac, List.length_cons] at hdiff
  have hstatus : headStatus (u32 (2 * (a + (x :: pending).length))) (u32 (2 * a)) =
      MCAPI_SUCCESS := by
    rw [headStatus_success_iff (u32_lt _) (u32_lt _), List.length_cons, hdiff]
    omega
  rw [mcapi_trans_queue_head, h.uc, h.ac, lastCompleted_even, qindexOf_u32, hstatus]

theorem head_nil (h : FifoQueue ct sh [] a) :
    mcapi_trans_queue_head sh.q = (ringSlot a, MCAPI_ERR_QUEUE_EMPTY) := by
  rw [mcapi_trans_queue_head, h.uc, h.ac, lastCompleted_even, qindexOf_u32, List.length_nil,
    Nat.add_zero, headStatus, if_pos rfl]

/-- The tail is the entry of the next element. -/
theorem tail (h : FifoQueue ct sh pending a) :
    mcapi_trans_queue_tail sh.q = (ringSlot (a + pending.length),
      if pending.length = MCAPI_MAX_QUEUE_ENTRIES then MCAPI_ERR_QUEUE_FULL
      else MCAPI_SUCCESS) := by
  have hdiff := h.diff
  have hbound := h.bound
  have hN := MCAPI_MAX_QUEUE_ENTRIES_eq
  rw [h.uc, h.ac] at hdiff
  rw [mcapi_trans_queue_tail, h.uc, h.ac, lastCompleted_even, qindexOf_u32]
  congr 1
  split
  · rw [tailStatus_of_diff hdiff (by omega), if_pos (by omega)]
  · exact tailStatus_success (by rw [hdiff]; omega)

/-! ## Sending -/

theorem push {q : queue} {n : ℕ} (huc : q.update_counter = u32 (2 * n))
    (htail : mcapi_trans_queue_tail q = (ringSlot n, MCAPI_SUCCESS)) :
    mcapi_trans_push_queue q =
      some (.ok (ringSlot n), { q with update_counter := u32 (2 * (n + 1)) }) := by
  have heven : ¬ q.update_counter % 2 ≠ 0 := by
    rw [huc, even_u32]
    omega
  have hstatus : tailStatus (lastCompleted q.update_counter) q.ack_counter = MCAPI_SUCCESS :=
    congrArg Prod.snd htail
  simp only [mcapi_trans_push_queue, heven, if_false, hstatus]
  rw [huc, lastCompleted_even, qindexOf_u32, u32_two_steps]

/-- The buffer holds what was put into it. -/
theorem carries_fill (ct : channel_type) (m : Msg) (qindex : ℕ) {b : buffer_entry}
    (hb : b.magic_num = MAGIC_NUM) : Carries ct m (fill ct m qindex b) := by
  unfold fill
  by_cases hct : ct = MCAPI_SCL_CHAN
  · rw [if_pos hct]
    refine ⟨hb, rfl, ?_⟩
    rw [HasContent, if_pos hct]
  · rw [if_neg hct]
    refine ⟨hb, rfl, ?_⟩
    rw [HasContent, if_neg hct]
    intro k hk
    exact if_pos hk

/-- A new element at the end, in an entry and a buffer that were free. -/
theorem append (h : FifoQueue ct sh pending a)
    (hroom : pending.length ≠ MCAPI_MAX_QUEUE_ENTRIES)
    (hfree : (sh.q.elements (ringSlot (a + pending.length))).buff_index = 0)
    (hchannel : sh'.q.channel_type = ct)
    (huc : sh'.q.update_counter = u32 (2 * (a + pending.length + 1)))
    (hac : sh'.q.ack_counter = sh.q.ack_counter)
    (hself : EntryIs BUFFER_ALLOCATED (validIndex x.i)
      (sh'.q.elements (ringSlot (a + pending.length))))
    (hothers : ∀ j, j ≠ ringSlot (a + pending.length) → sh'.q.elements j = sh.q.elements j)
    (hpool : x.i < MCAPI_MAX_BUFFERS) (hmagic : (sh.buffers x.i).magic_num = 0)
    (hbuffer : Carries ct x.msg (sh'.buffers x.i))
    (hbuffers : ∀ j, j ≠ x.i → sh'.buffers j = sh.buffers j) :
    FifoQueue ct sh' (pending ++ [x]) a := by
  have hbound := h.bound
  have hlength : (pending ++ [x]).length = pending.length + 1 := by
    rw [List.length_append, List.length_singleton]
  -- the entries and the buffers in use are others
  have hslot : ∀ k, k < pending.length → ringSlot (a + k) ≠ ringSlot (a + pending.length) := by
    intro k hk heq
    have hentry := (h.entry k _ (List.getElem?_eq_getElem hk)).2
    rw [heq, hfree] at hentry
    exact validIndex_ne_zero (h.in_pool _ (List.getElem_mem hk)) hentry.symm
  have hused : ∀ y ∈ pending, y.i ≠ x.i := by
    intro y hy heq
    have hmarked := (h.carries y hy).marked
    rw [heq, hmagic] at hmarked
    exact MAGIC_NUM_ne_zero hmarked.symm
  have hcases : ∀ k, k < (pending ++ [x]).length → k < pending.length ∨ k = pending.length := by
    intro k hk
    rw [hlength] at hk
    omega
  refine ⟨hchannel, ?_, hac.trans h.ac, by omega, ?_, ?_, ?_, ?_, ?_⟩
  · rw [hlength, ← Nat.add_assoc]
    exact huc
  · intro k y hy
    rcases hcases k (List.getElem?_eq_some_iff.mp hy).1 with hk | rfl
    · rw [List.getElem?_append_left hk] at hy
      rw [hothers _ (hslot k hk)]
      exact h.entry k y hy
    · rw [List.getElem?_concat_length, Option.some.injEq] at hy
      rw [← hy]
      exact hself
  · intro y hy
    rcases List.mem_append.mp hy with hy | hy
    · exact h.in_pool y hy
    · rw [List.mem_singleton.mp hy]
      exact hpool
  · intro y hy
    rcases List.mem_append.mp hy with hy | hy
    · rw [hbuffers _ (hused y hy)]
      exact h.carries y hy
    · rw [List.mem_singleton.mp hy]
      exact hbuffer
  · intro k k' hk hk' heq
    rcases hcases k hk with hk | rfl
    · rcases hcases k' hk' with hk' | rfl
      · exact h.slots k k' hk hk' heq
      · exact absurd heq (hslot k hk)
    · rcases hcases k' hk' with hk' | rfl
      · exact absurd heq.symm (hslot k' hk')
      · rfl
  · rw [List.map_append, List.map_singleton]
    refine List.Nodup.append h.nodup (List.nodup_singleton _) ?_
    intro i hi hi'
    obtain ⟨y, hy, rfl⟩ := List.mem_map.mp hi
    exact hused y hy (List.mem_singleton.mp hi')

/-- **A send that returns** has added an element in a buffer that was free, or it has failed
and changed nothing. -/
theorem send (h : FifoQueue ct sh pending a) {ok : Bool}
    (hsend : mcapi_trans_send sh m = some (sh', ok)) :
    (ok = true ∧ ∃ i, (sh.buffers i).magic_num = 0 ∧
      (∀ j, j ≠ i → sh'.buffers j = sh.buffers j) ∧
      FifoQueue ct sh' (pending ++ [⟨m, ringSlot (a + pending.length), i⟩]) a) ∨
    (ok = false ∧ sh' = sh) := by
  have htail := h.tail
  unfold mcapi_trans_send at hsend
  by_cases hfull : pending.length = MCAPI_MAX_QUEUE_ENTRIES
  · rw [if_pos hfull] at htail
    simp only [htail, Option.some.injEq, Prod.mk.injEq] at hsend
    exact .inr ⟨hsend.2.symm, hsend.1.symm⟩
  · rw [if_neg hfull] at htail
    simp only [htail] at hsend
    split at hsend
    · rename_i hentry
      cases halloc : mcapi_trans_alloc_buffer sh.buffers MAGIC_NUM with
      | none =>
        -- the entry is given back
        simp only [halloc, Option.some.injEq, Prod.mk.injEq] at hsend
        refine .inr ⟨hsend.2.symm, ?_⟩
        rw [← hsend.1, Shared.setElement_self]
        unfold Shared.setElement
        simp only [Function.update_idem]
        rw [← hentry.2, Function.update_eq_self]
      | some t =>
        obtain ⟨i, buffers⟩ := t
        have hfound := halloc
        rw [mcapi_trans_alloc_buffer, Option.map_eq_some_iff] at hfound
        obtain ⟨i', hi', heq⟩ := hfound
        obtain ⟨rfl, hbuffers⟩ := Prod.mk.inj heq
        obtain ⟨hpool, hmagic⟩ := search_some hi'
        rw [decide_eq_true_iff] at hmagic
        simp only [halloc] at hsend
        obtain ⟨d, hd⟩ : ∃ d : buffer_descriptor,
            d = { sh.q.elements (ringSlot (a + pending.length)) with
              buff_index := validIndex i', state := BUFFER_ALLOCATED } := ⟨_, rfl⟩
        obtain ⟨q, hq⟩ : ∃ q : queue, q = { sh.q with
            elements := Function.update sh.q.elements (ringSlot (a + pending.length)) d } :=
          ⟨_, rfl⟩
        have hpush : mcapi_trans_push_queue q = some (.ok (ringSlot (a + pending.length)),
            { q with update_counter := u32 (2 * (a + pending.length + 1)) }) := by
          refine push ?_ ?_
          · rw [hq]
            exact h.uc
          · rw [hq]
            exact htail
        simp only [Shared.setElement, ← hd, ← hq, hpush, if_true, Option.some.injEq,
          Prod.mk.injEq] at hsend
        obtain ⟨rfl, rfl⟩ := hsend
        refine .inl ⟨rfl, i', hmagic, fun j hj => ?_, h.append hfull hentry.1 ?_ rfl ?_ ?_ ?_
          hpool hmagic ?_ fun j hj => ?_⟩
        · simp only [Function.update_of_ne hj, ← hbuffers]
        · rw [hq]
          exact h.channel
        · rw [hq]
        · simp only [hq, Function.update_self, hd]
          exact ⟨rfl, rfl⟩
        · intro j hj
          simp only [hq, Function.update_of_ne hj]
        · simp only [Function.update_self, h.channel]
          refine carries_fill _ _ _ ?_
          rw [← hbuffers, Function.update_self]
        · simp only [Function.update_of_ne hj, ← hbuffers]
    · cases hsend

/-! ## Receiving -/

theorem pop {q : queue} (hac : q.ack_counter = u32 (2 * a))
    (hhead : mcapi_trans_queue_head q = (ringSlot a, MCAPI_SUCCESS)) :
    mcapi_trans_pop_queue q =
      some (.ok (ringSlot a), { q with ack_counter := u32 (2 * (a + 1)) }) := by
  have heven : ¬ q.ack_counter % 2 ≠ 0 := by
    rw [hac, even_u32]
    omega
  have hstatus : headStatus q.update_counter (lastCompleted q.ack_counter) = MCAPI_SUCCESS :=
    congrArg Prod.snd hhead
  simp only [mcapi_trans_pop_queue, heven, if_false, hstatus]
  rw [hac, lastCompleted_even, qindexOf_u32, u32_two_steps]

/-- What is handed out of a buffer that carries the element. -/
theorem handOut_carries {b : buffer_entry} (h : Carries ct x.msg b) (size : ℕ) :
    handOut ct b x.i size = deliver ct x size := by
  have hcontent := h.content
  unfold handOut deliver
  rw [h.size]
  congr 1
  cases ct with
  | MCAPI_PKT_CHAN => rfl
  | MCAPI_SCL_CHAN =>
    rw [HasContent, if_pos rfl] at hcontent
    simp only [hcontent]
  | MCAPI_NO_CHAN =>
    rw [HasContent, if_neg nofun] at hcontent
    simp only [Payload.message.injEq]
    refine List.map_congr_left fun k hk => ?_
    rw [List.mem_range] at hk
    exact hcontent k (by omega)

/-- The first element is taken away. -/
theorem drop (h : FifoQueue ct sh (x :: pending) a) (hchannel : sh'.q.channel_type = ct)
    (huc : sh'.q.update_counter = sh.q.update_counter)
    (hac : sh'.q.ack_counter = u32 (2 * (a + 1)))
    (hothers : ∀ j, j ≠ ringSlot a → sh'.q.elements j = sh.q.elements j)
    (hbuffers : ∀ j, j ≠ x.i → sh'.buffers j = sh.buffers j) :
    FifoQueue ct sh' pending (a + 1) := by
  have hbound := h.bound
  have hnodup := h.nodup
  rw [List.map_cons, List.nodup_cons] at hnodup
  have hshift : ∀ k, a + 1 + k = a + (k + 1) := fun k => by omega
  have hslot : ∀ k, k < pending.length → ringSlot (a + (k + 1)) ≠ ringSlot a := by
    intro k hk heq
    have hzero := h.slots (k + 1) 0 (Nat.succ_lt_succ hk) (Nat.succ_pos _) heq
    cases hzero
  rw [List.length_cons] at hbound
  refine ⟨hchannel, ?_, hac, by omega, ?_, fun y hy => h.in_pool y (List.mem_cons_of_mem _ hy), ?_,
    ?_, hnodup.2⟩
  · rw [huc, h.uc, List.length_cons]
    congr 2
    omega
  · intro k y hy
    have hk := (List.getElem?_eq_some_iff.mp hy).1
    rw [hshift, hothers _ (hslot k hk)]
    exact h.entry (k + 1) y hy
  · intro y hy
    have hne : y.i ≠ x.i := fun heq => hnodup.1 (heq ▸ List.mem_map_of_mem hy)
    rw [hbuffers _ hne]
    exact h.carries y (List.mem_cons_of_mem _ hy)
  · intro k k' hk hk' heq
    rw [hshift, hshift] at heq
    have hsucc := h.slots (k + 1) (k' + 1) (Nat.succ_lt_succ hk) (Nat.succ_lt_succ hk') heq
    omega

/-- The first element is received from its entry, which was marked, and popped. -/
theorem take (h : FifoQueue ct sh (x :: pending) a) (size : ℕ) :
    ∃ sh₁ sh₂, mcapi_trans_recv_ (sh.setElement (ringSlot a)
        { sh.q.elements (ringSlot a) with state := BUFFER_RECEIVED }) size (ringSlot a) =
          some (sh₁, deliver ct x size) ∧
      mcapi_trans_pop_queue sh₁.q = some (.ok (ringSlot a), sh₂.q) ∧ sh₂.buffers = sh₁.buffers ∧
      (∀ j, j ≠ x.i → sh₂.buffers j = sh.buffers j) ∧
      (∀ j, j ≠ ringSlot a → sh₂.q.elements j = sh.q.elements j) ∧
      FifoQueue ct sh₂ pending (a + 1) := by
  have hcarries := h.carries x List.mem_cons_self
  have hindex : bufferIndex (sh.q.elements (ringSlot a)).buff_index = x.i := by
    have hentry := h.entry 0 x rfl
    rw [Nat.add_zero] at hentry
    rw [hentry.2, bufferIndex_validIndex (h.in_pool x List.mem_cons_self)]
  obtain ⟨b, hb⟩ : ∃ b : buffer_entry, b = { sh.buffers x.i with parent := some (ringSlot a) } :=
    ⟨_, rfl⟩
  have hhand : handOut ct b x.i size = deliver ct x size := by
    refine handOut_carries ?_ size
    rw [hb]
    exact ⟨hcarries.marked, hcarries.size, hcarries.content⟩
  -- the memory after the receive
  obtain ⟨sh₁, hsh₁⟩ : ∃ sh₁ : Shared, sh₁ =
      ⟨{ sh.q with elements := Function.update sh.q.elements (ringSlot a) ⟨BUFFER_FREE, 0, false⟩ },
        Function.update sh.buffers x.i
          (if ct = MCAPI_PKT_CHAN then b else { b with magic_num := 0 })⟩ := ⟨_, rfl⟩
  have hrecv : mcapi_trans_recv_ (sh.setElement (ringSlot a)
      { sh.q.elements (ringSlot a) with state := BUFFER_RECEIVED }) size (ringSlot a) =
        some (sh₁, deliver ct x size) := by
    unfold mcapi_trans_recv_
    simp only [Shared.setElement_self, Shared.setElement_channel_type, h.channel, hindex,
      Shared.setElement_buffers, Shared.setBuffer_self, ← hb, hhand]
    by_cases hct : ct = MCAPI_PKT_CHAN
    · rw [if_pos hct] at hsh₁ ⊢
      rw [hsh₁]
      simp only [Shared.setElement, Shared.setBuffer, Function.update_idem]
    · have hmagic : b.magic_num = MAGIC_NUM := by
        rw [hb]
        exact hcarries.marked
      rw [if_neg hct] at hsh₁ ⊢
      simp only [Shared.casMagic, Shared.setElement, Shared.setBuffer, Function.update_self, hmagic,
        if_true, hsh₁, Function.update_idem]
  have hpop : mcapi_trans_pop_queue sh₁.q = some (.ok (ringSlot a),
      { sh₁.q with ack_counter := u32 (2 * (a + 1)) }) := by
    refine pop ?_ ?_
    · rw [hsh₁]
      exact h.ac
    · rw [hsh₁]
      exact h.head_cons
  have hbuffers : ∀ j, j ≠ x.i → sh₁.buffers j = sh.buffers j := by
    intro j hj
    rw [hsh₁]
    exact Function.update_of_ne hj ..
  have helements : ∀ j, j ≠ ringSlot a → sh₁.q.elements j = sh.q.elements j := by
    intro j hj
    rw [hsh₁]
    exact Function.update_of_ne hj ..
  refine ⟨sh₁, ⟨{ sh₁.q with ack_counter := u32 (2 * (a + 1)) }, sh₁.buffers⟩, hrecv, hpop, rfl,
    hbuffers, helements, h.drop ?_ ?_ rfl helements hbuffers⟩
  · rw [hsh₁]
    exact h.channel
  · rw [hsh₁]

/-- **A receive takes the first element.** -/
theorem recv_cons (h : FifoQueue ct sh (x :: pending) a) (size : ℕ) :
    ∃ sh', mcapi_trans_recv sh size = some (sh', some (deliver ct x size)) ∧
      (∀ j, j ≠ x.i → sh'.buffers j = sh.buffers j) ∧
      FifoQueue ct sh' pending (a + 1) := by
  obtain ⟨sh₁, sh₂, hrecv, hpop, hsame, hbuffers, -, hqueue⟩ := h.take size
  have hentry := h.entry 0 x rfl
  rw [Nat.add_zero] at hentry
  have hsent : (sh.q.elements (ringSlot a)).state = BUFFER_ALLOCATED ∧
      (sh.q.elements (ringSlot a)).buff_index ≠ 0 := by
    refine ⟨hentry.1, ?_⟩
    rw [hentry.2]
    exact validIndex_ne_zero (h.in_pool x List.mem_cons_self)
  refine ⟨sh₂, ?_, hbuffers, hqueue⟩
  unfold mcapi_trans_recv
  simp only [h.head_cons, hsent.1, hsent.2, ne_eq, not_false_eq_true, and_self, if_true, hrecv,
    hpop, ← hsame]

/-- A receive from an empty queue finds nothing. -/
theorem recv_nil (h : FifoQueue ct sh [] a) (size : ℕ) :
    mcapi_trans_recv sh size = some (sh, none) := by
  unfold mcapi_trans_recv
  simp only [h.head_nil]

end FifoQueue

end MxApi
