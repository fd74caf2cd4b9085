/-
The receive queue of one endpoint in the lock-free transport, under one client.

Messages and receives are numbered as in the mailboxes. The messages that are not
received yet are those from number `received` on, in the entries that the counters
give them ([`ringSlot`]), and the receives that wait are the ones from `received` on
too: they are served in order, so the first that waits is due the message at the head
([`EndpointInv`]).

The entries of consecutive numbers follow each other except where the counters wrap.
The walk that reserves an entry goes on over that place as if they did, so a receive
whose message lies behind it reserves the entry of another message.
-/
import Mathlib.Data.List.Nodup
import MxApi.Lib.RingSlot
import MxApi.Mcapi.LockFreeMessages

set_option autoImplicit false

namespace MxApi.LockFree

open Lib mcapi_buffer_state mcapi_status_t Messages

/-! ## The invariant -/

/-- The buffer holds the message. -/
structure Holds (b : buffer_entry) (a : Bytes) : Prop where
  magic_num : b.magic_num = MAGIC_NUM
  size : b.size = a.length
  buff : (List.range a.length).map b.buff = a

/-- The queue of an endpoint that has accepted the messages, with `issued` receives
started and `received` of them served; message `p` is in buffer `buf p`. -/
structure EndpointInv (sh : Shared) (accepted : List Bytes) (issued received : ℕ)
    (buf : ℕ → ℕ) : Prop where
  uc : sh.q.update_counter = u32 (2 * accepted.length)
  ac : sh.q.ack_counter = u32 (2 * received)
  le : received ≤ accepted.length
  bound : accepted.length ≤ received + MCAPI_MAX_QUEUE_ENTRIES
  le_issued : received ≤ issued
  issued_le : issued ≤ received + MCAPI_MAX_QUEUE_ENTRIES
  lap : ∀ p, received ≤ p → p < issued → p / 2 ^ 31 = received / 2 ^ 31
  state : ∀ p, received ≤ p → p < accepted.length →
    (sh.q.elements (ringSlot p)).state = BUFFER_ALLOCATED
  buff_index : ∀ p, received ≤ p → p < accepted.length →
    (sh.q.elements (ringSlot p)).buff_index = validIndex (buf p)
  in_pool : ∀ p, received ≤ p → p < accepted.length → buf p < MCAPI_MAX_BUFFERS
  holds : ∀ (p : ℕ) (a : Bytes), received ≤ p → accepted[p]? = some a →
    Holds (sh.buffers (buf p)) a
  slots : ∀ p p', received ≤ p → p < accepted.length → received ≤ p' → p' < accepted.length →
    ringSlot p = ringSlot p' → p = p'
  reserved : ∀ i, (sh.q.elements i).reserved = true ↔
    ∃ p, received ≤ p ∧ p < issued ∧ ringSlot p = i

/-- The entries that are reserved. -/
def reservedEntries (q : queue) : ℕ :=
  ((List.range MCAPI_MAX_QUEUE_ENTRIES).filter fun i => (q.elements i).reserved).length

/-! ## Entries of consecutive numbers -/

theorem ringSlot_lt (p : ℕ) : ringSlot p < MCAPI_MAX_QUEUE_ENTRIES :=
  Nat.mod_lt _ (by norm_num [MCAPI_MAX_QUEUE_ENTRIES_eq])

/-- Where the counters do not wrap in between, other numbers have other entries. -/
theorem ringSlot_ne {p p' : ℕ} (hlap : p / 2 ^ 31 = p' / 2 ^ 31) (hlt : p < p')
    (hle : p' < p + MCAPI_MAX_QUEUE_ENTRIES) : ringSlot p ≠ ringSlot p' :=
  slot_mod_ne (Or.inr hlap) hlt hle

/-- Where the counters do not wrap in between, the walk comes by the entries of the
numbers that follow. -/
theorem walk_slot {p i : ℕ} (hlap : (p + i) / 2 ^ 31 = p / 2 ^ 31) :
    (ringSlot p + i) % MCAPI_MAX_QUEUE_ENTRIES = ringSlot (p + i) := by
  have hmod : (p + i) % 2 ^ 31 = p % 2 ^ 31 + i := by omega
  rw [ringSlot, ringSlot, hmod, Nat.mod_add_mod]

/-- The bytes of a message that was copied to a buffer. -/
theorem map_copyIn (buff : ℕ → UInt8) (a : Bytes) :
    (List.range a.length).map (copyIn buff a) = a := by
  apply List.ext_getElem
  · rw [List.length_map, List.length_range]
  · intro i hi hi'
    rw [List.getElem_map, List.getElem_range, copyIn, List.getD_eq_getElem _ _ hi']

section Endpoint

variable {sh : Shared} {accepted : List Bytes} {issued received : ℕ} {buf : ℕ → ℕ} {a : Bytes}

/-- The first bytes of the message that a buffer holds. -/
theorem Holds.take {b : buffer_entry} (h : Holds b a) (size : ℕ) :
    (List.range (min size b.size)).map b.buff = a.take size := by
  rw [h.size, ← List.take_range, List.map_take, h.buff]

namespace EndpointInv

/-! ## The counters -/

theorem diff (h : EndpointInv sh accepted issued received buf) :
    subU32 (u32 (2 * accepted.length)) (u32 (2 * received)) =
      2 * accepted.length - 2 * received := by
  have hle := h.le
  have hbound := h.bound
  rw [MCAPI_MAX_QUEUE_ENTRIES_eq] at hbound
  exact subU32_u32 (by omega) (by omega)

/-- Where the queue is not full, its tail is the entry of the next message. -/
theorem tail (h : EndpointInv sh accepted issued received buf)
    (hroom : (mcapi_trans_queue_tail sh.q).2 ≠ MCAPI_ERR_QUEUE_FULL) :
    mcapi_trans_queue_tail sh.q = (ringSlot accepted.length, MCAPI_SUCCESS) ∧
      accepted.length < received + MCAPI_MAX_QUEUE_ENTRIES := by
  have hle := h.le
  have hbound := h.bound
  have hN := MCAPI_MAX_QUEUE_ENTRIES_eq
  have htail : mcapi_trans_queue_tail sh.q = (ringSlot accepted.length,
      tailStatus (u32 (2 * accepted.length)) (u32 (2 * received))) := by
    rw [mcapi_trans_queue_tail, h.uc, h.ac, lastCompleted_even, qindexOf_u32]
  have hlt : accepted.length < received + MCAPI_MAX_QUEUE_ENTRIES := by
    by_contra hge
    apply hroom
    rw [htail, tailStatus_of_diff h.diff (by omega), if_pos (by omega)]
  refine ⟨?_, hlt⟩
  rw [htail, tailStatus_success (by rw [h.diff]; omega)]

/-- The head is the entry of the first message that is not received. -/
theorem head_fst (h : EndpointInv sh accepted issued received buf) :
    (mcapi_trans_queue_head sh.q).1 = ringSlot received := by
  rw [mcapi_trans_queue_head, h.ac, lastCompleted_even, qindexOf_u32]

theorem head_some (h : EndpointInv sh accepted issued received buf)
    (hlt : received < accepted.length) :
    mcapi_trans_queue_head sh.q = (ringSlot received, MCAPI_SUCCESS) := by
  have hstatus : headStatus (u32 (2 * accepted.length)) (u32 (2 * received)) = MCAPI_SUCCESS := by
    rw [headStatus_success_iff (u32_lt _) (u32_lt _), h.diff]
    omega
  rw [mcapi_trans_queue_head, h.uc, h.ac, lastCompleted_even, qindexOf_u32, hstatus]

theorem head_none (h : EndpointInv sh accepted issued received buf)
    (hge : accepted.length ≤ received) :
    mcapi_trans_queue_head sh.q = (ringSlot received, MCAPI_ERR_QUEUE_EMPTY) := by
  have heq : accepted.length = received := Nat.le_antisymm hge h.le
  rw [mcapi_trans_queue_head, h.uc, h.ac, lastCompleted_even, qindexOf_u32, heq, headStatus,
    if_pos rfl]

/-- Whether a message is there is seen at the head. -/
theorem head_snd (h : EndpointInv sh accepted issued received buf) :
    (mcapi_trans_queue_head sh.q).2 = MCAPI_SUCCESS ↔ received < accepted.length := by
  rcases Nat.lt_or_ge received accepted.length with hlt | hge
  · rw [h.head_some hlt]
    exact iff_of_true rfl hlt
  · rw [h.head_none hge]
    exact iff_of_false (fun hc => by cases hc) (by omega)

/-! ## Sending -/

theorem push {q : queue} (huc : q.update_counter = u32 (2 * accepted.length))
    (htail : mcapi_trans_queue_tail q = (ringSlot accepted.length, MCAPI_SUCCESS)) :
    mcapi_trans_push_queue q = some (.ok (ringSlot accepted.length),
      { q with update_counter := u32 (2 * (accepted.length + 1)) }) := by
  have heven : ¬ q.update_counter % 2 ≠ 0 := by
    rw [huc, even_u32]
    omega
  have hstatus : tailStatus (lastCompleted q.update_counter) q.ack_counter = MCAPI_SUCCESS :=
    congrArg Prod.snd htail
  simp only [mcapi_trans_push_queue, heven, if_false, hstatus]
  rw [huc, lastCompleted_even, qindexOf_u32, u32_two_steps]

/-- The message is put into the entry at the tail, which is free. -/
theorem send (h : EndpointInv sh accepted issued received buf)
    (hroom : (mcapi_trans_queue_tail sh.q).2 ≠ MCAPI_ERR_QUEUE_FULL)
    (hbuffer : (mcapi_trans_alloc_buffer sh.buffers).isSome = true)
    (hindex : (sh.q.elements (mcapi_trans_queue_tail sh.q).1).buff_index = 0)
    (hfree : (sh.q.elements (mcapi_trans_queue_tail sh.q).1).state = BUFFER_FREE)
    (a : Bytes) :
    ∃ sh' i, mcapi_trans_send sh a = some (sh', true) ∧ (sh.buffers i).magic_num = 0 ∧
      (∀ b, b ≠ i → sh'.buffers b = sh.buffers b) ∧
      EndpointInv sh' (accepted ++ [a]) issued received
        (Function.update buf accepted.length i) := by
  obtain ⟨htail, hlt⟩ := h.tail hroom
  rw [htail] at hindex hfree
  have hle := h.le
  obtain ⟨⟨i, buffers⟩, halloc⟩ := Option.isSome_iff_exists.mp hbuffer
  have hfound := halloc
  rw [mcapi_trans_alloc_buffer, Option.map_eq_some_iff] at hfound
  obtain ⟨i', hi', heq⟩ := hfound
  obtain ⟨rfl, hbuffers⟩ := Prod.mk.inj heq
  obtain ⟨hiN, hmagic⟩ := search_some hi'
  rw [decide_eq_true_iff] at hmagic
  -- the buffer and the entry as they are left
  obtain ⟨b, hb⟩ : ∃ b : buffer_entry, b = { buffers i' with
      parent := some (ringSlot accepted.length)
      buff := copyIn (buffers i').buff a
      size := a.length } := ⟨_, rfl⟩
  obtain ⟨d, hd⟩ : ∃ d : buffer_descriptor, d = { sh.q.elements (ringSlot accepted.length) with
      buff_index := validIndex i', state := BUFFER_ALLOCATED } := ⟨_, rfl⟩
  obtain ⟨sh', hsh'⟩ : ∃ sh' : Shared, sh' = ⟨{ sh.q with
      elements := Function.update sh.q.elements (ringSlot accepted.length) d
      update_counter := u32 (2 * (accepted.length + 1)) }, Function.update buffers i' b⟩ :=
    ⟨_, rfl⟩
  have hsend : mcapi_trans_send sh a = some (sh', true) := by
    have hpush := push (q := (Shared.setElement sh (ringSlot accepted.length) d).q) h.uc htail
    simp only [Shared.setElement] at hpush
    simp only [mcapi_trans_send, htail, hindex, hfree, and_self, if_true, halloc,
      Shared.setElement, ← hb, ← hd, hpush, hsh']
  have hothers : ∀ b', b' ≠ i' → sh'.buffers b' = sh.buffers b' := by
    intro b' hne
    rw [hsh']
    simp only [Function.update_of_ne hne, ← hbuffers]
  have hholds : Holds (sh'.buffers i') a := by
    rw [hsh', hb, ← hbuffers]
    simp only [Function.update_self]
    exact ⟨rfl, rfl, map_copyIn _ a⟩
  have hself : sh'.q.elements (ringSlot accepted.length) = d := by
    rw [hsh']
    exact Function.update_self ..
  have hentry : ∀ j, j ≠ ringSlot accepted.length → sh'.q.elements j = sh.q.elements j := by
    intro j hj
    rw [hsh']
    exact Function.update_of_ne hj _ _
  -- no message that is not received is in the entry at the tail
  have hslot : ∀ p, received ≤ p → p < accepted.length →
      ringSlot p ≠ ringSlot accepted.length := by
    intro p hp hpt heq
    have hstate := h.state p hp hpt
    rw [heq, hfree] at hstate
    cases hstate
  have hlen : (accepted ++ [a]).length = accepted.length + 1 := by
    rw [List.length_append, List.length_singleton]
  refine ⟨sh', i', hsend, hmagic, hothers, ?_⟩
  have hcases : ∀ p, p < (accepted ++ [a]).length → p < accepted.length ∨ p = accepted.length := by
    intro p hp
    rw [hlen] at hp
    omega
  refine ⟨?_, ?_, ?_, ?_, h.le_issued, h.issued_le, h.lap, ?_, ?_, ?_, ?_, ?_, ?_⟩
  · rw [hlen, hsh']
  · rw [hsh']
    exact h.ac
  · rw [hlen]
    omega
  · rw [hlen]
    omega
  · intro p hp hpt
    rcases hcases p hpt with hpt | rfl
    · rw [hentry _ (hslot p hp hpt)]
      exact h.state p hp hpt
    · rw [hself, hd]
  · intro p hp hpt
    rcases hcases p hpt with hpt | rfl
    · rw [hentry _ (hslot p hp hpt), Function.update_of_ne (Nat.ne_of_lt hpt)]
      exact h.buff_index p hp hpt
    · rw [hself, hd, Function.update_self]
  · intro p hp hpt
    rcases hcases p hpt with hpt | rfl
    · rw [Function.update_of_ne (Nat.ne_of_lt hpt)]
      exact h.in_pool p hp hpt
    · rw [Function.update_self]
      exact hiN
  · intro p x hp hx
    rcases hcases p (List.getElem?_eq_some_iff.mp hx).1 with hpt | rfl
    · rw [List.getElem?_append_left hpt] at hx
      have hthere := h.holds p x hp hx
      have hne : buf p ≠ i' := by
        intro heq
        rw [heq] at hthere
        exact MAGIC_NUM_ne_zero (hthere.magic_num.symm.trans hmagic)
      rw [Function.update_of_ne (Nat.ne_of_lt hpt), hothers _ hne]
      exact hthere
    · rw [List.getElem?_concat_length, Option.some.injEq] at hx
      subst hx
      rw [Function.update_self]
      exact hholds
  · intro p p' hp hpt hp' hpt' heq
    rcases hcases p hpt with hpt | rfl
    · rcases hcases p' hpt' with hpt' | rfl
      · exact h.slots p p' hp hpt hp' hpt' heq
      · exact absurd heq (hslot p hp hpt)
    · rcases hcases p' hpt' with hpt' | rfl
      · exact absurd heq.symm (hslot p' hp' hpt')
      · rfl
  · intro j
    by_cases hj : j = ringSlot accepted.length
    · rw [hj, hself, hd]
      exact h.reserved _
    · rw [hentry j hj]
      exact h.reserved j

/-! ## Receiving -/

theorem pop {q : queue} (hac : q.ack_counter = u32 (2 * received))
    (hhead : mcapi_trans_queue_head q = (ringSlot received, MCAPI_SUCCESS)) :
    mcapi_trans_pop_queue q = some (.ok (ringSlot received),
      { q with ack_counter := u32 (2 * (received + 1)) }) := by
  have heven : ¬ q.ack_counter % 2 ≠ 0 := by
    rw [hac, even_u32]
    omega
  have hstatus : headStatus q.update_counter (lastCompleted q.ack_counter) = MCAPI_SUCCESS :=
    congrArg Prod.snd hhead
  simp only [mcapi_trans_pop_queue, heven, if_false, hstatus]
  rw [hac, lastCompleted_even, qindexOf_u32, u32_two_steps]

/-- The entry at the head holds a message, if there is one. -/
theorem sent_head (h : EndpointInv sh accepted issued received buf)
    (hlt : received < accepted.length) :
    sent (sh.q.elements (ringSlot received)) = true := by
  rw [sent, Bool.and_eq_true, decide_eq_true_iff, decide_eq_true_iff]
  refine ⟨h.state received le_rfl hlt, ?_⟩
  rw [h.buff_index received le_rfl hlt]
  exact validIndex_ne_zero (h.in_pool received le_rfl hlt)

/-- Another number has another entry, whether its message is there or its receive waits. -/
theorem waiting_slot_ne (h : EndpointInv sh accepted issued received buf) {p : ℕ}
    (hp : received < p) (hpi : p < issued) : ringSlot p ≠ ringSlot received := by
  have hle := h.issued_le
  exact (ringSlot_ne (h.lap p (by omega) hpi).symm hp (by omega)).symm

/-- The message of an entry is copied out and its buffer given back. -/
theorem recv_at (sh : Shared) {i qindex : ℕ}
    (hindex : (sh.q.elements qindex).buff_index = validIndex i)
    (hpool : i < MCAPI_MAX_BUFFERS) (hholds : Holds (sh.buffers i) a) (size : ℕ) :
    mcapi_trans_recv_ sh size qindex =
      some ((sh.setBuffer i
          { sh.buffers i with magic_num := 0, parent := some qindex }).setElement qindex
            ⟨BUFFER_FREE, 0, false⟩,
        ⟨a.take size, a.length⟩) := by
  simp only [mcapi_trans_recv_, hindex, bufferIndex_validIndex hpool]
  rw [if_pos hholds.magic_num, hholds.take, hholds.size]

/-- The message at the head is copied out, its buffer is freed and its entry too. The
receive it goes to is the first that waits, or a new one where none waits. -/
theorem take (h : EndpointInv sh accepted issued received buf)
    (ha : accepted[received]? = some a)
    (hinj : ∀ p, received < p → p < accepted.length → buf p ≠ buf received)
    (issued' : ℕ) (hissued : received + 1 ≤ issued')
    (hle' : issued' ≤ received + 1 + MCAPI_MAX_QUEUE_ENTRIES)
    (hsame : ∀ p, received + 1 ≤ p → (p < issued' ↔ p < issued)) (size : ℕ) :
    ∃ sh', takeHead sh size (ringSlot received) = some (sh', ⟨a.take size, a.length⟩) ∧
      (∀ b, b ≠ buf received → sh'.buffers b = sh.buffers b) ∧
      EndpointInv sh' accepted issued' (received + 1) buf := by
  have hlt : received < accepted.length := (List.getElem?_eq_some_iff.mp ha).1
  have hbound := h.bound
  have hholds := h.holds received a le_rfl ha
  have hindex := h.buff_index received le_rfl hlt
  have hpool := h.in_pool received le_rfl hlt
  obtain ⟨b, hb⟩ : ∃ b : buffer_entry, b = { sh.buffers (buf received) with
      magic_num := 0, parent := some (ringSlot received) } := ⟨_, rfl⟩
  obtain ⟨sh', hsh'⟩ : ∃ sh' : Shared, sh' = ⟨{ sh.q with
      elements := Function.update sh.q.elements (ringSlot received) ⟨BUFFER_FREE, 0, false⟩
      ack_counter := u32 (2 * (received + 1)) },
      Function.update sh.buffers (buf received) b⟩ := ⟨_, rfl⟩
  have htake : takeHead sh size (ringSlot received) =
      some (sh', ⟨a.take size, a.length⟩) := by
    have hpop := pop (q := (Shared.setElement sh (ringSlot received) ⟨BUFFER_FREE, 0, false⟩).q)
      h.ac (h.head_some hlt)
    simp only [Shared.setElement] at hpop
    have hrecv := recv_at (Shared.setElement sh (ringSlot received)
      { sh.q.elements (ringSlot received) with state := BUFFER_RECEIVED })
      (by rw [Shared.setElement_self]; exact hindex) hpool hholds size
    rw [takeHead]
    simp only [hrecv]
    simp only [Shared.setElement, Shared.setBuffer, Function.update_idem, hpop, ← hb, hsh']
  have hself : sh'.q.elements (ringSlot received) = ⟨BUFFER_FREE, 0, false⟩ := by
    rw [hsh']
    exact Function.update_self ..
  have hentry : ∀ j, j ≠ ringSlot received → sh'.q.elements j = sh.q.elements j := by
    intro j hj
    rw [hsh']
    exact Function.update_of_ne hj _ _
  have hothers : ∀ b', b' ≠ buf received → sh'.buffers b' = sh.buffers b' := by
    intro b' hne
    rw [hsh']
    exact Function.update_of_ne hne _ _
  have hslot : ∀ p, received + 1 ≤ p → p < accepted.length → ringSlot p ≠ ringSlot received := by
    intro p hp hpt heq
    have hpr := h.slots p received (by omega) hpt le_rfl hlt heq
    omega
  refine ⟨sh', htake, hothers, ?_⟩
  refine ⟨?_, ?_, hlt, by omega, hissued, hle', ?_, ?_, ?_, ?_, ?_, ?_, ?_⟩
  · rw [hsh']
    exact h.uc
  · rw [hsh']
  · -- the lap is that of the receives from the first one on
    intro p hp hpi
    have hlap := h.lap p (by omega) ((hsame p hp).mp hpi)
    omega
  · intro p hp hpt
    rw [hentry _ (hslot p hp hpt)]
    exact h.state p (by omega) hpt
  · intro p hp hpt
    rw [hentry _ (hslot p hp hpt)]
    exact h.buff_index p (by omega) hpt
  · intro p hp hpt
    exact h.in_pool p (by omega) hpt
  · intro p x hp hx
    have hpt := (List.getElem?_eq_some_iff.mp hx).1
    rw [hothers _ (hinj p hp hpt)]
    exact h.holds p x (by omega) hx
  · intro p p' hp hpt hp' hpt' heq
    exact h.slots p p' (by omega) hpt (by omega) hpt' heq
  · intro j
    by_cases hj : j = ringSlot received
    · rw [hj, hself]
      refine iff_of_false (by exact Bool.false_ne_true) ?_
      rintro ⟨p, hp, hpi, heq⟩
      exact h.waiting_slot_ne hp ((hsame p hp).mp hpi) heq
    · rw [hentry j hj, h.reserved j]
      constructor
      · rintro ⟨p, hp, hpi, heq⟩
        have hne : p ≠ received := by
          rintro rfl
          exact hj heq.symm
        exact ⟨p, by omega, (hsame p (by omega)).mpr hpi, heq⟩
      · rintro ⟨p, hp, hpi, heq⟩
        exact ⟨p, by omega, (hsame p hp).mp hpi, heq⟩

/-! ## Waiting -/

/-- As many entries are reserved as receives wait. -/
theorem reservedEntries_eq (h : EndpointInv sh accepted issued received buf) :
    reservedEntries sh.q = issued - received := by
  have hle := h.issued_le
  have hnodup : (((List.range (issued - received)).map fun i => ringSlot (received + i))).Nodup := by
    apply List.Nodup.map_on ?_ List.nodup_range
    intro i hi j hj heq
    rw [List.mem_range] at hi hj
    by_contra hne
    have hlapi := h.lap (received + i) (by omega) (by omega)
    have hlapj := h.lap (received + j) (by omega) (by omega)
    rcases Nat.lt_or_gt_of_ne hne with hij | hij
    · exact ringSlot_ne (hlapi.trans hlapj.symm) (by omega) (by omega) heq
    · exact ringSlot_ne (hlapj.trans hlapi.symm) (by omega) (by omega) heq.symm
  have hperm : ((List.range MCAPI_MAX_QUEUE_ENTRIES).filter fun i =>
      (sh.q.elements i).reserved).Perm
      ((List.range (issued - received)).map fun i => ringSlot (received + i)) := by
    rw [List.perm_ext_iff_of_nodup (List.nodup_range.filter _) hnodup]
    intro j
    rw [List.mem_filter, List.mem_range, h.reserved, List.mem_map]
    constructor
    · rintro ⟨-, p, hp, hpi, rfl⟩
      refine ⟨p - received, List.mem_range.mpr (by omega), ?_⟩
      congr 1
      omega
    · rintro ⟨i, hi, rfl⟩
      rw [List.mem_range] at hi
      exact ⟨ringSlot_lt _, received + i, by omega, by omega, rfl⟩
  rw [reservedEntries, hperm.length_eq, List.length_map, List.length_range]

/-- A receive that finds the queue empty reserves the entry of its message, unless the
counters wrap before that. -/
theorem reserve (h : EndpointInv sh accepted issued received buf)
    (hroom : (firstUnreserved sh.q).isSome = true)
    (hwrap : sh.q.ack_counter + 2 * reservedEntries sh.q < 2 ^ 32) :
    firstUnreserved sh.q = some (ringSlot issued) ∧
      EndpointInv (sh.setElement (ringSlot issued)
        { sh.q.elements (ringSlot issued) with reserved := true })
        accepted (issued + 1) received buf := by
  have hle := h.le_issued
  have hle' := h.issued_le
  have hlap : issued / 2 ^ 31 = received / 2 ^ 31 := by
    rw [h.ac, h.reservedEntries_eq, u32] at hwrap
    omega
  have hwalk : ∀ i, i ≤ issued - received →
      (ringSlot received + i) % MCAPI_MAX_QUEUE_ENTRIES = ringSlot (received + i) := by
    intro i hi
    apply walk_slot
    omega
  have hbefore : ∀ i, i < issued - received →
      (sh.q.elements ((ringSlot received + i) % MCAPI_MAX_QUEUE_ENTRIES)).reserved = true := by
    intro i hi
    rw [hwalk i (by omega), h.reserved]
    exact ⟨received + i, by omega, by omega, rfl⟩
  obtain ⟨x, hx⟩ := Option.isSome_iff_exists.mp hroom
  have hfound := hx
  simp only [firstUnreserved, h.head_fst, Option.map_eq_some_iff] at hfound
  obtain ⟨i, hi, rfl⟩ := hfound
  obtain ⟨hiN, hfree, hfirst⟩ := search_eq_some.mp hi
  have hroom' : issued < received + MCAPI_MAX_QUEUE_ENTRIES := by
    by_contra hge
    rw [hbefore i (by omega)] at hfree
    cases hfree
  -- the entry of the new receive is reserved by none of those that wait
  have hnew : (sh.q.elements (ringSlot issued)).reserved = false := by
    rw [Bool.eq_false_iff]
    intro hres
    obtain ⟨p, hp, hpi, heq⟩ := (h.reserved _).mp hres
    exact ringSlot_ne ((h.lap p hp hpi).trans hlap.symm) hpi (by omega) heq
  have hiw : i = issued - received := by
    rcases Nat.lt_trichotomy i (issued - received) with hlt | heq | hgt
    · rw [hbefore i hlt] at hfree
      cases hfree
    · exact heq
    · have hpos : received + (issued - received) = issued := by omega
      have htrue := hfirst _ hgt
      rw [hwalk _ le_rfl, hpos, hnew] at htrue
      cases htrue
  have hpos : received + i = issued := by omega
  refine ⟨by rw [hx, hwalk i (by omega), hpos], ?_⟩
  have hentry : ∀ j, j ≠ ringSlot issued → (sh.setElement (ringSlot issued)
      { sh.q.elements (ringSlot issued) with reserved := true }).q.elements j =
        sh.q.elements j := fun j hj => Shared.setElement_of_ne sh hj _
  refine ⟨h.uc, h.ac, h.le, h.bound, by omega, by omega, ?_, ?_, ?_, h.in_pool, h.holds, h.slots,
    ?_⟩
  · intro p hp hpi
    rcases Nat.lt_or_ge p issued with hlt | hge
    · exact h.lap p hp hlt
    · have hpe : p = issued := by omega
      rw [hpe]
      exact hlap
  · intro p hp hpt
    by_cases hj : ringSlot p = ringSlot issued
    · rw [hj, Shared.setElement_self]
      rw [← hj]
      exact h.state p hp hpt
    · rw [hentry _ hj]
      exact h.state p hp hpt
  · intro p hp hpt
    by_cases hj : ringSlot p = ringSlot issued
    · rw [hj, Shared.setElement_self]
      rw [← hj]
      exact h.buff_index p hp hpt
    · rw [hentry _ hj]
      exact h.buff_index p hp hpt
  · intro j
    by_cases hj : j = ringSlot issued
    · rw [hj, Shared.setElement_self]
      exact iff_of_true rfl ⟨issued, hle, by omega, rfl⟩
    · rw [hentry j hj, h.reserved j]
      constructor
      · rintro ⟨p, hp, hpi, heq⟩
        exact ⟨p, hp, by omega, heq⟩
      · rintro ⟨p, hp, hpi, heq⟩
        have hne : p ≠ issued := by
          rintro rfl
          exact hj heq.symm
        exact ⟨p, hp, by omega, heq⟩

end EndpointInv

end Endpoint

end MxApi.LockFree
