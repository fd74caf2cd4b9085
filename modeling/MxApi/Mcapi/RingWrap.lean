/-
The ring slots of one queue over any number of pushes and pops, across the wrap
of the two 32-bit counters.

A slot is `(counter/2) % 65`, and the counter counts twice and wraps at `2^32`,
so the position `n` of a push gets slot `(n % 2^31) % 65` ([`ringSlot`]). As
`2^31 % 65 = 63`, the slots are those of a ring as long as no position has
reached `2^31`, and jump from 62 to 0 there: the positions around the wrap
collide. [`ring_slots_agree_iff`] says exactly which runs keep the ring.
-/
import Mathlib.Data.List.Nodup
import Mathlib.Data.List.Range
import MxApi.Lib.RingSlot
import MxApi.Mcapi.Queue

set_option autoImplicit false

namespace MxApi

open Lib mcapi_status_t

/-! ## Runs of pushes and pops -/

inductive RingOp
  | push
  | pop
  deriving DecidableEq, Repr

/-- A queue with the entries its pushes and pops returned, oldest first. -/
structure RingHistory where
  q : queue
  pushed : List ℕ
  popped : List ℕ

def RingHistory.init (ct : channel_type) : RingHistory := ⟨queue.zero ct, [], []⟩

/-- The entries pushed and not popped, oldest first. -/
def RingHistory.live (s : RingHistory) : List ℕ := s.pushed.drop s.popped.length

def ringStep (s : RingHistory) : RingOp → Option RingHistory
  | .push =>
    match mcapi_trans_push_queue s.q with
    | some (.ok x, q) => some { s with q := q, pushed := s.pushed ++ [x] }
    | some (.error _, q) => some { s with q := q }
    | none => none
  | .pop =>
    match mcapi_trans_pop_queue s.q with
    | some (.ok x, q) => some { s with q := q, popped := s.popped ++ [x] }
    | some (.error _, q) => some { s with q := q }
    | none => none

def ringRun (s : RingHistory) (ops : List RingOp) : Option RingHistory := ops.foldlM ringStep s

/-- What a ring of `MCAPI_MAX_QUEUE_ENTRIES` slots promises about the entries
its operations return. -/
structure SlotsAgree (s : RingHistory) : Prop where
  bound : s.live.length ≤ MCAPI_MAX_QUEUE_ENTRIES
  distinct : s.live.Nodup
  consecutive : ∀ k x y, s.pushed[k]? = some x → s.pushed[k + 1]? = some y →
    y = (x + 1) % MCAPI_MAX_QUEUE_ENTRIES
  fifo : s.popped = s.pushed.take s.popped.length
  tail_free : (mcapi_trans_queue_tail s.q).2 = MCAPI_SUCCESS →
    (mcapi_trans_queue_tail s.q).1 ∉ s.live

/-! ## The invariant of the runs -/

/-- After `u` pushes and `a` pops the counters are `2u` and `2a` reduced, and
the entries returned are the slots of the positions below `u` and `a`. -/
structure RingInv (s : RingHistory) : Prop where
  uc : s.q.update_counter = u32 (2 * s.pushed.length)
  ac : s.q.ack_counter = u32 (2 * s.popped.length)
  pushed : s.pushed = (List.range s.pushed.length).map ringSlot
  popped : s.popped = (List.range s.popped.length).map ringSlot
  le : s.popped.length ≤ s.pushed.length
  bound : s.pushed.length ≤ s.popped.length + MCAPI_MAX_QUEUE_ENTRIES

theorem RingInv.init (ct : channel_type) : RingInv (.init ct) :=
  ⟨u32_zero.symm, u32_zero.symm, rfl, rfl, Nat.le_refl _, Nat.zero_le _⟩

/-- The counters are as far apart as the run's pushes and pops. -/
theorem RingInv.diff {s : RingHistory} (h : RingInv s) :
    subU32 s.q.update_counter s.q.ack_counter
      = 2 * s.pushed.length - 2 * s.popped.length := by
  have hle := h.le
  have hb := h.bound
  rw [MCAPI_MAX_QUEUE_ENTRIES_eq] at hb
  rw [h.uc, h.ac]
  exact subU32_u32 (by omega) (by omega)

theorem RingInv.tail {s : RingHistory} (h : RingInv s) :
    mcapi_trans_queue_tail s.q = (ringSlot s.pushed.length,
      tailStatus s.q.update_counter s.q.ack_counter) := by
  rw [mcapi_trans_queue_tail, h.uc, lastCompleted_even, qindexOf_u32]

/-- A queue with fewer than `N` live entries is not full. -/
theorem RingInv.tailStatus_of_lt {s : RingHistory} (h : RingInv s)
    (hlt : s.pushed.length < s.popped.length + MCAPI_MAX_QUEUE_ENTRIES) :
    tailStatus s.q.update_counter s.q.ack_counter = MCAPI_SUCCESS := by
  apply tailStatus_success
  rw [h.diff]
  have hle := h.le
  omega

/-- A queue with `N` live entries is full. -/
theorem RingInv.tailStatus_of_eq {s : RingHistory} (h : RingInv s)
    (heq : s.pushed.length = s.popped.length + MCAPI_MAX_QUEUE_ENTRIES) :
    tailStatus s.q.update_counter s.q.ack_counter = MCAPI_ERR_QUEUE_FULL := by
  have hd := h.diff
  rw [tailStatus_of_diff hd (by rw [MCAPI_MAX_QUEUE_ENTRIES_eq] at heq; omega), if_pos (by omega)]

theorem map_range_succ {l : List ℕ} (h : l = (List.range l.length).map ringSlot) :
    l ++ [ringSlot l.length]
      = (List.range (l ++ [ringSlot l.length]).length).map ringSlot := by
  rw [List.length_append, List.length_singleton, List.range_succ, List.map_append, ← h]
  rfl

theorem push_spec {s : RingHistory} (h : RingInv s) :
    ∃ t, ringStep s .push = some t ∧ RingInv t ∧ t.popped = s.popped ∧
      t.pushed.length = if s.pushed.length < s.popped.length + MCAPI_MAX_QUEUE_ENTRIES
        then s.pushed.length + 1 else s.pushed.length := by
  have heven : ¬ s.q.update_counter % 2 ≠ 0 := by rw [h.uc, even_u32]; omega
  have hlast : lastCompleted s.q.update_counter = s.q.update_counter := by
    rw [h.uc, lastCompleted_even]
  rcases Nat.lt_or_ge s.pushed.length (s.popped.length + MCAPI_MAX_QUEUE_ENTRIES) with hlt | hge
  · refine ⟨{ s with
        q := { s.q with update_counter := u32 (u32 (s.q.update_counter + 1) + 1) }
        pushed := s.pushed ++ [ringSlot s.pushed.length] }, ?_, ?_, rfl, ?_⟩
    · simp only [ringStep, mcapi_trans_push_queue, heven, if_false, hlast,
        h.tailStatus_of_lt hlt]
      rw [h.uc, qindexOf_u32]
    · refine ⟨?_, h.ac, map_range_succ h.pushed, h.popped, ?_, ?_⟩
      · simp only [List.length_append, List.length_singleton]
        rw [h.uc, u32_two_steps]
      · have hle := h.le
        simp only [List.length_append, List.length_singleton]
        omega
      · simp only [List.length_append, List.length_singleton]
        omega
    · simp only [List.length_append, List.length_singleton, hlt, if_true]
  · refine ⟨s, ?_, h, rfl, by rw [if_neg (by omega)]⟩
    have hb := h.bound
    simp only [ringStep, mcapi_trans_push_queue, heven, if_false, hlast,
      h.tailStatus_of_eq (by omega)]

theorem pop_spec {s : RingHistory} (h : RingInv s) :
    ∃ t, ringStep s .pop = some t ∧ RingInv t ∧ t.pushed = s.pushed ∧
      t.popped.length = if s.popped.length < s.pushed.length
        then s.popped.length + 1 else s.popped.length := by
  have heven : ¬ s.q.ack_counter % 2 ≠ 0 := by rw [h.ac, even_u32]; omega
  have hlast : lastCompleted s.q.ack_counter = s.q.ack_counter := by
    rw [h.ac, lastCompleted_even]
  have hle := h.le
  have hb := h.bound
  rcases Nat.lt_or_ge s.popped.length s.pushed.length with hlt | hge
  · have hstatus : headStatus s.q.update_counter s.q.ack_counter = MCAPI_SUCCESS := by
      rw [headStatus_success_iff (by rw [h.uc]; exact u32_lt _) (by rw [h.ac]; exact u32_lt _),
        h.diff]
      omega
    refine ⟨{ s with
        q := { s.q with ack_counter := u32 (u32 (s.q.ack_counter + 1) + 1) }
        popped := s.popped ++ [ringSlot s.popped.length] }, ?_, ?_, rfl, ?_⟩
    · simp only [ringStep, mcapi_trans_pop_queue, heven, if_false, hlast, hstatus]
      rw [h.ac, qindexOf_u32]
    · refine ⟨h.uc, ?_, h.pushed, map_range_succ h.popped, ?_, ?_⟩
      · simp only [List.length_append, List.length_singleton]
        rw [h.ac, u32_two_steps]
      · simp only [List.length_append, List.length_singleton]
        omega
      · simp only [List.length_append, List.length_singleton]
        omega
    · simp only [List.length_append, List.length_singleton, hlt, if_true]
  · refine ⟨s, ?_, h, rfl, by rw [if_neg (by omega)]⟩
    have heq : s.q.update_counter = s.q.ack_counter := by
      rw [h.uc, h.ac, show s.pushed.length = s.popped.length by omega]
    have hstatus : headStatus s.q.update_counter s.q.ack_counter = MCAPI_ERR_QUEUE_EMPTY := by
      rw [headStatus, if_pos heq]
    simp only [ringStep, mcapi_trans_pop_queue, heven, if_false, hlast, hstatus]

/-- Every sequence of operations returns, and keeps the invariant. -/
theorem ringRun_inv (ops : List RingOp) :
    ∀ {s : RingHistory}, RingInv s → ∃ t, ringRun s ops = some t ∧ RingInv t := by
  induction ops with
  | nil => intro s h; exact ⟨s, rfl, h⟩
  | cons op ops ih =>
    intro s h
    obtain ⟨t, hstep, ht⟩ : ∃ t, ringStep s op = some t ∧ RingInv t := by
      cases op with
      | push => obtain ⟨t, h1, h2, -⟩ := push_spec h; exact ⟨t, h1, h2⟩
      | pop => obtain ⟨t, h1, h2, -⟩ := pop_spec h; exact ⟨t, h1, h2⟩
    obtain ⟨r, hrun, hr⟩ := ih ht
    exact ⟨r, by rw [ringRun, List.foldlM_cons, hstep]; exact hrun, hr⟩

/-! ## Reading the history -/

theorem RingInv.pushed_getElem? {s : RingHistory} (h : RingInv s) (k : ℕ) :
    s.pushed[k]? = if k < s.pushed.length then some (ringSlot k) else none := by
  rcases Nat.lt_or_ge k s.pushed.length with hk | hk
  · conv_lhs => rw [h.pushed]
    rw [if_pos hk, List.getElem?_map, List.getElem?_range hk]
    rfl
  · rw [if_neg (by omega), List.getElem?_eq_none hk]

theorem RingInv.live_eq {s : RingHistory} (h : RingInv s) :
    s.live = (List.range' s.popped.length (s.pushed.length - s.popped.length)).map ringSlot := by
  rw [RingHistory.live]
  conv_lhs => rw [h.pushed]
  rw [← List.map_drop, List.range_eq_range', List.drop_range']
  simp

theorem RingInv.live_length {s : RingHistory} (h : RingInv s) :
    s.live.length = s.pushed.length - s.popped.length := by
  rw [h.live_eq, List.length_map, List.length_range']

theorem RingInv.mem_live {s : RingHistory} (h : RingInv s) {x : ℕ} :
    x ∈ s.live ↔ ∃ n, s.popped.length ≤ n ∧ n < s.pushed.length ∧ ringSlot n = x := by
  have hle := h.le
  rw [h.live_eq, List.mem_map]
  constructor
  · rintro ⟨n, hn, rfl⟩
    rw [List.mem_range'_1] at hn
    exact ⟨n, hn.1, by omega, rfl⟩
  · rintro ⟨n, h1, h2, rfl⟩
    exact ⟨n, List.mem_range'_1.mpr ⟨h1, by omega⟩, rfl⟩

/-! ## When the ring is kept -/

/-- Fewer than `2^31` pushes have completed, so that `update_counter` has not
wrapped; or it has just wrapped, and the slot 0 it points at is not one of the
63 or 64 live ones. -/
def RingHistory.KeepsRing (s : RingHistory) : Prop :=
  s.pushed.length < 2 ^ 31 ∨
    s.pushed.length = 2 ^ 31 ∧
      (s.live.length ≤ 62 ∨ s.live.length = MCAPI_MAX_QUEUE_ENTRIES)

theorem RingInv.fifo {s : RingHistory} (h : RingInv s) :
    s.popped = s.pushed.take s.popped.length := by
  have hle := h.le
  conv_rhs => rw [h.pushed, ← List.map_take, List.take_range, Nat.min_eq_left hle]
  exact h.popped

theorem RingInv.slotsAgree {s : RingHistory} (h : RingInv s) (hk : s.KeepsRing) :
    SlotsAgree s := by
  have hle := h.le
  have hb := h.bound
  have hlive := h.live_length
  -- every position that was pushed is below the wrap
  have hu : s.pushed.length ≤ 2 ^ 31 := by rcases hk with hk | hk <;> omega
  have hslot : ∀ n, n < s.pushed.length → ringSlot n = n % MCAPI_MAX_QUEUE_ENTRIES :=
    fun n hn => ringSlot_of_lt (by omega)
  refine ⟨by omega, ?_, ?_, h.fifo, ?_⟩
  · rw [h.live_eq]
    refine List.Nodup.map_on ?_ (List.nodup_range' 1)
    intro x hx y hy hxy
    rw [List.mem_range'_1] at hx hy
    rw [hslot x (by omega), hslot y (by omega)] at hxy
    by_contra hne
    exact slot_ne (w := s.popped.length) hx.1 (by omega) hy.1 (by omega) hne hxy
  · intro k x y hx hy
    rw [h.pushed_getElem?] at hx hy
    have hk1 : k + 1 < s.pushed.length := by
      by_contra hn
      rw [if_neg hn] at hy
      cases hy
    rw [if_pos (by omega), Option.some.injEq] at hx
    rw [if_pos hk1, Option.some.injEq] at hy
    rw [← hx, ← hy, hslot _ hk1, hslot _ (by omega)]
    exact slot_succ k
  · intro hstatus hmem
    rw [h.tail] at hstatus hmem
    obtain ⟨n, hn1, hn2, hn3⟩ := h.mem_live.mp hmem
    -- a queue that is not full has at most `N - 1` live entries
    have hfull : s.pushed.length < s.popped.length + MCAPI_MAX_QUEUE_ENTRIES := by
      by_contra hge
      rw [h.tailStatus_of_eq (by omega)] at hstatus
      cases hstatus
    rw [hslot n hn2] at hn3
    rcases hk with hk | ⟨hk, hk' | hk'⟩
    · rw [ringSlot_of_lt hk] at hn3
      exact slot_ne (w := s.popped.length) hn1 (by omega) hle hfull (by omega) hn3
    · rw [hk] at hn3
      unfold ringSlot at hn3
      rw [MCAPI_MAX_QUEUE_ENTRIES_eq] at hn3
      omega
    · omega

theorem RingInv.keepsRing {s : RingHistory} (h : RingInv s) (hs : SlotsAgree s) :
    s.KeepsRing := by
  have hle := h.le
  have hb := h.bound
  have hlive := h.live_length
  rcases Nat.lt_trichotomy s.pushed.length (2 ^ 31) with hu | hu | hu
  · exact .inl hu
  · refine .inr ⟨hu, ?_⟩
    by_contra hno
    rw [not_or] at hno
    have hlt : s.pushed.length < s.popped.length + MCAPI_MAX_QUEUE_ENTRIES := by omega
    refine hs.tail_free ?_ ?_
    · rw [h.tail]
      exact h.tailStatus_of_lt hlt
    · -- the position 63 before the wrap is live and has the slot 0
      rw [h.tail, hu]
      refine h.mem_live.mpr ⟨2 ^ 31 - 63, by omega, by omega, rfl⟩
  · exfalso
    -- the push after the wrap takes slot 0, the one before it took slot 62
    have hx := h.pushed_getElem? (2 ^ 31 - 1)
    have hy := h.pushed_getElem? (2 ^ 31 - 1 + 1)
    rw [if_pos (by omega)] at hx hy
    have hxy := hs.consecutive _ _ _ hx hy
    revert hxy
    decide

/-- **The ring of one queue.** After any sequence of pushes and pops, the
entries returned are those of a ring exactly if `update_counter` has not
wrapped, or has just wrapped onto a slot that is free. -/
theorem ring_slots_agree_iff (ct : channel_type) (ops : List RingOp) :
    ∃ s, ringRun (.init ct) ops = some s ∧ (SlotsAgree s ↔ s.KeepsRing) := by
  obtain ⟨s, hrun, h⟩ := ringRun_inv ops (RingInv.init ct)
  exact ⟨s, hrun, h.keepsRing, h.slotsAgree⟩

/-! ## A run past the wrap -/

/-- `n` elements, each popped right after its push. -/
def pushPops (n : ℕ) : List RingOp := (List.replicate n [RingOp.push, .pop]).flatten

/-- After `n` elements went through an empty queue, `n` pushes and `n` pops are
counted. -/
theorem pushPops_spec (n : ℕ) : ∀ {s : RingHistory}, RingInv s →
    s.pushed.length = s.popped.length →
    ∃ t, ringRun s (pushPops n) = some t ∧ RingInv t ∧ t.pushed.length = s.pushed.length + n := by
  induction n with
  | zero => intro s h _; exact ⟨s, rfl, h, rfl⟩
  | succ n ih =>
    intro s h heq
    obtain ⟨t, h1, ht, hpop, hlen⟩ := push_spec h
    rw [if_pos (by rw [heq, MCAPI_MAX_QUEUE_ENTRIES_eq]; omega)] at hlen
    obtain ⟨r, h2, hr, hpush, hlen'⟩ := pop_spec ht
    rw [if_pos (by rw [hpop]; omega), hpop] at hlen'
    obtain ⟨w, h3, hw, hwl⟩ := ih hr (by rw [hpush]; omega)
    refine ⟨w, ?_, hw, by rw [hwl, hpush]; omega⟩
    rw [pushPops, List.replicate_succ, List.flatten_cons]
    show List.foldlM ringStep s (.push :: .pop :: pushPops n) = some w
    rw [List.foldlM_cons, h1]
    show List.foldlM ringStep t (.pop :: pushPops n) = some w
    rw [List.foldlM_cons, h2]
    exact h3

/-- One element more than the counters can count: `2^31 + 1` elements through
one queue, never more than one of them waiting, and the slots are not those of
a ring. -/
theorem ring_slots_disagree_after_wrap :
    ∃ s, ringRun (.init .MCAPI_NO_CHAN) (pushPops (2 ^ 31 + 1)) = some s ∧ ¬ SlotsAgree s := by
  obtain ⟨s, hrun, hs, hlen⟩ := pushPops_spec (2 ^ 31 + 1) (RingInv.init .MCAPI_NO_CHAN) rfl
  have hzero : (RingHistory.init .MCAPI_NO_CHAN).pushed.length = 0 := rfl
  refine ⟨s, hrun, fun h => ?_⟩
  rcases hs.keepsRing h with hk | ⟨hk, -⟩ <;> omega

end MxApi
