/-
Queue management (`Fragments/transport_sm_queue_abb.c`), as one client alone
executes it.

`update_counter` and `ack_counter` are stepped twice by every push and pop, so
an odd counter says an operation is in progress. The tests the functions make
on two counter values are definitions of their own ([`tailStatus`],
[`headStatus`]): the concurrent models evaluate the same tests on values they
read at different times.

`int` results of `-1` with `*status` set are `Except.error status`. A push that
finds `update_counter` odd spins until the other client steps it again; for a
client alone that is not to return, `none`.
-/
import MxApi.Lib.Word
import MxApi.Mcapi.Database

set_option autoImplicit false

namespace MxApi

open Lib mcapi_status_t

/-- `2*(c/2)`, the last completed operation of a counter. -/
def lastCompleted (c : ℕ) : ℕ := 2 * (c / 2)

/-- The entry a completed counter value points at. -/
def qindexOf (last : ℕ) : ℕ := (last / 2) % MCAPI_MAX_QUEUE_ENTRIES

/-- What `queue_tail` and `push_queue` find on `lastUC` and `tempAC`. -/
def tailStatus (lastUC tempAC : ℕ) : mcapi_status_t :=
  let diff := toInt32 (subU32 lastUC tempAC)
  if diff ≥ 2 * MCAPI_MAX_QUEUE_ENTRIES then MCAPI_ERR_QUEUE_FULL
  else if diff = 2 * MCAPI_MAX_QUEUE_ENTRIES - 1 then MCAPI_ERR_QUEUE_FULL_CONSUMER_READING
  else MCAPI_SUCCESS

/-- What `queue_head` and `pop_queue` find on `tempUC` and `lastAC`. -/
def headStatus (tempUC lastAC : ℕ) : mcapi_status_t :=
  if tempUC = lastAC then MCAPI_ERR_QUEUE_EMPTY
  else if subU32 tempUC lastAC = 1 then MCAPI_ERR_QUEUE_EMPTY_PRODUCER_INSERTING
  else MCAPI_SUCCESS

def mcapi_trans_queue_head (q : queue) : ℕ × mcapi_status_t :=
  let tempUC := q.update_counter
  let lastAC := lastCompleted q.ack_counter
  (qindexOf lastAC, headStatus tempUC lastAC)

def mcapi_trans_queue_tail (q : queue) : ℕ × mcapi_status_t :=
  let tempAC := q.ack_counter
  let lastUC := lastCompleted q.update_counter
  (qindexOf lastUC, tailStatus lastUC tempAC)

def mcapi_trans_push_queue (q : queue) : Option (Except mcapi_status_t ℕ × queue) :=
  let UC := q.update_counter
  if UC % 2 ≠ 0 then none
  else
    let lastUC := lastCompleted UC
    match tailStatus lastUC q.ack_counter with
    | MCAPI_SUCCESS =>
      let newUC := u32 (UC + 1)
      some (.ok (qindexOf lastUC), { q with update_counter := u32 (newUC + 1) })
    | status => some (.error status, q)

def mcapi_trans_pop_queue (q : queue) : Option (Except mcapi_status_t ℕ × queue) :=
  let AC := q.ack_counter
  if AC % 2 ≠ 0 then none
  else
    let lastAC := lastCompleted AC
    match headStatus q.update_counter lastAC with
    | MCAPI_SUCCESS =>
      let newAC := u32 (AC + 1)
      some (.ok (qindexOf lastAC), { q with ack_counter := u32 (newAC + 1) })
    | status => some (.error status, q)

/-! ## The tests, on counters that stand close together -/

/-- On counters whose difference `d` is small and not negative, the tail test
compares `d` with twice the number of entries. -/
theorem tailStatus_of_diff {x y d : ℕ} (h : subU32 x y = d) (hd : d < 2 ^ 31) :
    tailStatus x y =
      if d ≥ 2 * MCAPI_MAX_QUEUE_ENTRIES then MCAPI_ERR_QUEUE_FULL
      else if d = 2 * MCAPI_MAX_QUEUE_ENTRIES - 1 then MCAPI_ERR_QUEUE_FULL_CONSUMER_READING
      else MCAPI_SUCCESS := by
  simp only [tailStatus, h, toInt32_of_lt hd, MCAPI_MAX_QUEUE_ENTRIES_eq]
  exact if_congr (by omega) rfl (if_congr (by omega) rfl rfl)

/-- The tail test never rejects a difference of at most `2N - 2`. -/
theorem tailStatus_success {x y : ℕ}
    (h : subU32 x y + 2 ≤ 2 * MCAPI_MAX_QUEUE_ENTRIES) :
    tailStatus x y = MCAPI_SUCCESS := by
  rw [tailStatus_of_diff rfl (by rw [MCAPI_MAX_QUEUE_ENTRIES_eq] at h; omega),
    if_neg (by omega), if_neg (by omega)]

/-- On a small difference the tail test succeeds only if it is at most
`2N - 2`. -/
theorem le_of_tailStatus_success {x y : ℕ} (hd : subU32 x y < 2 ^ 31)
    (h : tailStatus x y = MCAPI_SUCCESS) :
    subU32 x y + 2 ≤ 2 * MCAPI_MAX_QUEUE_ENTRIES := by
  rw [tailStatus_of_diff rfl hd] at h
  split_ifs at h
  omega

/-- The head test succeeds exactly on a difference of two or more. -/
theorem headStatus_success_iff {x y : ℕ} (hx : x < 2 ^ 32) (hy : y < 2 ^ 32) :
    headStatus x y = MCAPI_SUCCESS ↔ 2 ≤ subU32 x y := by
  unfold headStatus subU32
  split_ifs with h1 h2
  · subst h1
    simp only [false_iff]
    omega
  · simp only [false_iff]
    omega
  · simp only [true_iff]
    omega

/-! ## Slots of positions -/

/-- The slot the code computes for the `n`-th push or pop. -/
def ringSlot (n : ℕ) : ℕ := (n % 2 ^ 31) % MCAPI_MAX_QUEUE_ENTRIES

theorem lastCompleted_even (n : ℕ) : lastCompleted (u32 (2 * n)) = u32 (2 * n) := by
  unfold lastCompleted u32
  omega

theorem even_u32 (n : ℕ) : u32 (2 * n) % 2 = 0 := by
  unfold u32
  omega

theorem qindexOf_u32 (n : ℕ) : qindexOf (u32 (2 * n)) = ringSlot n := by
  have h : u32 (2 * n) / 2 = n % 2 ^ 31 := by unfold u32; omega
  rw [qindexOf, h, ringSlot]

/-- The two counter steps of an operation count it. -/
theorem u32_two_steps (n : ℕ) : u32 (u32 (u32 (2 * n) + 1) + 1) = u32 (2 * (n + 1)) := by
  unfold u32
  omega

/-- An odd counter is that of the operation in progress. -/
theorem lastCompleted_u32 (n : ℕ) {b : ℕ} (hb : b ≤ 1) :
    lastCompleted (u32 (2 * n + b)) = u32 (2 * n) := by
  unfold lastCompleted u32
  omega

/-- On counters that count the pushes and the pops so far, the tail test
succeeds while there is room for one more push. -/
theorem tailStatus_u32 {u a : ℕ} (h : a ≤ 2 * u) (hd : 2 * u < a + 2 ^ 31) :
    tailStatus (u32 (2 * u)) (u32 a) = MCAPI_SUCCESS ↔
      2 * u + 2 ≤ a + 2 * MCAPI_MAX_QUEUE_ENTRIES := by
  have hsub : subU32 (u32 (2 * u)) (u32 a) = 2 * u - a := subU32_u32 h (by omega)
  constructor
  · intro hs
    have := le_of_tailStatus_success (by rw [hsub]; omega) hs
    rw [hsub] at this
    omega
  · intro hle
    exact tailStatus_success (by rw [hsub]; omega)

/-- The head test succeeds while a completed push is not popped yet. -/
theorem headStatus_u32 {u a : ℕ} (h : 2 * a ≤ u) (hd : u < 2 * a + 2 ^ 32) :
    headStatus (u32 u) (u32 (2 * a)) = MCAPI_SUCCESS ↔ 2 * a + 2 ≤ u := by
  rw [headStatus_success_iff (u32_lt _) (u32_lt _), subU32_u32 h hd]
  omega

theorem ringSlot_of_lt {n : ℕ} (h : n < 2 ^ 31) : ringSlot n = n % MCAPI_MAX_QUEUE_ENTRIES := by
  rw [ringSlot, Nat.mod_eq_of_lt h]

end MxApi
