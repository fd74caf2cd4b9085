/-
The request table of a process (`Fragments/transport_sm_request_abb.c`):
`mcapi_trans_reserve_request` and `mcapi_trans_remove_request` as programs of
atomic steps, run by any number of threads in any interleaving.

Three records say which requests are in use: the bit set, each request's state
and `curr_count`. A reserve updates bit, state, count; a remove updates bit,
count, state. Every access to one of them is a step of its own, so a program
point of [`ReqPc`] is a place between two such accesses.

The random index is a parameter of the step that draws it: `sys_os_rand` scaled
to the table is taken to return any index below `MCAPI_MAX_REQUESTS`. What a
thread does with a request it owns between a reserve and a remove is the step
`advance`, which moves the request's state as the operations on requests do.
-/
import Mathlib.Logic.Function.Basic
import Mathlib.Tactic.Linarith
import MxApi.Lib.Run
import MxApi.Mrapi.AtomicBit

set_option autoImplicit false

namespace MxApi

/-! ## Data -/

def MCAPI_MAX_REQUESTS : ℕ := 1024

inductive mcapi_request_state
  | REQUEST_FREE
  | REQUEST_VALID
  | REQUEST_RECEIVED
  | REQUEST_COMPLETED
  | REQUEST_CANCELLED
  deriving DecidableEq, Repr

open mcapi_request_state

/-- The fields of a request that reserving and removing it touch. -/
structure mcapi_request_data where
  state : mcapi_request_state
  ep_qindex : ℤ
  deriving DecidableEq, Repr

structure indexed_array_header where
  set : ℕ → BitVec 32
  curr_count : ℤ
  max_count : ℤ

structure mcapi_requests where
  reserves_header : indexed_array_header
  data : ℕ → mcapi_request_data

/-- `mcapi_trans_init_indexed_array` on zeroed memory. -/
def mcapi_trans_init_indexed_array : mcapi_requests where
  reserves_header := ⟨fun _ => 0, 0, MCAPI_MAX_REQUESTS⟩
  data := fun _ => ⟨REQUEST_FREE, -1⟩

/-- The bit of request `r` in the bit set. -/
def mcapi_requests.bit (rq : mcapi_requests) (r : ℕ) : Bool :=
  (rq.reserves_header.set (r / 32)).getLsbD (r % 32)

/-- The atomic set or clear `op` on the bit of request `r`. -/
def mcapi_requests.updateBit (rq : mcapi_requests)
    (op : BitVec 32 → ℕ → Bool × BitVec 32) (r : ℕ) : Bool × mcapi_requests :=
  let header := rq.reserves_header
  let result := op (header.set (r / 32)) (r % 32)
  (result.1, { rq with reserves_header :=
    { header with set := Function.update header.set (r / 32) result.2 } })

/-- The compare-and-swap on the state of request `r`: whether it succeeded, and
the table it leaves. -/
def mcapi_requests.casState (rq : mcapi_requests) (r : ℕ)
    (oldstate newstate : mcapi_request_state) : Bool × mcapi_requests :=
  if (rq.data r).state = oldstate then
    (true, { rq with data := Function.update rq.data r { rq.data r with state := newstate } })
  else (false, rq)

/-- `mrapi_atomic_inc` and `mrapi_atomic_dec` on `curr_count`. -/
def mcapi_requests.addCount (rq : mcapi_requests) (d : ℤ) : mcapi_requests :=
  { rq with reserves_header :=
    { rq.reserves_header with curr_count := rq.reserves_header.curr_count + d } }

/-! ## Programs -/

/-- Where a thread stands. -/
inductive ReqPc
  | idle
  /-- `while(header->max_count > header->curr_count)` -/
  | checkCount
  /-- `~(uint32_t)0 != header->set[partition]` -/
  | checkPartition (test_r : ℕ)
  /-- `mrapi_atomic_set` on the drawn index -/
  | setBit (test_r : ℕ)
  /-- the exchange `REQUEST_FREE` to `REQUEST_VALID` -/
  | casValid (r : ℕ)
  /-- `mrapi_atomic_inc` of `curr_count`, then `TRUE` is returned -/
  | incCount (r : ℕ)
  /-- `mcapi_trans_request_release_index` -/
  | clearBit (r : ℕ)
  /-- `mrapi_atomic_dec` of `curr_count` -/
  | decCount (r : ℕ)
  /-- `ep_qindex = -1` -/
  | clearQindex (r : ℕ)
  /-- the exchange `REQUEST_COMPLETED` to `REQUEST_FREE` -/
  | casCompleted (r : ℕ)
  /-- the exchange `REQUEST_CANCELLED` to `REQUEST_FREE` -/
  | casCancelled (r : ℕ)
  /-- an assert failed -/
  | failed
  deriving DecidableEq, Repr

/-- The table, where each thread stands, and the requests each thread owns:
those a reserve returned to it and that it has not passed to remove. -/
structure ReqSys (τ : Type) where
  rq : mcapi_requests
  pc : τ → ReqPc
  owned : τ → ℕ → Bool

inductive ReqLabel (τ : Type)
  /-- `t` calls `mcapi_trans_reserve_request` -/
  | reserve (t : τ)
  /-- `t` calls `mcapi_trans_remove_request` on its finished request `r` -/
  | remove (t : τ) (r : ℕ)
  /-- an operation of `t` moves the state of its request `r` -/
  | advance (t : τ) (r : ℕ) (newstate : mcapi_request_state)
  /-- the next atomic step of `t`; `rand` is the index drawn if it draws one -/
  | step (t : τ) (rand : ℕ)

/-- The moves operations make on a request between reserve and remove. -/
def advances : mcapi_request_state → mcapi_request_state → Bool
  | REQUEST_VALID, REQUEST_RECEIVED => true
  | REQUEST_VALID, REQUEST_COMPLETED => true
  | REQUEST_VALID, REQUEST_CANCELLED => true
  | REQUEST_RECEIVED, REQUEST_COMPLETED => true
  | _, _ => false

/-- A request that may be removed. -/
def finished (st : mcapi_request_state) : Bool :=
  st = REQUEST_COMPLETED || st = REQUEST_CANCELLED

/-- One atomic step of a thread at a program point: the table it leaves, where
the thread stands then, and the index a reserve returns if it returns one. -/
def reqProgram (rq : mcapi_requests) (rand : ℕ) : ReqPc → mcapi_requests × ReqPc × Option ℕ
  | .idle => (rq, .idle, none)
  | .checkCount =>
    if rq.reserves_header.max_count > rq.reserves_header.curr_count then
      (rq, .checkPartition (rand % MCAPI_MAX_REQUESTS), none)
    else (rq, .idle, none)
  | .checkPartition test_r =>
    if rq.reserves_header.set (test_r / 32) ≠ BitVec.allOnes 32 then (rq, .setBit test_r, none)
    else (rq, .checkCount, none)
  | .setBit test_r =>
    let result := rq.updateBit mrapi_atomic_set test_r
    if result.1 then (result.2, .casValid test_r, none) else (result.2, .checkCount, none)
  | .casValid r =>
    let result := rq.casState r REQUEST_FREE REQUEST_VALID
    if result.1 then (result.2, .incCount r, none) else (result.2, .checkCount, none)
  | .incCount r => (rq.addCount 1, .idle, some r)
  | .clearBit r =>
    let result := rq.updateBit mrapi_atomic_clear r
    if result.1 then (result.2, .decCount r, none) else (result.2, .clearQindex r, none)
  | .decCount r => (rq.addCount (-1), .clearQindex r, none)
  | .clearQindex r =>
    ({ rq with data := Function.update rq.data r { rq.data r with ep_qindex := -1 } },
      .casCompleted r, none)
  | .casCompleted r =>
    let result := rq.casState r REQUEST_COMPLETED REQUEST_FREE
    if result.1 then (result.2, .idle, none) else (result.2, .casCancelled r, none)
  | .casCancelled r =>
    let result := rq.casState r REQUEST_CANCELLED REQUEST_FREE
    if result.1 then (result.2, .idle, none) else (result.2, .failed, none)
  | .failed => (rq, .failed, none)

section System

variable {τ : Type} [DecidableEq τ]

/-- `owned` after thread `t` gained or lost request `r`. -/
def setOwned (owned : τ → ℕ → Bool) (t : τ) (r : ℕ) (b : Bool) : τ → ℕ → Bool :=
  Function.update owned t (Function.update (owned t) r b)

def reqStep (s : ReqSys τ) : ReqLabel τ → Option (ReqSys τ)
  | .reserve t =>
    if s.pc t = .idle then some { s with pc := Function.update s.pc t .checkCount } else none
  | .remove t r =>
    if s.pc t = .idle ∧ s.owned t r = true ∧ finished (s.rq.data r).state then
      some { s with
        pc := Function.update s.pc t (.clearBit r)
        owned := setOwned s.owned t r false }
    else none
  | .advance t r newstate =>
    if s.pc t = .idle ∧ s.owned t r = true ∧ advances (s.rq.data r).state newstate then
      some { s with rq := (s.rq.casState r (s.rq.data r).state newstate).2 }
    else none
  | .step t rand =>
    if s.pc t = .idle ∨ s.pc t = .failed then none
    else
      let next := reqProgram s.rq rand (s.pc t)
      some {
        rq := next.1
        pc := Function.update s.pc t next.2.1
        owned := match next.2.2 with
          | some r => setOwned s.owned t r true
          | none => s.owned }

/-- All threads outside the two functions, no request in use. -/
def ReqSys.init (τ : Type) : ReqSys τ :=
  ⟨mcapi_trans_init_indexed_array, fun _ => .idle, fun _ _ => false⟩

end System

/-! ## Lemmas about the table's operations -/

section Operations

variable (rq : mcapi_requests) (r r' : ℕ)

theorem div_mod_32 (h : r' / 32 = r / 32) (h' : r' % 32 = r % 32) : r' = r := by omega

theorem bit_updateBit {op : BitVec 32 → ℕ → Bool × BitVec 32} {b : Bool}
    (hop : ∀ w i, (op w (r % 32)).2.getLsbD i = if i = r % 32 then b else w.getLsbD i) :
    (rq.updateBit op r).2.bit r' = if r' = r then b else rq.bit r' := by
  simp only [mcapi_requests.updateBit, mcapi_requests.bit]
  by_cases hw : r' / 32 = r / 32
  · rw [hw, Function.update_self, hop]
    by_cases hi : r' % 32 = r % 32
    · rw [if_pos hi, if_pos (div_mod_32 r r' hw hi)]
    · rw [if_neg hi, if_neg (fun h => hi (by rw [h]))]
  · rw [Function.update_of_ne hw, if_neg (fun h => hw (by rw [h]))]

theorem bit_set : (rq.updateBit mrapi_atomic_set r).2.bit r' = if r' = r then true else rq.bit r' :=
  bit_updateBit rq r r' fun w i => mrapi_atomic_set_getLsbD w (Nat.mod_lt _ (by norm_num)) i

theorem bit_clear :
    (rq.updateBit mrapi_atomic_clear r).2.bit r' = if r' = r then false else rq.bit r' :=
  bit_updateBit rq r r' fun w i => mrapi_atomic_clear_getLsbD w (Nat.mod_lt _ (by norm_num)) i

theorem updateBit_set_fst : (rq.updateBit mrapi_atomic_set r).1 = !rq.bit r := rfl

theorem updateBit_clear_fst : (rq.updateBit mrapi_atomic_clear r).1 = rq.bit r := rfl

/-- Setting a bit that is set already changes nothing. -/
theorem updateBit_set_of_bit (h : rq.bit r = true) :
    (rq.updateBit mrapi_atomic_set r).2.reserves_header = rq.reserves_header := by
  have hword : (mrapi_atomic_set (rq.reserves_header.set (r / 32)) (r % 32)).2
      = rq.reserves_header.set (r / 32) := by
    apply BitVec.eq_of_getLsbD_eq
    intro i _
    rw [mrapi_atomic_set_getLsbD _ (Nat.mod_lt _ (by norm_num))]
    by_cases hi : i = r % 32
    · rw [if_pos hi, hi]
      exact h.symm
    · rw [if_neg hi]
  simp only [mcapi_requests.updateBit, hword, Function.update_eq_self]

@[simp] theorem updateBit_data (op : BitVec 32 → ℕ → Bool × BitVec 32) :
    (rq.updateBit op r).2.data = rq.data := rfl

@[simp] theorem updateBit_curr_count (op : BitVec 32 → ℕ → Bool × BitVec 32) :
    (rq.updateBit op r).2.reserves_header.curr_count = rq.reserves_header.curr_count := rfl

/-- A partition with a clear bit is not full. -/
theorem partition_ne_of_bit (h : rq.bit r = false) :
    rq.reserves_header.set (r / 32) ≠ BitVec.allOnes 32 := by
  intro hall
  rw [mcapi_requests.bit, hall, BitVec.getLsbD_allOnes] at h
  have hlt : r % 32 < 32 := Nat.mod_lt _ (by norm_num)
  simp [hlt] at h

end Operations

end MxApi
