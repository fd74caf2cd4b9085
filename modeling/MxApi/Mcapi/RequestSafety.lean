/-
What the request table guarantees at every point of an interleaving of reserves
and removes, and the interleaving in which it does not.

[`RequestTableOk`] is the contract: no assert has failed, an index has at most
one owner, and between calls the bits, the states and `curr_count` tell the same
story, with every free index open to be reserved again. It holds of every run in
which a reserve sets bits of free requests only (`NoLeak`). Without the guard it
fails with two threads: `mcapi_trans_remove_request` releases the index before
it frees the state, so a reserve may set the bit in between, fail its exchange
on the state and move on to another index. The bit stays set over a free request
that no reserve can take any more.
-/
import MxApi.Mcapi.RequestInvariant

set_option autoImplicit false

namespace MxApi

open Lib mcapi_request_state

section Contract

variable {τ : Type} [DecidableEq τ]

/-- Thread `t` has request `r`: a reserve has exchanged its state for `t`, and no
remove by `t` has freed it yet. -/
def Holds (s : ReqSys τ) (t : τ) (r : ℕ) : Prop :=
  s.owned t r = true ∨ ∃ g, (s.pc t).claim = some (r, g) ∧ g ≠ .claimed

/-- No call is in progress. -/
def ReqSys.quiet (s : ReqSys τ) : Prop := ∀ t, s.pc t = .idle

/-- The indices whose request is not free. -/
def mcapi_requests.inUse (rq : mcapi_requests) : Finset ℕ :=
  (Finset.range MCAPI_MAX_REQUESTS).filter fun r => (rq.data r).state ≠ REQUEST_FREE

/-- The contract of the request table. -/
structure RequestTableOk (s : ReqSys τ) : Prop where
  no_assert_fails : ∀ t, s.pc t ≠ .failed
  one_owner : ∀ t t' r, Holds s t r → Holds s t' r → t = t'
  bits : s.quiet → ∀ r < MCAPI_MAX_REQUESTS,
    s.rq.bit r = true ↔ (s.rq.data r).state ≠ REQUEST_FREE
  count : s.quiet → s.rq.reserves_header.curr_count = s.rq.inUse.card
  reusable : s.quiet → ∀ r < MCAPI_MAX_REQUESTS, (s.rq.data r).state = REQUEST_FREE → ∀ t,
    ∃ s', Run reqStep (fun _ _ _ => True) s s' ∧ s'.pc t = .idle ∧ s'.owned t r = true

/-! ## From the invariant to the contract -/

variable {ph : Phases τ} {s : ReqSys τ}

omit [DecidableEq τ] in
theorem ReqInv.phase_of_holds (h : ReqInv ph s) {t : τ} {r : ℕ} (hh : Holds s t r) :
    ∃ g, ph r = some (t, g) := by
  rcases hh with ho | ⟨g, hc, -⟩
  · exact ⟨.held, (h.owned t r).mp ho⟩
  · exact ⟨g, ((h.claim t r g).mp hc).1⟩

omit [DecidableEq τ] in
/-- Between calls an index is free or owned by a thread. -/
theorem ReqInv.quiet_phase (h : ReqInv ph s) (hq : s.quiet) (r : ℕ) :
    ph r = none ∨ ∃ t, ph r = some (t, .held) := by
  rcases hp : ph r with _ | ⟨t, g⟩
  · exact .inl rfl
  · refine .inr ⟨t, ?_⟩
    by_cases hg : g = .held
    · rw [hg]
    · -- any other stage would put the thread inside a call
      have hclaim := (h.claim t r g).mpr ⟨hp, hg⟩
      rw [hq t] at hclaim
      cases hclaim

omit [DecidableEq τ] in
/-- Between calls a phase is told from the request's state alone. -/
theorem ReqInv.quiet_bit (h : ReqInv ph s) (hq : s.quiet) (r : ℕ) :
    phaseBit (ph r) = phaseCounted (ph r) ∧
      (phaseBit (ph r) = true ↔ (s.rq.data r).state ≠ REQUEST_FREE) := by
  have hstate := h.state r
  rcases h.quiet_phase hq r with hp | ⟨t, hp⟩
  · rw [hp] at hstate ⊢
    refine ⟨rfl, ?_⟩
    constructor
    · intro hb
      cases hb
    · intro hne
      exact absurd hstate hne
  · rw [hp] at hstate ⊢
    exact ⟨rfl, fun _ => hstate, fun _ => rfl⟩

omit [DecidableEq τ] in
theorem ReqInv.quiet_count (h : ReqInv ph s) (hq : s.quiet) :
    s.rq.reserves_header.curr_count = s.rq.inUse.card := by
  rw [h.count, countOf, mcapi_requests.inUse]
  have hsame : ∀ r ∈ Finset.range MCAPI_MAX_REQUESTS,
      (phaseCounted (ph r) = true ↔ (s.rq.data r).state ≠ REQUEST_FREE) := by
    intro r _
    obtain ⟨hb, hiff⟩ := h.quiet_bit hq r
    rw [← hb, hiff]
  rw [Finset.filter_congr hsame]

/-- The next step of a thread, as a run. -/
theorem run_reqNext {s : ReqSys τ} {t : τ} (rand : ℕ) {q : ReqPc} (hpc : s.pc t = q)
    (hi : q ≠ .idle) (hf : q ≠ .failed) :
    Run reqStep (fun _ _ _ => True) s (reqNext s t rand q) := by
  refine Run.single (a := .step t rand) ?_ trivial
  rw [reqStep, if_neg (by rw [hpc]; simp [hi, hf]), hpc]
  rfl

/-- The steps of a reserve that draws the free index `r` and runs alone. -/
theorem reserve_run (h : ReqInv ph s) (hq : s.quiet) {r : ℕ} (hr : r < MCAPI_MAX_REQUESTS)
    (hfree : (s.rq.data r).state = REQUEST_FREE) (t : τ) :
    ∃ s', Run reqStep (fun _ _ _ => True) s s' ∧ s'.pc t = .idle ∧ s'.owned t r = true := by
  have hbit : s.rq.bit r = false := by
    rw [h.bit]
    obtain ⟨-, hiff⟩ := h.quiet_bit hq r
    by_contra hb
    exact hiff.mp (by simpa using hb) hfree
  -- the free index itself leaves room below `max_count`
  have hroom : s.rq.reserves_header.max_count > s.rq.reserves_header.curr_count := by
    have hsub : s.rq.inUse ⊆ (Finset.range MCAPI_MAX_REQUESTS).erase r := by
      intro i hi
      obtain ⟨hmem, hne⟩ := Finset.mem_filter.mp hi
      refine Finset.mem_erase.mpr ⟨?_, hmem⟩
      rintro rfl
      exact hne hfree
    have hcard := Finset.card_le_card hsub
    rw [Finset.card_erase_of_mem (Finset.mem_range.mpr hr), Finset.card_range] at hcard
    rw [h.max, h.quiet_count hq]
    omega
  have hmod : r % MCAPI_MAX_REQUESTS = r := Nat.mod_eq_of_lt hr
  -- the call, and the index drawn
  let s₁ : ReqSys τ := { s with pc := Function.update s.pc t .checkCount }
  have run₁ : Run reqStep (fun _ _ _ => True) s s₁ :=
    Run.single (a := .reserve t) (by rw [reqStep, if_pos (hq t)]) trivial
  let s₂ : ReqSys τ := { s with pc := Function.update s.pc t (.checkPartition r) }
  have run₂ : Run reqStep (fun _ _ _ => True) s₁ s₂ := by
    have := run_reqNext (s := s₁) (t := t) r (Function.update_self ..) (by simp) (by simp)
    simpa only [reqNext, reqProgram, s₁, s₂, if_pos hroom, hmod, Function.update_idem] using this
  let s₃ : ReqSys τ := { s with pc := Function.update s.pc t (.setBit r) }
  have run₃ : Run reqStep (fun _ _ _ => True) s₂ s₃ := by
    have := run_reqNext (s := s₂) (t := t) r (Function.update_self ..) (by simp) (by simp)
    simpa only [reqNext, reqProgram, s₂, s₃, if_pos (partition_ne_of_bit s.rq r hbit),
      Function.update_idem] using this
  -- the three records, one after another
  let rq₄ := (s.rq.updateBit mrapi_atomic_set r).2
  let s₄ : ReqSys τ := { s with rq := rq₄, pc := Function.update s.pc t (.casValid r) }
  have run₄ : Run reqStep (fun _ _ _ => True) s₃ s₄ := by
    have := run_reqNext (s := s₃) (t := t) r (Function.update_self ..) (by simp) (by simp)
    simpa only [reqNext, reqProgram, s₃, s₄, rq₄, updateBit_set_fst, hbit, Bool.not_false, if_true,
      Function.update_idem] using this
  have hfree₄ : (rq₄.data r).state = REQUEST_FREE := hfree
  let rq₅ := (rq₄.casState r REQUEST_FREE REQUEST_VALID).2
  let s₅ : ReqSys τ := { s with rq := rq₅, pc := Function.update s.pc t (.incCount r) }
  have run₅ : Run reqStep (fun _ _ _ => True) s₄ s₅ := by
    have := run_reqNext (s := s₄) (t := t) r (Function.update_self ..) (by simp) (by simp)
    simpa only [reqNext, reqProgram, s₄, s₅, rq₅, casState_of_eq hfree₄, if_true,
      Function.update_idem] using this
  have run₆ := run_reqNext (s := s₅) (t := t) r (Function.update_self ..) (by simp) (by simp)
  refine ⟨_, ((((run₁.trans run₂).trans run₃).trans run₄).trans run₅).trans run₆, ?_, ?_⟩
  · simp [reqNext, reqProgram]
  · simp [reqNext, reqProgram, setOwned]

/-- The invariant gives the contract. -/
theorem ReqInv.table_ok (h : ReqInv ph s) : RequestTableOk s where
  no_assert_fails := h.no_fail
  one_owner := by
    intro t t' r hh hh'
    obtain ⟨g, hg⟩ := h.phase_of_holds hh
    obtain ⟨g', hg'⟩ := h.phase_of_holds hh'
    rw [hg] at hg'
    cases hg'
    rfl
  bits := by
    intro hq r _
    rw [h.bit]
    exact (h.quiet_bit hq r).2
  count := h.quiet_count
  reusable := fun hq _ hr hfree t => reserve_run h hq hr hfree t

/-- **The request table under any interleaving.** As long as a reserve sets the
bit of free requests only, the table keeps its contract, for any number of
threads and at every point of every run. -/
theorem request_table_ok (s : ReqSys τ) (hrun : Run reqStep NoLeak (ReqSys.init τ) s) :
    RequestTableOk s := by
  obtain ⟨ph, h⟩ := run_reqInv hrun
  exact h.table_ok

end Contract

/-- Two threads take two requests, and one of them is removed. -/
theorem request_table_ok_after_remove :
    ∃ s : ReqSys Bool, s.quiet ∧ s.owned true 1 = true ∧ RequestTableOk s := by
  have hexec : (exec reqStep (fun s a t => decide (NoLeak s a t)) (ReqSys.init Bool)
      [.reserve false, .step false 0, .step false 0, .step false 0, .step false 0, .step false 0,
        .reserve true, .step true 1, .step true 1, .step true 1, .step true 1, .step true 1,
        .advance false 0 REQUEST_CANCELLED, .remove false 0, .step false 0, .step false 0,
        .step false 0, .step false 0, .step false 0]).any
      (fun s => (s.pc false == .idle) && (s.pc true == .idle) && s.owned true 1) = true := by
    decide
  obtain ⟨s, hrun, hs⟩ := exec_run_of_any hexec
  simp only [Bool.and_eq_true, beq_iff_eq] at hs
  refine ⟨s, ?_, hs.2, request_table_ok s (hrun.mono fun _ _ _ hg => of_decide_eq_true hg)⟩
  rintro (_ | _)
  · exact hs.1.1
  · exact hs.1.2

/-! ## The lost index -/

/-- Thread `true` reserves index `0` while thread `false` is removing it. -/
def leakSchedule : List (ReqLabel Bool) :=
  -- `false` reserves request 0, finishes it, and releases its index
  [.reserve false, .step false 0, .step false 0, .step false 0, .step false 0, .step false 0,
    .advance false 0 REQUEST_COMPLETED, .remove false 0, .step false 0,
  -- `true` sets the bit again, fails on the state and takes request 1 instead
    .reserve true, .step true 0, .step true 0, .step true 0, .step true 0,
    .step true 1, .step true 1, .step true 1, .step true 1, .step true 1,
  -- `false` finishes its remove
    .step false 0, .step false 0, .step false 0]

/-- The bit of a free request stays set when no call is in progress. -/
def leaked (s : ReqSys Bool) : Bool :=
  (s.pc false == .idle) && (s.pc true == .idle) && s.rq.bit 0 &&
    ((s.rq.data 0).state == REQUEST_FREE)

theorem leakSchedule_leaks :
    (exec reqStep (fun _ _ _ => true) (ReqSys.init Bool) leakSchedule).any leaked = true := by
  decide

/-- **The contract fails with two threads.** -/
theorem request_table_leaks_index :
    ¬ ∀ (τ : Type) [DecidableEq τ] (s : ReqSys τ),
      Run reqStep (fun _ _ _ => True) (ReqSys.init τ) s → RequestTableOk s := by
  intro hok
  obtain ⟨s, hrun, hs⟩ := exec_run_of_any leakSchedule_leaks
  have h := hok Bool s (hrun.mono fun _ _ _ _ => trivial)
  simp only [leaked, Bool.and_eq_true, beq_iff_eq] at hs
  obtain ⟨⟨⟨hfalse, htrue⟩, hbit⟩, hfree⟩ := hs
  have hquiet : s.quiet := by
    rintro (_ | _)
    · exact hfalse
    · exact htrue
  exact (h.bits hquiet 0 (by decide)).mp hbit hfree

end MxApi
