/-
The invariant of the request table under any interleaving of reserves and
removes.

Over the table stands an abstract one, `ph : ℕ → Option (τ × Stage)`: each index
is free, or one thread has it at one [`Stage`] of its way from a reserve through
the thread's ownership to a remove. An index has one phase, so it has one owner,
and the three records of the table are functions of the phases: the bit and the
state of an index of its own phase, `curr_count` of how many are counted.

One step breaks this picture. A remove clears the bit before it frees the state,
and a reserve that sets the bit in between fails its exchange on the state and
leaves the bit set for good. [`NoLeak`] is the guard that excludes exactly this
step; [`reqStep_inv`] is the step lemma under it.
-/
import Mathlib.Data.Finset.Card
import Mathlib.Data.Finset.Range
import MxApi.Mcapi.RequestTable

set_option autoImplicit false

namespace MxApi

open Lib mcapi_request_state

/-! ## Phases -/

/-- The stages an index goes through in the hands of one thread. -/
inductive Stage
  /-- the bit is set, the state is still to be exchanged -/
  | claimed
  /-- the state is exchanged, the index is still to be counted -/
  | fresh
  /-- owned: the reserve has returned, remove is not called yet -/
  | held
  /-- remove is called, the bit is still set -/
  | releasing
  /-- the bit is cleared, the index is still counted -/
  | uncounting
  /-- not counted any more, the state is still to be freed -/
  | clearing
  deriving DecidableEq, Repr

/-- The bit of an index at a stage. -/
def Stage.bit : Stage → Bool
  | .claimed | .fresh | .held | .releasing => true
  | .uncounting | .clearing => false

/-- Whether an index at a stage is counted by `curr_count`. -/
def Stage.counted : Stage → Bool
  | .held | .releasing | .uncounting => true
  | .claimed | .fresh | .clearing => false

/-- The states an index can be in at a stage. -/
def Stage.admits : Stage → mcapi_request_state → Prop
  | .claimed, st => st = REQUEST_FREE
  | .fresh, st | .held, st => st ≠ REQUEST_FREE
  | .releasing, st | .uncounting, st | .clearing, st => finished st = true

/-- The index a program point works on, and the stage it has it at. -/
def ReqPc.claim : ReqPc → Option (ℕ × Stage)
  | .casValid r => some (r, .claimed)
  | .incCount r => some (r, .fresh)
  | .clearBit r => some (r, .releasing)
  | .decCount r => some (r, .uncounting)
  | .clearQindex r | .casCompleted r | .casCancelled r => some (r, .clearing)
  | .idle | .checkCount | .checkPartition _ | .setBit _ | .failed => none

/-- The index a program point is about to draw on, if it has drawn one. -/
def ReqPc.drawn : ReqPc → Option ℕ
  | .checkPartition r | .setBit r => some r
  | _ => none

/-- The index whose bit a program point is about to set. -/
def ReqPc.toSet : ReqPc → Option ℕ
  | .setBit r => some r
  | _ => none

section Phases

variable {τ : Type}

abbrev Phases (τ : Type) := ℕ → Option (τ × Stage)

/-- What a thread works on when index `r` is in the phase `p` by its hands. -/
def claimOf (r : ℕ) (p : Option (τ × Stage)) : Option (ℕ × Stage) :=
  p.bind fun x => if x.2 = .held then none else some (r, x.2)

theorem claimOf_eq_some {r r' : ℕ} {p : Option (τ × Stage)} {g : Stage} :
    claimOf r p = some (r', g) ↔ r' = r ∧ (∃ t, p = some (t, g)) ∧ g ≠ .held := by
  rcases p with _ | ⟨t, g'⟩
  · simp [claimOf]
  · simp only [claimOf, Option.bind_some]
    by_cases hg : g' = .held
    · rw [if_pos hg]
      constructor
      · exact nofun
      · rintro ⟨-, ⟨t', ht'⟩, hne⟩
        cases ht'
        exact absurd hg hne
    · rw [if_neg hg]
      constructor
      · intro h
        cases h
        exact ⟨rfl, ⟨t, rfl⟩, hg⟩
      · rintro ⟨rfl, ⟨t', ht'⟩, -⟩
        cases ht'
        rfl

def phaseBit (p : Option (τ × Stage)) : Bool := p.elim false fun x => x.2.bit

def phaseCounted (p : Option (τ × Stage)) : Bool := p.elim false fun x => x.2.counted

def phaseAdmits (p : Option (τ × Stage)) (st : mcapi_request_state) : Prop :=
  p.elim (st = REQUEST_FREE) fun x => x.2.admits st

/-- The number of indices `curr_count` stands for. -/
def countOf (ph : Phases τ) : ℕ :=
  ((Finset.range MCAPI_MAX_REQUESTS).filter fun r => phaseCounted (ph r) = true).card

/-- The count after the phase of one index changed. -/
theorem countOf_update (ph : Phases τ) {r : ℕ} (hr : r < MCAPI_MAX_REQUESTS)
    (x : Option (τ × Stage)) :
    (countOf (Function.update ph r x) : ℤ)
      = countOf ph - (if phaseCounted (ph r) then 1 else 0) + (if phaseCounted x then 1 else 0) := by
  have hmem : r ∈ Finset.range MCAPI_MAX_REQUESTS := Finset.mem_range.mpr hr
  -- count the other indices first; they keep their phases
  have hsplit : ∀ f : Phases τ, countOf f
      = (((Finset.range MCAPI_MAX_REQUESTS).erase r).filter fun i => phaseCounted (f i) = true).card
        + if phaseCounted (f r) then 1 else 0 := by
    intro f
    rw [countOf, ← Finset.insert_erase hmem, Finset.filter_insert]
    by_cases hc : phaseCounted (f r) = true
    · rw [if_pos hc, if_pos hc, Finset.card_insert_of_notMem (by simp)]
      simp
    · rw [if_neg hc, if_neg hc]
      simp
  have hother : (((Finset.range MCAPI_MAX_REQUESTS).erase r).filter
        fun i => phaseCounted (Function.update ph r x i) = true)
      = ((Finset.range MCAPI_MAX_REQUESTS).erase r).filter fun i => phaseCounted (ph i) = true := by
    apply Finset.filter_congr
    intro i hi
    rw [Function.update_of_ne (Finset.mem_erase.mp hi).1]
  rw [hsplit (Function.update ph r x), hsplit ph, hother, Function.update_self]
  push_cast
  omega

end Phases

/-! ## The invariant -/

section Invariant

variable {τ : Type} [DecidableEq τ]

/-- The table and the threads agree with the phases `ph`. -/
structure ReqInv (ph : Phases τ) (s : ReqSys τ) : Prop where
  max : s.rq.reserves_header.max_count = MCAPI_MAX_REQUESTS
  no_fail : ∀ t, s.pc t ≠ .failed
  claim : ∀ t r g, (s.pc t).claim = some (r, g) ↔ ph r = some (t, g) ∧ g ≠ .held
  owned : ∀ t r, s.owned t r = true ↔ ph r = some (t, .held)
  bit : ∀ r, s.rq.bit r = phaseBit (ph r)
  state : ∀ r, phaseAdmits (ph r) (s.rq.data r).state
  cancelled : ∀ t r, s.pc t = .casCancelled r → (s.rq.data r).state = REQUEST_CANCELLED
  range : ∀ r, ph r ≠ none → r < MCAPI_MAX_REQUESTS
  drawn : ∀ t r, (s.pc t).drawn = some r → r < MCAPI_MAX_REQUESTS
  count : s.rq.reserves_header.curr_count = countOf ph

/-- No reserve sets the bit of an index whose state a remove has not freed yet. -/
def NoLeak (s : ReqSys τ) : ReqLabel τ → ReqSys τ → Prop
  | .step t _, _ => ∀ r, s.pc t = .setBit r → s.rq.bit r = false →
      (s.rq.data r).state = REQUEST_FREE
  | _, _ => True

omit [DecidableEq τ] in
/-- The guard looks at one index only. -/
theorem noLeak_step_iff {s s' : ReqSys τ} {t : τ} {rand : ℕ} :
    NoLeak s (.step t rand) s' ↔ (s.pc t).toSet.all fun r =>
      s.rq.bit r || (s.rq.data r).state == REQUEST_FREE := by
  cases hpc : s.pc t with
  | setBit r => cases hb : s.rq.bit r <;> simp [NoLeak, hpc, hb, ReqPc.toSet]
  | _ => simp [NoLeak, hpc, ReqPc.toSet]

instance (s s' : ReqSys τ) (a : ReqLabel τ) : Decidable (NoLeak s a s') :=
  match a with
  | .step _ _ => decidable_of_iff' _ noLeak_step_iff
  | .reserve _ | .remove _ _ | .advance _ _ _ => isTrue trivial

omit [DecidableEq τ] in
theorem ReqInv.init : ReqInv (fun _ => none) (ReqSys.init τ) where
  max := rfl
  no_fail := fun _ => nofun
  claim := fun t r g => by simp [ReqSys.init, ReqPc.claim]
  owned := fun t r => by simp [ReqSys.init]
  bit := fun r => by
    simp [ReqSys.init, mcapi_trans_init_indexed_array, mcapi_requests.bit, phaseBit]
  state := fun r => rfl
  cancelled := fun t r h => by simp [ReqSys.init] at h
  range := fun r h => absurd rfl h
  drawn := fun t r h => by simp [ReqSys.init, ReqPc.drawn] at h
  count := by
    simp [ReqSys.init, mcapi_trans_init_indexed_array, countOf, phaseCounted]

/-! ## Moving one thread -/

/-- Where a thread's step changes the phase of one index `r`, which was free or
the thread's own before and is free or the thread's own after, threads and
phases agree again. -/
theorem claim_update {ph : Phases τ} {pc : τ → ReqPc} {t : τ} {r : ℕ}
    {x : Option (τ × Stage)} {p : ReqPc}
    (h : ∀ t r g, (pc t).claim = some (r, g) ↔ ph r = some (t, g) ∧ g ≠ .held)
    (hmine : ∀ t' g, ph r = some (t', g) → t' = t)
    (hmine' : ∀ t' g, x = some (t', g) → t' = t)
    (hold : (pc t).claim = claimOf r (ph r)) (hnew : p.claim = claimOf r x) :
    ∀ t' r' g, (Function.update pc t p t').claim = some (r', g) ↔
      Function.update ph r x r' = some (t', g) ∧ g ≠ .held := by
  intro t' r' g
  by_cases ht : t' = t
  · subst ht
    rw [Function.update_self, hnew, claimOf_eq_some]
    by_cases hr : r' = r
    · subst hr
      rw [Function.update_self]
      constructor
      · rintro ⟨-, ⟨t, hx⟩, hg⟩
        rw [hmine' t g hx] at hx
        exact ⟨hx, hg⟩
      · rintro ⟨hx, hg⟩
        exact ⟨rfl, ⟨t', hx⟩, hg⟩
    · rw [Function.update_of_ne hr]
      constructor
      · rintro ⟨hr', -⟩
        exact absurd hr' hr
      · intro hph
        have hclaim := (h t' r' g).mpr hph
        rw [hold, claimOf_eq_some] at hclaim
        exact absurd hclaim.1 hr
  · rw [Function.update_of_ne ht, h]
    by_cases hr : r' = r
    · subst hr
      rw [Function.update_self]
      constructor
      · rintro ⟨hph, -⟩
        exact absurd (hmine t' g hph) ht
      · rintro ⟨hx, -⟩
        exact absurd (hmine' t' g hx) ht
    · rw [Function.update_of_ne hr]

/-- A thread that moves between program points that work on the same index, or
on none, changes no phase. -/
theorem claim_same {ph : Phases τ} {pc : τ → ReqPc} {t : τ} {p : ReqPc}
    (h : ∀ t r g, (pc t).claim = some (r, g) ↔ ph r = some (t, g) ∧ g ≠ .held)
    (hp : p.claim = (pc t).claim) :
    ∀ t' r' g, (Function.update pc t p t').claim = some (r', g) ↔
      ph r' = some (t', g) ∧ g ≠ .held := by
  intro t' r' g
  by_cases ht : t' = t
  · subst ht
    rw [Function.update_self, hp, h]
  · rw [Function.update_of_ne ht, h]

/-- A property of all program points, after one thread moved. -/
theorem forall_update {P : τ → ReqPc → Prop} {pc : τ → ReqPc} {t : τ} {p : ReqPc}
    (h : ∀ t, P t (pc t)) (hp : P t p) : ∀ t', P t' (Function.update pc t p t') := by
  intro t'
  by_cases ht : t' = t
  · subst ht
    rw [Function.update_self]
    exact hp
  · rw [Function.update_of_ne ht]
    exact h t'

/-- Ownership and phases agree after index `r` changed its phase and thread `t`
its ownership of `r` accordingly. -/
theorem owned_update {ph : Phases τ} {owned : τ → ℕ → Bool} {t : τ} {r : ℕ}
    {x : Option (τ × Stage)} {b : Bool}
    (h : ∀ t r, owned t r = true ↔ ph r = some (t, .held))
    (hmine : ∀ t' g, ph r = some (t', g) → t' = t)
    (hmine' : ∀ t' g, x = some (t', g) → t' = t)
    (hb : b = true ↔ x = some (t, .held)) :
    ∀ t' r', setOwned owned t r b t' r' = true ↔
      Function.update ph r x r' = some (t', .held) := by
  intro t' r'
  by_cases ht : t' = t
  · subst ht
    rw [setOwned, Function.update_self]
    by_cases hr : r' = r
    · subst hr
      rw [Function.update_self, Function.update_self, hb]
    · rw [Function.update_of_ne hr, Function.update_of_ne hr, h]
  · rw [setOwned, Function.update_of_ne ht, h]
    by_cases hr : r' = r
    · subst hr
      rw [Function.update_self]
      constructor
      · exact fun hph => absurd (hmine t' _ hph) ht
      · exact fun hx => absurd (hmine' t' _ hx) ht
    · rw [Function.update_of_ne hr]

omit [DecidableEq τ] in
/-- Where a phase changes between stages that are not `held`, ownership stays. -/
theorem owned_same {ph : Phases τ} {owned : τ → ℕ → Bool} {r : ℕ}
    {x : Option (τ × Stage)}
    (h : ∀ t r, owned t r = true ↔ ph r = some (t, .held))
    (hold : ∀ t', ph r ≠ some (t', .held)) (hnew : ∀ t', x ≠ some (t', .held)) :
    ∀ t' r', owned t' r' = true ↔ Function.update ph r x r' = some (t', .held) := by
  intro t' r'
  rw [h]
  by_cases hr : r' = r
  · subst hr
    rw [Function.update_self]
    exact ⟨fun hph => absurd hph (hold t'), fun hx => absurd hx (hnew t')⟩
  · rw [Function.update_of_ne hr]

/-! ## Moving one thread through the invariant -/

/-- **A step that changes the phase of one index.** Thread `t` moves to the
program point `p` while index `r`, free or its own before and after, goes to the
phase `x`; the table changes at `r` only, and as `x` says. -/
theorem ReqInv.move {ph : Phases τ} {s : ReqSys τ} (h : ReqInv ph s) {t : τ} {r : ℕ}
    {x : Option (τ × Stage)} {p : ReqPc} {rq' : mcapi_requests} {owned' : τ → ℕ → Bool}
    (hr : r < MCAPI_MAX_REQUESTS)
    (hmine : ∀ t' g, ph r = some (t', g) → t' = t)
    (hmine' : ∀ t' g, x = some (t', g) → t' = t)
    (hold : (s.pc t).claim = claimOf r (ph r)) (hnew : p.claim = claimOf r x)
    (hp : p ≠ .failed) (hdrawn : p.drawn = none)
    (hmax : rq'.reserves_header.max_count = s.rq.reserves_header.max_count)
    (hbit : ∀ r', rq'.bit r' = if r' = r then phaseBit x else s.rq.bit r')
    (hdata : ∀ r', r' ≠ r → rq'.data r' = s.rq.data r')
    (hstate : phaseAdmits x (rq'.data r).state)
    (hcancelled : p = .casCancelled r → (rq'.data r).state = REQUEST_CANCELLED)
    (hcount : rq'.reserves_header.curr_count = s.rq.reserves_header.curr_count
      - (if phaseCounted (ph r) then 1 else 0) + (if phaseCounted x then 1 else 0))
    (howned : ∀ t' r', owned' t' r' = true ↔ Function.update ph r x r' = some (t', .held)) :
    ReqInv (Function.update ph r x) ⟨rq', Function.update s.pc t p, owned'⟩ where
  max := hmax.trans h.max
  no_fail := forall_update (P := fun _ q => q ≠ .failed) h.no_fail hp
  claim := claim_update h.claim hmine hmine' hold hnew
  owned := howned
  bit := by
    intro r'
    rw [hbit]
    by_cases hr' : r' = r
    · subst hr'
      rw [if_pos rfl, Function.update_self]
    · rw [if_neg hr', Function.update_of_ne hr', h.bit]
  state := by
    intro r'
    by_cases hr' : r' = r
    · subst hr'
      rw [Function.update_self]
      exact hstate
    · rw [Function.update_of_ne hr', hdata r' hr']
      exact h.state r'
  cancelled := by
    intro t' r' hpc
    dsimp only at hpc ⊢
    by_cases ht : t' = t
    · subst ht
      rw [Function.update_self] at hpc
      -- the program point works on `r`
      have hclaim : claimOf r x = some (r', .clearing) := by rw [← hnew, hpc]; rfl
      have hr' : r' = r := (claimOf_eq_some.mp hclaim).1
      subst hr'
      exact hcancelled hpc
    · rw [Function.update_of_ne ht] at hpc
      -- another thread works on another index
      have hph := ((h.claim t' r' .clearing).mp (by rw [hpc]; rfl)).1
      have hr' : r' ≠ r := fun he => ht (hmine t' _ (he ▸ hph))
      rw [hdata r' hr']
      exact h.cancelled t' r' hpc
  range := by
    intro r' hph
    by_cases hr' : r' = r
    · rw [hr']
      exact hr
    · rw [Function.update_of_ne hr'] at hph
      exact h.range r' hph
  drawn := forall_update (P := fun _ q => ∀ r', q.drawn = some r' → r' < MCAPI_MAX_REQUESTS)
    h.drawn (fun r' hd => by rw [hdrawn] at hd; cases hd)
  count := by
    rw [countOf_update ph hr, ← h.count]
    exact hcount

/-- **A step that changes no phase**, and neither bits, states nor the count. -/
theorem ReqInv.stay {ph : Phases τ} {s : ReqSys τ} (h : ReqInv ph s) {t : τ} {p : ReqPc}
    {rq' : mcapi_requests} (hclaim : p.claim = (s.pc t).claim) (hp : p ≠ .failed)
    (hdrawn : ∀ r, p.drawn = some r → r < MCAPI_MAX_REQUESTS)
    (hheader : rq'.reserves_header = s.rq.reserves_header)
    (hdata : ∀ r, (rq'.data r).state = (s.rq.data r).state)
    (hcancelled : ∀ r, p = .casCancelled r → (s.rq.data r).state = REQUEST_CANCELLED) :
    ReqInv ph ⟨rq', Function.update s.pc t p, s.owned⟩ where
  max := by rw [← h.max, ← hheader]
  no_fail := forall_update (P := fun _ q => q ≠ .failed) h.no_fail hp
  claim := claim_same h.claim hclaim
  owned := h.owned
  bit := by
    intro r
    rw [← h.bit r, mcapi_requests.bit, mcapi_requests.bit, hheader]
  state := by
    intro r
    rw [hdata r]
    exact h.state r
  cancelled := by
    intro t' r hpc
    rw [hdata r]
    exact forall_update
      (P := fun _ q => ∀ r, q = .casCancelled r → (s.rq.data r).state = REQUEST_CANCELLED)
      h.cancelled hcancelled t' r hpc
  range := h.range
  drawn := forall_update (P := fun _ q => ∀ r', q.drawn = some r' → r' < MCAPI_MAX_REQUESTS)
    h.drawn hdrawn
  count := by rw [← h.count, ← hheader]

omit [DecidableEq τ] in
/-- An operation on an owned request leaves every other index alone. -/
theorem ReqInv.advance {ph : Phases τ} {s : ReqSys τ} (h : ReqInv ph s) {t : τ} {r : ℕ}
    {newstate : mcapi_request_state} (ho : s.owned t r = true) (hnew : newstate ≠ REQUEST_FREE) :
    ReqInv ph { s with rq := (s.rq.casState r (s.rq.data r).state newstate).2 } := by
  have hph : ph r = some (t, .held) := (h.owned t r).mp ho
  have hrq : (s.rq.casState r (s.rq.data r).state newstate).2 = { s.rq with
      data := Function.update s.rq.data r { s.rq.data r with state := newstate } } := by
    rw [mcapi_requests.casState, if_pos rfl]
  rw [hrq]
  exact {
    max := h.max
    no_fail := h.no_fail
    claim := h.claim
    owned := h.owned
    bit := h.bit
    state := by
      intro r'
      by_cases hr' : r' = r
      · subst hr'
        rw [hph]
        simpa [phaseAdmits, Stage.admits] using hnew
      · have := h.state r'
        simpa only [Function.update_of_ne hr'] using this
    cancelled := by
      intro t' r' hpc
      have hph' := ((h.claim t' r' .clearing).mp (by rw [hpc]; rfl)).1
      have hr' : r' ≠ r := by
        rintro rfl
        rw [hph] at hph'
        cases hph'
      have := h.cancelled t' r' hpc
      simpa only [Function.update_of_ne hr'] using this
    range := h.range
    drawn := h.drawn
    count := h.count }

/-! ## The step lemma -/

omit [DecidableEq τ] in
/-- The phase of the index a program point works on. -/
theorem ReqInv.phase_of_claim {ph : Phases τ} {s : ReqSys τ} (h : ReqInv ph s) {t : τ} {q : ReqPc}
    {r : ℕ} {g : Stage} (hpc : s.pc t = q) (hq : q.claim = some (r, g)) :
    ph r = some (t, g) ∧ r < MCAPI_MAX_REQUESTS := by
  have hph := ((h.claim t r g).mp (by rw [hpc]; exact hq)).1
  exact ⟨hph, h.range r (by rw [hph]; exact nofun)⟩

omit [DecidableEq τ] in
/-- An index whose bit is clear and whose state is free is free. -/
theorem ReqInv.phase_none {ph : Phases τ} {s : ReqSys τ} (h : ReqInv ph s) {r : ℕ}
    (hbit : s.rq.bit r = false) (hstate : (s.rq.data r).state = REQUEST_FREE) : ph r = none := by
  have hb := h.bit r
  have hs := h.state r
  rw [hbit] at hb
  rw [hstate] at hs
  rcases hx : ph r with _ | ⟨t', g⟩
  · rfl
  · rw [hx] at hb hs
    -- every stage has the bit set or excludes a free state
    cases g <;>
      first
        | exact Bool.noConfusion hb
        | exact absurd hs (by simp [phaseAdmits, Stage.admits, finished])

/-- The exchange on the state of `r` when it succeeds. -/
theorem casState_of_eq {rq : mcapi_requests} {r : ℕ} {oldstate : mcapi_request_state}
    (h : (rq.data r).state = oldstate) (newstate : mcapi_request_state) :
    rq.casState r oldstate newstate = (true, { rq with
      data := Function.update rq.data r { rq.data r with state := newstate } }) :=
  if_pos h

/-- What a step of thread `t` at program point `q` makes of the system. -/
def reqNext (s : ReqSys τ) (t : τ) (rand : ℕ) (q : ReqPc) : ReqSys τ where
  rq := (reqProgram s.rq rand q).1
  pc := Function.update s.pc t (reqProgram s.rq rand q).2.1
  owned := match (reqProgram s.rq rand q).2.2 with
    | some r => setOwned s.owned t r true
    | none => s.owned

theorem reqStep_step {s s' : ReqSys τ} {t : τ} {rand : ℕ}
    (h : reqStep s (.step t rand) = some s') :
    s.pc t ≠ .idle ∧ s.pc t ≠ .failed ∧ s' = reqNext s t rand (s.pc t) := by
  rw [reqStep] at h
  by_cases hpc : s.pc t = .idle ∨ s.pc t = .failed
  · rw [if_pos hpc] at h
    cases h
  · rw [if_neg hpc] at h
    cases h
    exact ⟨fun hi => hpc (.inl hi), fun hf => hpc (.inr hf), rfl⟩

/-- Where a step leaves every bit alone, and the bit of `r` is the `b` its new
phase asks for. -/
theorem bit_of_eq {rq rq' : mcapi_requests} {r : ℕ} {b : Bool} (hb : rq.bit r = b)
    (hsame : ∀ r', rq'.bit r' = rq.bit r') : ∀ r', rq'.bit r' = if r' = r then b else rq.bit r' := by
  intro r'
  rw [hsame]
  by_cases hr' : r' = r
  · rw [if_pos hr', hr', hb]
  · rw [if_neg hr']

/-- The last step of a remove: the state is freed, and with it the index. -/
theorem ReqInv.free {ph : Phases τ} {s : ReqSys τ} (h : ReqInv ph s) {t : τ} {q : ReqPc} {r : ℕ}
    (hpc : s.pc t = q) (hq : q.claim = some (r, .clearing)) :
    ReqInv (Function.update ph r none)
      ⟨{ s.rq with data :=
          Function.update s.rq.data r { s.rq.data r with state := REQUEST_FREE } },
        Function.update s.pc t .idle, s.owned⟩ := by
  obtain ⟨hph, hr⟩ := h.phase_of_claim hpc hq
  have hbit : s.rq.bit r = false := by rw [h.bit, hph]; rfl
  refine h.move hr (by simp +contextual [hph]) nofun (by rw [hpc, hph, hq]; rfl) rfl nofun rfl rfl
    (bit_of_eq hbit fun _ => rfl) (fun r' hr' => Function.update_of_ne hr' _ _) ?_ nofun ?_ ?_
  · simp [phaseAdmits]
  · simp [hph, phaseCounted, Stage.counted]
  · exact owned_same h.owned (by simp [hph]) nofun

/-- The steps of a reserve. -/
theorem reserve_inv {ph : Phases τ} {s : ReqSys τ} {t : τ} (rand : ℕ) {q : ReqPc} (h : ReqInv ph s)
    (hpc : s.pc t = q)
    (hg : ∀ r, q = .setBit r → s.rq.bit r = false → (s.rq.data r).state = REQUEST_FREE)
    (hq : q = .checkCount ∨ (∃ r, q = .checkPartition r) ∨ (∃ r, q = .setBit r) ∨
      (∃ r, q = .casValid r) ∨ ∃ r, q = .incCount r) :
    ∃ ph', ReqInv ph' (reqNext s t rand q) := by
  rcases hq with rfl | ⟨r, rfl⟩ | ⟨r, rfl⟩ | ⟨r, rfl⟩ | ⟨r, rfl⟩
  · -- `checkCount`
    refine ⟨ph, ?_⟩
    simp only [reqNext, reqProgram]
    by_cases hc : s.rq.reserves_header.max_count > s.rq.reserves_header.curr_count
    · rw [if_pos hc]
      refine h.stay (by rw [hpc]; rfl) nofun ?_ rfl (fun _ => rfl) nofun
      intro r hr
      cases hr
      exact Nat.mod_lt _ (by norm_num [MCAPI_MAX_REQUESTS])
    · rw [if_neg hc]
      exact h.stay (by rw [hpc]; rfl) nofun nofun rfl (fun _ => rfl) nofun
  · -- `checkPartition`
    refine ⟨ph, ?_⟩
    simp only [reqNext, reqProgram]
    by_cases hc : s.rq.reserves_header.set (r / 32) ≠ BitVec.allOnes 32
    · rw [if_pos hc]
      refine h.stay (by rw [hpc]; rfl) nofun ?_ rfl (fun _ => rfl) nofun
      exact fun r' hr => h.drawn t r' (by rw [hpc]; exact hr)
    · rw [if_neg hc]
      exact h.stay (by rw [hpc]; rfl) nofun nofun rfl (fun _ => rfl) nofun
  · -- `setBit`
    by_cases hb : s.rq.bit r = true
    · -- the bit was set already, another index is drawn
      refine ⟨ph, ?_⟩
      simp only [reqNext, reqProgram, updateBit_set_fst, hb, Bool.not_true, Bool.false_eq_true,
        if_false]
      exact h.stay (by rw [hpc]; rfl) nofun nofun (updateBit_set_of_bit _ _ hb) (fun _ => rfl) nofun
    · -- the guard leaves only a free index
      have hb' : s.rq.bit r = false := by simpa using hb
      have hfree := hg r rfl hb'
      have hph := h.phase_none hb' hfree
      have hr := h.drawn t r (by rw [hpc]; rfl)
      refine ⟨Function.update ph r (some (t, .claimed)), ?_⟩
      simp only [reqNext, reqProgram, updateBit_set_fst, hb', Bool.not_false, if_true]
      refine h.move hr (by simp [hph]) (by simp +contextual) (by rw [hpc, hph]; rfl) rfl nofun rfl
        rfl (bit_set s.rq r) (fun _ _ => rfl) hfree nofun ?_ ?_
      · simp [hph, phaseCounted, Stage.counted]
      · exact owned_same h.owned (by simp [hph]) (by simp)
  · -- `casValid`
    obtain ⟨hph, hr⟩ := h.phase_of_claim hpc rfl
    have hfree : (s.rq.data r).state = REQUEST_FREE := by
      have := h.state r
      rwa [hph] at this
    have hbit : s.rq.bit r = true := by rw [h.bit, hph]; rfl
    refine ⟨Function.update ph r (some (t, .fresh)), ?_⟩
    simp only [reqNext, reqProgram, casState_of_eq hfree, if_true]
    refine h.move hr (by simp +contextual [hph]) (by simp +contextual) (by rw [hpc, hph]; rfl) rfl
      nofun rfl rfl (bit_of_eq hbit fun _ => rfl) (fun r' hr' => Function.update_of_ne hr' _ _)
      ?_ nofun ?_ ?_
    · simp [phaseAdmits, Stage.admits]
    · simp [hph, phaseCounted, Stage.counted]
    · exact owned_same h.owned (by simp [hph]) (by simp)
  · -- `incCount`
    obtain ⟨hph, hr⟩ := h.phase_of_claim hpc rfl
    have hstate := h.state r
    rw [hph] at hstate
    have hbit : s.rq.bit r = true := by rw [h.bit, hph]; rfl
    refine ⟨Function.update ph r (some (t, .held)), ?_⟩
    simp only [reqNext, reqProgram]
    refine h.move hr (by simp +contextual [hph]) (by simp +contextual) (by rw [hpc, hph]; rfl) rfl
      nofun rfl rfl (bit_of_eq hbit fun _ => rfl) (fun _ _ => rfl) hstate nofun ?_ ?_
    · simp [hph, phaseCounted, Stage.counted, mcapi_requests.addCount]
    · exact owned_update h.owned (by simp +contextual [hph]) (by simp +contextual) (by simp)

/-- The steps of a remove. -/
theorem remove_inv {ph : Phases τ} {s : ReqSys τ} {t : τ} (rand : ℕ) {q : ReqPc} (h : ReqInv ph s)
    (hpc : s.pc t = q)
    (hq : (∃ r, q = .clearBit r) ∨ (∃ r, q = .decCount r) ∨ (∃ r, q = .clearQindex r) ∨
      (∃ r, q = .casCompleted r) ∨ ∃ r, q = .casCancelled r) :
    ∃ ph', ReqInv ph' (reqNext s t rand q) := by
  rcases hq with ⟨r, rfl⟩ | ⟨r, rfl⟩ | ⟨r, rfl⟩ | ⟨r, rfl⟩ | ⟨r, rfl⟩
  · -- `clearBit`: the bit is set, so the index is given back
    obtain ⟨hph, hr⟩ := h.phase_of_claim hpc rfl
    have hstate := h.state r
    rw [hph] at hstate
    have hbit : s.rq.bit r = true := by rw [h.bit, hph]; rfl
    refine ⟨Function.update ph r (some (t, .uncounting)), ?_⟩
    simp only [reqNext, reqProgram, updateBit_clear_fst, hbit, if_true]
    refine h.move hr (by simp +contextual [hph]) (by simp +contextual) (by rw [hpc, hph]; rfl) rfl
      nofun rfl rfl (bit_clear s.rq r) (fun _ _ => rfl) hstate nofun ?_ ?_
    · simp [hph, phaseCounted, Stage.counted]
    · exact owned_same h.owned (by simp [hph]) (by simp)
  · -- `decCount`
    obtain ⟨hph, hr⟩ := h.phase_of_claim hpc rfl
    have hstate := h.state r
    rw [hph] at hstate
    have hbit : s.rq.bit r = false := by rw [h.bit, hph]; rfl
    refine ⟨Function.update ph r (some (t, .clearing)), ?_⟩
    simp only [reqNext, reqProgram]
    refine h.move hr (by simp +contextual [hph]) (by simp +contextual) (by rw [hpc, hph]; rfl) rfl
      nofun rfl rfl (bit_of_eq hbit fun _ => rfl) (fun _ _ => rfl) hstate nofun ?_ ?_
    · simp [hph, phaseCounted, Stage.counted, mcapi_requests.addCount]
      omega
    · exact owned_same h.owned (by simp [hph]) (by simp)
  · -- `clearQindex`
    refine ⟨ph, ?_⟩
    simp only [reqNext, reqProgram]
    refine h.stay (by rw [hpc]; rfl) nofun nofun rfl ?_ nofun
    intro r'
    by_cases hr' : r' = r
    · simp only [hr', Function.update_self]
    · simp only [Function.update_of_ne hr']
  · -- `casCompleted`
    obtain ⟨hph, hr⟩ := h.phase_of_claim hpc rfl
    have hstate : finished (s.rq.data r).state = true := by
      have := h.state r
      rwa [hph] at this
    by_cases hc : (s.rq.data r).state = REQUEST_COMPLETED
    · refine ⟨Function.update ph r none, ?_⟩
      simp only [reqNext, reqProgram, casState_of_eq hc, if_true]
      exact h.free hpc rfl
    · refine ⟨ph, ?_⟩
      simp only [reqNext, reqProgram, mcapi_requests.casState, if_neg hc, Bool.false_eq_true,
        if_false]
      refine h.stay (by rw [hpc]; rfl) nofun nofun rfl (fun _ => rfl) ?_
      intro r' hr'
      cases hr'
      -- a finished request that is not completed is cancelled
      simpa [finished, hc] using hstate
  · -- `casCancelled`
    have hc := h.cancelled t r hpc
    refine ⟨Function.update ph r none, ?_⟩
    simp only [reqNext, reqProgram, casState_of_eq hc, if_true]
    exact h.free hpc rfl

/-- **The step lemma.** Under the guard every step leads from phases to phases. -/
theorem reqStep_inv {ph : Phases τ} {s s' : ReqSys τ} {a : ReqLabel τ} (h : ReqInv ph s)
    (hstep : reqStep s a = some s') (hg : NoLeak s a s') : ∃ ph', ReqInv ph' s' := by
  cases a with
  | reserve t =>
    simp only [reqStep, Option.ite_none_right_eq_some, Option.some.injEq] at hstep
    obtain ⟨hpc, rfl⟩ := hstep
    exact ⟨ph, h.stay (by rw [hpc]; rfl) nofun nofun rfl (fun _ => rfl) nofun⟩
  | remove t r =>
    simp only [reqStep, Option.ite_none_right_eq_some, Option.some.injEq] at hstep
    obtain ⟨⟨hpc, howned, hfin⟩, rfl⟩ := hstep
    have hph := (h.owned t r).mp howned
    have hr := h.range r (by rw [hph]; exact nofun)
    have hbit : s.rq.bit r = true := by rw [h.bit, hph]; rfl
    refine ⟨Function.update ph r (some (t, .releasing)), ?_⟩
    refine h.move hr (by simp +contextual [hph]) (by simp +contextual) (by rw [hpc, hph]; rfl) rfl
      nofun rfl rfl (bit_of_eq hbit fun _ => rfl) (fun _ _ => rfl) hfin nofun ?_ ?_
    · simp [hph, phaseCounted, Stage.counted]
    · exact owned_update h.owned (by simp +contextual [hph]) (by simp +contextual) (by simp)
  | advance t r newstate =>
    simp only [reqStep, Option.ite_none_right_eq_some, Option.some.injEq] at hstep
    obtain ⟨⟨-, howned, hadv⟩, rfl⟩ := hstep
    refine ⟨ph, h.advance howned ?_⟩
    rintro rfl
    cases hs : (s.rq.data r).state <;> simp [hs, advances] at hadv
  | step t rand =>
    obtain ⟨hidle, hfailed, rfl⟩ := reqStep_step hstep
    cases hpc : s.pc t with
    | idle => exact absurd hpc hidle
    | failed => exact absurd hpc hfailed
    | checkCount => exact reserve_inv rand h hpc nofun (by simp)
    | checkPartition r => exact reserve_inv rand h hpc nofun (by simp)
    | setBit r =>
      refine reserve_inv rand h hpc ?_ (by simp)
      intro r' hr'
      exact hg r' (hpc.trans hr')
    | casValid r => exact reserve_inv rand h hpc nofun (by simp)
    | incCount r => exact reserve_inv rand h hpc nofun (by simp)
    | clearBit r => exact remove_inv rand h hpc (by simp)
    | decCount r => exact remove_inv rand h hpc (by simp)
    | clearQindex r => exact remove_inv rand h hpc (by simp)
    | casCompleted r => exact remove_inv rand h hpc (by simp)
    | casCancelled r => exact remove_inv rand h hpc (by simp)

/-- The run lemma. -/
theorem run_reqInv {s : ReqSys τ} (h : Run reqStep NoLeak (ReqSys.init τ) s) :
    ∃ ph, ReqInv ph s :=
  h.invariant (I := fun s => ∃ ph, ReqInv ph s)
    (fun _ _ _ ⟨_, hinv⟩ hstep hg => reqStep_inv hinv hstep hg) ⟨_, .init⟩

end Invariant

end MxApi
