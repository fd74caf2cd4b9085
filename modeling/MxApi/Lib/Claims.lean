/-
Exclusive claims on the cells of a memory.

Several parties share a memory `mem : R → V`. A party `o` may claim one cell
together with a property of what is in it, `claim o = some (r, P)`. [`Claims`]
says the claims are sound: no cell is claimed twice, and every claimed cell has
the property claimed. [`Covers`] adds that the cells nobody claims are free.

Nothing is said about who may write where. The rules are the other way round:
whatever a step does to one party's cell, the claims stay sound if the step
leaves the other cells and the other parties alone ([`Claims.change`]), or hands
the cell to another party ([`Claims.pass`]). A party that finds a cell in a
condition that no claim allows has found an unclaimed one
([`Claims.unclaimed`]): this is how a compare-and-swap acquires a cell.
-/
import Mathlib.Logic.Basic
import Mathlib.Tactic.TypeStar

set_option autoImplicit false

namespace MxApi.Lib

variable {O R V : Type*}

/-- The claims are exclusive and true of the memory. -/
structure Claims (claim : O → Option (R × (V → Prop))) (mem : R → V) : Prop where
  excl : ∀ {o o' r P P'}, claim o = some (r, P) → claim o' = some (r, P') → o = o'
  content : ∀ {o r P}, claim o = some (r, P) → P (mem r)

/-- Sound claims, and what is not claimed is free. -/
structure Covers (free : V → Prop) (claim : O → Option (R × (V → Prop))) (mem : R → V) : Prop
    extends Claims claim mem where
  rest : ∀ r, (∀ o P, claim o ≠ some (r, P)) → free (mem r)

variable {claim claim' : O → Option (R × (V → Prop))} {mem mem' : R → V} {free : V → Prop}

/-- A cell whose content no claim allows is not claimed. -/
theorem Claims.unclaimed (h : Claims claim mem) {r : R}
    (hout : ∀ o P, claim o = some (r, P) → ¬ P (mem r)) (o : O) (P : V → Prop) :
    claim o ≠ some (r, P) :=
  fun ho => hout o P ho (h.content ho)

/-- **One party changes.** The party `o` claims the cell `r`, newly or as before,
or nothing any more; what it claims is true of the new memory, which differs in
`r` only, a cell nobody else claimed. -/
theorem Claims.change (h : Claims claim mem) (o : O) (r : R)
    (hcell : ∀ o' P, claim o' = some (r, P) → o' = o)
    (hparties : ∀ o', o' ≠ o → claim' o' = claim o')
    (hmem : ∀ r', r' ≠ r → mem' r' = mem r')
    (hnew : ∀ r' P, claim' o = some (r', P) → r' = r ∧ P (mem' r)) : Claims claim' mem' where
  excl := by
    intro o₁ o₂ r' P P' h₁ h₂
    by_cases ho₁ : o₁ = o
    · by_cases ho₂ : o₂ = o
      · rw [ho₁, ho₂]
      · -- the other party would claim the cell of `o`
        rw [ho₁] at h₁
        rw [hparties o₂ ho₂, (hnew r' P h₁).1] at h₂
        rw [ho₁, hcell o₂ P' h₂]
    · rw [hparties o₁ ho₁] at h₁
      by_cases ho₂ : o₂ = o
      · rw [ho₂] at h₂
        rw [(hnew r' P' h₂).1] at h₁
        exact absurd (hcell o₁ P h₁) ho₁
      · rw [hparties o₂ ho₂] at h₂
        exact h.excl h₁ h₂
  content := by
    intro o₁ r' P h₁
    by_cases ho₁ : o₁ = o
    · rw [ho₁] at h₁
      obtain ⟨rfl, hP⟩ := hnew r' P h₁
      exact hP
    · rw [hparties o₁ ho₁] at h₁
      have hr' : r' ≠ r := by
        rintro rfl
        exact ho₁ (hcell o₁ P h₁)
      rw [hmem r' hr']
      exact h.content h₁

/-- **A cell changes hands.** The party `o` gives its cell `r` to the party `t`,
which had none, and claims nothing any more. -/
theorem Claims.pass (h : Claims claim mem) {o t : O} {r : R} {P Q : V → Prop}
    (ho : claim o = some (r, P)) (hfrom : claim' o = none) (hto : claim' t = some (r, Q))
    (hparties : ∀ o'', o'' ≠ o → o'' ≠ t → claim' o'' = claim o'')
    (hmem : ∀ r', r' ≠ r → mem' r' = mem r') (hP : Q (mem' r)) : Claims claim' mem' := by
  have hne : t ≠ o := by
    rintro rfl
    rw [hfrom] at hto
    cases hto
  -- the parties that keep their claims have other cells
  have hkeep : ∀ {o'' r'' P''}, o'' ≠ t → claim' o'' = some (r'', P'') →
      claim o'' = some (r'', P'') ∧ r'' ≠ r := by
    intro o'' r'' P'' hne' h''
    have hne'' : o'' ≠ o := by
      rintro rfl
      rw [hfrom] at h''
      cases h''
    rw [hparties o'' hne'' hne'] at h''
    refine ⟨h'', ?_⟩
    rintro rfl
    exact hne'' (h.excl h'' ho)
  constructor
  · intro o₁ o₂ r' P₁ P₂ h₁ h₂
    by_cases ho₁ : o₁ = t
    · by_cases ho₂ : o₂ = t
      · rw [ho₁, ho₂]
      · rw [ho₁, hto] at h₁
        cases h₁
        exact absurd rfl (hkeep ho₂ h₂).2
    · by_cases ho₂ : o₂ = t
      · rw [ho₂, hto] at h₂
        cases h₂
        exact absurd rfl (hkeep ho₁ h₁).2
      · exact h.excl (hkeep ho₁ h₁).1 (hkeep ho₂ h₂).1
  · intro o₁ r' P₁ h₁
    by_cases ho₁ : o₁ = t
    · rw [ho₁, hto] at h₁
      cases h₁
      exact hP
    · obtain ⟨h₁', hr'⟩ := hkeep ho₁ h₁
      rw [hmem r' hr']
      exact h.content h₁'

/-- The claims stay sound where cells change in what no claim speaks of. -/
theorem Covers.of_content (h : Covers free claim mem)
    (hcontent : ∀ o r P, claim o = some (r, P) → P (mem r) → P (mem' r))
    (hrest : ∀ r, free (mem r) → free (mem' r)) : Covers free claim mem' where
  excl := h.excl
  content := fun ho => hcontent _ _ _ ho (h.content ho)
  rest := fun r hr => hrest r (h.rest r hr)

/-- [`Claims.change`] for claims that cover the memory: a party that claims
nothing any more leaves its cell free. -/
theorem Covers.change (h : Covers free claim mem) (o : O) (r : R)
    (hcell : ∀ o' P, claim o' = some (r, P) → o' = o)
    (hold : ∀ r' P, claim o = some (r', P) → r' = r)
    (hparties : ∀ o', o' ≠ o → claim' o' = claim o')
    (hmem : ∀ r', r' ≠ r → mem' r' = mem r')
    (hnew : ∀ r' P, claim' o = some (r', P) → r' = r ∧ P (mem' r))
    (hfree : claim' o = none → free (mem' r)) : Covers free claim' mem' where
  toClaims := h.toClaims.change o r hcell hparties hmem hnew
  rest := by
    intro r' hr'
    by_cases hrr : r' = r
    · subst hrr
      apply hfree
      cases hc : claim' o with
      | none => rfl
      | some x =>
        obtain ⟨r'', P⟩ := x
        rw [(hnew r'' P hc).1] at hc
        exact absurd hc (hr' o P)
    · rw [hmem r' hrr]
      apply h.rest
      intro o' P ho'
      by_cases hoo : o' = o
      · subst hoo
        exact hrr (hold r' P ho')
      · rw [← hparties o' hoo] at ho'
        exact hr' o' P ho'

/-- [`Claims.pass`] for claims that cover the memory. -/
theorem Covers.pass (h : Covers free claim mem) {o t : O} {r : R} {P Q : V → Prop}
    (ho : claim o = some (r, P)) (ho' : claim t = none) (hfrom : claim' o = none)
    (hto : claim' t = some (r, Q))
    (hparties : ∀ o'', o'' ≠ o → o'' ≠ t → claim' o'' = claim o'')
    (hmem : ∀ r', r' ≠ r → mem' r' = mem r') (hP : Q (mem' r)) : Covers free claim' mem' where
  toClaims := h.toClaims.pass ho hfrom hto hparties hmem hP
  rest := by
    intro r' hr'
    have hrr : r' ≠ r := by
      rintro rfl
      exact hr' t Q hto
    rw [hmem r' hrr]
    apply h.rest
    intro o'' P₁ ho''
    by_cases h₁ : o'' = o
    · rw [h₁, ho] at ho''
      cases ho''
      exact hrr rfl
    · by_cases h₂ : o'' = t
      · rw [h₂, ho'] at ho''
        cases ho''
      · rw [← hparties o'' h₁ h₂] at ho''
        exact hr' o'' P₁ ho''

end MxApi.Lib
