/-
Resources that are in use while somebody refers to them.

A reference names at most one resource. That the references are exact says that a resource
is in use if and only if one names it, and that no two name the same one ([`Exact`]). It is
kept when a resource comes into use under a reference that names nothing, when the one that
names a resource gives it back, and when one reference takes the place of another.
-/
import Mathlib.Logic.Function.Basic

set_option autoImplicit false

namespace MxApi.Lib

variable {ρ ι : Type*} {refs : ρ → Option ι} {used used' : ι → Prop} {r r' : ρ} {i : ι}

/-- The resources in use are those that are named, each by one reference. -/
structure Exact (refs : ρ → Option ι) (used : ι → Prop) : Prop where
  used_iff : ∀ i, used i ↔ ∃ r, refs r = some i
  unique : ∀ r r' i, refs r = some i → refs r' = some i → r = r'

namespace Exact

theorem used_of_ref (h : Exact refs used) (hr : refs r = some i) : used i :=
  (h.used_iff i).mpr ⟨r, hr⟩

variable [DecidableEq ρ]

/-- A resource comes into use. -/
theorem acquire (h : Exact refs used) (hr : refs r = none) (hi : ¬ used i)
    (hused : ∀ j, used' j ↔ j = i ∨ used j) : Exact (Function.update refs r (some i)) used' where
  used_iff := by
    intro j
    rw [hused, h.used_iff]
    constructor
    · rintro (rfl | ⟨r', hr'⟩)
      · exact ⟨r, Function.update_self ..⟩
      · have hne : r' ≠ r := by
          rintro rfl
          simp [hr] at hr'
        exact ⟨r', by rw [Function.update_of_ne hne, hr']⟩
    · rintro ⟨r', hr'⟩
      by_cases hne : r' = r
      · rw [hne, Function.update_self, Option.some.injEq] at hr'
        exact .inl hr'.symm
      · rw [Function.update_of_ne hne] at hr'
        exact .inr ⟨r', hr'⟩
  unique := by
    -- a reference to `i` itself would have made it used
    have hother : ∀ r' j, r' ≠ r → refs r' = some j → j ≠ i := by
      rintro r' j - hr' rfl
      exact hi (h.used_of_ref hr')
    intro r₁ r₂ j h₁ h₂
    by_cases hr₁ : r₁ = r <;> by_cases hr₂ : r₂ = r
    · rw [hr₁, hr₂]
    · rw [hr₁, Function.update_self, Option.some.injEq] at h₁
      rw [Function.update_of_ne hr₂] at h₂
      exact absurd h₁.symm (hother r₂ j hr₂ h₂)
    · rw [hr₂, Function.update_self, Option.some.injEq] at h₂
      rw [Function.update_of_ne hr₁] at h₁
      exact absurd h₂.symm (hother r₁ j hr₁ h₁)
    · rw [Function.update_of_ne hr₁] at h₁
      rw [Function.update_of_ne hr₂] at h₂
      exact h.unique r₁ r₂ j h₁ h₂

/-- A resource is given back. -/
theorem release (h : Exact refs used) (hr : refs r = some i)
    (hused : ∀ j, used' j ↔ j ≠ i ∧ used j) : Exact (Function.update refs r none) used' where
  used_iff := by
    intro j
    rw [hused, h.used_iff]
    constructor
    · rintro ⟨hj, r', hr'⟩
      have hne : r' ≠ r := by
        rintro rfl
        exact hj (Option.some.inj (hr'.symm.trans hr))
      exact ⟨r', by rw [Function.update_of_ne hne, hr']⟩
    · rintro ⟨r', hr'⟩
      by_cases hne : r' = r
      · simp [hne] at hr'
      · rw [Function.update_of_ne hne] at hr'
        refine ⟨?_, r', hr'⟩
        rintro rfl
        exact hne (h.unique r' r j hr' hr)
  unique := by
    intro r₁ r₂ j h₁ h₂
    have hne₁ : r₁ ≠ r := by
      rintro rfl
      simp at h₁
    have hne₂ : r₂ ≠ r := by
      rintro rfl
      simp at h₂
    rw [Function.update_of_ne hne₁] at h₁
    rw [Function.update_of_ne hne₂] at h₂
    exact h.unique r₁ r₂ j h₁ h₂

/-- One reference takes the place of another. -/
theorem move (h : Exact refs used) (hr : refs r = some i) (hr' : refs r' = none) :
    Exact (Function.update (Function.update refs r none) r' (some i)) used := by
  have hne : r' ≠ r := by
    rintro rfl
    simp [hr] at hr'
  have hreleased : Exact (Function.update refs r none) fun j => j ≠ i ∧ used j :=
    h.release hr fun _ => Iff.rfl
  refine hreleased.acquire ?_ ?_ ?_
  · rw [Function.update_of_ne hne, hr']
  · exact fun hi => hi.1 rfl
  · intro j
    by_cases hj : j = i
    · simp [hj, h.used_of_ref hr]
    · simp [hj]

end Exact

end MxApi.Lib
