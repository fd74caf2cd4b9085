/-
Searching a table for its first entry with a property.

The loops `for (i = 0; i < n; i++) if (p(i)) break;` of a C program are [`search`]: the
index that they stop at, or none where they run through.
-/
import Mathlib.Data.List.Range

set_option autoImplicit false

namespace MxApi.Lib

variable {n i : ℕ} {p q : ℕ → Bool}

/-- The first index below `n` with the property. -/
def search (n : ℕ) (p : ℕ → Bool) : Option ℕ := (List.range n).find? p

theorem search_eq_some :
    search n p = some i ↔ i < n ∧ p i = true ∧ ∀ j, j < i → p j = false := by
  unfold search
  rw [List.find?_range_eq_some, List.mem_range]
  constructor
  · rintro ⟨hp, hi, hbefore⟩
    exact ⟨hi, hp, fun j hj => by simpa using hbefore j hj⟩
  · rintro ⟨hi, hp, hbefore⟩
    exact ⟨hp, hi, fun j hj => by simpa using hbefore j hj⟩

/-- What is found is in the table and has the property. -/
theorem search_some (h : search n p = some i) : i < n ∧ p i = true :=
  ⟨(search_eq_some.mp h).1, (search_eq_some.mp h).2.1⟩

theorem search_eq_none : search n p = none ↔ ∀ i, i < n → p i = false := by
  unfold search
  rw [List.find?_range_eq_none]
  constructor
  · intro h i hi
    simpa using h i hi
  · intro h i hi
    simpa using h i hi

/-- An entry with the property makes the search stop. -/
theorem exists_search (hi : i < n) (hp : p i = true) : ∃ j, search n p = some j := by
  cases h : search n p with
  | some j => exact ⟨j, rfl⟩
  | none =>
    rw [search_eq_none.mp h i hi] at hp
    cases hp

end MxApi.Lib
