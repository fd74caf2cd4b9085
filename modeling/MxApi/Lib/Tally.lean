/-
Counting the parties that have a property.

A counter of a system counts the parties at certain points of their programs.
Each step moves one party, so the count changes by one where the party comes to
have the property or ceases to have it ([`Tally.enter`], [`Tally.leave`]). The
parties need not be finitely many, those counted are.
-/
import Mathlib.Data.Set.Card

set_option autoImplicit false

namespace MxApi.Lib

variable {O : Type*} {p p' : O → Prop} {k : ℕ} {o : O}

/-- Exactly `k` parties have the property. -/
structure Tally (p : O → Prop) (k : ℕ) : Prop where
  finite : {o | p o}.Finite
  card : {o | p o}.ncard = k

theorem Tally.none (h : ∀ o, ¬ p o) : Tally p 0 := by
  have hempty : {o | p o} = ∅ := Set.eq_empty_of_forall_notMem h
  refine ⟨?_, ?_⟩
  · rw [hempty]
    exact Set.finite_empty
  · rw [hempty, Set.ncard_empty]

theorem Tally.congr (h : Tally p k) (heq : ∀ o, p' o ↔ p o) : Tally p' k := by
  have hset : {o | p' o} = {o | p o} := Set.ext heq
  refine ⟨?_, ?_⟩
  · rw [hset]
    exact h.finite
  · rw [hset]
    exact h.card

/-- A count of nobody is zero. -/
theorem Tally.eq_zero (h : Tally p k) (hnone : ∀ o, ¬ p o) : k = 0 :=
  h.card.symm.trans (Tally.none hnone).card

/-- One more party has the property. -/
theorem Tally.enter (h : Tally p k) (hold : ¬ p o) (hnew : p' o)
    (hothers : ∀ o', o' ≠ o → (p' o' ↔ p o')) : Tally p' (k + 1) := by
  have hset : {o | p' o} = insert o {o | p o} := by
    ext o'
    by_cases ho : o' = o
    · rw [ho]
      exact ⟨fun _ => Set.mem_insert .., fun _ => hnew⟩
    · exact (hothers o' ho).trans ⟨Set.mem_insert_of_mem o, fun hm => hm.resolve_left ho⟩
  refine ⟨?_, ?_⟩
  · rw [hset]
    exact h.finite.insert o
  · have hnot : o ∉ {o | p o} := hold
    rw [hset, Set.ncard_insert_of_notMem hnot h.finite, h.card]

/-- One party less has the property. -/
theorem Tally.leave (h : Tally p k) (hold : p o) (hnew : ¬ p' o)
    (hothers : ∀ o', o' ≠ o → (p' o' ↔ p o')) : ∃ j, k = j + 1 ∧ Tally p' j := by
  have hfinite : {o | p' o}.Finite := by
    refine h.finite.subset fun o' ho' => ?_
    by_cases ho : o' = o
    · rw [ho] at ho'
      exact absurd ho' hnew
    · exact (hothers o' ho).mp ho'
  have hback : Tally p ({o | p' o}.ncard + 1) :=
    Tally.enter ⟨hfinite, rfl⟩ hnew hold fun o' ho => (hothers o' ho).symm
  exact ⟨_, h.card.symm.trans hback.card, hfinite, rfl⟩

/-- A count of somebody is not zero. -/
theorem Tally.ne_zero (h : Tally p k) (ho : p o) : k ≠ 0 := by
  rintro rfl
  have hempty := (Set.ncard_eq_zero h.finite).mp h.card
  have hmem : o ∈ {o | p o} := ho
  rw [hempty] at hmem
  exact hmem

/-- Parties that are named one-to-one are as many as their names. -/
theorem Tally.image {R : Type*} {q : R → Prop} {f : O → R} (h : Tally p k)
    (hinj : ∀ o o', p o → p o' → f o = f o' → o = o') (heq : ∀ r, q r ↔ ∃ o, p o ∧ f o = r) :
    Tally q k := by
  have hset : {r | q r} = f '' {o | p o} := by
    ext r
    exact heq r
  have hinjOn : Set.InjOn f {o | p o} := fun o ho o' ho' hf => hinj o o' ho ho' hf
  refine ⟨?_, ?_⟩
  · rw [hset]
    exact h.finite.image f
  · rw [hset, hinjOn.ncard_image, h.card]

/-- No more parties are counted than there are. -/
theorem Tally.le_card [Fintype O] (h : Tally p k) : k ≤ Fintype.card O := by
  rw [← h.card, ← Nat.card_eq_fintype_card]
  exact Set.ncard_le_card _

/-- Below a bound there are no more than the bound. -/
theorem Tally.le_of_lt {q : ℕ → Prop} {n : ℕ} (h : Tally q k) (hlt : ∀ m, q m → m < n) :
    k ≤ n := by
  have hsubset : {m | q m} ⊆ (Finset.range n : Set ℕ) := by
    intro m hm
    rw [Finset.mem_coe, Finset.mem_range]
    exact hlt m hm
  have hle := Set.ncard_le_ncard hsubset (Finset.finite_toSet _)
  rw [Set.ncard_coe_finset, Finset.card_range, h.card] at hle
  exact hle

/-- The parties are counted by a finite set of what they have, each its own. -/
theorem Tally.eq_card (h : Tally p k) {R : Type*} {f : O → R} {s : Finset R}
    (hinj : ∀ o o', p o → p o' → f o = f o' → o = o')
    (hs : ∀ r, r ∈ s ↔ ∃ o, p o ∧ f o = r) : k = s.card := by
  have himage : f '' {o | p o} = (s : Set R) := Set.ext fun r => (hs r).symm
  have hinjOn : Set.InjOn f {o | p o} := fun o ho o' ho' heq => hinj o o' ho ho' heq
  have hcard := hinjOn.ncard_image
  rw [himage, Set.ncard_coe_finset, h.card] at hcard
  exact hcard.symm

end MxApi.Lib
