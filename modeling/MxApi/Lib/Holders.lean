/-
Binary semaphores and the clients that hold them.

`g r` is the client that has locked semaphore `r`, if there is one, and each client keeps
a list of those that it has locked. [`Owns`] says that the list is right. A step of one
client changes the semaphores and its list together ([`Transfer`]): it locks free ones, it
unlocks one of its own, or it leaves them alone. Then everybody's list stays right.
-/
import Mathlib.Data.List.Nodup
import Mathlib.Logic.Function.Basic

set_option autoImplicit false

namespace MxApi.Lib

variable {R C : Type*} {g g' : R → Option C} {c : C} {h h' : List R}

/-- The client has locked what is in its list, once each. -/
def Owns (g : R → Option C) (c : C) (h : List R) : Prop :=
  (∀ r, g r = some c ↔ r ∈ h) ∧ h.Nodup

/-- A step of client `c`, from the list `h` to the list `h'`. -/
structure Transfer (c : C) (g g' : R → Option C) (h h' : List R) : Prop where
  mine : Owns g c h → Owns g' c h'
  others : Owns g c h → ∀ r c', c' ≠ c → (g' r = some c' ↔ g r = some c')

theorem Transfer.same (g : R → Option C) (c : C) (h : List R) : Transfer c g g h h :=
  ⟨id, fun _ _ _ _ => Iff.rfl⟩

/-- The lists of all clients stay right. -/
theorem Transfer.all [DecidableEq C] {held : C → List R} (hall : ∀ c, Owns g c (held c))
    (hstep : Transfer c g g' (held c) h') (c' : C) :
    Owns g' c' (Function.update held c h' c') := by
  by_cases hc : c' = c
  · rw [hc, Function.update_self]
    exact hstep.mine (hall c)
  · rw [Function.update_of_ne hc]
    refine ⟨fun r => ?_, (hall c').2⟩
    rw [hstep.others (hall c) r c' hc]
    exact (hall c').1 r

/-- A semaphore has one holder. -/
theorem Owns.unique {c' : C} (hown : Owns g c h) (hown' : Owns g c' h') {r : R} (hr : r ∈ h)
    (hr' : r ∈ h') : c = c' :=
  Option.some.inj (((hown.1 r).mpr hr).symm.trans ((hown'.1 r).mpr hr'))

variable [DecidableEq R]

/-- Free semaphores are locked. -/
theorem Transfer.take {ms : List R} (hms : ms.Nodup) (hfree : ∀ r ∈ ms, g r = none) :
    Transfer c g (fun r => if r ∈ ms then some c else g r) h (h ++ ms) := by
  constructor
  · rintro ⟨hmem, hnodup⟩
    constructor
    · intro r
      rw [List.mem_append]
      change (if r ∈ ms then some c else g r) = some c ↔ r ∈ h ∨ r ∈ ms
      by_cases hr : r ∈ ms
      · rw [if_pos hr]
        exact ⟨fun _ => .inr hr, fun _ => rfl⟩
      · rw [if_neg hr, or_iff_left hr]
        exact hmem r
    · rw [List.nodup_append]
      refine ⟨hnodup, hms, ?_⟩
      intro a ha b hb hab
      have hheld := (hmem a).mpr ha
      rw [hab, hfree b hb] at hheld
      cases hheld
  · intro _ r c' hne
    by_cases hr : r ∈ ms
    · simp only [if_pos hr, hfree r hr, Option.some.injEq]
      constructor
      · intro hc
        exact absurd hc.symm hne
      · intro hc
        cases hc
    · simp only [if_neg hr]

/-- A free semaphore is locked. -/
theorem Transfer.lock {r : R} (hfree : g r = none) :
    Transfer c g (Function.update g r (some c)) h (h ++ [r]) := by
  have hall : ∀ r' ∈ [r], g r' = none := by
    intro r' hr'
    rw [List.mem_singleton.mp hr']
    exact hfree
  have htake := Transfer.take (c := c) (h := h) (List.nodup_singleton r) hall
  have heq : Function.update g r (some c) = fun r' => if r' ∈ [r] then some c else g r' := by
    funext r'
    rw [Function.update_apply]
    simp only [List.mem_singleton]
  rw [heq]
  exact htake

/-- One of the client's own is unlocked. -/
theorem Transfer.unlock {r : R} (hperm : h.Perm (r :: h')) :
    Transfer c g (Function.update g r none) h h' := by
  constructor
  · rintro ⟨hmem, hnodup⟩
    obtain ⟨hr, hnodup'⟩ := List.nodup_cons.mp (hperm.nodup_iff.mp hnodup)
    refine ⟨?_, hnodup'⟩
    intro x
    by_cases hx : x = r
    · rw [hx, Function.update_self]
      constructor
      · intro hc
        cases hc
      · intro hmem'
        exact absurd hmem' hr
    · rw [Function.update_of_ne hx, hmem x, hperm.mem_iff, List.mem_cons, or_iff_right hx]
  · rintro ⟨hmem, -⟩ x c' hne
    by_cases hx : x = r
    · have hheld : g r = some c := (hmem r).mpr (hperm.mem_iff.mpr List.mem_cons_self)
      rw [hx, Function.update_self, hheld, Option.some.injEq]
      constructor
      · intro hc
        cases hc
      · intro hc
        exact absurd hc.symm hne
    · rw [Function.update_of_ne hx]

end MxApi.Lib
