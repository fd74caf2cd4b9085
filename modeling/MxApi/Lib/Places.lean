/-
Things that are in exactly one place.

`item x` says that `x` is one of the things that exist, `at x p` that it is in
the place `p`. [`Placed`] says that everything that exists is somewhere and
nothing is in two places: nothing is lost and nothing is duplicated. One rule is
enough for the steps of a system: a thing, new or not, comes to be in one place,
and all others stay where they are ([`Placed.move`]).
-/
import Mathlib.Logic.Basic
import Mathlib.Tactic.TypeStar

set_option autoImplicit false

namespace MxApi.Lib

variable {X P : Type*} {item item' : X → Prop} {loc loc' : X → P → Prop}

/-- Everything is in exactly one place. -/
structure Placed (item : X → Prop) (loc : X → P → Prop) : Prop where
  somewhere : ∀ x, item x ↔ ∃ p, loc x p
  once : ∀ x p p', loc x p → loc x p' → p = p'

/-- What is in a place exists. -/
theorem Placed.item_of (h : Placed item loc) {x : X} {p : P} (hx : loc x p) : item x :=
  (h.somewhere x).mpr ⟨p, hx⟩

/-- **One thing moves**, or comes into being. -/
theorem Placed.move (h : Placed item loc) (x : X) (p : P)
    (hothers : ∀ y, y ≠ x → ∀ q, loc' y q ↔ loc y q) (hx : ∀ q, loc' x q ↔ q = p)
    (hitem : ∀ y, item' y ↔ item y ∨ y = x) : Placed item' loc' where
  somewhere := by
    intro y
    rw [hitem]
    by_cases hyx : y = x
    · subst hyx
      exact ⟨fun _ => ⟨p, (hx p).mpr rfl⟩, fun _ => .inr rfl⟩
    · rw [h.somewhere y]
      constructor
      · rintro (⟨q, hq⟩ | hy)
        · exact ⟨q, (hothers y hyx q).mpr hq⟩
        · exact absurd hy hyx
      · rintro ⟨q, hq⟩
        exact .inl ⟨q, (hothers y hyx q).mp hq⟩
  once := by
    intro y q q' hq hq'
    by_cases hyx : y = x
    · subst hyx
      rw [(hx q).mp hq, (hx q').mp hq']
    · exact h.once y q q' ((hothers y hyx q).mp hq) ((hothers y hyx q').mp hq')

/-- Nothing moves. -/
theorem Placed.congr (h : Placed item loc) (hloc : ∀ y q, loc' y q ↔ loc y q) :
    Placed item loc' where
  somewhere := by
    intro y
    rw [h.somewhere y]
    exact exists_congr fun q => (hloc y q).symm
  once := fun y q q' hq hq' => h.once y q q' ((hloc y q).mp hq) ((hloc y q').mp hq')

end MxApi.Lib
