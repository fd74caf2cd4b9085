/-
At most one client in a section of its program.

Clients run copies of one program, `pc c` is where client `c` stands, and
`inside p` says which program points belong to the section. [`Active`] names the
program point of the client inside, if there is one. An invariant that speaks of
that program point only, and not of a family of them, is then enough, and it is
moved along by four rules: a client may enter an empty section, move inside it,
leave it, or move outside it.
-/
import Mathlib.Logic.Function.Basic
import Mathlib.Tactic.TypeStar

set_option autoImplicit false

namespace MxApi.Lib

variable {C P : Type*} {inside : P → Bool} {pc : C → P}

/-- The section holds nobody, or exactly one client, who stands at `p`. -/
def Active (inside : P → Bool) (pc : C → P) : Option P → Prop
  | none => ∀ c, inside (pc c) = false
  | some p => ∃ c, pc c = p ∧ inside p = true ∧ ∀ c', c' ≠ c → inside (pc c') = false

/-- A client inside is the one that is active. -/
theorem Active.of_inside {w : Option P} (h : Active inside pc w) {c : C}
    (hc : inside (pc c) = true) : w = some (pc c) := by
  cases w with
  | none =>
    rw [h c] at hc
    cases hc
  | some p =>
    obtain ⟨c₀, rfl, -, hother⟩ := h
    by_cases hcc : c = c₀
    · rw [hcc]
    · rw [hother c hcc] at hc
      cases hc

theorem Active.unique {w : Option P} (h : Active inside pc w) {c c' : C}
    (hc : inside (pc c) = true) (hc' : inside (pc c') = true) : c = c' := by
  cases w with
  | none =>
    rw [h c] at hc
    cases hc
  | some p =>
    obtain ⟨c₀, -, -, hother⟩ := h
    have houtside : ∀ d, inside (pc d) = true → d = c₀ := by
      intro d hd
      by_contra hne
      rw [hother d hne] at hd
      cases hd
    rw [houtside c hc, houtside c' hc']

/-- The positions of the clients say who is active. -/
theorem Active.eq {w w' : Option P} (h : Active inside pc w) (h' : Active inside pc w') :
    w = w' := by
  cases w with
  | some p =>
    obtain ⟨c, rfl, hp, -⟩ := h
    exact (h'.of_inside hp).symm
  | none =>
    cases w' with
    | none => rfl
    | some p =>
      obtain ⟨c, rfl, hp, -⟩ := h'
      rw [h c] at hp
      cases hp

variable [DecidableEq C]

/-- The others are outside before and after client `c` moves. -/
theorem Active.others {w : Option P} (h : Active inside pc w) {c : C} (p' : P)
    (hw : inside (pc c) = true ∨ w = none) :
    ∀ c', c' ≠ c → inside (Function.update pc c p' c') = false := by
  intro c' hne
  rw [Function.update_of_ne hne]
  by_contra hc'
  have hc'' : inside (pc c') = true := by simpa using hc'
  rcases hw with hc | rfl
  · exact hne (h.unique hc'' hc)
  · rw [h c'] at hc''
    cases hc''

/-- A client enters the empty section, or moves inside it. -/
theorem Active.stay {w : Option P} (h : Active inside pc w) {c : C} {p' : P}
    (hw : inside (pc c) = true ∨ w = none) (hp' : inside p' = true) :
    Active inside (Function.update pc c p') (some p') :=
  ⟨c, Function.update_self .., hp', h.others p' hw⟩

/-- The client inside leaves. -/
theorem Active.leave {w : Option P} (h : Active inside pc w) {c : C} {p' : P}
    (hc : inside (pc c) = true) (hp' : inside p' = false) :
    Active inside (Function.update pc c p') none := by
  intro c'
  by_cases hne : c' = c
  · rw [hne, Function.update_self, hp']
  · exact h.others p' (.inl hc) c' hne

/-- A client moves outside. -/
theorem Active.outside {w : Option P} (h : Active inside pc w) {c : C} {p' : P}
    (hc : inside (pc c) = false) (hp' : inside p' = false) :
    Active inside (Function.update pc c p') w := by
  have hsame : ∀ c', inside (Function.update pc c p' c') = inside (pc c') := by
    intro c'
    by_cases hne : c' = c
    · rw [hne, Function.update_self, hp', hc]
    · rw [Function.update_of_ne hne]
  cases w with
  | none => exact fun c' => (hsame c').trans (h c')
  | some p =>
    obtain ⟨c₀, hc₀, hp, hother⟩ := h
    have hne : c₀ ≠ c := by
      rintro rfl
      rw [hc₀, hp] at hc
      cases hc
    exact ⟨c₀, by rw [Function.update_of_ne hne, hc₀], hp,
      fun c' hc' => (hsame c').trans (hother c' hc')⟩

end MxApi.Lib
