/-
Runs of a labelled transition function, and the induction that proves an
invariant of them.

A system is a partial step function `step : S → A → Option S`: the label says
who moves and with which arguments, `none` says the label is not enabled. A
*guard* `G s a t` restricts which steps a run may contain. Both are left open,
so that one system can be studied under several guards: the unrestricted runs
are the ones at `fun _ _ _ => True`, and a theorem about the runs of a weaker
guard applies to the runs of a stronger one ([`Run.mono`], [`Run.strengthen`]).
-/
import Mathlib.Logic.Basic
import Mathlib.Tactic.TypeStar

set_option autoImplicit false

namespace MxApi.Lib

variable {S A : Type*} {step : S → A → Option S} {G G' : S → A → S → Prop}

/-- The runs of `step` all of whose steps satisfy the guard `G`. -/
inductive Run (step : S → A → Option S) (G : S → A → S → Prop) : S → S → Prop
  | refl (s : S) : Run step G s s
  | tail {s t u : S} {a : A} (run : Run step G s t) (move : step t a = some u)
      (guard : G t a u) : Run step G s u

/-- A single admitted step is a run. -/
theorem Run.single {s t : S} {a : A} (h : step s a = some t) (hg : G s a t) :
    Run step G s t :=
  .tail (.refl s) h hg

theorem Run.trans {s t u : S} (h : Run step G s t) (h' : Run step G t u) :
    Run step G s u := by
  induction h' with
  | refl => exact h
  | tail _ hmove hguard ih => exact .tail ih hmove hguard

/-- **The invariant rule.** What every admitted step preserves holds along
every run that starts with it. -/
theorem Run.invariant {I : S → Prop}
    (hstep : ∀ s a t, I s → step s a = some t → G s a t → I t)
    {s t : S} (h : Run step G s t) (hs : I s) : I t := by
  induction h with
  | refl => exact hs
  | tail _ hmove hguard ih => exact hstep _ _ _ ih hmove hguard

/-- A run under a guard is a run under any weaker one. -/
theorem Run.mono (hG : ∀ s a t, G s a t → G' s a t) {s t : S} (h : Run step G s t) :
    Run step G' s t := by
  induction h with
  | refl => exact .refl _
  | tail _ hmove hguard ih => exact .tail ih hmove (hG _ _ _ hguard)

/-- Where an invariant of the runs under `G'` makes every step that `G` admits
one that `G'` admits too, the runs under `G` are runs under `G'`. This is how a
system without a guard inherits what was proved with one. -/
theorem Run.strengthen {I : S → Prop}
    (hstep : ∀ s a t, I s → step s a = some t → G' s a t → I t)
    (hG : ∀ s a t, I s → step s a = some t → G s a t → G' s a t)
    {s t : S} (h : Run step G s t) (hs : I s) : Run step G' s t := by
  induction h with
  | refl => exact .refl _
  | tail _ hmove hguard ih =>
    have hinv := Run.invariant hstep ih hs
    exact .tail ih hmove (hG _ _ _ hinv hmove hguard)

/-! ## Executing a schedule -/

/-- Perform the labels of a schedule one after another, stopping with `none` at
the first one that is not enabled or that the guard rejects. -/
def exec (step : S → A → Option S) (G : S → A → S → Bool) : S → List A → Option S
  | s, [] => some s
  | s, a :: as =>
    match step s a with
    | none => none
    | some t => if G s a t then exec step G t as else none

/-- A schedule that executes is a run. -/
theorem exec_run {G : S → A → S → Bool} :
    ∀ {as : List A} {s t : S}, exec step G s as = some t →
      Run step (fun s a t => G s a t = true) s t
  | [], s, t, h => by
    rw [exec, Option.some.injEq] at h
    subst h
    exact .refl s
  | a :: as, s, t, h => by
    rw [exec] at h
    split at h
    · cases h
    · rename_i u hu
      split at h
      · rename_i hg
        exact (Run.single hu hg).trans (exec_run h)
      · cases h

/-- A schedule that executes to a state with a decidable property is a run to
such a state. -/
theorem exec_run_of_any {G : S → A → S → Bool} {s : S} {as : List A} {p : S → Bool}
    (h : (exec step G s as).any p = true) :
    ∃ t, Run step (fun s a t => G s a t = true) s t ∧ p t = true := by
  cases he : exec step G s as with
  | none =>
    rw [he] at h
    cases h
  | some t =>
    rw [he] at h
    exact ⟨t, exec_run he, h⟩

end MxApi.Lib
