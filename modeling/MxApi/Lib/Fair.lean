/-
Infinite runs, fairness, and the rule for progress by a measure.

A [`Path`] is an infinite run in which nothing may happen for a while, so that a run that
has come to an end is one too. The labels of one client are singled out by `mine`. Weak
fairness says that a client which could always move from some time on does move
([`Path.WeakFair`]). The rule ([`Path.descend`]) is the usual one: if the client is bound
to move, its moves lower a measure, and the others' leave it, then it gets where it wants.
-/
import Mathlib.Data.Nat.Find
import Mathlib.Data.Nat.Notation
import Mathlib.Tactic.ByContra
import Mathlib.Tactic.Set
import MxApi.Lib.Run

set_option autoImplicit false

namespace MxApi.Lib

variable {S A : Type*} {step : S → A → Option S} {G : S → A → S → Prop}

structure Path (step : S → A → Option S) (G : S → A → S → Prop) where
  state : ℕ → S
  label : ℕ → Option A
  move : ∀ n a, label n = some a →
    step (state n) a = some (state (n + 1)) ∧ G (state n) a (state (n + 1))
  still : ∀ n, label n = none → state (n + 1) = state n

/-- What is reached is reached by a run. -/
theorem Path.run (p : Path step G) (n : ℕ) : Run step G (p.state 0) (p.state n) := by
  induction n with
  | zero => exact .refl _
  | succ n ih =>
    cases hlabel : p.label n with
    | none =>
      rw [p.still n hlabel]
      exact ih
    | some a =>
      obtain ⟨hmove, hguard⟩ := p.move n a hlabel
      exact .tail ih hmove hguard

/-! ## Progress -/

/-- The client moves at time `n`. -/
def Path.Moves (p : Path step G) (mine : A → Prop) (n : ℕ) : Prop :=
  ∃ a, p.label n = some a ∧ mine a

/-- A client that can always move from some time on moves. -/
def Path.WeakFair (p : Path step G) (mine : A → Prop) : Prop :=
  ∀ n, (∀ m, n ≤ m → ∃ a, mine a ∧ (step (p.state m) a).isSome) →
    ∃ m, n ≤ m ∧ p.Moves mine m

variable {p : Path step G} {mine : A → Prop} {P Q : S → Prop} {f : S → ℕ}

/-- What the others' moves keep lasts until the client moves. -/
theorem Path.stays (hother : ∀ n, P (p.state n) → ¬ p.Moves mine n → P (p.state (n + 1)))
    {n m : ℕ} (hn : P (p.state n)) (hnm : n ≤ m)
    (hno : ∀ k, n ≤ k → k < m → ¬ p.Moves mine k) : P (p.state m) := by
  induction hnm with
  | refl => exact hn
  | @step m hnm ih =>
    have hm := ih fun k hk hkm => hno k hk (Nat.lt_succ_of_lt hkm)
    exact hother m hm (hno m hnm (Nat.lt_succ_self m))

/-- A client that can move for as long as it does not is bound to move. -/
theorem Path.WeakFair.moves (hfair : p.WeakFair mine)
    (hother : ∀ n, P (p.state n) → ¬ p.Moves mine n → P (p.state (n + 1)))
    (henabled : ∀ n, P (p.state n) → ∃ a, mine a ∧ (step (p.state n) a).isSome) (n : ℕ)
    (hn : P (p.state n)) : ∃ m, n ≤ m ∧ p.Moves mine m := by
  by_contra hnever
  have hno : ∀ k, n ≤ k → ¬ p.Moves mine k := fun k hk hmoves => hnever ⟨k, hk, hmoves⟩
  apply hnever
  apply hfair n
  intro m hnm
  exact henabled m (Path.stays hother hn hnm fun k hk _ => hno k hk)

/-- **Progress by a measure**: a client that is bound to move, whose moves lower the measure
and which the others leave where it is, arrives. -/
theorem Path.descend (hmoves : ∀ n, P (p.state n) → ∃ m, n ≤ m ∧ p.Moves mine m)
    (hother : ∀ n, P (p.state n) → ¬ p.Moves mine n →
      P (p.state (n + 1)) ∧ f (p.state (n + 1)) = f (p.state n))
    (hown : ∀ n, P (p.state n) → p.Moves mine n →
      Q (p.state (n + 1)) ∨ P (p.state (n + 1)) ∧ f (p.state (n + 1)) < f (p.state n))
    (n : ℕ) (hn : P (p.state n)) : ∃ m, n ≤ m ∧ Q (p.state m) := by
  induction hk : f (p.state n) using Nat.strongRecOn generalizing n with
  | ind k ih =>
    classical
    -- the next move of the client, at time `m`
    have hexists := hmoves n hn
    obtain ⟨hnm, hm⟩ := Nat.find_spec hexists
    set m := Nat.find hexists
    have hno : ∀ j, n ≤ j → j < m → ¬ p.Moves mine j := fun j hj hjm hmove =>
      Nat.find_min hexists hjm ⟨hj, hmove⟩
    obtain ⟨hPm, hfm⟩ : P (p.state m) ∧ f (p.state m) = k := by
      refine Path.stays (P := fun s => P s ∧ f s = k) ?_ ⟨hn, hk⟩ hnm hno
      intro j hj hnot
      obtain ⟨hP, hf⟩ := hother j hj.1 hnot
      exact ⟨hP, hf.trans hj.2⟩
    rcases hown m hPm hm with hQ | ⟨hP, hlt⟩
    · exact ⟨m + 1, Nat.le_succ_of_le hnm, hQ⟩
    · obtain ⟨m', hm', hQ⟩ := ih (f (p.state (m + 1))) (hfm ▸ hlt) (m + 1) hP rfl
      exact ⟨m', Nat.le_trans (Nat.le_succ_of_le hnm) hm', hQ⟩

/-! ## The path of a schedule -/

/-- The state after some labels. -/
def follow (step : S → A → Option S) (s : S) (as : List A) : S :=
  as.foldl (fun s a => (step s a).getD s) s

/-- A schedule that executes, label by label. -/
theorem exec_follow {H : S → A → S → Bool} {as : List A} {s t : S}
    (h : exec step H s as = some t) :
    follow step s as = t ∧ ∀ n a, as[n]? = some a →
      step (follow step s (as.take n)) a = some (follow step s (as.take (n + 1))) ∧
        H (follow step s (as.take n)) a (follow step s (as.take (n + 1))) = true := by
  induction as generalizing s with
  | nil =>
    rw [exec, Option.some.injEq] at h
    exact ⟨h, by simp⟩
  | cons b as ih =>
    rw [exec] at h
    split at h
    · cases h
    · rename_i u hu
      split at h
      · rename_i hguard
        obtain ⟨hlast, hall⟩ := ih h
        have hfollow : ∀ bs, follow step s (b :: bs) = follow step u bs := by
          intro bs
          change follow step ((step s b).getD s) bs = follow step u bs
          rw [hu, Option.getD_some]
        refine ⟨(hfollow as).trans hlast, ?_⟩
        intro n a ha
        cases n with
        | zero =>
          obtain rfl : b = a := Option.some.inj ha
          have hone : follow step s ((b :: as).take (0 + 1)) = u := hfollow []
          rw [hone]
          exact ⟨hu, hguard⟩
        | succ n =>
          rw [List.take_succ_cons, List.take_succ_cons, hfollow, hfollow]
          exact hall n a ha
      · cases h

/-- The path that performs a schedule and then rests. -/
def Path.ofSchedule {H : S → A → S → Bool} {as : List A} {s t : S}
    (h : exec step H s as = some t) : Path step fun s a t => H s a t = true where
  state n := follow step s (as.take n)
  label n := as[n]?
  move := (exec_follow h).2
  still n hn := by
    have hlen : as.length ≤ n := List.getElem?_eq_none_iff.mp hn
    rw [List.take_of_length_le hlen, List.take_of_length_le (Nat.le_succ_of_le hlen)]

/-- It rests in the last state. -/
theorem Path.ofSchedule_last {H : S → A → S → Bool} {as : List A} {s t : S}
    (h : exec step H s as = some t) {n : ℕ} (hn : as.length ≤ n) :
    (Path.ofSchedule h).state n = t := by
  change follow step s (as.take n) = t
  rw [List.take_of_length_le hn]
  exact (exec_follow h).1

/-- A client that cannot move in the last state has been treated fairly. -/
theorem Path.ofSchedule_fair {H : S → A → S → Bool} {as : List A} {s t : S}
    (h : exec step H s as = some t) (hlast : ∀ a, mine a → step t a = none) :
    (Path.ofSchedule h).WeakFair mine := by
  intro n henabled
  obtain ⟨a, ha, hsome⟩ := henabled (max n as.length) (Nat.le_max_left _ _)
  rw [Path.ofSchedule_last h (Nat.le_max_right _ _), hlast a ha] at hsome
  cases hsome

/-- A path under a guard is a path under any weaker one. -/
def Path.mono {G' : S → A → S → Prop} (hG : ∀ s a t, G s a t → G' s a t) (p : Path step G) :
    Path step G' where
  state := p.state
  label := p.label
  move n a hn := ⟨(p.move n a hn).1, hG _ _ _ (p.move n a hn).2⟩
  still := p.still

end MxApi.Lib
