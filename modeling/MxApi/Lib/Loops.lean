/-
The loops of a C program whose body can fail.

`for (i = 0; i < n; i++)` is [`forLoop`] and `while (1)` with a test at its head is
[`whileLoop`], which is given how often it may look at the test. `none` says that the
body fails or, for the second, that the loop has not ended by then. Each loop has a rule
for what holds when it ends and one for that it ends: of the first loop the invariant
says how far it has come, of the second how many rounds it has made.

[`each16`] is the loop over the first `n` elements of an array whose counter is a
`uint16_t`: from `2^16` elements on the counter never gets there.
-/
import Mathlib.Tactic.Common
import MxApi.Lib.Word

set_option autoImplicit false

namespace MxApi.Lib

variable {σ : Type*} {body : ℕ → σ → Option σ} {n : ℕ} {s s' : σ}

/-! ## A loop that counts -/

/-- The body for `0`, …, `n - 1`. -/
def forLoop (body : ℕ → σ → Option σ) : ℕ → σ → Option σ
  | 0, s => some s
  | n + 1, s => (forLoop body n s).bind (body n)

theorem forLoop_succ : forLoop body (n + 1) s = (forLoop body n s).bind (body n) := rfl

/-- What the body carries on from one index to the next holds at the end. -/
theorem forLoop_inv (P : ℕ → σ → Prop)
    (hbody : ∀ i s s', i < n → P i s → body i s = some s' → P (i + 1) s')
    (h0 : P 0 s) (hrun : forLoop body n s = some s') : P n s' := by
  induction n generalizing s' with
  | zero =>
    rw [forLoop, Option.some.injEq] at hrun
    rw [← hrun]
    exact h0
  | succ n ih =>
    rw [forLoop_succ, Option.bind_eq_some_iff] at hrun
    obtain ⟨t, ht, hlast⟩ := hrun
    have hn : P n t := by
      apply ih _ ht
      intro i s₁ s₂ hi
      exact hbody i s₁ s₂ (by omega)
    exact hbody n t s' (by omega) hn hlast

/-- The loop ends where the body never fails under the invariant. -/
theorem forLoop_ends (P : ℕ → σ → Prop)
    (hbody : ∀ i s, i < n → P i s → ∃ s', body i s = some s' ∧ P (i + 1) s')
    (h0 : P 0 s) : ∃ s', forLoop body n s = some s' ∧ P n s' := by
  induction n with
  | zero => exact ⟨s, rfl, h0⟩
  | succ n ih =>
    obtain ⟨t, ht, hn⟩ := ih fun i s hi => hbody i s (by omega)
    obtain ⟨s', hlast, hP⟩ := hbody n t (by omega) hn
    refine ⟨s', ?_, hP⟩
    rw [forLoop_succ, ht]
    exact hlast

/-! ## A loop that tests -/

/-- The body as long as the test holds, which is looked at `fuel` times at most. -/
def whileLoop (test : σ → Bool) (body : σ → Option σ) : ℕ → σ → Option σ
  | 0, _ => none
  | fuel + 1, s => if test s then (body s).bind (whileLoop test body fuel) else some s

variable {test : σ → Bool} {round : σ → Option σ} {fuel : ℕ}

/-- What a round keeps holds at the end, and there the test does not. -/
theorem whileLoop_inv (P : σ → Prop)
    (hround : ∀ s s', P s → test s = true → round s = some s' → P s')
    (h0 : P s) (hrun : whileLoop test round fuel s = some s') : P s' ∧ test s' = false := by
  induction fuel generalizing s with
  | zero => cases hrun
  | succ fuel ih =>
    rw [whileLoop] at hrun
    split at hrun
    · rename_i htest
      obtain ⟨t, ht, hrest⟩ := Option.bind_eq_some_iff.mp hrun
      exact ih (hround s t h0 htest ht) hrest
    · rename_i htest
      rw [Option.some.injEq] at hrun
      rw [← hrun]
      exact ⟨h0, by simpa using htest⟩

/-- The loop ends if its rounds do not fail and the test fails after `n` of them. -/
theorem whileLoop_ends (P : ℕ → σ → Prop)
    (hround : ∀ k s, k < n → P k s → test s = true → ∃ s', round s = some s' ∧ P (k + 1) s')
    (hlast : ∀ s, P n s → test s = false) (hfuel : n < fuel) (h0 : P 0 s) :
    ∃ s', whileLoop test round fuel s = some s' ∧ (∃ k, P k s') ∧ test s' = false := by
  induction n generalizing P s fuel with
  | zero =>
    obtain ⟨f, rfl⟩ : ∃ f, fuel = f + 1 := ⟨fuel - 1, by omega⟩
    refine ⟨s, ?_, ⟨0, h0⟩, hlast s h0⟩
    rw [whileLoop, hlast s h0]
    rfl
  | succ n ih =>
    obtain ⟨f, rfl⟩ : ∃ f, fuel = f + 1 := ⟨fuel - 1, by omega⟩
    cases htest : test s with
    | false =>
      refine ⟨s, ?_, ⟨0, h0⟩, htest⟩
      rw [whileLoop, htest]
      rfl
    | true =>
      obtain ⟨t, ht, h1⟩ := hround 0 s (by omega) h0 htest
      -- the rounds that are left are counted from the state after the first
      obtain ⟨s', hrun, ⟨k, hk⟩, hend⟩ := ih (fun k => P (k + 1))
        (fun k s (hk : k < n) => hround (k + 1) s (by omega)) hlast (by omega : n < f) h1
      refine ⟨s', ?_, ⟨k + 1, hk⟩, hend⟩
      rw [whileLoop, htest, if_pos rfl, ht]
      exact hrun

/-! ## A loop over an array, with a 16-bit counter -/

section

variable {α : Type*} {visit : α → σ → Option σ} {xs : List α}

/-- `for (i = 0; i < n; i++)` over `xs[i]`, with a `uint16_t i`. -/
def each16 (visit : α → σ → Option σ) (xs : List α) (n fuel : ℕ) (s : σ) : Option σ :=
  (whileLoop (fun p : ℕ × σ => decide (p.1 < n))
    (fun p => xs[p.1]?.bind fun x => (visit x p.2).map fun t => (u16 (p.1 + 1), t))
    fuel (0, s)).map Prod.snd

/-- A loop that ends has had fewer than `2^16` elements, and carries on to its end what each
element carries on. -/
theorem each16_inv (P : ℕ → σ → Prop)
    (hvisit : ∀ i x s s', i < n → xs[i]? = some x → P i s → visit x s = some s' → P (i + 1) s')
    (h0 : P 0 s) (hrun : each16 visit xs n fuel s = some s') : n < 2 ^ 16 ∧ P n s' := by
  obtain ⟨p, hloop, rfl⟩ := Option.map_eq_some_iff.mp hrun
  have hround : ∀ {i : ℕ} {t : σ} {p' : ℕ × σ},
      (xs[i]?.bind fun x => (visit x t).map fun t' => (u16 (i + 1), t')) = some p' →
        ∃ x, xs[i]? = some x ∧ visit x t = some p'.2 ∧ p'.1 = u16 (i + 1) := by
    intro i t p' h
    obtain ⟨x, hx, hmap⟩ := Option.bind_eq_some_iff.mp h
    obtain ⟨t', ht', rfl⟩ := Option.map_eq_some_iff.mp hmap
    exact ⟨x, hx, ht', rfl⟩
  -- the counter stays below `2^16`, and the loop ends at `n`
  have hcount : n < 2 ^ 16 := by
    obtain ⟨hlt, hend⟩ := whileLoop_inv (fun p : ℕ × σ => p.1 < 2 ^ 16)
      (by
        rintro ⟨i, t⟩ p' _ _ h
        obtain ⟨_, _, _, hi⟩ := hround h
        rw [hi]
        exact u16_lt _)
      (by norm_num) hloop
    have hnot : ¬ p.1 < n := of_decide_eq_false hend
    omega
  obtain ⟨⟨hle, hP⟩, hend⟩ := whileLoop_inv (fun p : ℕ × σ => p.1 ≤ n ∧ P p.1 p.2)
    (by
      rintro ⟨i, t⟩ p' ⟨_, hi⟩ htest h
      have hlt : i < n := of_decide_eq_true htest
      obtain ⟨x, hx, ht, hnext⟩ := hround h
      rw [hnext, u16_of_lt (by omega)]
      exact ⟨hlt, hvisit i x t p'.2 hlt hx hi ht⟩)
    ⟨Nat.zero_le _, h0⟩ hloop
  have hnot : ¬ p.1 < n := of_decide_eq_false hend
  have hlast : p.1 = n := by omega
  rw [hlast] at hP
  exact ⟨hcount, hP⟩

/-- The loop ends where there are fewer than `2^16` elements and no visit fails. -/
theorem each16_ends (P : ℕ → σ → Prop) (hn : n < 2 ^ 16) (hle : n ≤ xs.length)
    (hvisit : ∀ i x s, i < n → xs[i]? = some x → P i s → ∃ s', visit x s = some s' ∧ P (i + 1) s')
    (hfuel : n < fuel) (h0 : P 0 s) : ∃ s', each16 visit xs n fuel s = some s' ∧ P n s' := by
  obtain ⟨p, hloop, ⟨k, rfl, hk, hP⟩, hend⟩ :
      ∃ p, whileLoop (fun p : ℕ × σ => decide (p.1 < n))
          (fun p => xs[p.1]?.bind fun x => (visit x p.2).map fun t => (u16 (p.1 + 1), t))
          fuel (0, s) = some p ∧ (∃ k, k = p.1 ∧ k ≤ n ∧ P k p.2) ∧ decide (p.1 < n) = false := by
    refine whileLoop_ends (fun k (p : ℕ × σ) => k = p.1 ∧ k ≤ n ∧ P k p.2) ?_ ?_ hfuel
      ⟨rfl, Nat.zero_le _, h0⟩
    · rintro k ⟨_, t⟩ hk ⟨rfl, _, hP⟩ _
      have hlt : k < xs.length := hk.trans_le hle
      have hget : xs[k]? = some xs[k] := List.getElem?_eq_getElem hlt
      obtain ⟨t', ht', hP'⟩ := hvisit k _ t hk hget hP
      refine ⟨(u16 (k + 1), t'), ?_, ?_, hk, hP'⟩
      · simp only [hget, Option.bind_some, ht', Option.map_some]
      · exact (u16_of_lt (by omega)).symm
    · rintro ⟨_, t⟩ ⟨rfl, _, _⟩
      exact decide_eq_false (Nat.lt_irrefl _)
  have hnot : ¬ p.1 < n := of_decide_eq_false hend
  have hlast : p.1 = n := by omega
  rw [hlast] at hP
  refine ⟨p.2, ?_, hP⟩
  unfold each16
  rw [hloop]
  rfl

end

end MxApi.Lib
