/-
Arrays of records of which some are changed.

A loop over an array that changes the records it finds to satisfy a test, up to a
number, leaves an array that differs from the old one in some records and not in
others. [`Changed`] says so and counts the records changed; what a loop does to
the number of records with some property follows from what one change does to it.
-/
import Mathlib.Data.Nat.Notation
import Mathlib.Tactic.TypeStar

set_option autoImplicit false

namespace MxApi.Lib

variable {α : Type*} {p q : α → Bool} {f : α → α} {n : ℕ} {xs ys : List α}

/-- `ys` is `xs` with `n` of the records that satisfy `p` changed by `f`. -/
inductive Changed (p : α → Bool) (f : α → α) : ℕ → List α → List α → Prop
  | nil : Changed p f 0 [] []
  | keep {n : ℕ} {xs ys : List α} (x : α) (h : Changed p f n xs ys) :
      Changed p f n (x :: xs) (x :: ys)
  | change {n : ℕ} {xs ys : List α} {x : α} (hx : p x = true) (h : Changed p f n xs ys) :
      Changed p f (n + 1) (x :: xs) (f x :: ys)

theorem Changed.refl (xs : List α) : Changed p f 0 xs xs := by
  induction xs with
  | nil => exact .nil
  | cons x xs ih => exact .keep x ih

/-- Nothing changed. -/
theorem Changed.eq_of_zero (h : Changed p f 0 xs ys) : ys = xs := by
  generalize hn : (0 : ℕ) = m at h
  induction h with
  | nil => rfl
  | keep x _ ih => rw [ih hn]
  | change _ _ _ => cases hn

/-- Changing the first record. -/
theorem Changed.modifyHead (f : α → α) (xs : List α) :
    ∃ n, Changed (fun _ => true) f n xs (xs.modifyHead f) := by
  cases xs with
  | nil => exact ⟨0, .nil⟩
  | cons x xs => exact ⟨1, .change rfl (.refl xs)⟩

/-- A record is the old one, or it passed the test and was changed. -/
theorem Changed.getElem? (h : Changed p f n xs ys) {l : ℕ} {x y : α} (hx : xs[l]? = some x)
    (hy : ys[l]? = some y) : y = x ∨ p x = true ∧ y = f x := by
  induction h generalizing l with
  | nil => cases hx
  | keep x₀ _ ih =>
    cases l with
    | zero => exact .inl (Option.some.inj (hy.symm.trans hx))
    | succ l => exact ih hx hy
  | change hx₀ _ ih =>
    cases l with
    | zero =>
      obtain rfl := Option.some.inj hx
      exact .inr ⟨hx₀, (Option.some.inj hy).symm⟩
    | succ l => exact ih hx hy

/-- What no change touches is the same record by record. -/
theorem Changed.map_eq {β : Type*} {g : α → β} (h : Changed p f n xs ys)
    (hg : ∀ x, p x = true → g (f x) = g x) : ys.map g = xs.map g := by
  induction h with
  | nil => rfl
  | keep x _ ih => rw [List.map_cons, List.map_cons, ih]
  | change hx _ ih => rw [List.map_cons, List.map_cons, ih, hg _ hx]

/-- What every change preserves holds of all records. -/
theorem Changed.forall {P : α → Prop} (h : Changed p f n xs ys)
    (hP : ∀ x, p x = true → P x → P (f x)) (hxs : ∀ x ∈ xs, P x) : ∀ y ∈ ys, P y := by
  induction h with
  | nil => exact hxs
  | keep x _ ih =>
    rw [List.forall_mem_cons] at hxs ⊢
    exact ⟨hxs.1, ih hxs.2⟩
  | change hx _ ih =>
    rw [List.forall_mem_cons] at hxs ⊢
    exact ⟨hP _ hx hxs.1, ih hxs.2⟩

/-- No more records are changed than pass the test. -/
theorem Changed.le_countP (h : Changed p f n xs ys) : n ≤ xs.countP p := by
  induction h with
  | nil => exact Nat.zero_le _
  | keep x _ ih =>
    rw [List.countP_cons]
    omega
  | change hx _ ih =>
    rw [List.countP_cons_of_pos hx]
    exact Nat.succ_le_succ ih

/-- A property that every change brings about. -/
theorem Changed.countP_gain (h : Changed p f n xs ys)
    (hq : ∀ x, p x = true → q x = false ∧ q (f x) = true) : ys.countP q = xs.countP q + n := by
  induction h with
  | nil => rfl
  | keep x _ ih =>
    rw [List.countP_cons, List.countP_cons, ih]
    omega
  | change hx _ ih =>
    rw [List.countP_cons, List.countP_cons, ih, (hq _ hx).1, (hq _ hx).2]
    simp only [if_true, if_false, Bool.false_eq_true]
    omega

/-- A property that every change puts an end to. -/
theorem Changed.countP_loss (h : Changed p f n xs ys)
    (hq : ∀ x, p x = true → q x = true ∧ q (f x) = false) : ys.countP q + n = xs.countP q := by
  induction h with
  | nil => rfl
  | keep x _ ih =>
    rw [List.countP_cons, List.countP_cons, ← ih]
    omega
  | change hx _ ih =>
    rw [List.countP_cons, List.countP_cons, ← ih, (hq _ hx).1, (hq _ hx).2]
    simp only [if_true, if_false, Bool.false_eq_true]
    omega

/-- A property that no change touches. -/
theorem Changed.countP_eq (h : Changed p f n xs ys) (hq : ∀ x, p x = true → q (f x) = q x) :
    ys.countP q = xs.countP q := by
  have hmap := h.map_eq hq
  have hcount : ∀ zs : List α, (zs.map q).countP id = zs.countP q := by
    intro zs
    rw [List.countP_map]
    rfl
  rw [← hcount ys, hmap, hcount]

/-- A property that no change brings about. -/
theorem Changed.countP_le (h : Changed p f n xs ys)
    (hq : ∀ x, p x = true → q (f x) = true → q x = true) : ys.countP q ≤ xs.countP q := by
  induction h with
  | nil => exact Nat.le_refl _
  | keep x _ ih =>
    rw [List.countP_cons, List.countP_cons]
    omega
  | @change _ _ _ x hx _ ih =>
    rw [List.countP_cons, List.countP_cons]
    have hle : (if q (f x) = true then 1 else 0) ≤ if q x = true then 1 else 0 := by
      cases hfx : q (f x) with
      | false => exact Nat.zero_le _
      | true => exact (if_pos (hq x hx hfx)).symm ▸ Nat.le_refl 1
    omega

/-! ## Counting the tests passed among the first records -/

theorem countP_take_succ_of_pos {x : α} (l : ℕ) (xs : List α) (hx : p x = true) :
    ((x :: xs).take (l + 1)).countP p = (xs.take l).countP p + 1 := by
  rw [List.take_succ_cons, List.countP_cons_of_pos hx]

theorem countP_take_succ_of_neg {x : α} (l : ℕ) (xs : List α) (hx : p x = false) :
    ((x :: xs).take (l + 1)).countP p = (xs.take l).countP p := by
  rw [List.take_succ_cons, List.countP_cons_of_neg]
  rw [hx]
  exact Bool.false_ne_true

/-- Where the records from `l` on fail the test, the first `l` are all that count. -/
theorem countP_take_of_drop {l : ℕ} {xs : List α} (h : ∀ x ∈ xs.drop l, p x = false) :
    (xs.take l).countP p = xs.countP p := by
  have hdrop : (xs.drop l).countP p = 0 := by
    rw [List.countP_eq_zero]
    intro x hx
    rw [h x hx]
    exact Bool.false_ne_true
  calc (xs.take l).countP p = (xs.take l).countP p + (xs.drop l).countP p := by
        rw [hdrop, Nat.add_zero]
    _ = xs.countP p := by rw [← List.countP_append, List.take_append_drop]

end MxApi.Lib
