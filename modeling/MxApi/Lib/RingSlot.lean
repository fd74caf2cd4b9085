/-
Slots of a ring: the residues modulo the ring's size `N` of positions that are
numbered without bound.

A window of at most `N` consecutive positions occupies pairwise distinct slots
([`slot_inj`]), and every slot is the slot of exactly one position of each
window of length `N` ([`exists_slot`]). These two facts are all a ring buffer's
argument needs of modular arithmetic.
-/
import Mathlib.Tactic.Linarith

set_option autoImplicit false

namespace MxApi.Lib

variable {N a b : ℕ}

/-- Two positions less than `N` apart with one slot are one position. -/
theorem slot_inj (hab : a ≤ b) (hb : b < a + N) (h : a % N = b % N) : a = b := by
  have hmod : (b - a) % N = 0 := Nat.sub_mod_eq_zero_of_mod_eq h.symm
  have hlt : (b - a) % N = b - a := Nat.mod_eq_of_lt (by omega)
  omega

/-- Distinct positions of a window of length `N` have distinct slots. -/
theorem slot_ne {w : ℕ} (ha : w ≤ a) (ha' : a < w + N) (hb : w ≤ b) (hb' : b < w + N)
    (hne : a ≠ b) : a % N ≠ b % N := by
  intro h
  rcases Nat.le_total a b with hab | hba
  · exact hne (slot_inj hab (by omega) h)
  · exact hne (slot_inj hba (by omega) h.symm).symm

/-- Every slot is the slot of a position in the window that starts at `a`. -/
theorem exists_slot {q : ℕ} (hq : q < N) (a : ℕ) : ∃ n, a ≤ n ∧ n < a + N ∧ n % N = q := by
  have hN : 0 < N := by omega
  have hr : a % N < N := Nat.mod_lt _ hN
  have hda : N * (a / N) + a % N = a := Nat.div_add_mod a N
  by_cases h : a % N ≤ q
  · refine ⟨N * (a / N) + q, by omega, by omega, ?_⟩
    rw [Nat.mul_add_mod, Nat.mod_eq_of_lt hq]
  · refine ⟨N * (a / N + 1) + q, ?_, ?_, ?_⟩
    · rw [Nat.mul_add]; omega
    · rw [Nat.mul_add]; omega
    · rw [Nat.mul_add_mod, Nat.mod_eq_of_lt hq]

/-- The slot after the slot of a position is the slot of the next one. -/
theorem slot_succ (a : ℕ) : (a + 1) % N = (a % N + 1) % N := (Nat.mod_add_mod a N 1).symm

/-! ## Positions kept modulo `W`

A position that is kept in a word of `W` values before its slot is taken has the
slot of its remainder. Where `N` divides `W` nothing is lost; otherwise the
slots jump where the positions pass a multiple of `W`, and two positions are
only comparable between two such jumps. -/

variable {W : ℕ}

/-- The slot of a remainder is the slot of the position if the ring's size
divides the number of values. -/
theorem slot_mod_of_dvd (h : N ∣ W) : a % W % N = a % N := Nat.mod_mod_of_dvd a h

/-- Then the last position before a jump is in the last slot. -/
theorem slot_last (h : N ∣ W) (hW : 0 < W) : (W - 1) % N = N - 1 := by
  obtain ⟨c, rfl⟩ := h
  cases c with
  | zero => exact absurd hW (by simp)
  | succ c =>
    have hN : 0 < N := Nat.pos_of_mul_pos_right hW
    have hlast : N * (c + 1) - 1 = N * c + (N - 1) := by
      rw [Nat.mul_succ]
      omega
    rw [hlast, Nat.mul_add_mod, Nat.mod_eq_of_lt (by omega)]

/-- Positions of one window with nothing lost, or no jump, between them have
distinct slots. -/
theorem slot_mod_ne (h : N ∣ W ∨ a / W = b / W) (hab : a < b) (hb : b < a + N) :
    a % W % N ≠ b % W % N := by
  rcases h with hdvd | hsame
  · rw [slot_mod_of_dvd hdvd, slot_mod_of_dvd hdvd]
    intro heq
    exact absurd (slot_inj (Nat.le_of_lt hab) hb heq) (Nat.ne_of_lt hab)
  · intro heq
    -- without a jump the remainders are as far apart as the positions
    have ha : W * (a / W) + a % W = a := Nat.div_add_mod a W
    have hb' : W * (a / W) + b % W = b := by
      rw [hsame]
      exact Nat.div_add_mod b W
    have := slot_inj (N := N) (a := a % W) (b := b % W) (by omega) (by omega) heq
    omega

end MxApi.Lib
