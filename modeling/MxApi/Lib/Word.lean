/-
Unsigned 8-bit, 16-bit, 32-bit and 64-bit and signed 32-bit arithmetic over `ℕ` and `ℤ`.

A C `unsigned` is a natural number below `2^32`; sums are reduced explicitly
([`u32`]) and so are differences ([`subU32`]). Assigning an `unsigned` to a
`signed` reinterprets its bits ([`toInt32`]). The lemmas say when the machine's
answer is the mathematical one.
-/
import Mathlib.Tactic.Linarith

set_option autoImplicit false

namespace MxApi.Lib

/-- The value a `uint32_t` keeps of a natural number. -/
def u32 (n : ℕ) : ℕ := n % 2 ^ 32

/-- `a - b` on `uint32_t`. -/
def subU32 (a b : ℕ) : ℕ := (a + (2 ^ 32 - b)) % 2 ^ 32

/-- The `int32_t` with the bits of the `uint32_t` `n`. -/
def toInt32 (n : ℕ) : ℤ := if n < 2 ^ 31 then (n : ℤ) else (n : ℤ) - 2 ^ 32

theorem u32_lt (n : ℕ) : u32 n < 2 ^ 32 := Nat.mod_lt _ (by norm_num)

theorem u32_of_lt {n : ℕ} (h : n < 2 ^ 32) : u32 n = n := Nat.mod_eq_of_lt h

theorem u32_zero : u32 0 = 0 := rfl

theorem subU32_of_le {a b : ℕ} (ha : a < 2 ^ 32) (hb : b ≤ a) : subU32 a b = a - b := by
  unfold subU32
  omega

/-- The difference of two reduced counters whose unreduced difference is
small is that difference, wherever the counters stand. -/
theorem subU32_u32 {a b : ℕ} (hb : b ≤ a) (h : a < b + 2 ^ 32) :
    subU32 (u32 a) (u32 b) = a - b := by
  unfold subU32 u32
  omega

theorem u32_succ (n : ℕ) : u32 (u32 n + 1) = u32 (n + 1) := by
  unfold u32
  omega

theorem subU32_succ (n : ℕ) : subU32 (u32 (n + 1)) 1 = u32 n := by
  unfold subU32 u32
  omega

/-- The value a `uint16_t` keeps of a natural number. -/
def u16 (n : ℕ) : ℕ := n % 2 ^ 16

theorem u16_lt (n : ℕ) : u16 n < 2 ^ 16 := Nat.mod_lt _ (by norm_num)

theorem u16_of_lt {n : ℕ} (h : n < 2 ^ 16) : u16 n = n := Nat.mod_eq_of_lt h

/-- The value a `uint8_t` keeps of a natural number. -/
def u8 (n : ℕ) : ℕ := n % 2 ^ 8

theorem u8_of_lt {n : ℕ} (h : n < 2 ^ 8) : u8 n = n := Nat.mod_eq_of_lt h

/-- `a - b` on `uint8_t`. -/
def subU8 (a b : ℕ) : ℕ := (a + (2 ^ 8 - b)) % 2 ^ 8

theorem subU8_of_le {a b : ℕ} (ha : a < 2 ^ 8) (hb : b ≤ a) : subU8 a b = a - b := by
  unfold subU8
  omega

/-- `n - 1` on `uint16_t`. -/
def decU16 (n : ℕ) : ℕ := (n + (2 ^ 16 - 1)) % 2 ^ 16

theorem decU16_succ {n : ℕ} (h : n + 1 < 2 ^ 16) : decU16 (n + 1) = n := by
  unfold decU16
  omega

/-- Reduction keeps the last bit. -/
theorem u16_mod_two (n : ℕ) : u16 n % 2 = n % 2 := by
  unfold u16
  omega

theorem u16_add (m n : ℕ) : u16 (u16 m + n) = u16 (m + n) := by
  unfold u16
  omega

/-- A reduced counter that came back to its value has not moved, unless it moved
by a whole turn. -/
theorem eq_zero_of_u16_add {m n : ℕ} (h : u16 (m + n) = m) (hn : n < 2 ^ 16) : n = 0 := by
  unfold u16 at h
  omega

/-- The value a 64-bit pointer keeps of a natural number. -/
def u64 (n : ℕ) : ℕ := n % 2 ^ 64

theorem u64_of_lt {n : ℕ} (h : n < 2 ^ 64) : u64 n = n := Nat.mod_eq_of_lt h

theorem u64_add (m n : ℕ) : u64 (u64 m + n) = u64 (m + n) := by
  unfold u64
  omega

/-- The `uint32_t` with the bits of the `int32_t` `z`. -/
def ofInt32 (z : ℤ) : ℕ := (z % 2 ^ 32).toNat

theorem ofInt32_of_nonneg {n : ℕ} (h : n < 2 ^ 32) : ofInt32 n = n := by
  unfold ofInt32
  omega

theorem toInt32_of_lt {n : ℕ} (h : n < 2 ^ 31) : toInt32 n = n := by
  rw [toInt32, if_pos h]

end MxApi.Lib
