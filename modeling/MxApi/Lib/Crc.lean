/-
Reflected cyclic redundancy checks, over a register of any width.

A register of `n` bits stands for a polynomial over GF(2) of degree below `n`, its lowest bit
for the highest power ([`toPoly`]). A step of the bit-by-bit division multiplies by `X` and
reduces by the polynomial `X ^ n + toPoly poly`, so feeding bytes leaves the remainder of what
was there and of the bytes ([`toPoly_feed`]).

A step is linear in exclusive or, which is all that the tables of byte-wise programs need
([`shiftBits_eight`]), and linear maps are told by the registers with a single bit set
([`Linear.ext`]). No two registers are taken to the same one, if the lowest power of the
polynomial is 1 ([`feed_inj`]). So strings of one length that differ in no more bytes in a row
than fit into the register are told apart ([`feed_short_inj`]).
-/
import Mathlib

set_option autoImplicit false

namespace MxApi.Lib.Crc

variable {n : ℕ} (poly : BitVec n)

/-! ## The division, bit by bit -/

/-- One bit. -/
def shiftBit (reg : BitVec n) : BitVec n :=
  if reg.getLsbD 0 then (reg >>> 1) ^^^ poly else reg >>> 1

/-- `k` bits. -/
def shiftBits : ℕ → BitVec n → BitVec n
  | 0, reg => reg
  | k + 1, reg => shiftBits k (shiftBit poly reg)

/-- A byte enters the register at its low end and is shifted out. -/
def feedByte (reg : BitVec n) (b : UInt8) : BitVec n :=
  shiftBits poly 8 (reg ^^^ b.toBitVec.setWidth n)

def feed (reg : BitVec n) (bytes : List UInt8) : BitVec n := bytes.foldl (feedByte poly) reg

@[simp] theorem feed_nil (reg : BitVec n) : feed poly reg [] = reg := rfl

@[simp] theorem feed_cons (reg : BitVec n) (b : UInt8) (bytes : List UInt8) :
    feed poly reg (b :: bytes) = feed poly (feedByte poly reg b) bytes := rfl

theorem feed_append (reg : BitVec n) (xs ys : List UInt8) :
    feed poly reg (xs ++ ys) = feed poly (feed poly reg xs) ys := List.foldl_append

/-! ## Linearity -/

theorem xor_xor_xor_comm (a b c d : BitVec n) :
    (a ^^^ b) ^^^ (c ^^^ d) = (a ^^^ c) ^^^ (b ^^^ d) := by
  rw [BitVec.xor_assoc, ← BitVec.xor_assoc b c d, BitVec.xor_comm b c, BitVec.xor_assoc c b d,
    ← BitVec.xor_assoc]

theorem shiftBit_xor (x y : BitVec n) :
    shiftBit poly (x ^^^ y) = shiftBit poly x ^^^ shiftBit poly y := by
  unfold shiftBit
  rw [BitVec.getLsbD_xor, BitVec.ushiftRight_xor_distrib]
  cases x.getLsbD 0 <;> cases y.getLsbD 0
  · rfl
  · exact BitVec.xor_assoc _ _ _
  · simp only [Bool.xor_false, if_true, Bool.false_eq_true, if_false]
    rw [BitVec.xor_assoc, BitVec.xor_comm _ poly, ← BitVec.xor_assoc]
  · simp only [Bool.xor_self, Bool.false_eq_true, if_false, if_true]
    rw [xor_xor_xor_comm, BitVec.xor_self, BitVec.xor_zero]

theorem shiftBits_xor (k : ℕ) (x y : BitVec n) :
    shiftBits poly k (x ^^^ y) = shiftBits poly k x ^^^ shiftBits poly k y := by
  induction k generalizing x y with
  | zero => rfl
  | succ k ih =>
    rw [shiftBits, shiftBit_xor]
    exact ih _ _

theorem feedByte_xor (x y : BitVec n) (b c : UInt8) :
    feedByte poly (x ^^^ y) (b ^^^ c) = feedByte poly x b ^^^ feedByte poly y c := by
  unfold feedByte
  rw [UInt8.toBitVec_xor, BitVec.setWidth_xor, xor_xor_xor_comm, shiftBits_xor]

/-- Strings of one length are fed side by side. -/
theorem feed_xor (x y : BitVec n) (bs cs : List UInt8) (hlen : bs.length = cs.length) :
    feed poly (x ^^^ y) (List.zipWith (· ^^^ ·) bs cs) = feed poly x bs ^^^ feed poly y cs := by
  induction bs generalizing x y cs with
  | nil =>
    have hnil : cs = [] := List.length_eq_zero_iff.mp hlen.symm
    rw [hnil, List.zipWith_nil_left, feed_nil, feed_nil, feed_nil]
  | cons b bs ih =>
    cases cs with
    | nil => simp at hlen
    | cons c cs =>
      rw [List.zipWith_cons_cons, feed_cons, feedByte_xor, feed_cons, feed_cons]
      exact ih _ _ cs (by simpa using hlen)

/-- Bits that are not set are only moved down. -/
theorem shiftBits_of_low {k : ℕ} {x : BitVec n} (h : ∀ i < k, x.getLsbD i = false) :
    shiftBits poly k x = x >>> k := by
  induction k generalizing x with
  | zero => exact (BitVec.ushiftRight_zero x).symm
  | succ k ih =>
    have hstep : shiftBit poly x = x >>> 1 := by
      unfold shiftBit
      rw [h 0 (Nat.succ_pos k)]
      rfl
    rw [shiftBits, hstep, ih]
    · rw [← BitVec.shiftRight_add, Nat.add_comm]
    · intro i hi
      rw [BitVec.getLsbD_ushiftRight]
      exact h (1 + i) (by omega)

/-- A register is its low byte and the rest. -/
theorem split_low (x : BitVec n) :
    x = (x &&& (0xFF : BitVec 8).setWidth n) ^^^ (x &&& ~~~(0xFF : BitVec 8).setWidth n) := by
  apply BitVec.eq_of_getLsbD_eq
  intro i hi
  simp only [BitVec.getLsbD_xor, BitVec.getLsbD_and, BitVec.getLsbD_not, hi, decide_true,
    Bool.true_and]
  cases x.getLsbD i <;> cases ((0xFF : BitVec 8).setWidth n).getLsbD i <;> rfl

theorem getLsbD_low (i : ℕ) (hi : i < n) :
    ((0xFF : BitVec 8).setWidth n).getLsbD i = decide (i < 8) := by
  rw [BitVec.getLsbD_setWidth]
  have hones : (0xFF : BitVec 8) = BitVec.allOnes 8 := rfl
  rw [hones, BitVec.getLsbD_allOnes]
  simp [hi]

/-- **A byte at a time**: eight steps are those of the low byte, and the rest moved down. -/
theorem shiftBits_eight (x : BitVec n) :
    shiftBits poly 8 x =
      (x >>> 8) ^^^ shiftBits poly 8 (x &&& (0xFF : BitVec 8).setWidth n) := by
  have hlow : ∀ i < 8, (x &&& ~~~(0xFF : BitVec 8).setWidth n).getLsbD i = false := by
    intro i hi
    by_cases hin : i < n
    · rw [BitVec.getLsbD_and, BitVec.getLsbD_not, getLsbD_low i hin]
      simp [hi]
    · exact BitVec.getLsbD_of_ge _ _ (by omega)
  have hshift : (x &&& ~~~(0xFF : BitVec 8).setWidth n) >>> 8 = x >>> 8 := by
    apply BitVec.eq_of_getLsbD_eq
    intro i hi
    rw [BitVec.getLsbD_ushiftRight, BitVec.getLsbD_ushiftRight, BitVec.getLsbD_and]
    by_cases hin : 8 + i < n
    · rw [BitVec.getLsbD_not, getLsbD_low _ hin]
      simp [hin]
    · rw [BitVec.getLsbD_of_ge x _ (by omega), Bool.false_and]
  conv_lhs => rw [split_low x]
  rw [shiftBits_xor, shiftBits_of_low poly hlow, hshift, BitVec.xor_comm]

/-! ## Maps that are linear in exclusive or -/

section Linear

variable {m : ℕ}

/-- Exclusive or goes through the map. -/
def Linear (f : BitVec n → BitVec m) : Prop := ∀ x y, f (x ^^^ y) = f x ^^^ f y

theorem Linear.map_zero {f : BitVec n → BitVec m} (hf : Linear f) : f 0 = 0 := by
  have hdouble := hf 0 0
  rw [BitVec.xor_self, BitVec.xor_self] at hdouble
  exact hdouble

/-- **Single bits decide**: linear maps that agree on every register with one bit set are the
same. The induction is on a bound on the bits that are set. -/
theorem Linear.ext {f g : BitVec n → BitVec m} (hf : Linear f) (hg : Linear g)
    (hbits : ∀ i < n, f (BitVec.twoPow n i) = g (BitVec.twoPow n i)) (x : BitVec n) :
    f x = g x := by
  have hbound : ∀ k x, (∀ i, k ≤ i → x.getLsbD i = false) → f x = g x := by
    intro k
    induction k with
    | zero =>
      intro x hclear
      have hx : x = 0 := by
        apply BitVec.eq_of_getLsbD_eq
        intro i _
        rw [hclear i (Nat.zero_le i)]
        exact BitVec.getLsbD_zero.symm
      rw [hx, hf.map_zero, hg.map_zero]
    | succ k ih =>
      intro x hclear
      cases hk : x.getLsbD k with
      | false =>
        apply ih
        intro i hi
        rcases Nat.eq_or_lt_of_le hi with rfl | hlt
        · exact hk
        · exact hclear i hlt
      | true =>
        -- the highest bit is taken off
        have hkn : k < n := by
          by_contra hge
          rw [BitVec.getLsbD_of_ge x k (by omega)] at hk
          cases hk
        have hx : x = (x ^^^ BitVec.twoPow n k) ^^^ BitVec.twoPow n k := by
          rw [BitVec.xor_assoc, BitVec.xor_self, BitVec.xor_zero]
        have hrest : f (x ^^^ BitVec.twoPow n k) = g (x ^^^ BitVec.twoPow n k) := by
          apply ih
          intro i hi
          rw [BitVec.getLsbD_xor, BitVec.getLsbD_twoPow]
          rcases Nat.eq_or_lt_of_le hi with rfl | hlt
          · simp [hk, hkn]
          · rw [hclear i hlt]
            simp [Nat.ne_of_lt hlt]
        rw [hx, hf, hg, hrest, hbits k hkn]
  exact hbound n x fun i hi => BitVec.getLsbD_of_ge x i hi

/-- Bit `i + j` selects row `j`. -/
def combine : List (BitVec m) → ℕ → BitVec n → BitVec m
  | [], _, _ => 0
  | row :: rows, i, x => (if x.getLsbD i then row else 0) ^^^ combine rows (i + 1) x

theorem combine_linear (rows : List (BitVec m)) (i : ℕ) :
    Linear (combine rows i : BitVec n → BitVec m) := by
  intro x y
  induction rows generalizing i with
  | nil => exact (BitVec.xor_self).symm
  | cons row rows ih =>
    have hrow : (if (x ^^^ y).getLsbD i then row else 0) =
        (if x.getLsbD i then row else 0) ^^^ (if y.getLsbD i then row else 0) := by
      rw [BitVec.getLsbD_xor]
      cases x.getLsbD i <;> cases y.getLsbD i <;> simp
    rw [combine, ih, hrow, combine, combine, xor_xor_xor_comm]

end Linear

/-! ## No two registers become one -/

variable {poly}

/-- The highest bit of the new register tells the lowest bit of the old one. -/
theorem shiftBit_msb (hpoly : poly.getLsbD (n - 1) = true) (x : BitVec n) :
    (shiftBit poly x).getLsbD (n - 1) = x.getLsbD 0 := by
  have hn : 0 < n := by
    by_contra h0
    rw [BitVec.getLsbD_of_ge poly _ (by omega)] at hpoly
    cases hpoly
  have htop : (x >>> 1).getLsbD (n - 1) = false := by
    rw [BitVec.getLsbD_ushiftRight]
    exact BitVec.getLsbD_of_ge _ _ (by omega)
  unfold shiftBit
  cases x.getLsbD 0 with
  | false => exact htop
  | true =>
    rw [if_pos rfl, BitVec.getLsbD_xor, htop, hpoly]
    rfl

theorem shiftBit_inj (hpoly : poly.getLsbD (n - 1) = true) {x y : BitVec n}
    (h : shiftBit poly x = shiftBit poly y) : x = y := by
  have hlow : x.getLsbD 0 = y.getLsbD 0 := by
    rw [← shiftBit_msb hpoly x, h, shiftBit_msb hpoly y]
  have hrest : x >>> 1 = y >>> 1 := by
    unfold shiftBit at h
    rw [hlow] at h
    cases hy : y.getLsbD 0 with
    | false => simpa only [hy, Bool.false_eq_true, if_false] using h
    | true =>
      rw [hy] at h
      exact (BitVec.xor_left_inj poly).mp h
  apply BitVec.eq_of_getLsbD_eq
  intro i _
  cases i with
  | zero => exact hlow
  | succ i =>
    have hbit := congrArg (fun z => BitVec.getLsbD z i) hrest
    simpa only [BitVec.getLsbD_ushiftRight, Nat.add_comm 1 i] using hbit

theorem shiftBits_inj (hpoly : poly.getLsbD (n - 1) = true) (k : ℕ) {x y : BitVec n}
    (h : shiftBits poly k x = shiftBits poly k y) : x = y := by
  induction k generalizing x y with
  | zero => exact h
  | succ k ih => exact shiftBit_inj hpoly (ih h)

/-- **Different registers stay different**, whatever they are fed. -/
theorem feed_inj (hpoly : poly.getLsbD (n - 1) = true) (bytes : List UInt8) {x y : BitVec n}
    (h : feed poly x bytes = feed poly y bytes) : x = y := by
  induction bytes generalizing x y with
  | nil => exact h
  | cons b bytes ih => exact (BitVec.xor_left_inj _).mp (shiftBits_inj hpoly 8 (ih h))

/-! ## Short strings -/

/-- The register that a string fits into, its first byte lowest. -/
def packed (n : ℕ) : List UInt8 → BitVec n
  | [] => 0
  | b :: bytes => b.toBitVec.setWidth n ^^^ packed n bytes <<< 8

theorem getLsbD_packed_of_ge (bytes : List UInt8) {i : ℕ} (h : 8 * bytes.length ≤ i) :
    (packed n bytes).getLsbD i = false := by
  induction bytes generalizing i with
  | nil => simp [packed]
  | cons b bytes ih =>
    rw [List.length_cons] at h
    rw [packed, BitVec.getLsbD_xor, BitVec.getLsbD_setWidth, BitVec.getLsbD_shiftLeft,
      BitVec.getLsbD_of_ge b.toBitVec i (by omega), ih (by omega)]
    simp

/-- The bytes after the first one are moved down to its place. -/
theorem packed_shiftLeft_shiftRight (bytes : List UInt8) (h : 8 * bytes.length + 8 ≤ n) :
    (packed n bytes <<< 8) >>> 8 = packed n bytes := by
  apply BitVec.eq_of_getLsbD_eq
  intro i hi
  rw [BitVec.getLsbD_ushiftRight, BitVec.getLsbD_shiftLeft]
  by_cases hin : 8 + i < n
  · simp [hin]
  · have hzero : (packed n bytes).getLsbD i = false := getLsbD_packed_of_ge bytes (by omega)
    simp [hin, hzero]

theorem packed_inj {bs cs : List UInt8} (hlen : bs.length = cs.length) (hn : 8 * bs.length ≤ n)
    (h : packed n bs = packed n cs) : bs = cs := by
  induction bs generalizing cs with
  | nil => exact (List.length_eq_zero_iff.mp hlen.symm).symm
  | cons b bs ih =>
    cases cs with
    | nil => simp at hlen
    | cons c cs =>
      rw [List.length_cons] at hn
      have hlen' : bs.length = cs.length := by simpa using hlen
      have hhead : b = c := by
        apply UInt8.toBitVec_inj.mp
        apply BitVec.eq_of_getLsbD_eq
        intro i hi
        have hbit := congrArg (fun x => BitVec.getLsbD x i) h
        have hin : i < n := by omega
        simpa [packed, hi, hin] using hbit
      have htail : packed n bs <<< 8 = packed n cs <<< 8 := by
        rw [packed, packed, hhead] at h
        exact (BitVec.xor_right_inj _).mp h
      have hrest : (packed n bs <<< 8) >>> 8 = (packed n cs <<< 8) >>> 8 := by rw [htail]
      rw [packed_shiftLeft_shiftRight bs (by omega), packed_shiftLeft_shiftRight cs (by omega)] at hrest
      rw [hhead, ih hlen' (by omega) hrest]

theorem shiftBits_add (k l : ℕ) (x : BitVec n) :
    shiftBits poly (k + l) x = shiftBits poly l (shiftBits poly k x) := by
  induction k generalizing x with
  | zero => rw [Nat.zero_add, shiftBits]
  | succ k ih =>
    rw [Nat.succ_add, shiftBits, shiftBits]
    exact ih _

/-- A string that fits into the register may enter it at once. -/
theorem feed_eq_shiftBits (bytes : List UInt8) (reg : BitVec n) (h : 8 * bytes.length ≤ n) :
    feed poly reg bytes = shiftBits poly (8 * bytes.length) (reg ^^^ packed n bytes) := by
  induction bytes generalizing reg with
  | nil => simp [packed, shiftBits]
  | cons b bytes ih =>
    rw [List.length_cons] at h
    -- what comes after the first byte is moved down while that is shifted out
    have hdown : shiftBits poly 8 (packed n bytes <<< 8) = packed n bytes := by
      rw [shiftBits_of_low poly, packed_shiftLeft_shiftRight bytes (by omega)]
      intro i hi
      simp [hi]
    rw [feed_cons, ih _ (by omega), feedByte, packed, List.length_cons, Nat.mul_succ, Nat.add_comm,
      shiftBits_add, ← BitVec.xor_assoc, shiftBits_xor poly 8 (reg ^^^ _), hdown]

/-- **Different short strings** leave different registers, whatever is fed after them. -/
theorem feed_short_inj (hpoly : poly.getLsbD (n - 1) = true) {bs cs : List UInt8}
    (hlen : bs.length = cs.length) (hn : 8 * bs.length ≤ n) {reg : BitVec n} {after : List UInt8}
    (h : feed poly reg (bs ++ after) = feed poly reg (cs ++ after)) : bs = cs := by
  rw [feed_append, feed_append] at h
  have hfed := feed_inj hpoly after h
  rw [feed_eq_shiftBits bs reg hn, feed_eq_shiftBits cs reg (hlen ▸ hn), hlen] at hfed
  exact packed_inj hlen hn ((BitVec.xor_right_inj _).mp (shiftBits_inj hpoly _ hfed))

variable (poly)

/-! ## Registers as polynomials -/

section Polynomials

open Polynomial

/-- The polynomial of a register: bit `i` is the coefficient of `X ^ (n - 1 - i)`. -/
noncomputable def toPoly (x : BitVec n) : (ZMod 2)[X] :=
  ∑ i ∈ Finset.range n, if x.getLsbD i then X ^ (n - 1 - i) else 0

/-- The polynomial that is divided by. -/
noncomputable def modulus : (ZMod 2)[X] := X ^ n + toPoly poly

theorem toPoly_xor (x y : BitVec n) : toPoly (x ^^^ y) = toPoly x + toPoly y := by
  unfold toPoly
  rw [← Finset.sum_add_distrib]
  refine Finset.sum_congr rfl fun i _ => ?_
  rw [BitVec.getLsbD_xor]
  cases x.getLsbD i <;> cases y.getLsbD i <;> simp [CharTwo.add_self_eq_zero]

theorem toPoly_zero : toPoly (0 : BitVec n) = 0 := by
  have hdouble := toPoly_xor (0 : BitVec n) 0
  rw [BitVec.xor_self] at hdouble
  exact left_eq_add.mp hdouble

theorem toPoly_degree_lt (x : BitVec n) : (toPoly x).degree < n := by
  rw [← mem_degreeLT]
  refine Submodule.sum_mem _ fun i hi => ?_
  rw [mem_degreeLT]
  split
  · refine lt_of_le_of_lt (degree_X_pow_le _) ?_
    have hlt := Finset.mem_range.mp hi
    exact_mod_cast (by omega : n - 1 - i < n)
  · rw [degree_zero]
    exact WithBot.bot_lt_coe n

theorem modulus_monic : (modulus poly).Monic := monic_X_pow_add (toPoly_degree_lt poly)

theorem modulus_degree : (modulus poly).degree = n := by
  have hlt : (toPoly poly).degree < (X ^ n : (ZMod 2)[X]).degree := by
    rw [degree_X_pow]
    exact toPoly_degree_lt poly
  rw [modulus, degree_add_eq_left_of_degree_lt hlt, degree_X_pow]

/-- Moving down multiplies by `X`; the lowest bit goes out at the high end. -/
theorem X_mul_toPoly (x : BitVec n) :
    X * toPoly x = toPoly (x >>> 1) + if x.getLsbD 0 then X ^ n else 0 := by
  have hall : ∑ i ∈ Finset.range (n + 1), (if x.getLsbD i then (X : (ZMod 2)[X]) ^ (n - i) else 0) =
      X * toPoly x := by
    rw [Finset.sum_range_succ, BitVec.getLsbD_of_ge x n (Nat.le_refl n), toPoly, Finset.mul_sum]
    simp only [Bool.false_eq_true, if_false, add_zero]
    refine Finset.sum_congr rfl fun i hi => ?_
    have hlt := Finset.mem_range.mp hi
    rw [mul_ite, mul_zero, ← pow_succ']
    have hexp : n - 1 - i + 1 = n - i := by omega
    rw [hexp]
  rw [← hall, Finset.sum_range_succ', toPoly]
  congr 1
  refine Finset.sum_congr rfl fun i _ => ?_
  rw [BitVec.getLsbD_ushiftRight, Nat.add_comm 1 i]
  have hexp : n - (i + 1) = n - 1 - i := by omega
  rw [hexp]

/-- **A step** multiplies by `X`, up to a multiple of the modulus. -/
theorem X_mul_toPoly_eq (x : BitVec n) :
    X * toPoly x = toPoly (shiftBit poly x) + if x.getLsbD 0 then modulus poly else 0 := by
  rw [X_mul_toPoly]
  unfold shiftBit
  cases x.getLsbD 0 with
  | false => rfl
  | true =>
    simp only [if_true]
    rw [toPoly_xor, modulus, add_comm (X ^ n) (toPoly poly), ← add_assoc,
      add_assoc (toPoly (x >>> 1)), CharTwo.add_self_eq_zero, add_zero]

theorem X_pow_mul_toPoly (k : ℕ) (x : BitVec n) :
    ∃ q, X ^ k * toPoly x = toPoly (shiftBits poly k x) + modulus poly * q := by
  induction k generalizing x with
  | zero => exact ⟨0, by rw [pow_zero, one_mul, mul_zero, add_zero, shiftBits]⟩
  | succ k ih =>
    obtain ⟨q, hq⟩ := ih (shiftBit poly x)
    refine ⟨q + X ^ k * if x.getLsbD 0 then 1 else 0, ?_⟩
    have hbit : (if x.getLsbD 0 then modulus poly else 0) =
        modulus poly * if x.getLsbD 0 then 1 else 0 := by
      rw [mul_ite, mul_one, mul_zero]
    rw [pow_succ, mul_assoc, X_mul_toPoly_eq poly x, hbit, mul_add, hq, shiftBits]
    ring

/-- A byte at the low end of a register stands for its highest powers. -/
theorem toPoly_setWidth (hn : 8 ≤ n) (b : BitVec 8) :
    toPoly (b.setWidth n) = X ^ (n - 8) * toPoly b := by
  have hsub : Finset.range 8 ⊆ Finset.range n := Finset.range_mono hn
  unfold toPoly
  rw [Finset.mul_sum, ← Finset.sum_subset hsub]
  · refine Finset.sum_congr rfl fun i hi => ?_
    have hlt := Finset.mem_range.mp hi
    have hin : i < n := by omega
    have hexp : n - 1 - i = n - 8 + (8 - 1 - i) := by omega
    rw [BitVec.getLsbD_setWidth, mul_ite, mul_zero, ← pow_add, hexp]
    simp [hin]
  · intro i _ hi
    rw [BitVec.getLsbD_setWidth, BitVec.getLsbD_of_ge b i (by simpa using hi)]
    simp

/-- The polynomial of a string: its bytes one after the other, each with its lowest bit
first. -/
noncomputable def message : List UInt8 → (ZMod 2)[X]
  | [] => 0
  | b :: bytes => X ^ (8 * bytes.length) * toPoly b.toBitVec + message bytes

theorem toPoly_feed_cong (hn : 8 ≤ n) (reg : BitVec n) (bytes : List UInt8) :
    ∃ q, X ^ (8 * bytes.length) * toPoly reg + X ^ n * message bytes =
      toPoly (feed poly reg bytes) + modulus poly * q := by
  induction bytes generalizing reg with
  | nil => exact ⟨0, by simp [message]⟩
  | cons b bytes ih =>
    obtain ⟨q, hq⟩ := X_pow_mul_toPoly poly 8 (reg ^^^ b.toBitVec.setWidth n)
    obtain ⟨q', hq'⟩ := ih (feedByte poly reg b)
    have hpow : (X : (ZMod 2)[X]) ^ n = X ^ 8 * X ^ (n - 8) := by
      rw [← pow_add]
      congr 1
      omega
    -- the byte in the register is the byte of the message
    have hbyte : X ^ 8 * toPoly reg + X ^ n * toPoly b.toBitVec =
        toPoly (feedByte poly reg b) + modulus poly * q := by
      rw [feedByte, ← hq, toPoly_xor, toPoly_setWidth hn, hpow]
      ring
    refine ⟨X ^ (8 * bytes.length) * q + q', ?_⟩
    rw [feed_cons, mul_add, ← add_assoc, add_right_comm, ← hq', message, List.length_cons,
      Nat.mul_succ, pow_add]
    linear_combination X ^ (8 * bytes.length) * hbyte

/-- **Feeding bytes leaves the remainder** of what was in the register, moved up, and of the
bytes. -/
theorem toPoly_feed (hn : 8 ≤ n) (reg : BitVec n) (bytes : List UInt8) :
    toPoly (feed poly reg bytes) =
      (X ^ (8 * bytes.length) * toPoly reg + X ^ n * message bytes) %ₘ modulus poly := by
  obtain ⟨q, hq⟩ := toPoly_feed_cong poly hn reg bytes
  have hdegree : (toPoly (feed poly reg bytes)).degree < (modulus poly).degree := by
    rw [modulus_degree]
    exact toPoly_degree_lt _
  have hunique := div_modByMonic_unique q _ (modulus_monic poly) ⟨hq.symm, hdegree⟩
  exact hunique.2.symm

/-- A register is told by its polynomial. -/
theorem toPoly_inj {x y : BitVec n} (h : toPoly x = toPoly y) : x = y := by
  have hcoeff : ∀ (z : BitVec n) (i : ℕ), i < n →
      (toPoly z).coeff (n - 1 - i) = if z.getLsbD i then 1 else 0 := by
    intro z i hi
    unfold toPoly
    rw [finsetSum_coeff, Finset.sum_eq_single i]
    · split
      · exact coeff_X_pow_self _
      · exact coeff_zero _
    · intro j hj hne
      have hlt := Finset.mem_range.mp hj
      split
      · rw [coeff_X_pow, if_neg (by omega)]
      · exact coeff_zero _
    · intro hnot
      exact absurd (Finset.mem_range.mpr hi) hnot
  apply BitVec.eq_of_getLsbD_eq
  intro i hi
  have hbits : (toPoly x).coeff (n - 1 - i) = (toPoly y).coeff (n - 1 - i) := by rw [h]
  rw [hcoeff x i hi, hcoeff y i hi] at hbits
  cases hx : x.getLsbD i <;> cases hy : y.getLsbD i
  · rfl
  · rw [hx, hy] at hbits
    exact absurd hbits (by decide)
  · rw [hx, hy] at hbits
    exact absurd hbits (by decide)
  · rfl

end Polynomials

end MxApi.Lib.Crc
