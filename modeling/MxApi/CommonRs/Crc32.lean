/-
The checksum of the Rust library, `crc32_compute_buf` (`mca-rs/common/src/crc.rs`).

The comment promises what the C library does, a checksum that is carried on over several
buffers. The code takes the accumulated value as four bytes of message, most significant byte
first, into a new digest, which is then not in the state that the first buffer left. It is in
that state only if the first buffer is one of those whose remainder the four bytes reproduce,
two remainders of all ([`crc32_compute_buf_append_iff`]).

The `crc` crate is not part of the repository. Its digest is a parameter, which is assumed to
compute the algorithm the code names ([`Crate.IsIscsi`]).
-/
import MxApi.Lib.Crc

set_option autoImplicit false

namespace MxApi.CommonRs.Crc32

open Lib.Crc

/-! ## The crate -/

/-- A digest of the `crc` crate, for one algorithm. -/
structure Crate (Digest : Type) where
  digest : Digest
  update : Digest → List UInt8 → Digest
  finalize : Digest → BitVec 32

/-- The polynomial of Castagnoli, `0x1EDC6F41`, reflected. -/
def castagnoli : BitVec 32 := 0x82F63B78

/-- `CRC_32_ISCSI`: reflected in and out, the register starts with ones and is complemented at
the end. -/
def CRC_32_ISCSI (bytes : List UInt8) : BitVec 32 := feed castagnoli 0xFFFFFFFF bytes ^^^ 0xFFFFFFFF

/-- The crate computes this algorithm, whatever parts the message is given in. -/
def Crate.IsIscsi {Digest : Type} (CASTAGNOLI : Crate Digest) : Prop :=
  ∀ parts : List (List UInt8),
    CASTAGNOLI.finalize (parts.foldl CASTAGNOLI.update CASTAGNOLI.digest) =
      CRC_32_ISCSI parts.flatten

/-! ## The source -/

section Source

variable {Digest : Type} (CASTAGNOLI : Crate Digest)

/-- `u32::to_be_bytes`. -/
def to_be_bytes (x : BitVec 32) : List UInt8 :=
  [⟨(x >>> 24).setWidth 8⟩, ⟨(x >>> 16).setWidth 8⟩, ⟨(x >>> 8).setWidth 8⟩, ⟨x.setWidth 8⟩]

/-- `str::as_bytes`. -/
def as_bytes (buf : String) : List UInt8 := buf.toByteArray.data.toList

def crc32_compute_buf (in_crc32 : BitVec 32) (buf : String) : BitVec 32 :=
  let digest := CASTAGNOLI.digest
  let crc32_bytes := to_be_bytes (in_crc32 ^^^ 0xFFFFFFFF)
  let digest := CASTAGNOLI.update digest crc32_bytes
  let buf_bytes := as_bytes buf
  let digest := CASTAGNOLI.update digest buf_bytes
  CASTAGNOLI.finalize digest

end Source

/-! ## The register -/

theorem as_bytes_append (a b : String) : as_bytes (a ++ b) = as_bytes a ++ as_bytes b := by
  unfold as_bytes
  rw [String.toByteArray_append, ByteArray.data_append, Array.toList_append]

/-- The register after the four bytes of an accumulated value. -/
def carried (x : BitVec 32) : BitVec 32 := feed castagnoli 0xFFFFFFFF (to_be_bytes x)

/-- The register that a first buffer leaves: the four bytes before it clear the register. -/
def register (a : String) : BitVec 32 := feed castagnoli 0 (as_bytes a)

section Register

variable {Digest : Type} {CASTAGNOLI : Crate Digest}

theorem crc32_compute_buf_eq (hcrate : CASTAGNOLI.IsIscsi) (in_crc32 : BitVec 32)
    (buf : String) :
    crc32_compute_buf CASTAGNOLI in_crc32 buf =
      feed castagnoli (carried (in_crc32 ^^^ 0xFFFFFFFF)) (as_bytes buf) ^^^ 0xFFFFFFFF := by
  have hparts := hcrate [to_be_bytes (in_crc32 ^^^ 0xFFFFFFFF), as_bytes buf]
  rw [List.flatten_cons, List.flatten_cons, List.flatten_nil, List.append_nil] at hparts
  unfold crc32_compute_buf carried
  rw [← feed_append]
  exact hparts

theorem crc32_compute_buf_zero (hcrate : CASTAGNOLI.IsIscsi) (a : String) :
    crc32_compute_buf CASTAGNOLI 0 a = register a ^^^ 0xFFFFFFFF := by
  have hclear : carried (0 ^^^ 0xFFFFFFFF) = 0 := by decide +kernel
  rw [crc32_compute_buf_eq hcrate, hclear, register]

/-- **The second buffer is carried on** if and only if the four bytes of the register leave
the register itself. -/
theorem append_iff_carried (hcrate : CASTAGNOLI.IsIscsi) (a b : String) :
    crc32_compute_buf CASTAGNOLI (crc32_compute_buf CASTAGNOLI 0 a) b =
        crc32_compute_buf CASTAGNOLI 0 (a ++ b) ↔
      carried (register a) = register a := by
  rw [crc32_compute_buf_zero hcrate, crc32_compute_buf_zero hcrate,
    crc32_compute_buf_eq hcrate, BitVec.xor_assoc (register a), BitVec.xor_self,
    BitVec.xor_zero, BitVec.xor_left_inj]
  unfold register
  rw [as_bytes_append, feed_append]
  constructor
  · intro hsame
    exact feed_inj (by decide) _ hsame
  · intro hsame
    rw [hsame]

end Register

/-! ## The registers that the four bytes reproduce

The four bytes are taken to a register by an affine map, so the registers that they reproduce
are one of them and what it differs from the others by: a solution of the linear equation
`difference y = 0`. That equation has one solution besides zero, and this is shown by a left
inverse of `difference` up to that solution. -/

/-- A register that is reproduced. -/
def reproduced : BitVec 32 := 0x1A94AF9B

/-- What two of them differ by. -/
def kernel : BitVec 32 := 0xDE9889DB

theorem to_be_bytes_xor (x y : BitVec 32) :
    to_be_bytes (x ^^^ y) = List.zipWith (· ^^^ ·) (to_be_bytes x) (to_be_bytes y) := by
  unfold to_be_bytes
  simp only [BitVec.ushiftRight_xor_distrib, BitVec.setWidth_xor]
  rfl

/-- What the four bytes of `y` leave in an empty register, against `y` itself. -/
def difference (y : BitVec 32) : BitVec 32 := feed castagnoli 0 (to_be_bytes y) ^^^ y

theorem difference_linear : Linear difference := by
  intro x y
  unfold difference
  have hfeed : feed castagnoli 0 (List.zipWith (· ^^^ ·) (to_be_bytes x) (to_be_bytes y)) =
      feed castagnoli 0 (to_be_bytes x) ^^^ feed castagnoli 0 (to_be_bytes y) :=
    feed_xor castagnoli 0 0 _ _ rfl
  rw [to_be_bytes_xor, hfeed, xor_xor_xor_comm]

theorem carried_xor (x y : BitVec 32) :
    carried (x ^^^ y) = carried x ^^^ feed castagnoli 0 (to_be_bytes y) := by
  unfold carried
  rw [to_be_bytes_xor]
  exact feed_xor castagnoli 0xFFFFFFFF 0 _ _ rfl

/-- The left inverse: bit `i` selects entry `i`. -/
def inverse : List (BitVec 32) := [
   0x00000000, 0x576bdaf8, 0x32072ae2, 0x09fbb3a0, 0x29ee084c, 0xa27e3a7e, 0xc3d40846,
   0xa6499c28, 0x3a9e3d9c, 0xbe006d42, 0xfb28a63e, 0x805c49b0, 0xbd0ed346, 0x0c10a340,
   0xbe6fe50e, 0x0ad2cfd0, 0x2fbcf0ac, 0x65608e54, 0x6c8fbf26, 0xd9982ddc, 0xa84feb80,
   0x1c0cee50, 0x9e577f2e, 0xbb8682e6, 0x9d57cc82, 0x763ca054, 0x4a37e326, 0x322165c2,
   0x09b72de0, 0xd8524dba, 0x0d12db52, 0xbc6b152a]

/-- `y` without its lowest bit, along [`kernel`]. -/
def project (y : BitVec 32) : BitVec 32 := combine [kernel] 0 y ^^^ y

theorem project_linear : Linear project := by
  intro x y
  unfold project
  rw [combine_linear, xor_xor_xor_comm]

/-- **The left inverse**, compared on the 32 registers with a single bit. -/
theorem combine_inverse (y : BitVec 32) : combine inverse 0 (difference y) = project y := by
  refine Linear.ext (f := fun y => combine inverse 0 (difference y)) ?_ project_linear ?_ y
  · intro x y
    simp only [difference_linear x y, combine_linear inverse 0 (difference x) (difference y)]
  · decide +kernel

example : combine inverse 0 (difference kernel) = 0 := by decide +kernel

theorem xor_eq_zero {x y : BitVec 32} : x ^^^ y = 0 ↔ x = y := BitVec.xor_eq_zero_iff

theorem difference_eq_zero {y : BitVec 32} : difference y = 0 ↔ y = 0 ∨ y = kernel := by
  constructor
  · intro hzero
    have hproject : project y = 0 := by
      rw [← combine_inverse, hzero]
      exact (combine_linear inverse 0).map_zero
    have hcases : combine [kernel] 0 y = if y.getLsbD 0 then kernel else 0 := BitVec.xor_zero
    rw [project, hcases, xor_eq_zero] at hproject
    cases hbit : y.getLsbD 0 with
    | false =>
      rw [hbit] at hproject
      exact Or.inl hproject.symm
    | true =>
      rw [hbit] at hproject
      exact Or.inr hproject.symm
  · rintro (rfl | rfl)
    · decide +kernel
    · decide +kernel

/-- **Two registers** are reproduced by their four bytes. -/
theorem carried_eq_self {x : BitVec 32} :
    carried x = x ↔ x = reproduced ∨ x = reproduced ^^^ kernel := by
  have hself : carried reproduced = reproduced := by decide +kernel
  have hx : x = reproduced ^^^ (reproduced ^^^ x) := by
    rw [← BitVec.xor_assoc, BitVec.xor_self, BitVec.zero_xor]
  have hiff : carried x = x ↔ difference (reproduced ^^^ x) = 0 := by
    conv_lhs => rw [hx, carried_xor, hself, BitVec.xor_right_inj]
    exact xor_eq_zero.symm
  rw [hiff, difference_eq_zero, xor_eq_zero, eq_comm]
  refine or_congr Iff.rfl ⟨fun h => ?_, fun h => ?_⟩
  · rw [hx, h]
  · rw [h, ← BitVec.xor_assoc, BitVec.xor_self, BitVec.zero_xor]

/-! ## Accumulation -/

open Polynomial in
/-- The buffers that can be carried on: as a polynomial over GF(2), moved up by 32, the buffer
leaves one of two remainders. -/
def CarriesOn (a : String) : Prop :=
  (X ^ 32 * message (as_bytes a)) %ₘ modulus castagnoli = toPoly reproduced ∨
    (X ^ 32 * message (as_bytes a)) %ₘ modulus castagnoli = toPoly (reproduced ^^^ kernel)

theorem carriesOn_iff (a : String) :
    CarriesOn a ↔ register a = reproduced ∨ register a = reproduced ^^^ kernel := by
  have hremainder := toPoly_feed castagnoli (by decide) 0 (as_bytes a)
  rw [toPoly_zero, mul_zero, zero_add] at hremainder
  have hinj (y : BitVec 32) : toPoly (register a) = toPoly y ↔ register a = y :=
    ⟨toPoly_inj, congrArg toPoly⟩
  unfold CarriesOn
  rw [← hremainder, ← hinj, ← hinj]
  exact Iff.rfl

/-- A digest that computes the algorithm: the register. -/
def registerDigest : Crate (BitVec 32) where
  digest := 0xFFFFFFFF
  update := feed castagnoli
  finalize := fun reg => reg ^^^ 0xFFFFFFFF

theorem registerDigest_isIscsi : registerDigest.IsIscsi := by
  intro parts
  have hfold (reg : BitVec 32) :
      parts.foldl (feed castagnoli) reg = feed castagnoli reg parts.flatten := by
    induction parts generalizing reg with
    | nil => rfl
    | cons part parts ih =>
      rw [List.foldl_cons, ih, List.flatten_cons, feed_append]
  exact congrArg (· ^^^ 0xFFFFFFFF) (hfold 0xFFFFFFFF)

/-- **When a checksum can be carried on**: whatever the second buffer is, the checksum over the
two is that of the two together if and only if the first leaves one of two remainders. -/
theorem crc32_compute_buf_append_iff {Digest : Type} {CASTAGNOLI : Crate Digest}
    (hcrate : CASTAGNOLI.IsIscsi) (a b : String) :
    crc32_compute_buf CASTAGNOLI (crc32_compute_buf CASTAGNOLI 0 a) b =
        crc32_compute_buf CASTAGNOLI 0 (a ++ b) ↔
      CarriesOn a := by
  rw [append_iff_carried hcrate, carried_eq_self, carriesOn_iff]

/-- One of the buffers that can be carried on. -/
theorem crc32_compute_buf_carries_on :
    crc32_compute_buf registerDigest (crc32_compute_buf registerDigest 0 "dhwjbud") "_db" =
      crc32_compute_buf registerDigest 0 ("dhwjbud" ++ "_db") :=
  (crc32_compute_buf_append_iff registerDigest_isIscsi "dhwjbud" "_db").mpr
    ((carriesOn_iff "dhwjbud").mpr (Or.inl (by decide +kernel)))

/-- The key of a database is not that of the identifier and its suffix. -/
theorem crc32_compute_buf_not_append :
    ¬ ∀ a b : String,
      crc32_compute_buf registerDigest (crc32_compute_buf registerDigest 0 a) b =
        crc32_compute_buf registerDigest 0 (a ++ b) := by
  intro hall
  exact absurd (hall "0123456" "0123456_db") (by decide +kernel)

end MxApi.CommonRs.Crc32
