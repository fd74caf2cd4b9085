/-
The checksum that the database keys of a program are made of, `mca_Crc32_ComputeBuf`
(`mca_utils_impl_abb.c`).

The loop takes a byte at a time and looks up the rest in a table of 256 words. It works on
`unsigned long`, which has 32 bits or more; the width is a parameter here. The table is the
source's, and is compared with the bit-by-bit division entry by entry ([`crcTable_eq`]).
-/
import MxApi.Lib.Crc

set_option autoImplicit false

namespace MxApi.Crc32

open Lib.Crc

/-! ## The source -/

def crcTable : List ℕ := [
   0x00000000, 0x77073096, 0xEE0E612C, 0x990951BA, 0x076DC419, 0x706AF48F, 0xE963A535,
   0x9E6495A3, 0x0EDB8832, 0x79DCB8A4, 0xE0D5E91E, 0x97D2D988, 0x09B64C2B, 0x7EB17CBD,
   0xE7B82D07, 0x90BF1D91, 0x1DB71064, 0x6AB020F2, 0xF3B97148, 0x84BE41DE, 0x1ADAD47D,
   0x6DDDE4EB, 0xF4D4B551, 0x83D385C7, 0x136C9856, 0x646BA8C0, 0xFD62F97A, 0x8A65C9EC,
   0x14015C4F, 0x63066CD9, 0xFA0F3D63, 0x8D080DF5, 0x3B6E20C8, 0x4C69105E, 0xD56041E4,
   0xA2677172, 0x3C03E4D1, 0x4B04D447, 0xD20D85FD, 0xA50AB56B, 0x35B5A8FA, 0x42B2986C,
   0xDBBBC9D6, 0xACBCF940, 0x32D86CE3, 0x45DF5C75, 0xDCD60DCF, 0xABD13D59, 0x26D930AC,
   0x51DE003A, 0xC8D75180, 0xBFD06116, 0x21B4F4B5, 0x56B3C423, 0xCFBA9599, 0xB8BDA50F,
   0x2802B89E, 0x5F058808, 0xC60CD9B2, 0xB10BE924, 0x2F6F7C87, 0x58684C11, 0xC1611DAB,
   0xB6662D3D, 0x76DC4190, 0x01DB7106, 0x98D220BC, 0xEFD5102A, 0x71B18589, 0x06B6B51F,
   0x9FBFE4A5, 0xE8B8D433, 0x7807C9A2, 0x0F00F934, 0x9609A88E, 0xE10E9818, 0x7F6A0DBB,
   0x086D3D2D, 0x91646C97, 0xE6635C01, 0x6B6B51F4, 0x1C6C6162, 0x856530D8, 0xF262004E,
   0x6C0695ED, 0x1B01A57B, 0x8208F4C1, 0xF50FC457, 0x65B0D9C6, 0x12B7E950, 0x8BBEB8EA,
   0xFCB9887C, 0x62DD1DDF, 0x15DA2D49, 0x8CD37CF3, 0xFBD44C65, 0x4DB26158, 0x3AB551CE,
   0xA3BC0074, 0xD4BB30E2, 0x4ADFA541, 0x3DD895D7, 0xA4D1C46D, 0xD3D6F4FB, 0x4369E96A,
   0x346ED9FC, 0xAD678846, 0xDA60B8D0, 0x44042D73, 0x33031DE5, 0xAA0A4C5F, 0xDD0D7CC9,
   0x5005713C, 0x270241AA, 0xBE0B1010, 0xC90C2086, 0x5768B525, 0x206F85B3, 0xB966D409,
   0xCE61E49F, 0x5EDEF90E, 0x29D9C998, 0xB0D09822, 0xC7D7A8B4, 0x59B33D17, 0x2EB40D81,
   0xB7BD5C3B, 0xC0BA6CAD, 0xEDB88320, 0x9ABFB3B6, 0x03B6E20C, 0x74B1D29A, 0xEAD54739,
   0x9DD277AF, 0x04DB2615, 0x73DC1683, 0xE3630B12, 0x94643B84, 0x0D6D6A3E, 0x7A6A5AA8,
   0xE40ECF0B, 0x9309FF9D, 0x0A00AE27, 0x7D079EB1, 0xF00F9344, 0x8708A3D2, 0x1E01F268,
   0x6906C2FE, 0xF762575D, 0x806567CB, 0x196C3671, 0x6E6B06E7, 0xFED41B76, 0x89D32BE0,
   0x10DA7A5A, 0x67DD4ACC, 0xF9B9DF6F, 0x8EBEEFF9, 0x17B7BE43, 0x60B08ED5, 0xD6D6A3E8,
   0xA1D1937E, 0x38D8C2C4, 0x4FDFF252, 0xD1BB67F1, 0xA6BC5767, 0x3FB506DD, 0x48B2364B,
   0xD80D2BDA, 0xAF0A1B4C, 0x36034AF6, 0x41047A60, 0xDF60EFC3, 0xA867DF55, 0x316E8EEF,
   0x4669BE79, 0xCB61B38C, 0xBC66831A, 0x256FD2A0, 0x5268E236, 0xCC0C7795, 0xBB0B4703,
   0x220216B9, 0x5505262F, 0xC5BA3BBE, 0xB2BD0B28, 0x2BB45A92, 0x5CB36A04, 0xC2D7FFA7,
   0xB5D0CF31, 0x2CD99E8B, 0x5BDEAE1D, 0x9B64C2B0, 0xEC63F226, 0x756AA39C, 0x026D930A,
   0x9C0906A9, 0xEB0E363F, 0x72076785, 0x05005713, 0x95BF4A82, 0xE2B87A14, 0x7BB12BAE,
   0x0CB61B38, 0x92D28E9B, 0xE5D5BE0D, 0x7CDCEFB7, 0x0BDBDF21, 0x86D3D2D4, 0xF1D4E242,
   0x68DDB3F8, 0x1FDA836E, 0x81BE16CD, 0xF6B9265B, 0x6FB077E1, 0x18B74777, 0x88085AE6,
   0xFF0F6A70, 0x66063BCA, 0x11010B5C, 0x8F659EFF, 0xF862AE69, 0x616BFFD3, 0x166CCF45,
   0xA00AE278, 0xD70DD2EE, 0x4E048354, 0x3903B3C2, 0xA7672661, 0xD06016F7, 0x4969474D,
   0x3E6E77DB, 0xAED16A4A, 0xD9D65ADC, 0x40DF0B66, 0x37D83BF0, 0xA9BCAE53, 0xDEBB9EC5,
   0x47B2CF7F, 0x30B5FFE9, 0xBDBDF21C, 0xCABAC28A, 0x53B39330, 0x24B4A3A6, 0xBAD03605,
   0xCDD70693, 0x54DE5729, 0x23D967BF, 0xB3667A2E, 0xC4614AB8, 0x5D681B02, 0x2A6F2B94,
   0xB40BBE37, 0xC30C8EA1, 0x5A05DF1B, 0x2D02EF8D]

variable {w : ℕ}

/-- The body of the loop. -/
def crcStep (crc32 : BitVec w) (byte : UInt8) : BitVec w :=
  (crc32 >>> 8) ^^^ BitVec.ofNat w
    (crcTable.getD ((crc32 ^^^ byte.toBitVec.setWidth w) &&& BitVec.ofNat w 0xFF).toNat 0)

/-- `unsigned long` has `w` bits. -/
def mca_Crc32_ComputeBuf (inCrc32 : BitVec w) (buf : List UInt8) : BitVec w :=
  buf.foldl crcStep (inCrc32 ^^^ BitVec.ofNat w 0xFFFFFFFF) ^^^ BitVec.ofNat w 0xFFFFFFFF

/-! ## What it is to compute -/

/-- The polynomial, reflected. -/
def polynomial : BitVec 32 := 0xEDB88320

/-- The checksum by the bit-by-bit division, continued from an accumulated value. -/
def crc32 (inCrc32 : BitVec 32) (buf : List UInt8) : BitVec 32 :=
  feed polynomial (inCrc32 ^^^ 0xFFFFFFFF) buf ^^^ 0xFFFFFFFF

/-! ## The table -/

/-- **The table is right**: each word is eight steps of the division of its index. -/
theorem crcTable_eq : ∀ i < 256,
    crcTable.getD i 0 = (shiftBits polynomial 8 (BitVec.ofNat 32 i)).toNat := by
  decide +kernel

/-! ## The loop -/

/-- The index is the same in an `unsigned long` of any width. -/
theorem index_toNat (hw : 32 ≤ w) (x : BitVec 32) (byte : UInt8) :
    ((x.setWidth w ^^^ byte.toBitVec.setWidth w) &&& BitVec.ofNat w 0xFF).toNat =
      ((x ^^^ byte.toBitVec.setWidth 32) &&& (0xFF : BitVec 8).setWidth 32).toNat := by
  have hpow : 2 ^ 32 ≤ 2 ^ w := Nat.pow_le_pow_right (by omega) hw
  have hx : x.toNat < 2 ^ 32 := x.isLt
  have hbyte : byte.toBitVec.toNat < 2 ^ 8 := byte.toBitVec.isLt
  simp only [BitVec.toNat_and, BitVec.toNat_xor, BitVec.toNat_setWidth, BitVec.toNat_ofNat]
  rw [Nat.mod_eq_of_lt (by omega : x.toNat < 2 ^ w),
    Nat.mod_eq_of_lt (by omega : byte.toBitVec.toNat < 2 ^ w),
    Nat.mod_eq_of_lt (by omega : byte.toBitVec.toNat < 2 ^ 32),
    Nat.mod_eq_of_lt (by omega : 0xFF < 2 ^ w)]
  rfl

theorem index_lt (y : BitVec 32) : (y &&& (0xFF : BitVec 8).setWidth 32).toNat < 256 := by
  rw [BitVec.toNat_and]
  exact Nat.and_lt_two_pow _ (by decide : _ < 2 ^ 8)

/-- Exclusive or commutes with the change of width. -/
theorem xor_ones (x : BitVec 32) (hw : 32 ≤ w) :
    x.setWidth w ^^^ BitVec.ofNat w 0xFFFFFFFF = (x ^^^ 0xFFFFFFFF).setWidth w := by
  have hones : BitVec.ofNat w 0xFFFFFFFF = (0xFFFFFFFF : BitVec 32).setWidth w := by
    apply BitVec.eq_of_toNat_eq
    have hpow : 2 ^ 32 ≤ 2 ^ w := Nat.pow_le_pow_right (by omega) hw
    rw [BitVec.toNat_ofNat, BitVec.toNat_setWidth]
    rfl
  rw [hones, BitVec.setWidth_xor]

/-- **One byte**: the body of the loop is eight steps of the division, in an `unsigned long`
of any width. -/
theorem crcStep_eq (hw : 32 ≤ w) (x : BitVec 32) (byte : UInt8) :
    crcStep (x.setWidth w) byte = (feedByte polynomial x byte).setWidth w := by
  have hpow : 2 ^ 32 ≤ 2 ^ w := Nat.pow_le_pow_right (by omega) hw
  have hlookup := crcTable_eq _ (index_lt (x ^^^ byte.toBitVec.setWidth 32))
  rw [BitVec.ofNat_toNat, BitVec.setWidth_eq] at hlookup
  unfold crcStep feedByte
  rw [index_toNat hw, hlookup, BitVec.ofNat_toNat,
    shiftBits_eight polynomial (x ^^^ byte.toBitVec.setWidth 32), BitVec.setWidth_xor]
  congr 1
  -- the byte takes part in the low eight bits only
  apply BitVec.eq_of_toNat_eq
  have hx : x.toNat < 2 ^ 32 := x.isLt
  have hbyte : byte.toBitVec.toNat < 2 ^ 8 := byte.toBitVec.isLt
  simp only [BitVec.toNat_ushiftRight, BitVec.toNat_setWidth, BitVec.toNat_xor,
    Nat.shiftRight_xor_distrib]
  rw [Nat.mod_eq_of_lt (by omega : x.toNat < 2 ^ w),
    Nat.mod_eq_of_lt (by omega : byte.toBitVec.toNat < 2 ^ 32),
    Nat.shiftRight_eq_div_pow byte.toBitVec.toNat, Nat.div_eq_of_lt hbyte, Nat.xor_zero,
    Nat.shiftRight_eq_div_pow]
  have hquot : x.toNat / 2 ^ 8 ≤ x.toNat := Nat.div_le_self _ _
  exact (Nat.mod_eq_of_lt (by omega)).symm

/-- **The loop** is the division. The induction is on the string, for any register. -/
theorem foldl_crcStep (hw : 32 ≤ w) (x : BitVec 32) (buf : List UInt8) :
    buf.foldl crcStep (x.setWidth w) = (feed polynomial x buf).setWidth w := by
  induction buf generalizing x with
  | nil => rfl
  | cons byte buf ih =>
    rw [List.foldl_cons, crcStep_eq hw, feed_cons]
    exact ih _

theorem mca_Crc32_ComputeBuf_setWidth (hw : 32 ≤ w) (x : BitVec 32) (buf : List UInt8) :
    mca_Crc32_ComputeBuf (x.setWidth w) buf = (crc32 x buf).setWidth w := by
  unfold mca_Crc32_ComputeBuf crc32
  rw [xor_ones _ hw, foldl_crcStep hw, xor_ones _ hw]

/-- Before the last complement the checksum is a remainder of polynomials. -/
theorem crc32_toPoly (inCrc32 : BitVec 32) (buf : List UInt8) :
    toPoly (crc32 inCrc32 buf ^^^ 0xFFFFFFFF) =
      (Polynomial.X ^ (8 * buf.length) * toPoly (inCrc32 ^^^ 0xFFFFFFFF) +
        Polynomial.X ^ 32 * message buf) %ₘ modulus polynomial := by
  unfold crc32
  rw [BitVec.xor_assoc, BitVec.xor_self, BitVec.xor_zero]
  exact toPoly_feed polynomial (by decide) _ buf

/-! ## Accumulation -/

/-- What was taken off at the end of a buffer is put back at the start of the next. -/
theorem crc32_append (inCrc32 : BitVec 32) (a b : List UInt8) :
    crc32 (crc32 inCrc32 a) b = crc32 inCrc32 (a ++ b) := by
  unfold crc32
  rw [BitVec.xor_assoc, BitVec.xor_self, BitVec.xor_zero, feed_append]

/-- A 32-bit value in an `unsigned long`. -/
theorem setWidth_of_lt {inCrc32 : BitVec w} (hin : inCrc32.toNat < 2 ^ 32) :
    (inCrc32.setWidth 32).setWidth w = inCrc32 := by
  apply BitVec.eq_of_toNat_eq
  rw [BitVec.toNat_setWidth, BitVec.toNat_setWidth, Nat.mod_eq_of_lt hin]
  exact Nat.mod_eq_of_lt inCrc32.isLt

/-- **The checksum of the C library** is the remainder of the division by the polynomial
`0xEDB88320`, it stays below `2 ^ 32` whatever the width of `unsigned long`, and a buffer may
be taken in parts. -/
theorem mca_Crc32_ComputeBuf_spec (hw : 32 ≤ w) (inCrc32 : BitVec w)
    (hin : inCrc32.toNat < 2 ^ 32) (a b : List UInt8) :
    mca_Crc32_ComputeBuf inCrc32 a = (crc32 (inCrc32.setWidth 32) a).setWidth w ∧
      (mca_Crc32_ComputeBuf inCrc32 a).toNat < 2 ^ 32 ∧
      mca_Crc32_ComputeBuf (mca_Crc32_ComputeBuf inCrc32 a) b =
        mca_Crc32_ComputeBuf inCrc32 (a ++ b) := by
  have hdivision (buf : List UInt8) :
      mca_Crc32_ComputeBuf inCrc32 buf = (crc32 (inCrc32.setWidth 32) buf).setWidth w := by
    rw [← mca_Crc32_ComputeBuf_setWidth hw, setWidth_of_lt hin]
  refine ⟨hdivision a, ?_, ?_⟩
  · rw [hdivision a, BitVec.toNat_setWidth]
    exact lt_of_le_of_lt (Nat.mod_le _ _) (BitVec.isLt _)
  · rw [hdivision a, mca_Crc32_ComputeBuf_setWidth hw, crc32_append, hdivision (a ++ b)]

/-- The check value of the algorithm, "123456789", in two parts. -/
theorem mca_Crc32_ComputeBuf_check :
    mca_Crc32_ComputeBuf (0 : BitVec 64) [49, 50, 51, 52] =
        (crc32 0 [49, 50, 51, 52]).setWidth 64 ∧
      mca_Crc32_ComputeBuf (mca_Crc32_ComputeBuf (0 : BitVec 64) [49, 50, 51, 52])
        [53, 54, 55, 56, 57] = 0xCBF43926 := by
  have hspec := mca_Crc32_ComputeBuf_spec (by decide) (0 : BitVec 64) (by decide)
    [49, 50, 51, 52] [53, 54, 55, 56, 57]
  exact ⟨hspec.1, hspec.2.2.trans (by decide +kernel)⟩

/-! ## Detection -/

/-- **A change of four bytes in a row, or fewer, changes the checksum**, wherever in a buffer
of any length. -/
theorem mca_Crc32_ComputeBuf_burst (hw : 32 ≤ w) (inCrc32 : BitVec w)
    (hin : inCrc32.toNat < 2 ^ 32) {before bs cs after : List UInt8}
    (hlen : bs.length = cs.length) (hshort : bs.length ≤ 4) (hne : bs ≠ cs) :
    mca_Crc32_ComputeBuf inCrc32 (before ++ bs ++ after) ≠
      mca_Crc32_ComputeBuf inCrc32 (before ++ cs ++ after) := by
  intro h
  rw [← setWidth_of_lt hin, mca_Crc32_ComputeBuf_setWidth hw,
    mca_Crc32_ComputeBuf_setWidth hw] at h
  have hcrc : crc32 (inCrc32.setWidth 32) (before ++ bs ++ after) =
      crc32 (inCrc32.setWidth 32) (before ++ cs ++ after) := by
    have hnarrow := congrArg (BitVec.setWidth 32) h
    rwa [BitVec.setWidth_setWidth_of_le _ hw, BitVec.setWidth_setWidth_of_le _ hw,
      BitVec.setWidth_eq, BitVec.setWidth_eq] at hnarrow
  unfold crc32 at hcrc
  rw [List.append_assoc, List.append_assoc, feed_append _ _ before, feed_append _ _ before] at hcrc
  exact hne (feed_short_inj (by decide) hlen (by omega) ((BitVec.xor_left_inj _).mp hcrc))

theorem key_of_other_number :
    mca_Crc32_ComputeBuf (0 : BitVec 64) ([109, 99, 97] ++ [49] ++ [46, 99]) ≠
      mca_Crc32_ComputeBuf (0 : BitVec 64) ([109, 99, 97] ++ [50] ++ [46, 99]) :=
  mca_Crc32_ComputeBuf_burst (by decide) 0 (by decide) rfl (by decide) (by decide)

end MxApi.Crc32
