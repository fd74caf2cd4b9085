/-
The bit operations of `sysvr4_atomic.c` on one 32-bit word: `lock; bts`,
`lock; btr` and `lock; btc`, and the status `mrapi_atomic_set` and `mrapi_atomic_clear` report.

Setting a bit succeeds only if it was clear, clearing it only if it was set; the
word is written either way.
-/
import Mathlib.Tactic.Common

set_option autoImplicit false

namespace MxApi

/-- The previous bit, and the word with the bit set. -/
def test_and_set_bit (offset : ℕ) (mem : BitVec 32) : Bool × BitVec 32 :=
  (mem.getLsbD offset, mem ||| BitVec.twoPow 32 offset)

/-- The previous bit, and the word with the bit cleared. -/
def test_and_clear_bit (offset : ℕ) (mem : BitVec 32) : Bool × BitVec 32 :=
  (mem.getLsbD offset, mem &&& ~~~BitVec.twoPow 32 offset)

/-- The previous bit, and the word with the bit complemented. -/
def test_and_change_bit (offset : ℕ) (mem : BitVec 32) : Bool × BitVec 32 :=
  (mem.getLsbD offset, mem ^^^ BitVec.twoPow 32 offset)

/-- Whether the set succeeded, and the word it leaves. -/
def mrapi_atomic_set (dest : BitVec 32) (bit : ℕ) : Bool × BitVec 32 :=
  let orig := test_and_set_bit bit dest
  (!orig.1, orig.2)

/-- Whether the clear succeeded, and the word it leaves. -/
def mrapi_atomic_clear (dest : BitVec 32) (bit : ℕ) : Bool × BitVec 32 :=
  let orig := test_and_clear_bit bit dest
  (orig.1, orig.2)

theorem mrapi_atomic_set_getLsbD (dest : BitVec 32) {bit : ℕ} (hbit : bit < 32) (i : ℕ) :
    (mrapi_atomic_set dest bit).2.getLsbD i = if i = bit then true else dest.getLsbD i := by
  simp only [mrapi_atomic_set, test_and_set_bit, BitVec.getLsbD_or, BitVec.getLsbD_twoPow, hbit]
  by_cases h : i = bit
  · subst h; simp
  · simp [h, Ne.symm h]

theorem mrapi_atomic_clear_getLsbD (dest : BitVec 32) {bit : ℕ} (hbit : bit < 32) (i : ℕ) :
    (mrapi_atomic_clear dest bit).2.getLsbD i = if i = bit then false else dest.getLsbD i := by
  simp only [mrapi_atomic_clear, test_and_clear_bit, BitVec.getLsbD_and, BitVec.getLsbD_not,
    BitVec.getLsbD_twoPow, hbit]
  by_cases h : i = bit
  · subst h; simp
  · rw [if_neg h]
    by_cases hi : i < 32
    · simp [hi, Ne.symm h]
    · rw [BitVec.getLsbD_of_ge _ _ (by omega)]; rfl

end MxApi
