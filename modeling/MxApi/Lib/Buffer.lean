/-
Writing to an object in memory, and reading from it.

Memory is what lies from the start of an object on, a function from offsets; a write that runs
past the end of the object still takes place, and the object keeps note of it ([`Obj.inside`]).
A write is seen by a read of the same place, and by no read of another place. A machine word is
four bytes, the lowest first, and a C string is what stands before the first zero.
-/
import Mathlib.Tactic.Linarith

set_option autoImplicit false

namespace MxApi.Lib

abbrev Memory := ℕ → UInt8

namespace Memory

variable {m m' : Memory} {off off' n : ℕ} {xs : List UInt8}

/-! ## Bytes -/

/-- The bytes `xs` are stored from `off` on. -/
def write (m : Memory) (off : ℕ) (xs : List UInt8) : Memory :=
  fun i => if off ≤ i then xs[i - off]?.getD (m i) else m i

/-- The `n` bytes from `off` on. -/
def read (m : Memory) (off n : ℕ) : List UInt8 := (List.range n).map fun i => m (off + i)

/-- The first `size` bytes of a message arrive at the start of `receiver`. -/
def overlay (size : ℕ) (message receiver : Memory) : Memory :=
  fun i => if i < size then message i else receiver i

theorem write_before {i : ℕ} (h : i < off) : m.write off xs i = m i := if_neg (by omega)

theorem write_behind {i : ℕ} (h : off + xs.length ≤ i) : m.write off xs i = m i := by
  unfold write
  rw [List.getElem?_eq_none (by omega)]
  split <;> rfl

theorem write_get {i : ℕ} (h : i < xs.length) : m.write off xs (off + i) = xs[i] := by
  unfold write
  rw [if_pos (Nat.le_add_right off i), Nat.add_sub_cancel_left, List.getElem?_eq_getElem h]
  rfl

@[simp] theorem read_length (m : Memory) (off n : ℕ) : (m.read off n).length = n := by
  simp [read]

theorem read_congr (h : ∀ i, off ≤ i → i < off + n → m i = m' i) :
    m.read off n = m'.read off n := by
  unfold read
  refine List.map_congr_left fun i hi => ?_
  have hlt : i < n := List.mem_range.mp hi
  exact h (off + i) (by omega) (by omega)

theorem read_append (m : Memory) (off n k : ℕ) :
    m.read off (n + k) = m.read off n ++ m.read (off + n) k := by
  unfold read
  rw [List.range_add, List.map_append, List.map_map]
  congr 1
  refine List.map_congr_left fun i _ => ?_
  exact congrArg m (Nat.add_assoc off n i).symm

/-- **What was written is read.** -/
theorem read_write_self (m : Memory) (off : ℕ) (xs : List UInt8) :
    (m.write off xs).read off xs.length = xs := by
  refine List.ext_getElem (by simp) fun i hi _ => ?_
  have hlt : i < xs.length := by simpa using hi
  simp only [read, List.getElem_map, List.getElem_range]
  exact write_get hlt

/-- **A write elsewhere** changes nothing. -/
theorem read_write_apart (h : off' + n ≤ off ∨ off + xs.length ≤ off') :
    (m.write off xs).read off' n = m.read off' n := by
  refine read_congr fun i hfrom hto => ?_
  rcases h with h | h
  · exact write_before (by omega)
  · exact write_behind (by omega)

/-- A part of what was written. -/
theorem read_write_part {k : ℕ} (h : k + n ≤ xs.length) :
    (m.write off xs).read (off + k) n = (xs.drop k).take n := by
  refine List.ext_getElem (by simp; omega) fun i hi _ => ?_
  have hlt : i < n := by simpa using hi
  simp only [read, List.getElem_map, List.getElem_range, List.getElem_take, List.getElem_drop]
  rw [Nat.add_assoc]
  exact write_get (by omega)

theorem read_overlay {size : ℕ} {message receiver : Memory} (h : off + n ≤ size) :
    (overlay size message receiver).read off n = message.read off n :=
  read_congr fun _ _ hto => if_pos (by omega)

/-! ## Words -/

/-- The four bytes of a word, the lowest first. -/
def toBytes (w : ℕ) : List UInt8 :=
  [UInt8.ofNat w, UInt8.ofNat (w / 256), UInt8.ofNat (w / 65536), UInt8.ofNat (w / 16777216)]

def ofBytes (xs : List UInt8) : ℕ := xs.foldr (fun b w => b.toNat + 256 * w) 0

def word (m : Memory) (off : ℕ) : ℕ := ofBytes (m.read off 4)

def writeWord (m : Memory) (off w : ℕ) : Memory := m.write off (toBytes w)

theorem ofBytes_toBytes {w : ℕ} (h : w < 2 ^ 32) : ofBytes (toBytes w) = w := by
  simp only [ofBytes, toBytes, List.foldr_cons, List.foldr_nil, UInt8.toNat_ofNat']
  omega

/-- A word that was written is read. -/
theorem word_writeWord_self {w : ℕ} (h : w < 2 ^ 32) : (m.writeWord off w).word off = w := by
  have hread : (m.writeWord off w).read off 4 = toBytes w := read_write_self m off (toBytes w)
  rw [word, hread, ofBytes_toBytes h]

theorem word_write_apart (h : off' + 4 ≤ off ∨ off + xs.length ≤ off') :
    (m.write off xs).word off' = m.word off' := by
  rw [word, read_write_apart h, word]

theorem word_writeWord_apart {w : ℕ} (h : off' + 4 ≤ off ∨ off + 4 ≤ off') :
    (m.writeWord off w).word off' = m.word off' :=
  word_write_apart h

theorem word_overlay {size : ℕ} {message receiver : Memory} (h : off + 4 ≤ size) :
    (overlay size message receiver).word off = message.word off := by
  rw [word, read_overlay h, word]

/-! ## Strings -/

/-- The C string at `off`, or `none` if there is no zero in the `n` bytes there. -/
def cString (m : Memory) (off : ℕ) : ℕ → Option (List UInt8)
  | 0 => none
  | n + 1 => if m off = 0 then some [] else (m.cString (off + 1) n).map (m off :: ·)

/-- Bytes that are not zero are part of the string. -/
theorem cString_add {k : ℕ} (h : ∀ i, i < k → m (off + i) ≠ 0) :
    m.cString off (k + n) = (m.cString (off + k) n).map (m.read off k ++ ·) := by
  induction k generalizing off with
  | zero => simp [read]
  | succ k ih =>
    have hread : m.read off (k + 1) = m off :: m.read (off + 1) k := by
      rw [Nat.add_comm k 1, read_append]
      rfl
    have hfirst : m off ≠ 0 := h 0 (Nat.zero_lt_succ k)
    have hnext : ∀ i, i < k → m (off + 1 + i) ≠ 0 := by
      intro i hi
      have hne := h (i + 1) (by omega)
      rwa [show off + (i + 1) = off + 1 + i by omega] at hne
    have hrest := ih hnext
    rw [show k + 1 + n = k + n + 1 by omega, cString, if_neg hfirst, hrest, Option.map_map, hread,
      show off + 1 + k = off + (k + 1) by omega]
    rfl

/-- The string in bytes with a zero behind them ends there, or before. -/
theorem cString_of_read (hread : m.read off xs.length = xs) (hzero : m (off + xs.length) = 0)
    (hroom : xs.length < n) : m.cString off n = some (xs.takeWhile (· ≠ 0)) := by
  induction xs generalizing off n with
  | nil =>
    obtain ⟨n, rfl⟩ : ∃ k, n = k + 1 := ⟨n - 1, by simp at hroom; omega⟩
    have hfirst : m off = 0 := hzero
    rw [cString, if_pos hfirst]
    rfl
  | cons x xs ih =>
    obtain ⟨n, rfl⟩ : ∃ k, n = k + 1 := ⟨n - 1, by simp at hroom; omega⟩
    rw [List.length_cons, Nat.add_comm xs.length 1, read_append] at hread
    obtain ⟨hx, hxs⟩ := List.cons.inj hread
    replace hx : m off = x := hx
    rw [cString, hx]
    by_cases hx0 : x = 0
    · rw [if_pos hx0, hx0]
      rfl
    · have hrest := ih (n := n) hxs (by
        rw [List.length_cons] at hzero
        rwa [show off + 1 + xs.length = off + (xs.length + 1) by omega]) (by simpa using hroom)
      rw [if_neg hx0, hrest, List.takeWhile_cons_of_pos (by simpa using hx0)]
      rfl

end Memory

/-! ## Objects -/

/-- An object that is written to: the memory from its start on, and whether every write so far
stayed inside the object. -/
structure Obj where
  mem : Memory
  inside : Bool

namespace Obj

/-- A write to an object of `size` bytes. -/
def store (size : ℕ) (o : Obj) (off : ℕ) (xs : List UInt8) : Obj :=
  ⟨o.mem.write off xs, o.inside && (xs.isEmpty || decide (off + xs.length ≤ size))⟩

def storeWord (size : ℕ) (o : Obj) (off w : ℕ) : Obj := o.store size off (Memory.toBytes w)

variable {size : ℕ} {o : Obj} {off w : ℕ} {xs : List UInt8}

@[simp] theorem store_mem : (o.store size off xs).mem = o.mem.write off xs := rfl

@[simp] theorem storeWord_mem : (o.storeWord size off w).mem = o.mem.writeWord off w := rfl

theorem store_inside :
    (o.store size off xs).inside = true ↔
      o.inside = true ∧ (xs = [] ∨ off + xs.length ≤ size) := by
  simp [store]

theorem storeWord_inside :
    (o.storeWord size off w).inside = true ↔ o.inside = true ∧ off + 4 ≤ size := by
  rw [storeWord, store_inside]
  simp [Memory.toBytes]

end Obj

end MxApi.Lib
