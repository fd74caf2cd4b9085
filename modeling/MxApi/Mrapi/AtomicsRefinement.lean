/-
The public atomics against a reference machine over the natural numbers.

The reference holds a number below `2 ^ w` and performs the operation the
public name says: arithmetic modulo `2 ^ w`, bitwise union, intersection and
exclusive or, and the three operations on a single bit. The code does the same
except for `mrapi_atomic_and` and `mrapi_atomic_xor`, which compute a union, and
for `mrapi_atomic_change`, which asserts that the bit is below the size in
bytes. [`Intended`] says when a call does what its name says all the same.
-/
import MxApi.Lib.Agreement
import MxApi.Mrapi.Atomics
import Mathlib.Data.Nat.ModEq
import Mathlib.Data.Nat.Bitwise
import Mathlib.Tactic.NormNum
import Mathlib.Tactic.SplitIfs

set_option autoImplicit false

namespace MxApi.Atomics

open MxApi.Lib

/-! ## The reference machine -/

/-- The documented operation on a number below `2 ^ w`, with `w = 8 * size`:
the new number, what is reported, and whether the operation succeeds. -/
def AtomicOp.documented {size : ℕ} (n : ℕ) : AtomicOp size → ℕ × ℕ × Bool
  | .add value _ => ((n + value.toNat) % 2 ^ (8 * size), n, true)
  | .inc _ => ((n + 1) % 2 ^ (8 * size), (n + 1) % 2 ^ (8 * size), true)
  | .dec _ =>
    ((n + (2 ^ (8 * size) - 1)) % 2 ^ (8 * size), (n + (2 ^ (8 * size) - 1)) % 2 ^ (8 * size),
      true)
  | .or value _ => (n ||| value.toNat, n, true)
  | .and value _ => (n &&& value.toNat, n, true)
  | .xor value _ => (n ^^^ value.toNat, n, true)
  | .cas exchange compare _ =>
    (if n = compare.toNat then exchange.toNat else n, n, n = compare.toNat)
  | .xchg exchange _ => (exchange.toNat, n, true)
  | .set bit _ => (n ||| 2 ^ bit.toNat, (n.testBit bit.toNat).toNat, !n.testBit bit.toNat)
  | .clear bit _ =>
    (if n.testBit bit.toNat then n ^^^ 2 ^ bit.toNat else n, (n.testBit bit.toNat).toNat,
      n.testBit bit.toNat)
  | .change bit _ => (n ^^^ 2 ^ bit.toNat, (n.testBit bit.toNat).toNat, true)

/-- The reference machine: it never stops. -/
def AtomicOp.reference {size : ℕ} (initialized : Bool) (n : ℕ) (op : AtomicOp size) :
    Option (ℕ × Reply) :=
  if initialized then
    let d := op.documented n
    some (d.1, ⟨store op.reports d.2.1,
      if d.2.2 then .MRAPI_SUCCESS else .MRAPI_ERR_ATOM_OP_FAILED⟩)
  else some (n, ⟨none, .MRAPI_ERR_NODE_NOTINIT⟩)

/-- When a call at the value `n` does what its name says: an intersection with
`n` itself, an exclusive or with a mask disjoint from `n`, a change of one of
the lowest bits. -/
def Intended {size : ℕ} (initialized : Bool) (n : ℕ) (op : AtomicOp size) : Prop :=
  initialized = true →
    match op with
    | .and value _ => value.toNat = n
    | .xor value _ => n &&& value.toNat = 0
    | .change bit _ => bit < 4
    | _ => True

/-- The code and the reference agree on the final value, on every reported value
and on every status. -/
def Refines {size : ℕ} (initialized : Bool) (status : MrapiStatus) (v : BitVec (8 * size))
    (ops : List (AtomicOp size)) : Prop :=
  Agree (fun dest op => AtomicOp.call initialized status dest op)
    (AtomicOp.reference initialized) BitVec.toNat v v.toNat ops

/-! ## Bit arithmetic -/

theorem or_eq_and_iff (n m : ℕ) : n ||| m = n &&& m ↔ m = n := by
  constructor
  · intro h
    apply Nat.eq_of_testBit_eq
    intro i
    have hi := congrArg (fun x => x.testBit i) h
    simp only [Nat.testBit_or, Nat.testBit_and] at hi
    cases hn : n.testBit i <;> cases hm : m.testBit i <;> simp_all
  · rintro rfl
    rw [Nat.or_self, Nat.and_self]

theorem or_eq_xor_iff (n m : ℕ) : n ||| m = n ^^^ m ↔ n &&& m = 0 := by
  constructor
  · intro h
    apply Nat.eq_of_testBit_eq
    intro i
    have hi := congrArg (fun x => x.testBit i) h
    simp only [Nat.testBit_or, Nat.testBit_xor] at hi
    rw [Nat.testBit_and, Nat.zero_testBit]
    cases hn : n.testBit i <;> cases hm : m.testBit i <;> simp_all
  · intro h
    apply Nat.eq_of_testBit_eq
    intro i
    have hi := congrArg (fun x => x.testBit i) h
    simp only [Nat.testBit_and, Nat.zero_testBit] at hi
    rw [Nat.testBit_or, Nat.testBit_xor]
    cases hn : n.testBit i <;> cases hm : m.testBit i <;> simp_all

theorem toNat_twoPow_of_lt {bit : ℕ} (h : bit < 32) : (BitVec.twoPow 32 bit).toNat = 2 ^ bit := by
  rw [BitVec.toNat_twoPow, Nat.mod_eq_of_lt (Nat.pow_lt_pow_right (by norm_num) h)]

theorem test_and_set_bit_toNat (v : BitVec 32) {bit : ℕ} (h : bit < 32) :
    (test_and_set_bit bit v).2.toNat = v.toNat ||| 2 ^ bit := by
  rw [test_and_set_bit, BitVec.toNat_or, toNat_twoPow_of_lt h]

theorem test_and_change_bit_toNat (v : BitVec 32) {bit : ℕ} (h : bit < 32) :
    (test_and_change_bit bit v).2.toNat = v.toNat ^^^ 2 ^ bit := by
  rw [test_and_change_bit, BitVec.toNat_xor, toNat_twoPow_of_lt h]

theorem test_and_clear_bit_toNat (v : BitVec 32) {bit : ℕ} (h : bit < 32) :
    (test_and_clear_bit bit v).2.toNat
      = if v.toNat.testBit bit then v.toNat ^^^ 2 ^ bit else v.toNat := by
  apply Nat.eq_of_testBit_eq
  intro i
  have hclear : (test_and_clear_bit bit v).2.getLsbD i = _ := mrapi_atomic_clear_getLsbD v h i
  rw [← BitVec.getLsbD, hclear]
  by_cases hi : i = bit
  · subst hi
    rw [if_pos rfl]
    by_cases hb : v.toNat.testBit i
    · rw [if_pos hb, Nat.testBit_xor, hb, Nat.testBit_two_pow_self]
      rfl
    · rw [if_neg hb, Bool.eq_false_iff.mpr hb]
  · rw [if_neg hi, BitVec.getLsbD]
    split_ifs
    · rw [Nat.testBit_xor, Nat.testBit_two_pow_of_ne (Ne.symm hi), Bool.xor_false]
    · rfl

/-! ## One call -/

/-- The body shared by all calls of an initialized node. -/
theorem publicCall_implStatus {size : ℕ} (dest : BitVec (8 * size)) (status : MrapiStatus)
    (o : Outcome size) :
    publicCall true dest (implStatus status (some o))
      = some (o.dest, ⟨o.reported,
          if o.rc then .MRAPI_SUCCESS else .MRAPI_ERR_ATOM_OP_FAILED⟩) := by
  cases h : o.rc <;> simp [publicCall, implStatus, h]

theorem switchSize_of_integer {α : Type} {size : ℕ} (h : IntegerSize size) (body : α) :
    switchSize size body = some body := if_pos h

/-- What the code does with a call, next to what the documentation says: only
`and`, `xor` and `change` need a condition. -/
theorem call_eq_reference_iff {size : ℕ} (hsize : IntegerSize size) (initialized : Bool)
    (status : MrapiStatus) (v : BitVec (8 * size)) (op : AtomicOp size) (hop : op.Accepted) :
    (op.call initialized status v).map (absStep BitVec.toNat)
        = op.reference initialized v.toNat ↔ Intended initialized v.toNat op := by
  cases initialized with
  | false =>
    refine iff_of_true ?_ fun h => Bool.noConfusion h
    cases op <;> rfl
  | true =>
    cases op with
    | add value previous =>
      refine iff_of_true ?_ fun _ => trivial
      rw [AtomicOp.call, mrapi_atomic_add, mrapi_impl_atomic_add, sys_atomic_add,
        switchSize_of_integer hsize, publicCall_implStatus]
      simp [AtomicOp.reference, AtomicOp.documented, absStep, AtomicOp.reports]
    | inc result =>
      refine iff_of_true ?_ fun _ => trivial
      rw [AtomicOp.call, mrapi_atomic_inc, mrapi_impl_atomic_inc, sys_atomic_inc,
        switchSize_of_integer hsize, publicCall_implStatus]
      simp [AtomicOp.reference, AtomicOp.documented, absStep, AtomicOp.reports]
    | dec result =>
      refine iff_of_true ?_ fun _ => trivial
      rw [AtomicOp.call, mrapi_atomic_dec, mrapi_impl_atomic_dec, sys_atomic_dec,
        switchSize_of_integer hsize, publicCall_implStatus]
      have hdec : (v - 1).toNat = (v.toNat + (2 ^ (8 * size) - 1)) % 2 ^ (8 * size) := by
        have hone : (1 : BitVec (8 * size)).toNat = 1 :=
          Nat.mod_eq_of_lt (Nat.one_lt_two_pow (by rcases hsize with h | h | h | h <;> omega))
        rw [BitVec.toNat_sub, hone, Nat.add_comm]
      simp only [AtomicOp.reference, AtomicOp.documented, absStep, AtomicOp.reports,
        Option.map_some, hdec, if_true]
    | or value previous =>
      refine iff_of_true ?_ fun _ => trivial
      rw [AtomicOp.call, mrapi_atomic_or, mrapi_impl_atomic_or, sys_atomic_or,
        switchSize_of_integer hsize, publicCall_implStatus]
      simp [AtomicOp.reference, AtomicOp.documented, absStep, AtomicOp.reports]
    | and value previous =>
      rw [AtomicOp.call, mrapi_atomic_and, mrapi_impl_atomic_or, sys_atomic_or,
        switchSize_of_integer hsize, publicCall_implStatus]
      simp [AtomicOp.reference, AtomicOp.documented, absStep, AtomicOp.reports, Intended,
        or_eq_and_iff]
    | xor value previous =>
      rw [AtomicOp.call, mrapi_atomic_xor, mrapi_impl_atomic_or, sys_atomic_or,
        switchSize_of_integer hsize, publicCall_implStatus]
      simp [AtomicOp.reference, AtomicOp.documented, absStep, AtomicOp.reports, Intended,
        or_eq_xor_iff]
    | cas exchange compare previous =>
      refine iff_of_true ?_ fun _ => trivial
      rw [AtomicOp.call, mrapi_atomic_cas, mrapi_impl_atomic_cas, sys_atomic_cas,
        switchSize_of_integer hsize, publicCall_implStatus]
      by_cases h : v = compare
      · simp [AtomicOp.reference, AtomicOp.documented, absStep, AtomicOp.reports, h]
      · have h' : v.toNat ≠ compare.toNat := fun e => h (BitVec.eq_of_toNat_eq e)
        simp [AtomicOp.reference, AtomicOp.documented, absStep, AtomicOp.reports, h, h', Ne.symm h]
    | xchg exchange previous =>
      refine iff_of_true ?_ fun _ => trivial
      rw [AtomicOp.call, mrapi_atomic_xchg, mrapi_impl_atomic_xchg, sys_atomic_xchg,
        sys_atomic_cas, switchSize_of_integer hsize]
      simp [AtomicOp.reference, AtomicOp.documented, absStep, AtomicOp.reports, publicCall, store]
      rfl
    | set bit previous =>
      obtain ⟨rfl, h0, h32⟩ := hop
      refine iff_of_true ?_ fun _ => trivial
      rw [AtomicOp.call, mrapi_atomic_set, mrapi_impl_atomic_set, sys_atomic_set,
        if_pos ⟨h0, h32⟩, publicCall_implStatus]
      simp only [Option.map_some, absStep, test_and_set_bit_toNat v (by omega : bit.toNat < 32)]
      simp [AtomicOp.reference, AtomicOp.documented, AtomicOp.reports, test_and_set_bit,
        BitVec.getLsbD]
    | clear bit previous =>
      obtain ⟨rfl, h0, h32⟩ := hop
      refine iff_of_true ?_ fun _ => trivial
      rw [AtomicOp.call, mrapi_atomic_clear, mrapi_impl_atomic_clear, sys_atomic_clear,
        if_pos ⟨h0, h32⟩, publicCall_implStatus]
      simp only [Option.map_some, absStep, test_and_clear_bit_toNat v (by omega : bit.toNat < 32)]
      simp [AtomicOp.reference, AtomicOp.documented, AtomicOp.reports, test_and_clear_bit,
        BitVec.getLsbD]
      rfl
    | change bit previous =>
      obtain ⟨rfl, h0, h32⟩ := hop
      rw [AtomicOp.call, mrapi_atomic_change, mrapi_impl_atomic_change, sys_atomic_change]
      by_cases h4 : bit < 4
      · refine iff_of_true ?_ fun _ => h4
        rw [if_pos ⟨h0, h4⟩, publicCall_implStatus]
        simp only [Option.map_some, absStep,
          test_and_change_bit_toNat v (by omega : bit.toNat < 32)]
        simp [AtomicOp.reference, AtomicOp.documented, AtomicOp.reports, test_and_change_bit,
          BitVec.getLsbD]
      · refine iff_of_false ?_ fun h => h4 (h rfl)
        rw [if_neg fun h => h4 h.2]
        simp [publicCall, implStatus, AtomicOp.reference]

theorem reference_total {size : ℕ} (initialized : Bool) (n : ℕ) (op : AtomicOp size) :
    ∃ n' r, op.reference initialized n = some (n', r) := by
  cases initialized <;> exact ⟨_, _, rfl⟩

/-- The reference stays below `2 ^ w`. -/
theorem documented_lt {size : ℕ} {n : ℕ} {op : AtomicOp size} (hop : op.Accepted)
    (hn : n < 2 ^ (8 * size)) : (op.documented n).1 < 2 ^ (8 * size) := by
  have hpos : 0 < 2 ^ (8 * size) := Nat.two_pow_pos _
  cases op with
  | add value _ => exact Nat.mod_lt _ hpos
  | inc _ => exact Nat.mod_lt _ hpos
  | dec _ => exact Nat.mod_lt _ hpos
  | or value _ => exact Nat.or_lt_two_pow hn value.isLt
  | and value _ => exact Nat.and_lt_two_pow _ value.isLt
  | xor value _ => exact Nat.xor_lt_two_pow hn value.isLt
  | cas exchange compare _ =>
    simp only [AtomicOp.documented]
    split_ifs
    · exact exchange.isLt
    · exact hn
  | xchg exchange _ => exact exchange.isLt
  | set bit _ =>
    obtain ⟨rfl, h0, h32⟩ := hop
    exact Nat.or_lt_two_pow hn (Nat.pow_lt_pow_right (by norm_num) (by omega))
  | clear bit _ =>
    obtain ⟨rfl, h0, h32⟩ := hop
    simp only [AtomicOp.documented]
    split_ifs
    · exact Nat.xor_lt_two_pow hn (Nat.pow_lt_pow_right (by norm_num) (by omega))
    · exact hn
  | change bit _ =>
    obtain ⟨rfl, h0, h32⟩ := hop
    exact Nat.xor_lt_two_pow hn (Nat.pow_lt_pow_right (by norm_num) (by omega))

theorem reference_lt {size : ℕ} {initialized : Bool} {n n' : ℕ} {r : Reply} {op : AtomicOp size}
    (hop : op.Accepted) (hn : n < 2 ^ (8 * size))
    (h : op.reference initialized n = some (n', r)) : n' < 2 ^ (8 * size) := by
  cases initialized with
  | false =>
    obtain ⟨rfl, -⟩ := Prod.mk.inj (Option.some.inj h)
    exact hn
  | true =>
    obtain ⟨rfl, -⟩ := Prod.mk.inj (Option.some.inj h)
    exact documented_lt hop hn

/-! ## No difference goes unnoticed -/

theorem toNat_injective {a b : Bool} (h : a.toNat = b.toNat) : a = b := by
  cases a <;> cases b <;> simp_all

/-- The value before a documented operation can be read off its result and its
report. -/
theorem documented_injective {size : ℕ} {m n : ℕ} (hm : m < 2 ^ (8 * size))
    (hn : n < 2 ^ (8 * size)) {op : AtomicOp size} (h : op.documented m = op.documented n) :
    m = n := by
  have hfst := congrArg Prod.fst h
  have hsnd := congrArg (fun d => d.2.1) h
  cases op with
  | inc _ =>
    have hmod : m + 1 ≡ n + 1 [MOD 2 ^ (8 * size)] := hfst
    exact (hmod.add_right_cancel' 1).eq_of_lt_of_lt hm hn
  | dec _ =>
    have hmod : m + (2 ^ (8 * size) - 1) ≡ n + (2 ^ (8 * size) - 1) [MOD 2 ^ (8 * size)] := hfst
    exact (hmod.add_right_cancel' _).eq_of_lt_of_lt hm hn
  | add _ _ => exact hsnd
  | or _ _ => exact hsnd
  | and _ _ => exact hsnd
  | xor _ _ => exact hsnd
  | cas _ _ _ => exact hsnd
  | xchg _ _ => exact hsnd
  | set bit _ =>
    -- the report is the bit itself, the result has all the others
    have hbit : m.testBit bit.toNat = n.testBit bit.toNat := toNat_injective hsnd
    apply Nat.eq_of_testBit_eq
    intro i
    by_cases hi : bit.toNat = i
    · rw [← hi, hbit]
    · have hrest := congrArg (fun x => x.testBit i) hfst
      simpa [AtomicOp.documented, Nat.testBit_or, Nat.testBit_two_pow_of_ne hi] using hrest
  | clear bit _ =>
    have hbit : m.testBit bit.toNat = n.testBit bit.toNat := toNat_injective hsnd
    simp only [AtomicOp.documented, hbit] at hfst
    split_ifs at hfst
    · exact Nat.xor_left_injective hfst
    · exact hfst
  | change bit _ => exact Nat.xor_left_injective hfst

/-- The report of a call of an initialized node and the value it leaves
determine the value before. -/
theorem reference_injective {size : ℕ} {m n x : ℕ} {r : Reply} (hm : m < 2 ^ (8 * size))
    (hn : n < 2 ^ (8 * size)) {op : AtomicOp size} (hrep : op.reports = true)
    (h : op.reference true m = some (x, r)) (h' : op.reference true n = some (x, r)) : m = n := by
  have heq := h.trans h'.symm
  simp only [AtomicOp.reference, if_true, hrep, store, Option.some.injEq, Prod.mk.injEq,
    Reply.mk.injEq] at heq
  obtain ⟨hval, hrepd, hst⟩ := heq
  refine @documented_injective size m n hm hn op (Prod.ext hval (Prod.ext hrepd ?_))
  revert hst
  cases (op.documented m).2.2 <;> cases (op.documented n).2.2 <;> simp

/-- The union that `and` and `xor` compute reports the value it found. -/
theorem union_reports {size : ℕ} (hsize : IntegerSize size) {status : MrapiStatus}
    {v v' x : BitVec (8 * size)} {r : Reply}
    (h : mrapi_atomic_or true size v x true status = some (v', r)) :
    r.reported = some v.toNat := by
  rw [mrapi_atomic_or, mrapi_impl_atomic_or, sys_atomic_or, switchSize_of_integer hsize,
    publicCall_implStatus, Option.some.injEq, Prod.mk.injEq] at h
  rw [← h.2]
  rfl

/-- A call that reports tells a wrong value from the right one, or leaves a
wrong one behind. -/
theorem call_apart {size : ℕ} (hsize : IntegerSize size) {initialized : Bool}
    {status : MrapiStatus} {v v' : BitVec (8 * size)} {n n' : ℕ} {r : Reply} {op : AtomicOp size}
    (hop : op.Accepted) (hrep : op.reports = true) (hn : n < 2 ^ (8 * size)) (hne : v.toNat ≠ n)
    (hcall : op.call initialized status v = some (v', r))
    (href : op.reference initialized n = some (n', r)) : v'.toNat ≠ n' := by
  by_cases hint : Intended initialized v.toNat op
  · have hstep := (call_eq_reference_iff hsize initialized status v op hop).mpr hint
    rw [hcall, Option.map_some, absStep] at hstep
    rintro rfl
    cases initialized with
    | false =>
      simp only [AtomicOp.reference, Bool.false_eq_true, if_false, Option.some.injEq,
        Prod.mk.injEq] at hstep href
      exact hne (hstep.1.symm.trans href.1.symm)
    | true => exact hne (reference_injective v.isLt hn hrep hstep.symm href)
  · -- only a union under another name, or a change that asserts
    obtain rfl : initialized = true := by
      cases initialized
      · exact absurd (fun h => Bool.noConfusion h) hint
      · rfl
    cases op with
    | and value previous =>
      obtain rfl : previous = true := hrep
      have hv := union_reports hsize (x := value) hcall
      obtain ⟨-, rfl⟩ := Prod.mk.inj (Option.some.inj href)
      exact absurd (Option.some.inj hv).symm hne
    | xor value previous =>
      obtain rfl : previous = true := hrep
      have hv := union_reports hsize (x := value) hcall
      obtain ⟨-, rfl⟩ := Prod.mk.inj (Option.some.inj href)
      exact absurd (Option.some.inj hv).symm hne
    | change bit previous =>
      obtain ⟨rfl, h0, h32⟩ := hop
      rw [AtomicOp.call, mrapi_atomic_change, mrapi_impl_atomic_change, sys_atomic_change,
        if_neg fun h => hint fun _ => h.2] at hcall
      simp [publicCall, implStatus] at hcall
    | _ => exact absurd (fun _ => trivial) hint

/-! ## Sequences of calls -/

/-- **The public atomics refine the reference** on every initial segment of a
sequence of calls exactly when every call of it does what its name says at the
value the reference holds then. If every call reports, the same holds of the
sequence as a whole. -/
theorem atomics_refine_iff {size : ℕ} (hsize : IntegerSize size) (initialized : Bool)
    (status : MrapiStatus) (v : BitVec (8 * size)) (ops : List (AtomicOp size))
    (hops : ∀ op ∈ ops, op.Accepted) :
    ((∀ k, Refines initialized status v (ops.take k)) ↔
      AllSteps (AtomicOp.reference initialized) (Intended initialized) v.toNat ops) ∧
    ((∀ op ∈ ops, op.reports = true) →
      (Refines initialized status v ops ↔
        AllSteps (AtomicOp.reference initialized) (Intended initialized) v.toNat ops)) := by
  have htotal := @reference_total size initialized
  have hstep : ∀ (v : BitVec (8 * size)) (op : AtomicOp size), op.Accepted →
      ((op.call initialized status v).map (absStep BitVec.toNat)
        = op.reference initialized v.toNat ↔ Intended initialized v.toNat op) :=
    call_eq_reference_iff hsize initialized status
  refine ⟨take_agree_iff htotal hstep ops v hops, fun hrep => ?_⟩
  refine agree_iff (W := fun op => op.Accepted ∧ op.reports = true)
    (I := fun n => n < 2 ^ (8 * size)) htotal (fun v op hop => hstep v op hop.1)
    (fun n op n' r hop hn h => reference_lt hop.1 hn h) ?_ ops v
    (fun op h => ⟨hops op h, hrep op h⟩) v.isLt
  intro v n op v' n' r hop hn hne hcall href
  exact call_apart hsize hop.1 hop.2 hn hne hcall href

/-- An increment and a union on one byte. -/
theorem atomics_refine_iff_byte :
    ((∀ k, @Refines 1 true .MRAPI_SUCCESS 255
        (([.inc true, .or 6 true] : List (AtomicOp 1)).take k)) ↔
      AllSteps (AtomicOp.reference true) (Intended true) 255
        ([.inc true, .or 6 true] : List (AtomicOp 1))) ∧
    ((∀ op ∈ ([.inc true, .or 6 true] : List (AtomicOp 1)), op.reports = true) →
      (@Refines 1 true .MRAPI_SUCCESS 255 [.inc true, .or 6 true] ↔
        AllSteps (AtomicOp.reference true) (Intended true) 255
          ([.inc true, .or 6 true] : List (AtomicOp 1)))) :=
  atomics_refine_iff (Or.inl rfl) true .MRAPI_SUCCESS 255 [.inc true, .or 6 true]
    (by simp [AtomicOp.Accepted])

/-- `1 & 2` leaves 3, `3 ^ 1` leaves 3, and changing bit 4 of a `uint32_t`
fails an assertion. -/
theorem atomics_do_not_refine :
    ¬ @Refines 1 true .MRAPI_SUCCESS 1 [.and 2 true] ∧
    ¬ @Refines 1 true .MRAPI_SUCCESS 3 [.xor 1 true] ∧
    ¬ @Refines 4 true .MRAPI_SUCCESS 0 [.change 4 true] := by
  refine ⟨?_, ?_, ?_⟩ <;> · unfold Refines Agree; decide

end MxApi.Atomics
