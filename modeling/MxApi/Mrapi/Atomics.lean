/-
The public atomics of `mrapi_atomic.c` on one location, without a barrier.

Three layers, as in the source: `sys_atomic_*` switches on the size and
operates on the location, `mrapi_impl_atomic_*` turns a failure into
`MRAPI_ERR_ATOM_OP_FAILED`, `mrapi_atomic_*` checks that the node is
initialized and sets the status. A failed assertion ends the process and is
`none`. The four integer types of a `switch (size)` have the same body, so one
definition covers them, at the width `8 * size`.
-/
import Mathlib.Data.Int.Notation
import MxApi.Mrapi.AtomicBit

set_option autoImplicit false

namespace MxApi.Atomics

/-- The statuses the atomics report. -/
inductive MrapiStatus
  | MRAPI_SUCCESS
  | MRAPI_ERR_NODE_NOTINIT
  | MRAPI_ERR_ATOM_OP_FAILED
  deriving DecidableEq, Repr

/-- What an operation leaves at `dest`, what it stores through `previous` or
`result`, and what it returns. -/
structure Outcome (size : ℕ) where
  dest : BitVec (8 * size)
  reported : Option ℕ
  rc : Bool
  deriving DecidableEq, Repr

/-- `if(NULL != previous) *previous = value`. -/
def store (previous : Bool) (value : ℕ) : Option ℕ := if previous then some value else none

/-- The sizes of `uint8_t`, `uint16_t`, `uint32_t` and `uint64_t`. -/
def IntegerSize (size : ℕ) : Prop := size = 1 ∨ size = 2 ∨ size = 4 ∨ size = 8

instance (size : ℕ) : Decidable (IntegerSize size) := by
  unfold IntegerSize; exact inferInstance

/-- `switch (size)` over the integer types; the default asserts. -/
def switchSize {α : Type} (size : ℕ) (body : α) : Option α :=
  if IntegerSize size then some body else none

/-! ## `sysvr4_atomic.c` -/

section Sys

variable (size : ℕ) (dest value exchange compare : BitVec (8 * size)) (previous result : Bool)

def sys_atomic_add : Option (Outcome size) :=
  switchSize size ⟨dest + value, store previous dest.toNat, true⟩

/-- Reports the new value. -/
def sys_atomic_inc : Option (Outcome size) :=
  switchSize size ⟨dest + 1, store result (dest + 1).toNat, true⟩

/-- Reports the new value. -/
def sys_atomic_dec : Option (Outcome size) :=
  switchSize size ⟨dest - 1, store result (dest - 1).toNat, true⟩

def sys_atomic_or : Option (Outcome size) :=
  switchSize size ⟨dest ||| value, store previous dest.toNat, true⟩

def sys_atomic_and : Option (Outcome size) :=
  switchSize size ⟨dest &&& value, store previous dest.toNat, true⟩

def sys_atomic_xor : Option (Outcome size) :=
  switchSize size ⟨dest ^^^ value, store previous dest.toNat, true⟩

/-- Succeeds if the previous value was `compare`. -/
def sys_atomic_cas : Option (Outcome size) :=
  switchSize size ⟨if dest = compare then exchange else dest, store previous dest.toNat,
    compare == dest⟩

/-- A compare and swap whose comparand is the value just read; `cPrevious` is
passed both as `compare` and as `previous`. -/
def sys_atomic_xchg : Option (BitVec (8 * size) × Option ℕ) :=
  (sys_atomic_cas size dest exchange dest true).map fun cPrevious =>
    (cPrevious.dest, if previous then cPrevious.reported else none)

end Sys

/-- Asserts `0 <= bit && 8*(int)size > bit`; only `uint32_t` is supported. -/
def sys_atomic_set : (size : ℕ) → BitVec (8 * size) → ℤ → Bool → Option (Outcome size)
  | 4, dest, bit, previous =>
    if 0 ≤ bit ∧ bit < 8 * 4 then
      let orig := test_and_set_bit bit.toNat dest
      some ⟨orig.2, store previous orig.1.toNat, !orig.1⟩
    else none
  | _, _, _, _ => none

/-- Asserts `0 <= bit && 8*(int)size > bit`; only `uint32_t` is supported. -/
def sys_atomic_clear : (size : ℕ) → BitVec (8 * size) → ℤ → Bool → Option (Outcome size)
  | 4, dest, bit, previous =>
    if 0 ≤ bit ∧ bit < 8 * 4 then
      let orig := test_and_clear_bit bit.toNat dest
      some ⟨orig.2, store previous orig.1.toNat, orig.1⟩
    else none
  | _, _, _, _ => none

/-- Asserts `0 <= bit && (int)size > bit`, without the factor 8 of the other
two; only `uint32_t` is supported. -/
def sys_atomic_change : (size : ℕ) → BitVec (8 * size) → ℤ → Bool → Option (Outcome size)
  | 4, dest, bit, previous =>
    if 0 ≤ bit ∧ bit < 4 then
      let orig := test_and_change_bit bit.toNat dest
      some ⟨orig.2, store previous orig.1.toNat, true⟩
    else none
  | _, _, _, _ => none

/-! ## `mrapi_impl_spec_atomic.c` -/

/-- `if(!rc) *status = MRAPI_ERR_ATOM_OP_FAILED`, the body of every
`mrapi_impl_atomic_*` but `xchg`. -/
def implStatus {size : ℕ} (status : MrapiStatus) (r : Option (Outcome size)) :
    Option (Outcome size × MrapiStatus) :=
  r.map fun o => (o, if o.rc then status else .MRAPI_ERR_ATOM_OP_FAILED)

section Impl

variable (size : ℕ) (dest value exchange compare : BitVec (8 * size)) (bit : ℤ)
  (previous result : Bool) (status : MrapiStatus)

def mrapi_impl_atomic_add := implStatus status (sys_atomic_add size dest value previous)

def mrapi_impl_atomic_inc := implStatus status (sys_atomic_inc size dest result)

def mrapi_impl_atomic_dec := implStatus status (sys_atomic_dec size dest result)

def mrapi_impl_atomic_or := implStatus status (sys_atomic_or size dest value previous)

def mrapi_impl_atomic_and := implStatus status (sys_atomic_and size dest value previous)

def mrapi_impl_atomic_xor := implStatus status (sys_atomic_xor size dest value previous)

def mrapi_impl_atomic_cas :=
  implStatus status (sys_atomic_cas size dest exchange compare previous)

/-- Returns `MRAPI_TRUE` whatever the exchange did. -/
def mrapi_impl_atomic_xchg : Option (Outcome size × MrapiStatus) :=
  (sys_atomic_xchg size dest exchange previous).map fun p => (⟨p.1, p.2, true⟩, status)

def mrapi_impl_atomic_set := implStatus status (sys_atomic_set size dest bit previous)

def mrapi_impl_atomic_clear := implStatus status (sys_atomic_clear size dest bit previous)

def mrapi_impl_atomic_change := implStatus status (sys_atomic_change size dest bit previous)

end Impl

/-! ## `mrapi_atomic.c` -/

/-- What a caller sees of a call: the value stored through `previous` or
`result`, and the status. -/
structure Reply where
  reported : Option ℕ
  status : MrapiStatus
  deriving DecidableEq, Repr

/-- The body every `mrapi_atomic_*` has around its implementation call. -/
def publicCall {size : ℕ} (initialized : Bool) (dest : BitVec (8 * size))
    (impl : Option (Outcome size × MrapiStatus)) : Option (BitVec (8 * size) × Reply) :=
  if !initialized then some (dest, ⟨none, .MRAPI_ERR_NODE_NOTINIT⟩)
  else impl.map fun p =>
    (p.1.dest, ⟨p.1.reported, if p.1.rc then .MRAPI_SUCCESS else p.2⟩)

section Public

variable (initialized : Bool) (size : ℕ) (dest value exchange compare : BitVec (8 * size))
  (bit : ℤ) (previous result : Bool) (status : MrapiStatus)

def mrapi_atomic_add :=
  publicCall initialized dest (mrapi_impl_atomic_add size dest value previous status)

def mrapi_atomic_inc :=
  publicCall initialized dest (mrapi_impl_atomic_inc size dest result status)

def mrapi_atomic_dec :=
  publicCall initialized dest (mrapi_impl_atomic_dec size dest result status)

def mrapi_atomic_or :=
  publicCall initialized dest (mrapi_impl_atomic_or size dest value previous status)

/-- Calls `mrapi_impl_atomic_or`. -/
def mrapi_atomic_and :=
  publicCall initialized dest (mrapi_impl_atomic_or size dest value previous status)

/-- Calls `mrapi_impl_atomic_or`. -/
def mrapi_atomic_xor :=
  publicCall initialized dest (mrapi_impl_atomic_or size dest value previous status)

def mrapi_atomic_cas :=
  publicCall initialized dest (mrapi_impl_atomic_cas size dest exchange compare previous status)

def mrapi_atomic_xchg :=
  publicCall initialized dest (mrapi_impl_atomic_xchg size dest exchange previous status)

def mrapi_atomic_set :=
  publicCall initialized dest (mrapi_impl_atomic_set size dest bit previous status)

def mrapi_atomic_clear :=
  publicCall initialized dest (mrapi_impl_atomic_clear size dest bit previous status)

def mrapi_atomic_change :=
  publicCall initialized dest (mrapi_impl_atomic_change size dest bit previous status)

end Public

/-! ## A call -/

/-- A call on the location: its operands, and whether the pointer it reports
through is non-NULL. -/
inductive AtomicOp (size : ℕ)
  | add (value : BitVec (8 * size)) (previous : Bool)
  | inc (result : Bool)
  | dec (result : Bool)
  | or (value : BitVec (8 * size)) (previous : Bool)
  | and (value : BitVec (8 * size)) (previous : Bool)
  | xor (value : BitVec (8 * size)) (previous : Bool)
  | cas (exchange compare : BitVec (8 * size)) (previous : Bool)
  | xchg (exchange : BitVec (8 * size)) (previous : Bool)
  | set (bit : ℤ) (previous : Bool)
  | clear (bit : ℤ) (previous : Bool)
  | change (bit : ℤ) (previous : Bool)

/-- Perform the call; `status` is what the caller's status variable holds
before it. -/
def AtomicOp.call {size : ℕ} (initialized : Bool) (status : MrapiStatus)
    (dest : BitVec (8 * size)) : AtomicOp size → Option (BitVec (8 * size) × Reply)
  | .add value previous => mrapi_atomic_add initialized size dest value previous status
  | .inc result => mrapi_atomic_inc initialized size dest result status
  | .dec result => mrapi_atomic_dec initialized size dest result status
  | .or value previous => mrapi_atomic_or initialized size dest value previous status
  | .and value previous => mrapi_atomic_and initialized size dest value previous status
  | .xor value previous => mrapi_atomic_xor initialized size dest value previous status
  | .cas exchange compare previous =>
    mrapi_atomic_cas initialized size dest exchange compare previous status
  | .xchg exchange previous => mrapi_atomic_xchg initialized size dest exchange previous status
  | .set bit previous => mrapi_atomic_set initialized size dest bit previous status
  | .clear bit previous => mrapi_atomic_clear initialized size dest bit previous status
  | .change bit previous => mrapi_atomic_change initialized size dest bit previous status

/-- The call is within the documented contract: the bit operations take a
`uint32_t` and one of its bits. -/
def AtomicOp.Accepted {size : ℕ} : AtomicOp size → Prop
  | .set bit _ | .clear bit _ | .change bit _ => size = 4 ∧ 0 ≤ bit ∧ bit < 32
  | _ => True

/-- The call reports through a non-NULL pointer. -/
def AtomicOp.reports {size : ℕ} : AtomicOp size → Bool
  | .add _ p | .inc p | .dec p | .or _ p | .and _ p | .xor _ p | .cas _ _ p | .xchg _ p
  | .set _ p | .clear _ p | .change _ p => p

end MxApi.Atomics
