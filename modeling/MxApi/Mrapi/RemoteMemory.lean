/-
Remote memory (`mrapi_impl_spec_rmem_abb.c`, `mrapi_rmem.c`): the table `mrapi_db->rmems`.

Every call runs in the critical section of `rmems_semid`, so it is one step. The caller is
an initialised node. Of an entry the model keeps what decides who may use it; its address,
size, access type and attributes are only read by the transfers themselves, which are left
out, as are the requests of the calls `_i`.
-/
import MxApi.Lib.Search
import MxApi.Mrapi.LockTableSafety

set_option autoImplicit false

namespace MxApi.RemoteMemory

open Lib
open LockTable (Node MRAPI_MAX_DOMAINS MRAPI_MAX_NODES mrapi_impl_encode_hndl
  mrapi_impl_decode_hndl)

/-! ## Data -/

def MRAPI_MAX_RMEMS : ℕ := 10

inductive mrapi_rmem_atype_t
  | MRAPI_RMEM_DMA
  | MRAPI_RMEM_SWCACHE
  | MRAPI_RMEM_DUMMY
  deriving DecidableEq, Repr

inductive mrapi_status_t
  | MRAPI_SUCCESS
  | MRAPI_ERR_MEM_LIMIT
  | MRAPI_ERR_RMEM_EXISTS
  | MRAPI_ERR_RMEM_ID_INVALID
  | MRAPI_ERR_RMEM_INVALID
  | MRAPI_ERR_RMEM_NOTATTACHED
  | MRAPI_ERR_RMEM_STRIDE
  | MRAPI_ERR_RMEM_TYPENOTVALID
  deriving DecidableEq, Repr

open mrapi_rmem_atype_t mrapi_status_t

/-- The nodes that are attached are listed by their index in their domain. -/
structure mrapi_rmem_t where
  valid : Bool
  key : ℕ
  refs : ℕ
  nodes : ℕ → Bool

/-- `mrapi_db->rmems` and `mrapi_db->num_rmems`. -/
structure Rmems where
  rmems : ℕ → mrapi_rmem_t
  num_rmems : ℕ

/-- An entry of zeroed memory. -/
def mrapi_rmem_t.zero : mrapi_rmem_t := ⟨false, 0, 0, fun _ => false⟩

def Rmems.zero : Rmems := ⟨fun _ => .zero, 0⟩

def Rmems.set (t : Rmems) (r : ℕ) (rmem : mrapi_rmem_t) : Rmems :=
  { t with rmems := Function.update t.rmems r rmem }

/-! ## The implementation -/

def mrapi_impl_valid_atype (access_type : mrapi_rmem_atype_t) : Bool :=
  access_type == MRAPI_RMEM_DUMMY

def mrapi_impl_rmem_attached (t : Rmems) (c : Node) (rmem : ℕ) : Bool :=
  let r := mrapi_impl_decode_hndl rmem
  r.2 && (t.rmems r.1).valid && (t.rmems r.1).nodes c.nindex

/-- The first valid entry with an id. -/
def Rmems.existing (t : Rmems) (rmem_id : ℕ) : Option ℕ :=
  search MRAPI_MAX_RMEMS fun r => (t.rmems r).valid && (t.rmems r).key == rmem_id

def mrapi_impl_rmem_exists (t : Rmems) (rmem_id : ℕ) : Bool := (t.existing rmem_id).isSome

/-- The first entry that is not valid. -/
def Rmems.unused (t : Rmems) : Option ℕ :=
  search MRAPI_MAX_RMEMS fun r => !(t.rmems r).valid

/-- The table, the handle and the status. The entry is filled in over what its last occupant
left: the count and the nodes stay. -/
def mrapi_impl_rmem_create (t : Rmems) (rmem_id : ℕ) : Rmems × ℕ × mrapi_status_t :=
  let invalid := mrapi_impl_encode_hndl MRAPI_MAX_RMEMS
  if t.num_rmems = MRAPI_MAX_RMEMS then (t, invalid, MRAPI_ERR_MEM_LIMIT)
  else if (t.existing rmem_id).isSome then (t, invalid, MRAPI_ERR_RMEM_EXISTS)
  else
    match t.unused with
    | none => (t, invalid, MRAPI_SUCCESS)
    | some r =>
      ({ t.set r { t.rmems r with key := rmem_id, valid := true } with
          num_rmems := u8 (t.num_rmems + 1) },
        mrapi_impl_encode_hndl r, MRAPI_SUCCESS)

/-- The first entry with the key. -/
def Rmems.keyed (t : Rmems) (rmem_id : ℕ) : Option ℕ :=
  search MRAPI_MAX_RMEMS fun r => (t.rmems r).key == rmem_id

def mrapi_impl_rmem_get (t : Rmems) (rmem_id : ℕ) : ℕ × Bool :=
  match t.keyed rmem_id with
  | some r => (mrapi_impl_encode_hndl r, true)
  | none => (mrapi_impl_encode_hndl MRAPI_MAX_RMEMS, false)

def mrapi_impl_valid_rmem_hndl (t : Rmems) (rmem : ℕ) : Bool :=
  let r := mrapi_impl_decode_hndl rmem
  r.2 && decide (r.1 < MRAPI_MAX_RMEMS) && (t.rmems r.1).valid

def mrapi_impl_rmem_attach (t : Rmems) (c : Node) (rmem : ℕ) : Rmems :=
  let r := (mrapi_impl_decode_hndl rmem).1
  let entry := t.rmems r
  if entry.nodes c.nindex then t
  else t.set r { entry with
    nodes := Function.update entry.nodes c.nindex true
    refs := u8 (entry.refs + 1) }

def mrapi_impl_rmem_detach (t : Rmems) (c : Node) (rmem : ℕ) : Rmems :=
  let r := (mrapi_impl_decode_hndl rmem).1
  let entry := t.rmems r
  t.set r { entry with
    nodes := Function.update entry.nodes c.nindex false
    refs := subU8 entry.refs 1 }

def mrapi_impl_rmem_delete (t : Rmems) (rmem : ℕ) : Rmems :=
  let r := (mrapi_impl_decode_hndl rmem).1
  t.set r { t.rmems r with valid := false }

/-! ## The calls -/

/-- What a call returns: its status, a handle, and the result of a question. -/
structure Outcome where
  status : mrapi_status_t
  hndl : ℕ
  answer : Bool
  deriving DecidableEq, Repr

def Outcome.ofStatus (status : mrapi_status_t) : Outcome := ⟨status, 0, false⟩

def mrapi_rmem_create (t : Rmems) (rmem_id : ℕ) (access_type : mrapi_rmem_atype_t) :
    Rmems × Outcome :=
  if mrapi_impl_rmem_exists t rmem_id then (t, .ofStatus MRAPI_ERR_RMEM_EXISTS)
  else if !mrapi_impl_valid_atype access_type then (t, .ofStatus MRAPI_ERR_RMEM_TYPENOTVALID)
  else
    let made := mrapi_impl_rmem_create t rmem_id
    (made.1, ⟨made.2.2, made.2.1, false⟩)

def mrapi_rmem_get (t : Rmems) (rmem_id : ℕ) (access_type : mrapi_rmem_atype_t) : Outcome :=
  if !mrapi_impl_valid_atype access_type then .ofStatus MRAPI_ERR_RMEM_TYPENOTVALID
  else
    let got := mrapi_impl_rmem_get t rmem_id
    ⟨if got.2 then MRAPI_SUCCESS else MRAPI_ERR_RMEM_ID_INVALID, got.1, false⟩

def mrapi_rmem_attach (t : Rmems) (c : Node) (rmem : ℕ) : Rmems × Outcome :=
  if !mrapi_impl_valid_rmem_hndl t rmem then (t, .ofStatus MRAPI_ERR_RMEM_INVALID)
  else (mrapi_impl_rmem_attach t c rmem, .ofStatus MRAPI_SUCCESS)

def mrapi_rmem_detach (t : Rmems) (c : Node) (rmem : ℕ) : Rmems × Outcome :=
  if mrapi_impl_valid_rmem_hndl t rmem then
    (mrapi_impl_rmem_detach t c rmem, .ofStatus MRAPI_SUCCESS)
  else (t, .ofStatus MRAPI_ERR_RMEM_INVALID)

def mrapi_rmem_delete (t : Rmems) (rmem : ℕ) : Rmems × Outcome :=
  if !mrapi_impl_valid_rmem_hndl t rmem then (t, .ofStatus MRAPI_ERR_RMEM_INVALID)
  else (mrapi_impl_rmem_delete t rmem, .ofStatus MRAPI_SUCCESS)

/-- The strides of a transfer. -/
structure Strides where
  bytes_per_access : ℕ
  rmem_stride : ℕ
  local_stride : ℕ
  deriving DecidableEq, Repr

/-- The checks of the four transfers. -/
def checkTransfer (t : Rmems) (c : Node) (rmem : ℕ) (strides : Strides) : mrapi_status_t :=
  if !mrapi_impl_valid_rmem_hndl t rmem then MRAPI_ERR_RMEM_INVALID
  else if strides.rmem_stride < strides.bytes_per_access ∨
      strides.local_stride < strides.bytes_per_access then MRAPI_ERR_RMEM_STRIDE
  else if !mrapi_impl_rmem_attached t c rmem then MRAPI_ERR_RMEM_NOTATTACHED
  else MRAPI_SUCCESS

/-- `mrapi_rmem_read` up to the transfer. -/
def mrapi_rmem_read (t : Rmems) (c : Node) (rmem : ℕ) (strides : Strides) : Outcome :=
  .ofStatus (checkTransfer t c rmem strides)

/-- `mrapi_rmem_write` up to the transfer. -/
def mrapi_rmem_write (t : Rmems) (c : Node) (rmem : ℕ) (strides : Strides) : Outcome :=
  .ofStatus (checkTransfer t c rmem strides)

/-- The calls. -/
inductive Call
  | create (rmem_id : ℕ) (access_type : mrapi_rmem_atype_t)
  | get (rmem_id : ℕ) (access_type : mrapi_rmem_atype_t)
  | attach (rmem : ℕ)
  | detach (rmem : ℕ)
  | delete (rmem : ℕ)
  | attached (rmem : ℕ)
  | read (rmem : ℕ) (strides : Strides)
  | write (rmem : ℕ) (strides : Strides)
  deriving DecidableEq, Repr

def Call.run (t : Rmems) (c : Node) : Call → Rmems × Outcome
  | .create rmem_id access_type => mrapi_rmem_create t rmem_id access_type
  | .get rmem_id access_type => (t, mrapi_rmem_get t rmem_id access_type)
  | .attach rmem => mrapi_rmem_attach t c rmem
  | .detach rmem => mrapi_rmem_detach t c rmem
  | .delete rmem => mrapi_rmem_delete t rmem
  | .attached rmem => (t, ⟨MRAPI_SUCCESS, 0, mrapi_impl_rmem_attached t c rmem⟩)
  | .read rmem strides => (t, mrapi_rmem_read t c rmem strides)
  | .write rmem strides => (t, mrapi_rmem_write t c rmem strides)

end MxApi.RemoteMemory
