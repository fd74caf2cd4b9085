/-
The transfers of remote memory (`mrapi_impl_spec_rmem_abb.c`, `mrapi_rmem.c`):
`mrapi_rmem_read` and `mrapi_rmem_write`.

Pointers are 64-bit, and what is added to one is added modulo `2^64` ([`u64`]); the
parameters are 32-bit, and so is the product of a stride with the number of strides. The
counter of the copying loop is 16-bit. A transfer is the list of its copies, as the calls of
`memcpy` have their arguments; what they do to the bytes is [`Copy.run`]. How often the loop
may look at its test is an argument, and `none` says that it has not come out by then.

Every function runs in a critical section of `rmems_semid`. The caller is an initialised
node.
-/
import MxApi.Lib.Loops
import MxApi.Lib.Scatter
import MxApi.Mrapi.RemoteMemoryLife

set_option autoImplicit false

namespace MxApi.Transfer

open Lib
open LockTable (Node)
open RemoteMemory (Rmems entry mrapi_impl_valid_rmem_hndl mrapi_impl_rmem_attached)

/-! ## Data -/

/-- The statuses of the transfers and of their requests. -/
inductive mrapi_status_t
  | MRAPI_SUCCESS
  | MRAPI_ERR_REQUEST_INVALID
  | MRAPI_ERR_REQUEST_LIMIT
  | MRAPI_ERR_RMEM_BUFF_OVERRUN
  | MRAPI_ERR_RMEM_INVALID
  | MRAPI_ERR_RMEM_NOTATTACHED
  | MRAPI_ERR_RMEM_STRIDE
  deriving DecidableEq, Repr

open mrapi_status_t

/-- The fields `addr` and `size` of an entry: an object that its creator has supplied, which
is not at the null pointer and whose end has an address. -/
structure Buffer where
  addr : ℕ
  size : ℕ
  addr_pos : 0 < addr
  end_lt : addr + size < 2 ^ 64

/-- `mrapi_db->rmems`. -/
structure Db where
  table : Rmems
  buffers : ℕ → Buffer

/-- The parameters of a transfer. -/
structure Tuple where
  rmem_offset : ℕ
  local_offset : ℕ
  bytes_per_access : ℕ
  num_strides : ℕ
  rmem_stride : ℕ
  local_stride : ℕ
  rmem_offset_lt : rmem_offset < 2 ^ 32 := by norm_num
  local_offset_lt : local_offset < 2 ^ 32 := by norm_num
  bytes_per_access_lt : bytes_per_access < 2 ^ 32 := by norm_num
  num_strides_lt : num_strides < 2 ^ 32 := by norm_num
  rmem_stride_lt : rmem_stride < 2 ^ 32 := by norm_num
  local_stride_lt : local_stride < 2 ^ 32 := by norm_num
  deriving DecidableEq, Repr

/-- The parameters in the words that hold them. -/
def Tuple.ofWords (rmem_offset local_offset bytes_per_access num_strides rmem_stride
    local_stride : UInt32) : Tuple where
  rmem_offset := rmem_offset.toNat
  local_offset := local_offset.toNat
  bytes_per_access := bytes_per_access.toNat
  num_strides := num_strides.toNat
  rmem_stride := rmem_stride.toNat
  local_stride := local_stride.toNat
  rmem_offset_lt := rmem_offset.toNat_lt
  local_offset_lt := local_offset.toNat_lt
  bytes_per_access_lt := bytes_per_access.toNat_lt
  num_strides_lt := num_strides.toNat_lt
  rmem_stride_lt := rmem_stride.toNat_lt
  local_stride_lt := local_stride.toNat_lt

inductive Direction
  | read
  | write
  deriving DecidableEq, Repr

/-! ## The bytes -/

/-- The bytes of the remote memory and those of the local buffer, which is an object of its
own. -/
structure Mem where
  remote : ℕ → UInt8
  loc : ℕ → UInt8

/-- A call of `memcpy` between the two. -/
structure Copy where
  rmem_buf : ℕ
  local_buf : ℕ
  bytes : ℕ
  deriving DecidableEq, Repr

/-- The bytes of the remote memory that a copy accesses exist. -/
def Copy.Inside (g : Buffer) (k : Copy) : Prop :=
  ∀ j, j < k.bytes → g.addr ≤ k.rmem_buf + j ∧ k.rmem_buf + j < g.addr + g.size

instance (g : Buffer) (k : Copy) : Decidable (k.Inside g) := by
  unfold Copy.Inside
  infer_instance

/-- The bytes of a write; those of a read go the other way. -/
def Copy.piece (k : Copy) : Piece := ⟨k.rmem_buf, k.local_buf, k.bytes⟩

/-- What a copy does, if it is defined. -/
def Copy.run (g : Buffer) (k : Copy) (d : Direction) (m : Mem) : Option Mem :=
  if k.Inside g then
    some <| match d with
      | .read => { m with loc := memcpy m.loc m.remote k.piece.flip }
      | .write => { m with remote := memcpy m.remote m.loc k.piece }
  else none

/-- One copy after the other. -/
def runCopies (g : Buffer) (d : Direction) : List Copy → Mem → Option Mem
  | [], m => some m
  | k :: ks, m => (k.run g d m).bind (runCopies g d ks)

/-! ## The copying loop -/

/-- The variables of the loop, and the copies so far. -/
structure Cursor where
  i : ℕ
  rmem_buf : ℕ
  local_buf : ℕ
  copies : List Copy
  deriving DecidableEq, Repr

/-- The body of the loop and `i++`. -/
def Cursor.stride (a : Tuple) (s : Cursor) : Cursor where
  i := u16 (s.i + 1)
  rmem_buf := u64 (s.rmem_buf + a.rmem_stride)
  local_buf := u64 (s.local_buf + a.local_stride)
  copies := s.copies ++ [⟨s.rmem_buf, s.local_buf, a.bytes_per_access⟩]

/-- `for (i = 0; i < num_strides; i++)`. -/
def strideLoop (a : Tuple) (rmem_buf local_buf fuel : ℕ) : Option Cursor :=
  whileLoop (fun s => decide (s.i < a.num_strides)) (fun s => some (s.stride a)) fuel
    ⟨0, rmem_buf, local_buf, []⟩

/-! ## The implementation -/

/-- What a transfer returns and has copied. -/
structure Moved where
  rc : Bool
  copies : List Copy
  deriving DecidableEq, Repr

/-- Nothing was copied. -/
def Moved.none : Moved := ⟨false, []⟩

/-- `rmem_stride * num_strides`. -/
def Tuple.span (a : Tuple) : ℕ := u32 (a.rmem_stride * a.num_strides)

/-- The two functions from their check of the bounds on. -/
def transfer (x : Db) (r local_buf : ℕ) (a : Tuple) (last_remote_access upper_bound fuel : ℕ) :
    Option Moved :=
  if (x.table.rmems r).valid = false then some .none
  else if last_remote_access > upper_bound then some .none
  else
    (strideLoop a (u64 ((x.buffers r).addr + a.rmem_offset)) (u64 (local_buf + a.local_offset))
      fuel).map fun s => ⟨true, s.copies⟩

def mrapi_impl_rmem_read (x : Db) (rmem local_buf : ℕ) (a : Tuple) (fuel : ℕ) : Option Moved :=
  let g := x.buffers (entry rmem)
  transfer x (entry rmem) local_buf a (u64 (g.addr + a.rmem_offset + a.span))
    (u64 (g.addr + g.size - 1)) fuel

def mrapi_impl_rmem_write (x : Db) (rmem local_buf : ℕ) (a : Tuple) (fuel : ℕ) : Option Moved :=
  let g := x.buffers (entry rmem)
  transfer x (entry rmem) local_buf a
    (u64 (g.addr + a.rmem_offset + a.span + a.bytes_per_access)) (u64 (g.addr + g.size)) fuel

def Direction.impl : Direction → Db → ℕ → ℕ → Tuple → ℕ → Option Moved
  | .read => mrapi_impl_rmem_read
  | .write => mrapi_impl_rmem_write

/-! ## The calls -/

/-- The checks that all transfers begin with. -/
def checkTransfer (x : Db) (c : Node) (rmem : ℕ) (a : Tuple) : mrapi_status_t :=
  if !mrapi_impl_valid_rmem_hndl x.table rmem then MRAPI_ERR_RMEM_INVALID
  else if a.rmem_stride < a.bytes_per_access ∨ a.local_stride < a.bytes_per_access then
    MRAPI_ERR_RMEM_STRIDE
  else if !mrapi_impl_rmem_attached x.table c rmem then MRAPI_ERR_RMEM_NOTATTACHED
  else MRAPI_SUCCESS

/-- The status of a call, and what its transfer has returned and copied. -/
structure Outcome where
  status : mrapi_status_t
  moved : Moved
  deriving DecidableEq, Repr

/-- A transfer neither sets the status nor is asked what it has returned. -/
def blocking (x : Db) (c : Node) (rmem : ℕ) (a : Tuple) (moved : Option Moved) :
    Option Outcome :=
  if checkTransfer x c rmem a = MRAPI_SUCCESS then moved.map fun m => ⟨MRAPI_SUCCESS, m⟩
  else some ⟨checkTransfer x c rmem a, .none⟩

def mrapi_rmem_read (x : Db) (c : Node) (rmem local_buf : ℕ) (a : Tuple) (fuel : ℕ) :
    Option Outcome :=
  blocking x c rmem a (mrapi_impl_rmem_read x rmem local_buf a fuel)

def mrapi_rmem_write (x : Db) (c : Node) (rmem local_buf : ℕ) (a : Tuple) (fuel : ℕ) :
    Option Outcome :=
  blocking x c rmem a (mrapi_impl_rmem_write x rmem local_buf a fuel)

def Direction.call : Direction → Db → Node → ℕ → ℕ → Tuple → ℕ → Option Outcome
  | .read => mrapi_rmem_read
  | .write => mrapi_rmem_write

end MxApi.Transfer
