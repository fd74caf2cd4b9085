/-
The requests of remote memory (`mrapi_impl_spec_body1_abb.c`, `mrapi_impl_spec_rmem_abb.c`,
`mrapi_rmem.c`, `mrapi_vtime.c`): `mrapi_db->requests`, the transfers `_i` that set one up
and the calls that ask for one.

A transfer is made while its call is running; the request carries its status to
`mrapi_test`. An assertion that fails ends the process, which is `none` here. The node and
the domain of a request are written and never read, and left out.
-/
import MxApi.Lib.Search
import MxApi.Mrapi.Transfer

set_option autoImplicit false

namespace MxApi.Transfer

open Lib
open LockTable (Node mrapi_impl_encode_hndl mrapi_impl_decode_hndl)
open mrapi_status_t

/-! ## Data -/

def MRAPI_MAX_REQUESTS : ℕ := 1024

structure mrapi_request_data where
  valid : Bool
  completed : Bool
  cancelled : Bool
  status : mrapi_status_t
  deriving DecidableEq, Repr

/-- A request of zeroed memory. -/
def mrapi_request_data.zero : mrapi_request_data := ⟨false, false, false, MRAPI_SUCCESS⟩

/-- `mrapi_db->requests`. -/
abbrev Requests := ℕ → mrapi_request_data

/-! ## The table -/

/-- The first request that is not in use. -/
def Requests.unused (q : Requests) : Option ℕ :=
  search MRAPI_MAX_REQUESTS fun i => !(q i).valid

/-- It asserts that it has found one. -/
def mrapi_impl_setup_request (q : Requests) : Option (Requests × ℕ) :=
  match q.unused with
  | some i => some (Function.update q i { q i with valid := true, cancelled := false }, i)
  | none => none

/-- What the three questions about a handle begin with. -/
def Requests.names (q : Requests) (request : ℕ) : Bool :=
  let r := mrapi_impl_decode_hndl request
  r.2 && decide (r.1 < MRAPI_MAX_REQUESTS) && (q r.1).valid

def mrapi_impl_valid_request_hndl (q : Requests) (request : ℕ) : Bool := q.names request

/-- It asserts that the request has completed. -/
def mrapi_impl_test (q : Requests) (request : ℕ) : Option (Requests × mrapi_status_t) :=
  let r := (mrapi_impl_decode_hndl request).1
  if q.names request && (q r).completed then some (Function.update q r .zero, (q r).status)
  else none

def mrapi_impl_canceled_request (q : Requests) (request : ℕ) : Bool :=
  q.names request && (q (mrapi_impl_decode_hndl request).1).cancelled

/-! ## The calls -/

/-- The transfers `_i`: the requests, the status, the handle, and what was transferred. -/
structure Started where
  requests : Requests
  status : mrapi_status_t
  request : ℕ
  moved : Moved

/-- The two functions, with the transfer that they make. -/
def start (q : Requests) (moved : Option Moved) (status : mrapi_status_t) : Option Started :=
  match mrapi_impl_setup_request q with
  | none => none
  | some (q', r) =>
    if r < MRAPI_MAX_REQUESTS then
      moved.map fun m =>
        ⟨Function.update q' r { q' r with completed := true, status := status }, MRAPI_SUCCESS,
          mrapi_impl_encode_hndl r, m⟩
    else some ⟨q', MRAPI_ERR_REQUEST_LIMIT, 0xffffffff, .none⟩

def mrapi_impl_rmem_read_i (x : Db) (q : Requests) (rmem local_buf : ℕ) (a : Tuple) (fuel : ℕ)
    (status : mrapi_status_t) : Option Started :=
  start q (mrapi_impl_rmem_read x rmem local_buf a fuel) status

def mrapi_impl_rmem_write_i (x : Db) (q : Requests) (rmem local_buf : ℕ) (a : Tuple) (fuel : ℕ)
    (status : mrapi_status_t) : Option Started :=
  start q (mrapi_impl_rmem_write x rmem local_buf a fuel) status

/-- The two calls, with the function that they call. -/
def startChecked (x : Db) (q : Requests) (c : Node) (rmem : ℕ) (a : Tuple)
    (impl : mrapi_status_t → Option Started) : Option Started :=
  if checkTransfer x c rmem a = MRAPI_SUCCESS then impl MRAPI_SUCCESS
  else some ⟨q, checkTransfer x c rmem a, 0, .none⟩

def mrapi_rmem_read_i (x : Db) (q : Requests) (c : Node) (rmem local_buf : ℕ) (a : Tuple)
    (fuel : ℕ) : Option Started :=
  startChecked x q c rmem a (mrapi_impl_rmem_read_i x q rmem local_buf a fuel)

def mrapi_rmem_write_i (x : Db) (q : Requests) (c : Node) (rmem local_buf : ℕ) (a : Tuple)
    (fuel : ℕ) : Option Started :=
  startChecked x q c rmem a (mrapi_impl_rmem_write_i x q rmem local_buf a fuel)

def Direction.call_i : Direction → Db → Requests → Node → ℕ → ℕ → Tuple → ℕ → Option Started
  | .read => mrapi_rmem_read_i
  | .write => mrapi_rmem_write_i

/-- The requests, the status and what is returned. -/
def mrapi_test (q : Requests) (request : ℕ) : Option (Requests × mrapi_status_t × Bool) :=
  if !mrapi_impl_valid_request_hndl q request then some (q, MRAPI_ERR_REQUEST_INVALID, false)
  else (mrapi_impl_test q request).map fun t => (t.1, t.2, true)

end MxApi.Transfer
