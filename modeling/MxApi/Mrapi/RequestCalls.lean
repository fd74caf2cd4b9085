/-
Any number of clients that use the requests of remote memory at the same time.

A call `_i` goes through its steps one by one: it sets up a request (in the critical section
of `requests_semid`), makes its transfer, and then writes `completed` and `status` of the
request and returns its handle, in a critical section of another semaphore, `rmems_semid`,
which does not keep the questions about requests out. That semaphore only forbids some
interleavings of two calls `_i`; it is left out. The questions are `mrapi_impl_test` and
`mrapi_impl_canceled_request`, one step each, with any handle.

Beside the table the state keeps which requests have been issued, as the calls have
returned their handles, and which statuses the tests of each have returned. Remote memory
itself does not change: which of it exists and who is attached is an argument.
-/
import MxApi.Lib.Run
import MxApi.Mrapi.RequestTable

set_option autoImplicit false

namespace MxApi.Transfer

open Lib
open LockTable (Node mrapi_impl_encode_hndl mrapi_impl_decode_hndl)
open mrapi_status_t

/-! ## The state -/

/-- A transfer as a client asks for it. -/
structure Op where
  d : Direction
  rmem : ℕ
  local_buf : ℕ
  a : Tuple
  deriving DecidableEq, Repr

/-- Where a client is. A call `_i` carries the index of its request and its `*status`. -/
inductive Pc
  | idle
  | reserved (r : ℕ) (op : Op) (status : mrapi_status_t)
  | moved (r : ℕ) (op : Op) (status : mrapi_status_t)
  | completed (r : ℕ) (op : Op) (status : mrapi_status_t)
  | stored (r : ℕ) (op : Op) (status : mrapi_status_t)
  | ended
  deriving DecidableEq, Repr

/-- A request whose handle has been returned: its index, whose transfer it is, and the status
that the transfer has left. -/
structure Issue where
  r : ℕ
  client : ℕ
  op : Op
  status : mrapi_status_t
  deriving DecidableEq, Repr

/-- What a step returns. -/
inductive Reply
  | quiet
  | started (status : mrapi_status_t) (request : Option ℕ)
  | tested (rc : Bool) (status : mrapi_status_t)
  | canceled (rc : Bool)
  | ended
  deriving DecidableEq, Repr

/-- The requests that have been issued are numbered. -/
structure Sys where
  table : Requests
  pc : ℕ → Pc
  count : ℕ
  issues : ℕ → Issue
  yielded : ℕ → List mrapi_status_t
  reply : Reply

def noOp : Op := ⟨.read, 0, 0, .ofWords 0 0 0 0 0 0⟩

def init : Sys where
  table _ := .zero
  pc _ := .idle
  count := 0
  issues _ := ⟨0, 0, noOp, MRAPI_SUCCESS⟩
  yielded _ := []
  reply := .quiet

/-- The outstanding request with a handle: it has been issued and has not yielded its
status. -/
def Sys.outstanding (s : Sys) (request : ℕ) : Option ℕ :=
  search s.count fun k =>
    (s.yielded k).isEmpty && mrapi_impl_encode_hndl (s.issues k).r == request

/-! ## The steps -/

inductive Label
  | start (c : ℕ) (op : Op)
  | transfer (c fuel : ℕ)
  | complete (c : ℕ)
  | store (c : ℕ)
  | issue (c : ℕ)
  | test (c request : ℕ)
  | canceled (c request : ℕ)
  deriving DecidableEq, Repr

/-- A client goes on. -/
def Sys.goto (s : Sys) (c : ℕ) (pc : Pc) : Sys :=
  { s with pc := Function.update s.pc c pc, reply := .quiet }

/-- The checks of a call `_i` and `mrapi_impl_setup_request`. -/
def Sys.start (s : Sys) (x : Db) (node : ℕ → Node) (c : ℕ) (op : Op) : Sys :=
  if checkTransfer x (node c) op.rmem op.a = MRAPI_SUCCESS then
    match mrapi_impl_setup_request s.table with
    | some (q, r) => { s.goto c (.reserved r op MRAPI_SUCCESS) with table := q }
    | none => { s.goto c .ended with reply := .ended }
  else { s with reply := .started (checkTransfer x (node c) op.rmem op.a) none }

/-- `mrapi_impl_test`. -/
def Sys.test (s : Sys) (c request : ℕ) : Sys :=
  match mrapi_impl_test s.table request with
  | some (q, status) =>
    { s with
      table := q
      yielded := match s.outstanding request with
        | some k => Function.update s.yielded k (s.yielded k ++ [status])
        | none => s.yielded
      reply := .tested true status }
  | none => { s.goto c .ended with reply := .ended }

/-- `completed = MRAPI_TRUE`. -/
def Sys.complete (s : Sys) (r : ℕ) : Requests :=
  Function.update s.table r { s.table r with completed := true }

/-- `status = *status`. -/
def Sys.store (s : Sys) (r : ℕ) (status : mrapi_status_t) : Requests :=
  Function.update s.table r { s.table r with status := status }

/-- The call returns the handle. -/
def Sys.issue (s : Sys) (c r : ℕ) (op : Op) (status : mrapi_status_t) : Sys :=
  { s.goto c .idle with
    count := s.count + 1
    issues := Function.update s.issues s.count ⟨r, c, op, status⟩
    reply := .started MRAPI_SUCCESS (some (mrapi_impl_encode_hndl r)) }

def step (x : Db) (node : ℕ → Node) (s : Sys) : Label → Option Sys
  | .start c op =>
    match s.pc c with
    | .idle => some (s.start x node c op)
    | _ => none
  | .transfer c fuel =>
    match s.pc c with
    | .reserved r op status =>
      -- neither what is returned nor what is copied changes the call
      (op.d.impl x op.rmem op.local_buf op.a fuel).map fun _ => s.goto c (.moved r op status)
    | _ => none
  | .complete c =>
    match s.pc c with
    | .moved r op status => some { s.goto c (.completed r op status) with table := s.complete r }
    | _ => none
  | .store c =>
    match s.pc c with
    | .completed r op status =>
      some { s.goto c (.stored r op status) with table := s.store r status }
    | _ => none
  | .issue c =>
    match s.pc c with
    | .stored r op status => some (s.issue c r op status)
    | _ => none
  | .test c request =>
    match s.pc c with
    | .idle => some (s.test c request)
    | _ => none
  | .canceled c request =>
    match s.pc c with
    | .idle => some { s with reply := .canceled (mrapi_impl_canceled_request s.table request) }
    | _ => none

/-! ## The contract -/

/-- The call that waits for the transfer returns this status. -/
def Op.Reports (op : Op) (x : Db) (c : Node) (status : mrapi_status_t) : Prop :=
  ∃ fuel o, op.d.call x c op.rmem op.local_buf op.a fuel = some o ∧ o.status = status

/-- The request that a client is setting up. -/
def Pc.index : Pc → Option ℕ
  | .reserved r _ _ | .moved r _ _ | .completed r _ _ | .stored r _ _ => some r
  | _ => none

/-- The requests in use: those that clients are setting up, and those that are issued and
have not yielded their status. -/
def Sys.index (s : Sys) : ℕ ⊕ ℕ → Option ℕ
  | .inl c => (s.pc c).index
  | .inr k => if k < s.count ∧ s.yielded k = [] then some (s.issues k).r else none

/-- What holds in a state: no two requests in use share an index, and no issued request has
yielded more than the one status of its transfer. -/
structure Good (x : Db) (node : ℕ → Node) (s : Sys) : Prop where
  apart : ∀ o o' r, s.index o = some r → s.index o' = some r → o = o'
  once : ∀ k, k < s.count → s.yielded k = [] ∨ ∃ status, s.yielded k = [status] ∧
    (s.issues k).op.Reports x (node (s.issues k).client) status

/-- What a step has to do. -/
def StepOk (x : Db) (node : ℕ → Node) (s : Sys) (a : Label) (t : Sys) : Prop :=
  match a with
  | .start c op =>
    checkTransfer x (node c) op.rmem op.a = MRAPI_SUCCESS →
      (∀ i, i < MRAPI_MAX_REQUESTS → (s.table i).valid = true) →
        (∃ request, t.reply = .started MRAPI_ERR_REQUEST_LIMIT request) ∧ t.table = s.table
  | .test _ request =>
    match s.outstanding request with
    | some k => ∃ status, t.reply = .tested true status ∧ t.yielded k = [status] ∧
        (s.issues k).op.Reports x (node (s.issues k).client) status
    | none => (∃ status, t.reply = .tested false status) ∧ t.table = s.table
  | .canceled _ _ => t.reply = .canceled false ∧ t.table = s.table
  | _ => True

/-- The condition: a transfer begins only while some request is not in use, and only
outstanding requests are tested. -/
def Meets (x : Db) (node : ℕ → Node) (s : Sys) (a : Label) : Prop :=
  match a with
  | .start c op =>
    checkTransfer x (node c) op.rmem op.a = MRAPI_SUCCESS →
      ∃ i, i < MRAPI_MAX_REQUESTS ∧ (s.table i).valid = false
  | .test _ request => (s.outstanding request).isSome = true
  | _ => True

end MxApi.Transfer
