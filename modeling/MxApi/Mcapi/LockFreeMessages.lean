/-
The calls of a client in the lock-free transport (`transport_sm_abb.c`,
`Fragments/transport_sm_msg_abb.c`, `Fragments/transport_sm_request_abb.c`,
`Fragments/transport_sm_wait_abb.c`), as one client alone executes them.

Between two steps of a call nothing moves, so an exchange finds what was read before
it, and what is set and set back within a call is not seen. `none` says that an
assert fails, or that the call goes on for ever because only another client could
end its loop. All endpoints are those of connectionless messages and have FIFO
buffers; the branches for channels and for state buffers are left out. The bit set
of the reserved requests is left out too: a request is reserved where its state is.
-/
import MxApi.Lib.Search
import MxApi.Mcapi.Fifo
import MxApi.Mcapi.MessageCalls

set_option autoImplicit false

namespace MxApi.LockFree

open Lib mcapi_buffer_state mcapi_status_t mcapi_request_state Messages

/-! ## The queue of an endpoint -/

/-- What is copied to the caller, and the size of the message. -/
structure Received where
  buffer : Bytes
  received_size : ℕ
  deriving DecidableEq, Repr

/-- The first buffer that is not in use, and the pool after it is marked. -/
def mcapi_trans_alloc_buffer (buffers : ℕ → buffer_entry) : Option (ℕ × (ℕ → buffer_entry)) :=
  (search MCAPI_MAX_BUFFERS fun i => decide ((buffers i).magic_num = 0)).map fun i =>
    (i, Function.update buffers i { buffers i with magic_num := MAGIC_NUM })

/-- `memcpy` of a message to a buffer of the pool. -/
def copyIn (buff : ℕ → UInt8) (buffer : Bytes) : ℕ → UInt8 := fun i => buffer.getD i (buff i)

def mcapi_trans_send (sh : Shared) (buffer : Bytes) : Option (Shared × Bool) :=
  match mcapi_trans_queue_tail sh.q with
  | (qindex, MCAPI_SUCCESS) =>
    let buf := sh.q.elements qindex
    -- the index is asserted to be zero, and BUFFER_FREE is waited for
    if buf.buff_index = 0 ∧ buf.state = BUFFER_FREE then
      match mcapi_trans_alloc_buffer sh.buffers with
      -- the entry is given back
      | none => some (sh, false)
      | some (i, buffers) =>
        let sh : Shared := ⟨sh.q, Function.update buffers i
          { buffers i with
            parent := some qindex
            buff := copyIn (buffers i).buff buffer
            size := buffer.length }⟩
        let sh := sh.setElement qindex
          { buf with buff_index := validIndex i, state := BUFFER_ALLOCATED }
        -- add entry to queue
        match mcapi_trans_push_queue sh.q with
        | some (.ok x, q) => if x = qindex then some ({ sh with q := q }, true) else none
        | _ => none
    else none
  | (_, MCAPI_ERR_QUEUE_FULL) => some (sh, false)
  | _ => none

def mcapi_trans_recv_ (sh : Shared) (buffer_size qindex : ℕ) : Option (Shared × Received) :=
  let index := bufferIndex (sh.q.elements qindex).buff_index
  let db_buff := sh.buffers index
  -- the buffer is freed by an exchange that is asserted
  if db_buff.magic_num = MAGIC_NUM then
    let sh := sh.setBuffer index { db_buff with magic_num := 0, parent := some qindex }
    some (sh.setElement qindex ⟨BUFFER_FREE, 0, false⟩,
      ⟨(List.range (min buffer_size db_buff.size)).map db_buff.buff, db_buff.size⟩)
  else none

/-- The entry at the head is marked, received from and removed from the queue. -/
def takeHead (sh : Shared) (buffer_size qindex : ℕ) : Option (Shared × Received) :=
  let sh := sh.setElement qindex { sh.q.elements qindex with state := BUFFER_RECEIVED }
  match mcapi_trans_recv_ sh buffer_size qindex with
  | none => none
  | some (sh, received) =>
    match mcapi_trans_pop_queue sh.q with
    | some (.ok _, q) => some ({ sh with q := q }, received)
    | _ => none

/-- An entry that holds a message. -/
def sent (buf : buffer_descriptor) : Bool :=
  decide (buf.state = BUFFER_ALLOCATED) && decide (buf.buff_index ≠ 0)

/-- A non-blocking receive. It does not look at `reserved`. -/
def mcapi_trans_recv (sh : Shared) (buffer_size : ℕ) : Option (Shared × Option Received) :=
  match mcapi_trans_queue_head sh.q with
  | (qindex, MCAPI_SUCCESS) =>
    if sent (sh.q.elements qindex) then
      (takeHead sh buffer_size qindex).map fun p => (p.1, some p.2)
    else some (sh, none)
  | (_, MCAPI_ERR_QUEUE_EMPTY) => some (sh, none)
  | _ => none

/-- The walk from the head to the first entry that no request has reserved. -/
def firstUnreserved (q : queue) : Option ℕ :=
  (search MCAPI_MAX_QUEUE_ENTRIES fun i =>
    !(q.elements (((mcapi_trans_queue_head q).1 + i) % MCAPI_MAX_QUEUE_ENTRIES)).reserved).map
      fun i => ((mcapi_trans_queue_head q).1 + i) % MCAPI_MAX_QUEUE_ENTRIES

/-! ## The transport -/

structure Request (E : Type) where
  state : mcapi_request_state
  type : request_type
  handle : Option E
  size : ℕ
  status : CallStatus
  ep_qindex : ℤ

structure Transport (E : Type) where
  recv_queue : E → queue
  buffers : ℕ → buffer_entry
  requests : ℕ → Request E

namespace Transport

variable {E : Type} [DecidableEq E] (s : Transport E)

def endpoint (e : E) : Shared := ⟨s.recv_queue e, s.buffers⟩

def setEndpoint (e : E) (sh : Shared) : Transport E :=
  { s with recv_queue := Function.update s.recv_queue e sh.q, buffers := sh.buffers }

def setRequest (r : ℕ) (req : Request E) : Transport E :=
  { s with requests := Function.update s.requests r req }

/-- `mcapi_trans_reserve_request` may return this request. -/
def available (r : ℕ) : Bool :=
  decide (r < MCAPI_MAX_REQUESTS) && decide ((s.requests r).state = REQUEST_FREE)

/-- The set-up of a request that was reserved and is `REQUEST_VALID`. -/
def setup_request (r : ℕ) (handle : E) (mcapi_status : CallStatus) (completed : Bool) (size : ℕ)
    (type : request_type) : Transport E :=
  let req : Request E :=
    { s.requests r with
      state := REQUEST_VALID, type := type, handle := some handle, size := size
      status := mcapi_status }
  if completed then s.setRequest r { req with state := REQUEST_COMPLETED }
  else
    match type with
    | .RECV =>
      -- find the queue entry that doesn't already have a request associated with it
      let q := s.recv_queue handle
      match firstUnreserved q with
      | some qindex =>
        let sh := (s.endpoint handle).setElement qindex
          { q.elements qindex with reserved := true }
        (s.setEndpoint handle sh).setRequest r { req with ep_qindex := qindex }
      | none =>
        s.setRequest r { req with status := .MCAPI_ERR_MEM_LIMIT, state := REQUEST_COMPLETED }
    | _ => s.setRequest r req

def mcapi_trans_msg_send_i (r : ℕ) (receive_endpoint : E) (buffer : Bytes) :
    Option (Transport E × Issued) :=
  if s.available r then
    match mcapi_trans_send (s.endpoint receive_endpoint) buffer with
    | none => none
    | some (sh, ok) =>
      -- sends complete immediately, and one that fails is assumed to have found no buffer
      let status := if ok then CallStatus.MCAPI_SUCCESS else .MCAPI_ERR_MEM_LIMIT
      let s := s.setEndpoint receive_endpoint sh
      some (s.setup_request r receive_endpoint status true buffer.length .SEND,
        ⟨requestHandle r, .MCAPI_SUCCESS, none⟩)
  else none

def mcapi_trans_msg_recv_i (r : ℕ) (receive_endpoint : E) (buffer_size : ℕ) :
    Option (Transport E × Issued) :=
  if s.available r then
    match mcapi_trans_recv (s.endpoint receive_endpoint) buffer_size with
    | none => none
    | some (sh, received) =>
      let s := s.setEndpoint receive_endpoint sh
      let size := (received.map Received.received_size).getD buffer_size
      some (s.setup_request r receive_endpoint .MCAPI_SUCCESS received.isSome size .RECV,
        ⟨requestHandle r, .MCAPI_SUCCESS, received.map Received.buffer⟩)
  else none

/-- What a request is completed with: a message that is larger than the buffer was
cut off. -/
def completedRequest (req : Request E) (received : Received) : Request E :=
  if received.received_size > req.size then
    { req with state := REQUEST_COMPLETED, status := .MCAPI_ERR_MSG_TRUNCATED }
  else
    { req with
      state := REQUEST_COMPLETED, status := .MCAPI_SUCCESS, size := received.received_size }

def check_receive_request_ (r : ℕ) : Option (Transport E × Option Bytes) :=
  let req := s.requests r
  match req.handle with
  | none => none
  | some e =>
    match mcapi_trans_queue_head (s.recv_queue e) with
    | (front, MCAPI_SUCCESS) =>
      -- confirm the request is at the front of the queue, and that the entry has been sent
      if (front : ℤ) = req.ep_qindex ∧ sent ((s.recv_queue e).elements front) = true then
        if req.state = REQUEST_VALID then
          match takeHead (s.endpoint e) req.size front with
          | none => none
          | some (sh, received) =>
            some ((s.setEndpoint e sh).setRequest r (completedRequest req received),
              some received.buffer)
        else none
      else some (s, none)
    | _ => some (s, none)

/-- The first half of `mcapi_trans_test_i`: the transport after it, the result and the
status so far, and the bytes that were copied. -/
def testState (request : ℕ) : Option (Transport E × Bool × CallStatus × Option Bytes) :=
  match mcapi_trans_decode_request_handle request with
  | none => some (s, true, .MCAPI_ERR_REQUEST_INVALID, none)
  | some r =>
    match (s.requests r).state with
    | REQUEST_FREE => some (s, true, .MCAPI_ERR_REQUEST_INVALID, none)
    | REQUEST_CANCELLED =>
      some (s.setRequest r { s.requests r with status := .MCAPI_ERR_REQUEST_CANCELLED }, true,
        .MCAPI_SUCCESS, none)
    | REQUEST_COMPLETED => some (s, false, .MCAPI_SUCCESS, none)
    | _ =>
      match (s.requests r).type with
      -- always completes immediately
      | .SEND => some (s, false, .MCAPI_SUCCESS, none)
      | .RECV => (s.check_receive_request_ r).map fun p => (p.1, false, .MCAPI_SUCCESS, p.2)
      | .OTHER => none

/-- The second half: the request is queried again by the low bits of the handle,
whether they were decoded or not. -/
def mcapi_trans_test_i (request : ℕ) : Option (Transport E × Tested) :=
  match s.testState request with
  | none => none
  | some (s, rc, mcapi_status, buffer) =>
    let r := requestIndex request
    if r < MCAPI_MAX_REQUESTS then
      let req := s.requests r
      if req.state = REQUEST_COMPLETED ∨ req.state = REQUEST_CANCELLED then
        -- `mcapi_trans_remove_request`
        some (s.setRequest r { req with state := REQUEST_FREE, ep_qindex := -1 },
          ⟨0, true, req.status, some req.size, buffer⟩)
      else some (s, ⟨request, rc, mcapi_status, none, buffer⟩)
    else none

end Transport

def api (E : Type) [DecidableEq E] : Api (Transport E) E :=
  ⟨Transport.mcapi_trans_msg_send_i, Transport.mcapi_trans_msg_recv_i,
    Transport.mcapi_trans_test_i⟩

/-- The database of zeroed memory, and a client that has not called yet. -/
def initialClient (E : Type) : Client (Transport E) :=
  ⟨⟨fun _ => .zero .MCAPI_NO_CHAN, fun _ => .zero,
    fun _ => ⟨REQUEST_FREE, .OTHER, none, 0, .MCAPI_SUCCESS, -1⟩⟩, []⟩

end MxApi.LockFree
