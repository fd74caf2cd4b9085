/-
The calls of a client in the lock-based transport (`Fragments/transport_sm_msg.c`,
`Fragments/transport_sm_wait.c`), over the endpoints of one node and over any others.

The endpoints share the pool of buffers and the table of requests; each has a receive
queue of its own, and what is done on the queue of one endpoint is what
`Baseline.Endpoint` says. All endpoints are those of connectionless messages. Every
call runs under `global_rwl`. Requests that are neither of a send nor of a receive,
and cancelled ones, do not occur.
-/
import MxApi.Mcapi.BaselineQueue
import MxApi.Mcapi.MessageCalls

set_option autoImplicit false

namespace MxApi.Baseline

open CallStatus Messages

/-- The part of the database that messages pass through. A request also stores its
type and the endpoint that it was set up with. -/
structure Transport (E : Type) where
  recv_queue : E → queue
  buffers : ℕ → buffer_entry
  requests : ℕ → Option RecvRequest
  type : ℕ → request_type
  handle : ℕ → Option E

namespace Transport

variable {E : Type} [DecidableEq E] (s : Transport E)

/-- What a call on an endpoint works on. -/
def endpoint (e : E) : Endpoint := ⟨s.recv_queue e, s.buffers, s.requests⟩

def setEndpoint (e : E) (ep : Endpoint) : Transport E :=
  { s with
    recv_queue := Function.update s.recv_queue e ep.recv_queue
    buffers := ep.buffers
    requests := ep.requests }

def setKind (r : ℕ) (type : request_type) (e : E) : Transport E :=
  { s with
    type := Function.update s.type r type
    handle := Function.update s.handle r (some e) }

/-- `mcapi_trans_reserve_request_have_lock` may return this request. -/
def available (r : ℕ) : Bool := decide (r < MCAPI_MAX_REQUESTS) && (s.requests r).isNone

/-- `memset` of a request to zero. -/
def clear (r : ℕ) : Transport E :=
  { s with
    requests := Function.update s.requests r none
    type := Function.update s.type r .OTHER
    handle := Function.update s.handle r none }

def mcapi_trans_msg_send_i (r : ℕ) (receive_endpoint : E) (buffer : Message) :
    Option (Transport E × Issued) :=
  if s.available r then
    match mcapi_trans_send_have_lock (s.endpoint receive_endpoint) buffer with
    | none => none
    | some (ep, sent) =>
      -- sends complete immediately, and one that fails is assumed to have found no buffer
      let status := if sent then MCAPI_SUCCESS else MCAPI_ERR_MEM_LIMIT
      let ep := ep.setRequest r (some ⟨buffer.length, true, status⟩)
      some ((s.setEndpoint receive_endpoint ep).setKind r .SEND receive_endpoint,
        ⟨requestHandle r, MCAPI_SUCCESS, none⟩)
  else none

def mcapi_trans_msg_recv_i (r : ℕ) (receive_endpoint : E) (buffer_size : ℕ) :
    Option (Transport E × Issued) :=
  if s.available r then
    match Baseline.mcapi_trans_msg_recv_i (s.endpoint receive_endpoint) r buffer_size with
    | none => none
    | some (ep, received) =>
      some ((s.setEndpoint receive_endpoint ep).setKind r .RECV receive_endpoint,
        ⟨requestHandle r, MCAPI_SUCCESS, received.map Received.buffer⟩)
  else none

/-- The attempt of `mcapi_trans_test_i` to complete the request, and the bytes that it
copied. -/
def tryComplete (r : ℕ) : Option (Transport E × Option Message) :=
  match s.requests r with
  | none | some ⟨_, true, _⟩ => some (s, none)
  | some ⟨size, false, _⟩ =>
    match s.type r with
    -- always completes immediately
    | .SEND => some (s, none)
    | .RECV =>
      match s.handle r with
      | none => none
      | some e =>
        match check_receive_request_have_lock (s.endpoint e) r size with
        | none => none
        | some (ep, received) => some (s.setEndpoint e ep, received.map Received.buffer)
    | .OTHER => none

def mcapi_trans_test_i (request : ℕ) : Option (Transport E × Tested) :=
  match mcapi_trans_decode_request_handle request with
  | none => some (s, ⟨request, true, MCAPI_ERR_REQUEST_INVALID, none, none⟩)
  | some r =>
    if (s.requests r).isNone then
      some (s, ⟨request, true, MCAPI_ERR_REQUEST_INVALID, none, none⟩)
    else
      match s.tryComplete r with
      | none => none
      | some (s, buffer) =>
        -- query completed again because we may have just completed it
        match s.requests r with
        | some ⟨size, true, status⟩ =>
          some (s.clear r, ⟨0, true, status, some size, buffer⟩)
        | _ => some (s, ⟨request, false, MCAPI_SUCCESS, none, buffer⟩)

end Transport

def api (E : Type) [DecidableEq E] : Api (Transport E) E :=
  ⟨Transport.mcapi_trans_msg_send_i, Transport.mcapi_trans_msg_recv_i,
    Transport.mcapi_trans_test_i⟩

/-- The database of zeroed memory, and a client that has not called yet. -/
def initialClient (E : Type) : Client (Transport E) :=
  ⟨⟨fun _ => ⟨0, 0, 0, fun _ => ⟨none, none, false⟩⟩, fun _ => buffer_entry.zero, fun _ => none,
    fun _ => .OTHER, fun _ => none⟩, []⟩

end MxApi.Baseline
