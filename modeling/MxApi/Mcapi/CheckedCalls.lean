/-
The calls of the application for messages and packets (`mcapi_abb.c`), which check their
arguments before they call the transport, with the checks
(`Fragments/transport_sm_check_abb.c`) and the waits
(`Fragments/transport_sm_wait_abb.c`).

A pointer of the caller is modelled by whether it is not `NULL`. A message is within
`MCAPI_MAX_MSG_SIZE` by its type, so that the check of its size always passes.

The non-blocking calls do not return on an error: they hand the status that they found to
the transport, which is to complete the request with it.
-/
import MxApi.Mcapi.Calls

set_option autoImplicit false

namespace MxApi.Calls

open Lib Transfers channel_type mcapi_buffer_state mcapi_status_t mcapi_request_state
  mcapi_request_type mcapi_buffer_type

/-! ## Checks -/

section

variable (w : World)

def mcapi_trans_valid_endpoint (endpoint : ℕ) : Bool :=
  (mcapi_trans_decode_handle endpoint).any fun p =>
    w.domains p.1 && w.nodes p.1 p.2.1 && (w.endpoints p).valid

/-- Only the endpoints themselves are looked at, not their domains and nodes. -/
def mcapi_trans_valid_endpoints (endpoint1 endpoint2 : ℕ) : Bool :=
  (mcapi_trans_decode_handle endpoint1).any (fun p => (w.endpoints p).valid) &&
    (mcapi_trans_decode_handle endpoint2).any fun p => (w.endpoints p).valid

def mcapi_trans_valid_pktchan_send_handle (handle : ℕ) : Bool :=
  (mcapi_trans_decode_handle handle).any fun p =>
    decide ((w.endpoints p).recv_queue.channel_type = MCAPI_PKT_CHAN)

def mcapi_trans_valid_pktchan_recv_handle (handle : ℕ) : Bool :=
  (mcapi_trans_decode_handle handle).any fun p =>
    decide ((w.endpoints p).recv_queue.channel_type = MCAPI_PKT_CHAN)

end

def MCAPI_MAX_PRIORITY : ℤ := 10

def mcapi_trans_valid_priority (priority : ℤ) : Bool :=
  decide (priority ≥ 0) && decide (priority ≤ MCAPI_MAX_PRIORITY)

/-! ## Non-blocking calls -/

section

variable (w : World) (rand : ℕ)

def mcapi_msg_send_i (send_endpoint receive_endpoint : ℕ) (m : Msg) (priority : ℤ)
    (request : ℕ) : Option Called :=
  let mcapi_status : Status :=
    if !mcapi_trans_valid_priority priority then .MCAPI_ERR_PRIORITY
    else if !mcapi_trans_valid_endpoints w send_endpoint receive_endpoint then
      .MCAPI_ERR_ENDP_INVALID
    else if m.buffer_size > MCAPI_MAX_MSG_SIZE then .MCAPI_ERR_MSG_LIMIT
    else .MCAPI_SUCCESS
  mcapi_trans_msg_send_i w rand send_endpoint receive_endpoint m request mcapi_status

/-- `request` is the value behind the pointer, if that is not `NULL`. -/
def mcapi_msg_recv_i (receive_endpoint : ℕ) (buffer : Bool) (buffer_size : ℕ)
    (request : Option ℕ) : Option Called :=
  match request with
  | none => some ⟨w, 0, .MCAPI_ERR_PARAMETER, none⟩
  | some request =>
    let mcapi_status : Status :=
      if !buffer then .MCAPI_ERR_PARAMETER
      else if !mcapi_trans_valid_endpoint w receive_endpoint then .MCAPI_ERR_ENDP_INVALID
      else .MCAPI_SUCCESS
    mcapi_trans_msg_recv_i w rand receive_endpoint buffer_size request mcapi_status

def mcapi_pktchan_send_i (send_handle : ℕ) (m : Msg) (request : Option ℕ) : Option Called :=
  match request with
  | none => some ⟨w, 0, .MCAPI_ERR_PARAMETER, none⟩
  | some request =>
    let mcapi_status : Status :=
      if !mcapi_trans_valid_pktchan_send_handle w send_handle then .MCAPI_ERR_CHAN_INVALID
      else if m.buffer_size > MCAPI_MAX_PKT_SIZE then .MCAPI_ERR_PKT_LIMIT
      else .MCAPI_SUCCESS
    mcapi_trans_pktchan_send_i w rand send_handle m request mcapi_status

def mcapi_pktchan_recv_i (receive_handle : ℕ) (buffer : Bool) (request : Option ℕ) :
    Option Called :=
  match request with
  | none => some ⟨w, 0, .MCAPI_ERR_PARAMETER, none⟩
  | some request =>
    let mcapi_status : Status :=
      if !buffer then .MCAPI_ERR_PARAMETER
      else if !mcapi_trans_valid_pktchan_recv_handle w receive_handle then
        .MCAPI_ERR_CHAN_INVALID
      else .MCAPI_SUCCESS
    mcapi_trans_pktchan_recv_i w rand receive_handle request mcapi_status

end

/-! ## Blocking receives -/

/-- What a blocking receive of the application leaves behind: `*received_size`,
`*mcapi_status`, and everything that was handed out. -/
structure Received where
  world : World
  received_size : ℕ
  status : Status
  deliveries : List Delivery

section

variable (env : Env) (rand : ℕ → ℕ) (fuel : ℕ) (w : World)

/-- The result of the transport is not looked at. A size that is larger than the buffer is
what tells that the message was cut off. -/
def mcapi_msg_recv (receive_endpoint : ℕ) (buffer : Bool) (buffer_size received_size : ℕ) :
    Option Received :=
  if !buffer then some ⟨w, received_size, .MCAPI_ERR_PARAMETER, []⟩
  else if !mcapi_trans_valid_endpoint w receive_endpoint then
    some ⟨w, received_size, .MCAPI_ERR_ENDP_INVALID, []⟩
  else
    (mcapi_trans_msg_recv env rand fuel w receive_endpoint buffer_size).map fun x =>
      let received_size := x.size.getD received_size
      if received_size > buffer_size then
        ⟨x.world, buffer_size, .MCAPI_ERR_MSG_TRUNCATED, x.deliveries⟩
      else ⟨x.world, received_size, .MCAPI_SUCCESS, x.deliveries⟩

def mcapi_pktchan_recv (receive_handle : ℕ) (buffer : Bool) (received_size : ℕ) :
    Option Received :=
  if !buffer then some ⟨w, received_size, .MCAPI_ERR_PARAMETER, []⟩
  else if !mcapi_trans_valid_pktchan_recv_handle w receive_handle then
    some ⟨w, received_size, .MCAPI_ERR_CHAN_INVALID, []⟩
  else
    (mcapi_trans_pktchan_recv env rand fuel w receive_handle).map fun x =>
      let received_size := x.size.getD received_size
      let status : Status :=
        if x.rc then
          if received_size > MCAPI_MAX_PKT_SIZE then .MCAPI_ERR_PKT_LIMIT else .MCAPI_SUCCESS
        else .MCAPI_ERR_MEM_LIMIT
      ⟨x.world, received_size, status, x.deliveries⟩

end

/-! ## Waits -/

/-- With no timeout. A wait for no request writes neither the size nor the status. -/
def mcapi_trans_wait (env : Env) (fuel n : ℕ) (w : World) (request : ℕ)
    (deliveries : List Delivery) : Option (Tested × List Delivery) :=
  if request = 0 then
    -- no active request
    some (⟨w, request, true, none, none, none⟩, deliveries)
  else if mcapi_trans_decode_request_handle request = none then none
  else polls env fuel n w request deliveries

/-- The passes over the list, with no timeout: request `i` is tested next, in round `n`.
The index of the request that is done comes with the test. -/
def mcapi_trans_wait_any (env : Env) (requests : List ℕ) :
    ℕ → ℕ → World → ℕ → List Delivery → Option (Tested × ℕ × List Delivery)
  | 0, _, _, _, _ => none
  | fuel + 1, n, w, i, deliveries =>
    match requests[i]? with
    | none => mcapi_trans_wait_any env requests fuel n w 0 deliveries
    | some request =>
      match mcapi_trans_test_i (env n w) request with
      | none => none
      | some t =>
        let deliveries := deliveries ++ t.delivery.toList
        if t.rc then some (t, i, deliveries)
        else mcapi_trans_wait_any env requests fuel (n + 1) t.world (i + 1) deliveries

/-- The blocking calls are attempts followed by a wait. -/
theorem blocking_eq_wait (env : Env) (call : ℕ → World → ℕ → Status → Option Called)
    (fuel : ℕ) (w : World) :
    blocking env call fuel w =
      (attempts env call fuel 0 w 0 .MCAPI_SUCCESS []).bind fun a =>
        (mcapi_trans_wait env fuel a.2.1 a.1.world a.1.request a.2.2).map fun p =>
          let status := p.1.status.getD a.1.status
          ⟨p.1.world, decide (status = .MCAPI_SUCCESS), status, p.1.size, p.2⟩ := by
  unfold blocking mcapi_trans_wait
  cases attempts env call fuel 0 w 0 .MCAPI_SUCCESS [] with
  | none => rfl
  | some a =>
    obtain ⟨c, n, deliveries⟩ := a
    simp only [Option.bind_some]
    split
    · rfl
    · split
      · rfl
      · rfl

end MxApi.Calls
