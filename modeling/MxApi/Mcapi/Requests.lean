/-
The requests of non-blocking operations, as one thread uses them: setting one
up, testing, waiting for and cancelling it
(`Fragments/transport_sm_request_abb.c`, `Fragments/transport_sm_wait_abb.c`,
`mcapi_abb.c`).

A request handle is the index of the request under the bit `0x80000000`, and is
decoded by looking at that bit and the low 16 bits. Whether the operation behind
a pending request can be completed is decided outside the request table, by the
queues and the endpoints; here it is a parameter `found` of the call. A reserve
draws random indices until it hits a free one, so any free index may result; the
parameter `rand` chooses it. `none` says the call does not return: an assert
fails, or memory outside the table is read.

The table records what happens to it: every move of a state, and for each handle
value how often it was issued and how often its result was reported.
-/
import Mathlib.Data.Nat.Bitwise
import MxApi.Mcapi.RequestTable
import MxApi.Mcapi.Tables

set_option autoImplicit false

namespace MxApi

open mcapi_request_state CallStatus

inductive mcapi_request_type
  | OTHER
  | CONN_PKTCHAN
  | CONN_SCLCHAN
  | OPEN_PKTCHAN
  | OPEN_SCLCHAN
  | CLOSE_PKTCHAN
  | CLOSE_SCLCHAN
  | SEND
  | RECV
  | GET_ENDPT
  deriving DecidableEq, Repr

open mcapi_request_type

/-- One request: its state, and what `setup_request` stores in it. -/
structure RequestData where
  state : mcapi_request_state
  status : CallStatus
  type : mcapi_request_type
  handle : ℕ
  deriving DecidableEq, Repr

/-- A move of the state of the request `r`. -/
structure RequestMove where
  r : ℕ
  oldstate : mcapi_request_state
  newstate : mcapi_request_state
  deriving DecidableEq, Repr

structure RequestLog where
  data : ℕ → RequestData
  moves : List RequestMove
  issued : ℕ → ℕ
  reported : ℕ → ℕ

inductive mcapi_buffer_type
  | MCAPI_ENDP_ATTR_FIFO_BUFFER
  | MCAPI_ENDP_ATTR_STATE_BUFFER
  deriving DecidableEq, Repr

open mcapi_buffer_type

/-- What a pending request is completed with: the status, and for a receive the
kind of its endpoint's buffers. -/
structure Found where
  status : CallStatus
  bt : mcapi_buffer_type
  deriving DecidableEq, Repr

/-- What a call reports: its result, `*mcapi_status`, and whether it set
`*request` to zero. -/
structure Answer where
  rc : Bool
  status : CallStatus
  cleared : Bool
  deriving DecidableEq, Repr

namespace RequestLog

variable (s : RequestLog)

def setData (r : ℕ) (v : RequestData) : RequestLog := { s with data := Function.update s.data r v }

/-- An asserted compare-and-swap on the state of request `r`. -/
def casState (r : ℕ) (oldstate newstate : mcapi_request_state) : Option RequestLog :=
  if (s.data r).state = oldstate then
    some { s.setData r { s.data r with state := newstate } with
      moves := ⟨r, oldstate, newstate⟩ :: s.moves }
  else none

def countReport (request : ℕ) : RequestLog :=
  { s with reported := Function.update s.reported request (s.reported request + 1) }

end RequestLog

section

variable {s : RequestLog} {r : ℕ} {oldstate newstate : mcapi_request_state}

theorem RequestLog.casState_of_eq (h : (s.data r).state = oldstate) :
    s.casState r oldstate newstate =
      some { s.setData r { s.data r with state := newstate } with
        moves := ⟨r, oldstate, newstate⟩ :: s.moves } := by
  rw [RequestLog.casState, if_pos h]

theorem RequestLog.casState_of_ne (h : (s.data r).state ≠ oldstate) :
    s.casState r oldstate newstate = none := by
  rw [RequestLog.casState, if_neg h]

@[simp] theorem RequestLog.setData_self (v : RequestData) : (s.setData r v).data r = v := by
  simp [RequestLog.setData]

theorem RequestLog.setData_of_ne {i : ℕ} (h : i ≠ r) (v : RequestData) : (s.setData r v).data i = s.data i := by
  simp [RequestLog.setData, h]

end

/-! ## Handles -/

/-- `0x80000000 | r` -/
def requestHandle (r : ℕ) : ℕ := 0x80000000 ||| r

/-- `*r = *request` keeps the low 16 bits. -/
def requestIndex (request : ℕ) : ℕ := request % 2 ^ 16

def mcapi_trans_decode_request_handle (request : ℕ) : Option ℕ :=
  let r := requestIndex request
  if r < MCAPI_MAX_REQUESTS ∧ request &&& 0x80000000 ≠ 0 then some r else none

def mcapi_trans_valid_request_handle (request : ℕ) : Bool :=
  (mcapi_trans_decode_request_handle request).isSome

theorem requestHandle_eq {r : ℕ} (h : r < 2 ^ 31) : requestHandle r = 2 ^ 31 + r := by
  have hbit : (0x80000000 : ℕ) = 2 ^ 31 * 1 := by norm_num
  rw [requestHandle, hbit, ← Nat.two_pow_add_eq_or_of_lt h, Nat.mul_one]

/-- A handle is decoded to its index. -/
theorem decode_requestHandle {r : ℕ} (h : r < MCAPI_MAX_REQUESTS) :
    mcapi_trans_decode_request_handle (requestHandle r) = some r := by
  have hr : r < 1024 := h
  have hindex : requestIndex (requestHandle r) = r := by
    rw [requestHandle_eq (by omega), requestIndex]
    omega
  have hbit : requestHandle r &&& 0x80000000 ≠ 0 := by
    have hmask : requestHandle r &&& 0x80000000 = 0x80000000 := by
      rw [requestHandle, Nat.and_or_distrib_right, Nat.and_self]
      have hlow : r &&& 0x80000000 = 0 := by
        have hpow : (0x80000000 : ℕ) = 2 ^ 31 := by norm_num
        rw [hpow, Nat.and_two_pow, Nat.testBit_lt_two_pow (by omega)]
        rfl
      rw [hlow, Nat.or_zero]
    rw [hmask]
    norm_num
  rw [mcapi_trans_decode_request_handle]
  simp only [hindex]
  rw [if_pos ⟨h, hbit⟩]

theorem requestHandle_inj {r r' : ℕ} (h : r < MCAPI_MAX_REQUESTS) (h' : r' < MCAPI_MAX_REQUESTS)
    (heq : requestHandle r = requestHandle r') : r = r' := by
  have hd := decode_requestHandle h
  rw [heq, decode_requestHandle h'] at hd
  exact (Option.some.inj hd).symm

/-- What is decoded are the low bits. -/
theorem decode_request_handle_some {request r : ℕ}
    (h : mcapi_trans_decode_request_handle request = some r) :
    requestIndex request = r ∧ r < MCAPI_MAX_REQUESTS := by
  rw [mcapi_trans_decode_request_handle] at h
  split at h
  · rename_i hr
    obtain rfl := Option.some.inj h
    exact ⟨rfl, hr.1⟩
  · cases h

/-- The handle of request `r` is handed out. -/
def RequestLog.issue (s : RequestLog) (r : ℕ) (type : mcapi_request_type) (handle : ℕ) :
    RequestLog :=
  { s.setData r { s.data r with type := type, handle := handle } with
    issued := Function.update s.issued (requestHandle r) (s.issued (requestHandle r) + 1) }

/-! ## The transport functions -/

section

variable (s : RequestLog)

/-- The index drawn: the first free one from `rand` on. -/
def mcapi_trans_request_get_index (rand : ℕ) : Option ℕ :=
  ((List.range MCAPI_MAX_REQUESTS).map fun i => (rand + i) % MCAPI_MAX_REQUESTS).find? fun r =>
    (s.data r).state = REQUEST_FREE

/-- The reserved index and the table after the exchange of `REQUEST_FREE` for
`REQUEST_VALID`; nothing if no request is free. -/
def mcapi_trans_reserve_request (rand : ℕ) : Option (RequestLog × ℕ) :=
  (mcapi_trans_request_get_index s rand).bind fun r =>
    (s.casState r REQUEST_FREE REQUEST_VALID).map fun s => (s, r)

/-- Fills in request `r` and returns its handle. `slot` says whether a receive
that has to wait finds a queue entry to reserve. -/
def setup_request (r handle : ℕ) (mcapi_status : CallStatus) (completed : Bool)
    (type : mcapi_request_type) (slot : Bool) : Option (RequestLog × ℕ) := do
  let s := s.setData r { s.data r with status := mcapi_status }
  let s ← if completed then s.casState r REQUEST_VALID REQUEST_COMPLETED else some s
  let s := s.issue r type handle
  if type = RECV ∧ completed = false ∧ slot = false then
    let s := s.setData r { s.data r with status := MCAPI_ERR_MEM_LIMIT }
    let s ← s.casState r REQUEST_VALID REQUEST_COMPLETED
    some (s, requestHandle r)
  else some (s, requestHandle r)

def mcapi_trans_remove_request (r : ℕ) : Option RequestLog :=
  match s.casState r REQUEST_COMPLETED REQUEST_FREE with
  | some s => some s
  | none => s.casState r REQUEST_CANCELLED REQUEST_FREE

/-- The attempt of `mcapi_trans_test_i` to complete the pending request `r`. -/
def checkRequest (r : ℕ) (found : Option Found) : Option RequestLog :=
  match (s.data r).type with
  -- always completes immediately
  | SEND | CONN_PKTCHAN | CONN_SCLCHAN => some s
  -- `check_receive_request`
  | RECV =>
    match found with
    | none => some s
    | some ⟨status, MCAPI_ENDP_ATTR_FIFO_BUFFER⟩ => do
      let s ← s.casState r REQUEST_VALID REQUEST_RECEIVED
      let s := s.setData r { s.data r with status := status }
      s.casState r REQUEST_RECEIVED REQUEST_COMPLETED
    | some ⟨status, MCAPI_ENDP_ATTR_STATE_BUFFER⟩ =>
      -- an exchange, on a request that is known to be pending
      let s := s.setData r { s.data r with status := status }
      s.casState r REQUEST_VALID REQUEST_COMPLETED
  -- `check_get_endpt_request`
  | GET_ENDPT =>
    match found with
    | none => some s
    | some _ => do
      let s ← s.casState r REQUEST_VALID REQUEST_COMPLETED
      some (s.setData r { s.data r with status := MCAPI_SUCCESS })
  -- `check_open_channel_request` and `check_close_channel_request`
  | OPEN_PKTCHAN | OPEN_SCLCHAN | CLOSE_PKTCHAN | CLOSE_SCLCHAN =>
    match found with
    | none => some s
    | some _ => s.casState r REQUEST_VALID REQUEST_COMPLETED
  -- mcapi_assert(0)
  | OTHER => none

/-- The first half of `mcapi_trans_test_i`: the table after it, the result so
far and the status so far. -/
def testState (request : ℕ) (found : Option Found) :
    Option (RequestLog × Bool × CallStatus) :=
  match mcapi_trans_decode_request_handle request with
  | none => some (s, true, MCAPI_ERR_REQUEST_INVALID)
  | some r =>
    match (s.data r).state with
    | REQUEST_FREE => some (s, true, MCAPI_ERR_REQUEST_INVALID)
    | REQUEST_CANCELLED =>
      some (s.setData r { s.data r with status := MCAPI_ERR_REQUEST_CANCELLED }, true,
        MCAPI_SUCCESS)
    | REQUEST_COMPLETED => some (s, false, MCAPI_SUCCESS)
    | _ => (checkRequest s r found).map fun s => (s, false, MCAPI_SUCCESS)

/-- The second half: the request is queried again by the low bits of its handle,
whether they were decoded or not. -/
def testFinish (request : ℕ) (rc : Bool) (mcapi_status : CallStatus) :
    Option (RequestLog × Answer) :=
  let r := requestIndex request
  if r < MCAPI_MAX_REQUESTS then
    if (s.data r).state = REQUEST_COMPLETED ∨ (s.data r).state = REQUEST_CANCELLED then
      let status := (s.data r).status
      (mcapi_trans_remove_request s r).map fun s => (s.countReport request, ⟨true, status, true⟩)
    else some (s, ⟨rc, mcapi_status, false⟩)
  else none

def mcapi_trans_test_i (request : ℕ) (found : Option Found) : Option (RequestLog × Answer) :=
  (testState s request found).bind fun p => testFinish p.1 request p.2.1 p.2.2

/-- Polls until the request is done, or until the timeout, after the last of
`polls`. -/
def mcapi_trans_wait (s : RequestLog) (request : ℕ) :
    List (Option Found) → Option (RequestLog × Answer)
  | [] => some (s, ⟨false, MCAPI_TIMEOUT, false⟩)
  | found :: polls =>
    match mcapi_trans_test_i s request found with
    | none => none
    | some (s, answer) =>
      if answer.rc then some (s, answer) else mcapi_trans_wait s request polls

/-- Polls the requests in turn, starting with poll number `i`; returns the
position of the one that was answered, too. -/
def mcapi_trans_wait_any (s : RequestLog) (requests : List ℕ) :
    ℕ → List (Option Found) → Option (RequestLog × Answer × Option ℕ)
  | _, [] => some (s, ⟨false, MCAPI_TIMEOUT, false⟩, none)
  | i, found :: polls =>
    match requests[i % requests.length]? with
    -- there is nothing to poll
    | none => some (s, ⟨false, MCAPI_TIMEOUT, false⟩, none)
    | some request =>
      match mcapi_trans_test_i s request found with
      | none => none
      | some (s, answer) =>
        if answer.rc then some (s, answer, some (i % requests.length))
        else mcapi_trans_wait_any s requests (i + 1) polls

def mcapi_trans_cancel (request : ℕ) : Option (RequestLog × Answer) :=
  match mcapi_trans_decode_request_handle request with
  | none => none
  | some r =>
    match (s.data r).state with
    | REQUEST_FREE => some (s, ⟨false, MCAPI_ERR_REQUEST_INVALID, false⟩)
    | REQUEST_CANCELLED => some (s, ⟨false, MCAPI_ERR_REQUEST_CANCELLED, false⟩)
    | _ =>
      match s.casState r REQUEST_VALID REQUEST_CANCELLED with
      -- it is too late, the request has already completed
      | none => some (s, ⟨false, MCAPI_SUCCESS, false⟩)
      | some s =>
        match (s.data r).type with
        | RECV | GET_ENDPT => some (s, ⟨false, MCAPI_SUCCESS, false⟩)
        -- mcapi_assert(0)
        | _ => none

/-! ## The public calls -/

def mcapi_test (request : ℕ) (found : Option Found) : Option (RequestLog × Answer) :=
  if mcapi_trans_valid_request_handle request then mcapi_trans_test_i s request found
  else some (s, ⟨true, MCAPI_ERR_REQUEST_INVALID, false⟩)

def mcapi_wait (request : ℕ) (polls : List (Option Found)) : Option (RequestLog × Answer) :=
  if mcapi_trans_valid_request_handle request then mcapi_trans_wait s request polls
  else some (s, ⟨false, MCAPI_ERR_REQUEST_INVALID, false⟩)

/-- The handles of `requests` are not looked at before they are polled. -/
def mcapi_wait_any (requests : List ℕ) (polls : List (Option Found)) :
    Option (RequestLog × Answer × Option ℕ) := mcapi_trans_wait_any s requests 0 polls

def mcapi_cancel (request : ℕ) : Option (RequestLog × Answer) :=
  if mcapi_trans_valid_request_handle request then mcapi_trans_cancel s request
  else some (s, ⟨false, MCAPI_ERR_REQUEST_INVALID, false⟩)

end

end MxApi
