/-
The sends and receives of messages, packets and scalars, non-blocking and blocking, with
the requests that they set up (`Fragments/transport_sm_msg_abb.c`,
`Fragments/transport_sm_pktchan_abb.c`, `Fragments/transport_sm_sclchan_abb.c`,
`Fragments/transport_sm_request_abb.c`, `Fragments/transport_sm_wait_abb.c`).

One thread executes a call, on endpoints with either type of buffers. The transfers are
those of [`MxApi.Transfers`]. Between two rounds of a loop that waits for other threads,
these may do something: that is the argument `env` of the blocking calls. `none` says that
an assert fails, that a transfer does not return, or that a loop has used up its fuel.

A call gets `*mcapi_status` as it was left by its caller, and takes a status other than
`MCAPI_SUCCESS` as an error found before, which completes its request at once.
-/
import MxApi.Mcapi.LockFreeMessages
import MxApi.Mcapi.Transfers

set_option autoImplicit false

namespace MxApi.Calls

open Lib Transfers channel_type mcapi_buffer_state mcapi_status_t mcapi_request_state
  mcapi_request_type mcapi_buffer_type

/-- The values of `*mcapi_status` in these calls. -/
inductive Status
  | MCAPI_SUCCESS
  | MCAPI_TIMEOUT
  | MCAPI_ERR_PARAMETER
  | MCAPI_ERR_PRIORITY
  | MCAPI_ERR_ENDP_INVALID
  | MCAPI_ERR_CHAN_INVALID
  | MCAPI_ERR_MSG_LIMIT
  | MCAPI_ERR_PKT_LIMIT
  | MCAPI_ERR_MSG_TRUNCATED
  | MCAPI_ERR_MEM_LIMIT
  | MCAPI_ERR_QUEUE_EMPTY
  | MCAPI_ERR_REQUEST_LIMIT
  | MCAPI_ERR_REQUEST_INVALID
  | MCAPI_ERR_REQUEST_CANCELLED
  | MCAPI_ERR_BUF_INVALID
  | MCAPI_ERR_SCL_SIZE
  deriving DecidableEq, Repr

/-! ## The database and the requests -/

/-- An endpoint, with its attributes for the type and the number of buffers, the
receiving end of its channel, and its receive queue. -/
structure Endpoint where
  valid : Bool
  buffer_type : mcapi_buffer_type
  num_send_buffers : ℕ
  recv_endpt : ℕ
  recv_queue : queue

/-- A request; `mine` records beside it that the thread reserved it and has not removed
it. -/
structure Request where
  state : mcapi_request_state
  type : mcapi_request_type
  handle : ℕ
  size : ℕ
  status : Status
  ep_qindex : ℤ
  mine : Bool

/-- The database and the requests of the process. -/
structure World where
  domains : ℕ → Bool
  nodes : ℕ → ℕ → Bool
  endpoints : Place → Endpoint
  buffers : ℕ → buffer_entry
  requests : ℕ → Request

namespace World

variable (w : World)

/-- What a transfer to or from the endpoint works on. -/
def shared (p : Place) : Shared := ⟨(w.endpoints p).recv_queue, w.buffers⟩

def setShared (p : Place) (sh : Shared) : World :=
  { w with
    endpoints := Function.update w.endpoints p { w.endpoints p with recv_queue := sh.q }
    buffers := sh.buffers }

def setRequest (r : ℕ) (req : Request) : World :=
  { w with requests := Function.update w.requests r req }

end World

/-! ## Requests -/

/-- The index drawn: the first free one from `rand` on. -/
def mcapi_trans_request_get_index (w : World) (rand : ℕ) : Option ℕ :=
  ((List.range MCAPI_MAX_REQUESTS).map fun i => (rand + i) % MCAPI_MAX_REQUESTS).find? fun r =>
    (w.requests r).state = REQUEST_FREE

def mcapi_trans_reserve_request (w : World) (rand : ℕ) : Option (World × ℕ) :=
  (mcapi_trans_request_get_index w rand).map fun r =>
    (w.setRequest r { w.requests r with state := REQUEST_VALID, mine := true }, r)

/-- The entry that a request reserves: the first from the head on that has no request. -/
def reserveEntry (w : World) (r : ℕ) (req : Request) (p : Place) : World :=
  let q := (w.endpoints p).recv_queue
  match LockFree.firstUnreserved q with
  | some qindex =>
    let sh := (w.shared p).setElement qindex { q.elements qindex with reserved := true }
    (w.setShared p sh).setRequest r { req with ep_qindex := qindex }
  | none =>
    -- all of this endpoint's buffers already have requests associated with them
    w.setRequest r { req with status := .MCAPI_ERR_MEM_LIMIT, state := REQUEST_COMPLETED }

/-- The set-up of a request that was just reserved, and so is `REQUEST_VALID`. -/
def setup_request (w : World) (r handle : ℕ) (mcapi_status : Status) (completed : Bool)
    (size : ℕ) (type : mcapi_request_type) : Option World :=
  let req : Request :=
    { w.requests r with type := type, handle := handle, size := size, status := mcapi_status }
  if completed then some (w.setRequest r { req with state := REQUEST_COMPLETED })
  else if type = RECV then
    (mcapi_trans_decode_handle handle).map fun p => reserveEntry w r req p
  else some (w.setRequest r req)

/-- A receive on state buffers reserves no entry. -/
def setup_request_state (w : World) (r handle : ℕ) (mcapi_status : Status) (size : ℕ)
    (type : mcapi_request_type) : Option World :=
  let req : Request :=
    { w.requests r with type := type, handle := handle, size := size, status := mcapi_status }
  (mcapi_trans_decode_handle handle).map fun _ => w.setRequest r req

/-! ## Non-blocking calls -/

/-- What a call leaves behind: `*request`, `*mcapi_status`, and what it handed to its
caller. -/
structure Called where
  world : World
  request : ℕ
  status : Status
  delivery : Option Delivery

/-- The common part of the non-blocking sends, from endpoint `se` to `re`. A send to state
buffers needs no request. -/
def send_i (w : World) (rand : ℕ) (se : Place) (re : Option Place) (handle : ℕ) (m : Msg)
    (request : ℕ) (mcapi_status : Status) : Option Called :=
  match (w.endpoints se).buffer_type with
  | MCAPI_ENDP_ATTR_FIFO_BUFFER =>
    match mcapi_trans_reserve_request w rand with
    | none => some ⟨w, request, .MCAPI_ERR_REQUEST_LIMIT, none⟩
    | some (w, r) =>
      if mcapi_status = .MCAPI_SUCCESS then
        match re with
        | none => none
        | some p =>
          match mcapi_trans_send (w.shared p) m with
          | none => none
          | some (sh, ok) =>
            -- sends complete immediately, and one that fails is assumed to have found no buffer
            let status : Status := if ok then .MCAPI_SUCCESS else .MCAPI_ERR_MEM_LIMIT
            (setup_request (w.setShared p sh) r handle status true m.buffer_size SEND).map fun w =>
              ⟨w, requestHandle r, .MCAPI_SUCCESS, none⟩
      else
        (setup_request w r handle mcapi_status true m.buffer_size SEND).map fun w =>
          ⟨w, requestHandle r, .MCAPI_SUCCESS, none⟩
  | MCAPI_ENDP_ATTR_STATE_BUFFER =>
    if mcapi_status = .MCAPI_SUCCESS then
      match re with
      | none => none
      | some p =>
        match mcapi_trans_send_state (w.endpoints p).num_send_buffers (w.shared p) m with
        | none => none
        -- MCAPI_ERR_MEM_LIMIT is set if it fails, and overwritten
        | some (sh, _) => some ⟨w.setShared p sh, 0, .MCAPI_SUCCESS, none⟩
    else some ⟨w, 0, .MCAPI_SUCCESS, none⟩

/-- Both endpoints are asserted to have no channel. -/
def noChannel (w : World) (se : Place) (re : Option Place) : Option Place :=
  re.filter fun p => decide ((w.endpoints se).recv_queue.channel_type = MCAPI_NO_CHAN) &&
    decide ((w.endpoints p).recv_queue.channel_type = MCAPI_NO_CHAN)

def mcapi_trans_msg_send_i (w : World) (rand send_endpoint receive_endpoint : ℕ) (m : Msg)
    (request : ℕ) (mcapi_status : Status) : Option Called :=
  match mcapi_trans_decode_handle send_endpoint with
  | none => none
  | some se =>
    send_i w rand se (noChannel w se (mcapi_trans_decode_handle receive_endpoint))
      receive_endpoint m request mcapi_status

/-- The receiving end is that of the channel. -/
def mcapi_trans_pktchan_send_i (w : World) (rand send_handle : ℕ) (m : Msg) (request : ℕ)
    (mcapi_status : Status) : Option Called :=
  match mcapi_trans_decode_handle send_handle with
  | none => none
  | some se =>
    match mcapi_trans_decode_handle (w.endpoints se).recv_endpt with
    | none => none
    | some p => send_i w rand se (some p) send_handle m request mcapi_status

def mcapi_trans_sclchan_send (w : World) (send_handle : ℕ) (m : Msg) : Option (World × Bool) :=
  match mcapi_trans_decode_handle send_handle with
  | none => none
  | some se =>
    match mcapi_trans_decode_handle (w.endpoints se).recv_endpt with
    | none => none
    | some p =>
      match (w.endpoints se).buffer_type with
      | MCAPI_ENDP_ATTR_FIFO_BUFFER =>
        (mcapi_trans_send (w.shared p) m).map fun t => (w.setShared p t.1, t.2)
      | MCAPI_ENDP_ATTR_STATE_BUFFER =>
        (mcapi_trans_send_state (w.endpoints p).num_send_buffers (w.shared p) m).map fun t =>
          (w.setShared p t.1, t.2)

/-- The common part of the non-blocking receives, on endpoint `p`; `re` is `p` unless an
assert on it fails. -/
def recv_i (w : World) (rand : ℕ) (p : Place) (re : Option Place) (handle buffer_size : ℕ)
    (request : ℕ) (mcapi_status : Status) : Option Called :=
  match (w.endpoints p).buffer_type with
  | MCAPI_ENDP_ATTR_FIFO_BUFFER =>
    match mcapi_trans_reserve_request w rand with
    | none => some ⟨w, request, .MCAPI_ERR_REQUEST_LIMIT, none⟩
    | some (w, r) =>
      if mcapi_status = .MCAPI_SUCCESS then
        match re with
        | none => none
        | some p =>
          match mcapi_trans_recv (w.shared p) buffer_size with
          | none => none
          | some (sh, some d) =>
            (setup_request (w.setShared p sh) r handle mcapi_status true d.received_size RECV).map
              fun w => ⟨w, requestHandle r, mcapi_status, some d⟩
          | some (sh, none) =>
            (setup_request (w.setShared p sh) r handle mcapi_status false buffer_size RECV).map
              fun w => ⟨w, requestHandle r, mcapi_status, none⟩
      else
        (setup_request w r handle mcapi_status true buffer_size RECV).map fun w =>
          ⟨w, requestHandle r, mcapi_status, none⟩
  | MCAPI_ENDP_ATTR_STATE_BUFFER =>
    if mcapi_status = .MCAPI_SUCCESS then
      match re with
      | none => none
      | some p =>
        match mcapi_trans_recv_state (w.endpoints p).num_send_buffers (w.shared p) buffer_size with
        | none => none
        -- no request needed
        | some (sh, some d) => some ⟨w.setShared p sh, 0, mcapi_status, some d⟩
        | some (sh, none) =>
          let w := w.setShared p sh
          match mcapi_trans_reserve_request w rand with
          | none => some ⟨w, 0, .MCAPI_ERR_REQUEST_LIMIT, none⟩
          | some (w, r) =>
            (setup_request_state w r handle .MCAPI_ERR_QUEUE_EMPTY buffer_size RECV).map fun w =>
              ⟨w, requestHandle r, .MCAPI_SUCCESS, none⟩
    else some ⟨w, 0, mcapi_status, none⟩

def mcapi_trans_msg_recv_i (w : World) (rand receive_endpoint buffer_size request : ℕ)
    (mcapi_status : Status) : Option Called :=
  match mcapi_trans_decode_handle receive_endpoint with
  | none => none
  | some p =>
    recv_i w rand p (noChannel w p (some p)) receive_endpoint buffer_size request mcapi_status

def MCAPI_MAX_PKT_SIZE : ℕ := 1024

def mcapi_trans_pktchan_recv_i (w : World) (rand receive_handle request : ℕ)
    (mcapi_status : Status) : Option Called :=
  match mcapi_trans_decode_handle receive_handle with
  | none => none
  | some p => recv_i w rand p (some p) receive_handle MCAPI_MAX_PKT_SIZE request mcapi_status

/-! ## Testing a request -/

/-- What a receive request is completed with. The pointer to a packet is handed out, and a
message that is larger than the buffer was cut off. -/
def completedRequest (ct : channel_type) (req : Request) (d : Delivery) : Request :=
  if ct ≠ MCAPI_PKT_CHAN ∧ d.received_size > req.size then
    { req with state := REQUEST_COMPLETED, status := .MCAPI_ERR_MSG_TRUNCATED }
  else { req with state := REQUEST_COMPLETED, status := .MCAPI_SUCCESS, size := d.received_size }

def check_receive_request_ (w : World) (r : ℕ) : Option (World × Option Delivery) :=
  let req := w.requests r
  match mcapi_trans_decode_handle req.handle with
  | none => none
  | some p =>
    let q := (w.endpoints p).recv_queue
    match mcapi_trans_queue_head q with
    | (front, MCAPI_SUCCESS) =>
      -- confirm the request is at the front of the queue, and that the entry has been sent
      if (front : ℤ) = req.ep_qindex ∧ LockFree.sent (q.elements front) = true then
        -- the entry is marked as received, and the request, which is asserted
        if req.state = REQUEST_VALID then
          let sh := (w.shared p).setElement front { q.elements front with state := BUFFER_RECEIVED }
          match mcapi_trans_recv_ sh req.size front with
          | none => none
          | some (sh, d) =>
            match mcapi_trans_pop_queue sh.q with
            | some (.ok _, q') =>
              some ((w.setShared p { sh with q := q' }).setRequest r
                (completedRequest q.channel_type req d), some d)
            | _ => none
        else none
      else some (w, none)
    | _ => some (w, none)

def check_receive_request_state_ (w : World) (r : ℕ) : Option (World × Option Delivery) :=
  let req := w.requests r
  match mcapi_trans_decode_handle req.handle with
  | none => none
  | some p =>
    match mcapi_trans_recv_state (w.endpoints p).num_send_buffers (w.shared p) req.size with
    | none => none
    | some (sh, none) => some (w.setShared p sh, none)
    | some (sh, some d) =>
      some ((w.setShared p sh).setRequest r
        (completedRequest (w.endpoints p).recv_queue.channel_type req d), some d)

/-- The type of buffers is looked up before the handle is asserted. -/
def check_receive_request (w : World) (r : ℕ) : Option (World × Option Delivery) :=
  match mcapi_trans_decode_handle (w.requests r).handle with
  | none => none
  | some p =>
    match (w.endpoints p).buffer_type with
    | MCAPI_ENDP_ATTR_FIFO_BUFFER => check_receive_request_ w r
    | MCAPI_ENDP_ATTR_STATE_BUFFER => check_receive_request_state_ w r

/-- What a test leaves behind: `*request`, its result, `*mcapi_status` and `*size` if they
were written, and what was handed to the caller of the receive it completed. -/
structure Tested where
  world : World
  request : ℕ
  rc : Bool
  status : Option Status
  size : Option ℕ
  delivery : Option Delivery

/-- The first half of `mcapi_trans_test_i`: the world after it, its result, the status and
what was handed out. Only sends and receives are tested here. -/
def testState (w : World) (request : ℕ) :
    Option (World × Bool × Option Status × Option Delivery) :=
  match mcapi_trans_decode_request_handle request with
  | none => some (w, true, some .MCAPI_ERR_REQUEST_INVALID, none)
  | some r =>
    let req := w.requests r
    match req.state with
    | REQUEST_FREE => some (w, true, some .MCAPI_ERR_REQUEST_INVALID, none)
    | REQUEST_CANCELLED =>
      some (w.setRequest r { req with status := .MCAPI_ERR_REQUEST_CANCELLED }, true, none, none)
    | REQUEST_COMPLETED => some (w, false, none, none)
    | _ =>
      match req.type with
      -- always completes immediately
      | SEND => some (w, false, none, none)
      | RECV => (check_receive_request w r).map fun t => (t.1, false, none, t.2)
      | _ => none

/-- The second half: the request is queried again by the low bits of the handle, whether
they were decoded or not. -/
def mcapi_trans_test_i (w : World) (request : ℕ) : Option Tested :=
  match testState w request with
  | none => none
  | some (w, rc, mcapi_status, delivery) =>
    let r := requestIndex request
    if r < MCAPI_MAX_REQUESTS then
      let req := w.requests r
      if req.state = REQUEST_COMPLETED ∨ req.state = REQUEST_CANCELLED then
        -- `mcapi_trans_remove_request`
        some ⟨w.setRequest r { req with state := REQUEST_FREE, ep_qindex := -1, mine := false },
          0, true, some req.status, some req.size, delivery⟩
      else some ⟨w, request, rc, mcapi_status, none, delivery⟩
    else none

/-! ## Blocking calls -/

/-- What a blocking call leaves behind: its result, the status it found, `*received_size` if
it was written, and everything that was handed to its caller. -/
structure Returned where
  world : World
  rc : Bool
  status : Status
  size : Option ℕ
  deliveries : List Delivery

/-- What other threads do before round `n`. -/
abbrev Env := ℕ → World → World

/-- `while (status == MCAPI_ERR_REQUEST_LIMIT)`: the call that ended the loop, the number
of the next round, and what was handed out. -/
def attempts (env : Env) (call : ℕ → World → ℕ → Status → Option Called) :
    ℕ → ℕ → World → ℕ → Status → List Delivery → Option (Called × ℕ × List Delivery)
  | 0, _, _, _, _, _ => none
  | fuel + 1, n, w, request, status, deliveries =>
    match call n (env n w) request status with
    | none => none
    | some c =>
      let deliveries := deliveries ++ c.delivery.toList
      if c.status = .MCAPI_ERR_REQUEST_LIMIT then
        attempts env call fuel (n + 1) c.world c.request c.status deliveries
      else some (c, n + 1, deliveries)

/-- The loop of `mcapi_trans_wait`, with no timeout. -/
def polls (env : Env) : ℕ → ℕ → World → ℕ → List Delivery → Option (Tested × List Delivery)
  | 0, _, _, _, _ => none
  | fuel + 1, n, w, request, deliveries =>
    match mcapi_trans_test_i (env n w) request with
    | none => none
    | some t =>
      let deliveries := deliveries ++ t.delivery.toList
      if t.rc then some (t, deliveries)
      else polls env fuel (n + 1) t.world t.request deliveries

/-- Non-blocking followed by wait; `status == MCAPI_SUCCESS` is the result. -/
def blocking (env : Env) (call : ℕ → World → ℕ → Status → Option Called) (fuel : ℕ)
    (w : World) : Option Returned :=
  match attempts env call fuel 0 w 0 .MCAPI_SUCCESS [] with
  | none => none
  | some (c, n, deliveries) =>
    if c.request = 0 then
      -- no active request
      some ⟨c.world, decide (c.status = .MCAPI_SUCCESS), c.status, none, deliveries⟩
    else if mcapi_trans_decode_request_handle c.request = none then none
    else
      (polls env fuel n c.world c.request deliveries).map fun p =>
        let status := p.1.status.getD c.status
        ⟨p.1.world, decide (status = .MCAPI_SUCCESS), status, p.1.size, p.2⟩

section

variable (env : Env) (rand : ℕ → ℕ) (fuel : ℕ) (w : World)

def mcapi_trans_msg_send (send_endpoint receive_endpoint : ℕ) (m : Msg) : Option Returned :=
  blocking env (fun n w request status =>
    mcapi_trans_msg_send_i w (rand n) send_endpoint receive_endpoint m request status) fuel w

def mcapi_trans_pktchan_send (send_handle : ℕ) (m : Msg) : Option Returned :=
  blocking env (fun n w request status =>
    mcapi_trans_pktchan_send_i w (rand n) send_handle m request status) fuel w

def mcapi_trans_msg_recv (receive_endpoint buffer_size : ℕ) : Option Returned :=
  blocking env (fun n w request status =>
    mcapi_trans_msg_recv_i w (rand n) receive_endpoint buffer_size request status) fuel w

def mcapi_trans_pktchan_recv (receive_handle : ℕ) : Option Returned :=
  blocking env (fun n w request status =>
    mcapi_trans_pktchan_recv_i w (rand n) receive_handle request status) fuel w

end

/-- The loop of a blocking `mcapi_trans_recv`. -/
def recvPolls (env : Env) (p : Place) (buffer_size : ℕ) :
    ℕ → ℕ → World → Option (World × Delivery)
  | 0, _, _ => none
  | fuel + 1, n, w =>
    let w := env n w
    match mcapi_trans_recv (w.shared p) buffer_size with
    | none => none
    | some (sh, some d) => some (w.setShared p sh, d)
    | some (sh, none) => recvPolls env p buffer_size fuel (n + 1) (w.setShared p sh)

/-- A receive on state buffers does not wait. A scalar of another size is received, and
reported as an error. -/
def mcapi_trans_sclchan_recv (env : Env) (fuel : ℕ) (w : World) (receive_handle size : ℕ) :
    Option Returned :=
  match mcapi_trans_decode_handle receive_handle with
  | none => none
  | some p =>
    match (w.endpoints p).buffer_type with
    | MCAPI_ENDP_ATTR_FIFO_BUFFER =>
      (recvPolls env p size fuel 0 w).map fun t =>
        ⟨t.1, decide (t.2.received_size = size), .MCAPI_SUCCESS, none, [t.2]⟩
    | MCAPI_ENDP_ATTR_STATE_BUFFER =>
      let w := env 0 w
      match mcapi_trans_recv_state (w.endpoints p).num_send_buffers (w.shared p) size with
      | none => none
      | some (sh, none) => some ⟨w.setShared p sh, false, .MCAPI_SUCCESS, none, []⟩
      | some (sh, some d) =>
        some ⟨w.setShared p sh, decide (d.received_size = size), .MCAPI_SUCCESS, none, [d]⟩

/-! ## Small lemmas -/

namespace World

variable (w : World) (p : Place) (sh : Shared) (r : ℕ) (req : Request)

@[simp] theorem shared_setShared : (w.setShared p sh).shared p = sh := by
  simp [setShared, shared]

@[simp] theorem endpoints_setShared_self :
    (w.setShared p sh).endpoints p = { w.endpoints p with recv_queue := sh.q } :=
  Function.update_self ..

theorem endpoints_setShared_of_ne {p' : Place} (h : p' ≠ p) :
    (w.setShared p sh).endpoints p' = w.endpoints p' := Function.update_of_ne h ..

@[simp] theorem shared_setRequest : (w.setRequest r req).shared p = w.shared p := rfl

@[simp] theorem endpoints_setRequest : (w.setRequest r req).endpoints = w.endpoints := rfl

@[simp] theorem requests_setShared : (w.setShared p sh).requests = w.requests := rfl

@[simp] theorem requests_setRequest_self : (w.setRequest r req).requests r = req :=
  Function.update_self ..

theorem requests_setRequest_of_ne {i : ℕ} (h : i ≠ r) :
    (w.setRequest r req).requests i = w.requests i := Function.update_of_ne h ..

/-- A transfer that moves nothing. -/
theorem setShared_shared : w.setShared p (w.shared p) = w := by
  simp [setShared, shared]

end World

section

variable {w w' : World} {rand r : ℕ}

/-- Some request is free. -/
def World.HasFree (w : World) : Prop :=
  ∃ r < MCAPI_MAX_REQUESTS, (w.requests r).state = REQUEST_FREE

theorem get_index_some (h : mcapi_trans_request_get_index w rand = some r) :
    r < MCAPI_MAX_REQUESTS ∧ (w.requests r).state = REQUEST_FREE := by
  have hmem := List.mem_of_find?_eq_some h
  have hfree := List.find?_some h
  obtain ⟨i, -, rfl⟩ := List.mem_map.mp hmem
  exact ⟨Nat.mod_lt _ (by decide), of_decide_eq_true hfree⟩

theorem get_index_none : mcapi_trans_request_get_index w rand = none ↔ ¬ w.HasFree := by
  unfold mcapi_trans_request_get_index World.HasFree
  rw [List.find?_eq_none]
  constructor
  · rintro h ⟨r, hr, hfree⟩
    -- every index is drawn at some distance from `rand`
    have hmem : r ∈ (List.range MCAPI_MAX_REQUESTS).map
        fun i => (rand + i) % MCAPI_MAX_REQUESTS := by
      have hmax : MCAPI_MAX_REQUESTS = 1024 := rfl
      refine List.mem_map.mpr ⟨(r + 1024 - rand % 1024) % 1024, ?_, ?_⟩
      · rw [List.mem_range, hmax]
        omega
      · rw [hmax] at hr ⊢
        omega
    exact h r hmem (decide_eq_true hfree)
  · intro h r hmem hfree
    obtain ⟨i, -, rfl⟩ := List.mem_map.mp hmem
    exact h ⟨_, Nat.mod_lt _ (by decide), of_decide_eq_true hfree⟩

theorem reserve_request_some (h : mcapi_trans_reserve_request w rand = some (w', r)) :
    r < MCAPI_MAX_REQUESTS ∧ (w.requests r).state = REQUEST_FREE ∧
      w' = w.setRequest r { w.requests r with state := REQUEST_VALID, mine := true } := by
  obtain ⟨r', hr', heq⟩ := Option.map_eq_some_iff.mp h
  obtain ⟨rfl, rfl⟩ := Prod.mk.inj heq
  obtain ⟨hlt, hfree⟩ := get_index_some hr'
  exact ⟨hlt, hfree, rfl⟩

theorem reserve_request_none : mcapi_trans_reserve_request w rand = none ↔ ¬ w.HasFree := by
  rw [mcapi_trans_reserve_request, Option.map_eq_none_iff, get_index_none]

/-- The test of a completed request reports what is stored in it and removes it. -/
theorem test_completed (hr : r < MCAPI_MAX_REQUESTS)
    (h : (w.requests r).state = REQUEST_COMPLETED) :
    mcapi_trans_test_i w (requestHandle r) =
      some ⟨w.setRequest r { w.requests r with
        state := REQUEST_FREE, ep_qindex := -1, mine := false },
        0, true, some (w.requests r).status, some (w.requests r).size, none⟩ := by
  have hdecode := decode_requestHandle hr
  have hindex := (decode_request_handle_some hdecode).1
  have hstate : testState w (requestHandle r) = some (w, false, none, none) := by
    simp only [testState, hdecode, h]
  simp only [mcapi_trans_test_i, hstate, hindex, if_pos hr, h, true_or, if_true]

end

/-! ## Loops among other threads -/

/-- Other threads leave the requests of this one alone. -/
structure Env.Respects (env : Env) : Prop where
  kept : ∀ n w r, (w.requests r).mine = true → (env n w).requests r = w.requests r
  not_mine : ∀ n w r, (w.requests r).mine = false → ((env n w).requests r).mine = false

section

variable {env : Env} {call : ℕ → World → ℕ → Status → Option Called} {n n' fuel request r : ℕ}
  {w : World} {status : Status} {deliveries deliveries' : List Delivery} {c : Called}

/-- What every round that finds no request keeps holds before the call that ends the loop,
and that call is given the first status or `MCAPI_ERR_REQUEST_LIMIT`. -/
theorem attempts_spec {I : World → List Delivery → Prop}
    (hcall : ∀ n w request status c deliveries, I w deliveries →
      call n (env n w) request status = some c → c.status = .MCAPI_ERR_REQUEST_LIMIT →
        I c.world (deliveries ++ c.delivery.toList)) :
    ∀ {fuel n w request status deliveries}, I w deliveries →
      attempts env call fuel n w request status deliveries = some (c, n', deliveries') →
      ∃ m w₁ request₁ status₁ deliveries₁, I w₁ deliveries₁ ∧
        call m (env m w₁) request₁ status₁ = some c ∧ c.status ≠ .MCAPI_ERR_REQUEST_LIMIT ∧
        deliveries' = deliveries₁ ++ c.delivery.toList ∧
        (w₁ = w ∧ m = n ∧ status₁ = status ∨ status₁ = .MCAPI_ERR_REQUEST_LIMIT)
  | 0, _, _, _, _, _, _, h => by cases h
  | fuel + 1, n, w, request, status, deliveries, hI, h => by
    rw [attempts] at h
    cases hc : call n (env n w) request status with
    | none =>
      rw [hc] at h
      cases h
    | some c₁ =>
      simp only [hc] at h
      split at h
      · rename_i hlimit
        obtain ⟨m, w₁, request₁, status₁, deliveries₁, hI₁, hrest⟩ :=
          attempts_spec hcall (hcall n w request status c₁ deliveries hI hc hlimit) h
        refine ⟨m, w₁, request₁, status₁, deliveries₁, hI₁, hrest.1, hrest.2.1, hrest.2.2.1, ?_⟩
        right
        rcases hrest.2.2.2 with ⟨-, -, heq⟩ | heq
        · rw [heq, hlimit]
        · exact heq
      · rename_i hlimit
        obtain ⟨rfl, -, rfl⟩ := by simpa only [Option.some.injEq, Prod.mk.injEq] using h
        exact ⟨n, w, request, status, deliveries, hI, hc, hlimit, rfl, .inl ⟨rfl, rfl, rfl⟩⟩

/-- A loop whose first round finds a request ends with it. -/
theorem attempts_first (fuel : ℕ) (deliveries : List Delivery)
    (h : call n (env n w) request status = some c)
    (hlimit : c.status ≠ .MCAPI_ERR_REQUEST_LIMIT) :
    attempts env call (fuel + 1) n w request status deliveries =
      some (c, n + 1, deliveries ++ c.delivery.toList) := by
  simp only [attempts, h, if_neg hlimit]

/-- A request that is completed is found so by the first poll. -/
theorem polls_completed (fuel n : ℕ) (deliveries : List Delivery) (henv : env.Respects)
    (hr : r < MCAPI_MAX_REQUESTS) (h : (w.requests r).state = REQUEST_COMPLETED)
    (hmine : (w.requests r).mine = true) :
    polls env (fuel + 1) n w (requestHandle r) deliveries =
      some (⟨(env n w).setRequest r { w.requests r with
        state := REQUEST_FREE, ep_qindex := -1, mine := false },
        0, true, some (w.requests r).status, some (w.requests r).size, none⟩, deliveries) := by
  have hkept := henv.kept n w r hmine
  have htest := test_completed hr (w := env n w) (by rw [hkept]; exact h)
  rw [hkept] at htest
  simp only [polls, htest, if_true, Option.toList_none, List.append_nil]

end

end MxApi.Calls
