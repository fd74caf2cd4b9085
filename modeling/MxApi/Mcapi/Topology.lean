/-
Connecting the channels of a topology (`mcapi_trans_connect` of
`Fragments/transport_sm_config_abb.c`, with `Fragments/transport_sm_request_abb.c`,
`Fragments/transport_sm_wait_abb.c` and the connect and open functions of
`Fragments/transport_sm_pktchan_abb.c` and `Fragments/transport_sm_sclchan_abb.c`).

Arrays are functions of the index and pointers into the configuration are indices. The
fields of endpoints and channels that the call writes are the frame's; what it only reads
stays in the configuration. A request is kept at the channel that waits for it, and what
the request table adds to that is the number of its free entries; the calling thread is
the only one that takes and frees them while it connects. What is written and never read
here (the mark `used` of a tuple) is left out.

The other nodes come and go as they like. What they have made of the shared memory is
asked of the [`Surroundings`]: one database for each time that a channel's endpoint is
looked up, one for each test of its open request, and the attributes at the time they are
compared. The frame's own database is what this call writes.

Of what happens it is recorded which endpoints are created and asked for, under which
tuple each handle was obtained, and which handles are joined and opened. A failed
assertion is `none`, and so is a loop that has not ended when the fuel is used up.
-/
import MxApi.Lib.Loops
import MxApi.Mcapi.Attributes
import MxApi.Mcapi.Channel

set_option autoImplicit false

namespace MxApi.Topology

open Lib Attributes channel_type CallStatus mcapi_buffer_type

/-! ## The configuration -/

structure mcapi_endpoint_data_t where
  domain : ℕ
  node : ℕ
  port : ℕ
  deriving DecidableEq, Repr

/-- The endpoint it is the tuple of, whether it is in use, and the triple. -/
structure mcapi_endpoint_tuple_t where
  used : Bool
  parent : ℕ
  data : mcapi_endpoint_data_t
  deriving DecidableEq, Repr

/-- What the call writes at an endpoint. -/
structure EndpointRun where
  valid : Bool
  endpoint : ℕ
  deriving DecidableEq, Repr

structure mcapi_endpoint_cfg_t extends EndpointRun where
  name : List Char
  initialized : Bool
  index : ℕ
  tuple : ℕ
  deriving DecidableEq, Repr

inductive mcapi_direction_t
  | MCAPI_SEND_DIRECTION
  | MCAPI_RECV_DIRECTION
  deriving DecidableEq, Repr

inductive mcapi_chan_state_t
  | MCAPI_INVALID_STATE
  | MCAPI_CONN_STATE
  | MCAPI_ACTIVE_STATE
  | MCAPI_RUNDOWN_STATE
  | MCAPI_DISCONN_STATE
  deriving DecidableEq, Repr

open mcapi_direction_t mcapi_chan_state_t

/-- The requests that the call makes. -/
inductive RequestType
  | GET_ENDPT
  | CONN_PKTCHAN
  | CONN_SCLCHAN
  | OPEN_PKTCHAN
  | OPEN_SCLCHAN
  deriving DecidableEq, Repr

open RequestType

/-- The request with which a channel of the type is connected. -/
def connType (type : channel_type) : RequestType :=
  if type = MCAPI_PKT_CHAN then CONN_PKTCHAN else CONN_SCLCHAN

/-- The request with which an endpoint of the type is opened. -/
def openType (type : channel_type) : RequestType :=
  if type = MCAPI_PKT_CHAN then OPEN_PKTCHAN else OPEN_SCLCHAN

/-- A request as `setup_request` leaves it, and how often it was tested while it was not
completed. For `GET_ENDPT` it names the endpoint that is looked for and the one of the
configuration whose handle is filled in. -/
structure Request where
  type : RequestType
  completed : Bool
  status : CallStatus
  handle : ℕ
  ep_endpoint : ℕ
  ep : mcapi_endpoint_data_t
  tests : ℕ
  deriving DecidableEq, Repr

/-- What the call writes at a channel; `handle` is the one of its side. -/
structure ChannelRun where
  valid : Bool
  state : mcapi_chan_state_t
  request : Option Request
  handle : ℕ
  deriving DecidableEq, Repr

/-- `parent` is the link that the channel is bound to. -/
structure mcapi_chan_cfg_t extends ChannelRun where
  name : List Char
  type : channel_type
  buffer_type : mcapi_buffer_type
  buffer_length : ℕ
  index : ℕ
  parent : Option ℕ
  direction : mcapi_direction_t
  from_ep : ℕ
  to_ep : ℕ
  deriving DecidableEq, Repr

/-- The two channels of a full duplex link. -/
structure mcapi_link_cfg_t where
  name : List Char
  index : ℕ
  send : ℕ
  ack : ℕ
  deriving DecidableEq, Repr

structure mcapi_config_t where
  nep : ℕ
  nchans : ℕ
  tuple : ℕ → mcapi_endpoint_tuple_t
  endpoint : ℕ → mcapi_endpoint_cfg_t
  chan : ℕ → mcapi_chan_cfg_t
  link : ℕ → mcapi_link_cfg_t

def MCA_INFINITE : ℕ := 2 ^ 32 - 1

/-! ## The frame of the call -/

/-- What the other nodes have made of the shared memory. -/
structure Surroundings where
  /-- when the endpoint of a channel is looked up the `k`-th time -/
  lookups : ℕ → ℕ → mcapi_database
  /-- when the properties of a channel's endpoint are compared -/
  attributes : ℕ → Place → Entries
  /-- when the open request of a channel is tested the `k`-th time, `0` when it is made -/
  channels : ℕ → ℕ → mcapi_database

/-- What `mcapi_trans_endpoint_get_` answers for channel `i` the `k`-th time. -/
def Surroundings.lookup (E : Surroundings) (i : ℕ) (ep : mcapi_endpoint_data_t) (k : ℕ) :
    Option (Option ℕ) :=
  mcapi_trans_endpoint_get_ (E.lookups i k) ep.domain ep.node ep.port

/-- The two sides of a channel. -/
inductive Side
  | from_ep
  | to_ep
  deriving DecidableEq, Repr

/-- For a side of a channel an endpoint was created or asked for under a triple. -/
structure Named where
  chan : ℕ
  side : Side
  data : mcapi_endpoint_data_t
  deriving DecidableEq, Repr

/-- The endpoints that were connected for a channel. -/
structure Joined where
  chan : ℕ
  send_endpoint : ℕ
  receive_endpoint : ℕ
  deriving DecidableEq, Repr

structure Frame where
  db : mcapi_database
  attributes : Place → Entries
  endpoint : ℕ → EndpointRun
  chan : ℕ → ChannelRun
  free : ℕ
  status : CallStatus
  rc : Bool
  nchan : ℤ
  named : List Named
  obtained : List (ℕ × mcapi_endpoint_data_t)
  joined : List Joined
  opened : List (ℕ × ℕ)

namespace Frame

variable (s : Frame)

def setEndpoint (k : ℕ) (v : EndpointRun) : Frame :=
  { s with endpoint := Function.update s.endpoint k v }

def setChan (i : ℕ) (v : ChannelRun) : Frame := { s with chan := Function.update s.chan i v }

def setRequest (i : ℕ) (request : Option Request) : Frame :=
  s.setChan i { s.chan i with request := request }

/-- The handle of an endpoint of the configuration is filled in. -/
def obtain (k handle : ℕ) (data : mcapi_endpoint_data_t) : Frame :=
  { s.setEndpoint k { s.endpoint k with endpoint := handle } with
    obtained := (handle, data) :: s.obtained }

end Frame

def Frame.start (db : mcapi_database) (attributes : Place → Entries) (config : mcapi_config_t)
    (free : ℕ) : Frame where
  db := db
  attributes := attributes
  endpoint k := (config.endpoint k).toEndpointRun
  chan i := (config.chan i).toChannelRun
  free := free
  status := MCAPI_SUCCESS
  rc := true
  nchan := 0
  named := []
  obtained := []
  joined := []
  opened := []

section

variable (E : Surroundings) (me : Whoami) (timeout fuel : ℕ) (config : mcapi_config_t)

/-- The tuple of an endpoint of the configuration. -/
def mcapi_config_t.data (k : ℕ) : mcapi_endpoint_data_t :=
  (config.tuple (config.endpoint k).tuple).data

/-! ## Requests -/

/-- `mcapi_trans_endpoint_get_i`, whose status the caller asserts to be unchanged. -/
def mcapi_trans_endpoint_get_i (s : Frame) (i k : ℕ) (ep : mcapi_endpoint_data_t) (side : Side) :
    Option Frame :=
  if 0 < s.free then
    let request : Request := ⟨GET_ENDPT, false, s.status, (s.endpoint k).endpoint, k, ep, 0⟩
    let s := { s with free := s.free - 1, named := ⟨i, side, ep⟩ :: s.named }
    if s.status = MCAPI_SUCCESS then
      match E.lookup i ep 0 with
      | none => none
      | some none => some (s.setRequest i (some request))
      | some (some h) => some ((s.obtain k h ep).setRequest i
          (some { request with completed := true, handle := h }))
    else some (s.setRequest i (some request))
  else some s

/-- `check_get_endpt_request` and `check_open_channel_request`; connects are completed
when they are set up. -/
def checkRequest (i : ℕ) (s : Frame) (r : Request) : Option (Frame × Request) :=
  match r.type with
  | GET_ENDPT =>
    match E.lookup i r.ep (r.tests + 1) with
    | none => none
    | some none => some (s, { r with tests := r.tests + 1 })
    | some (some h) => some (s.obtain r.ep_endpoint h r.ep,
        { r with tests := r.tests + 1, completed := true, status := MCAPI_SUCCESS })
  | CONN_PKTCHAN | CONN_SCLCHAN => some (s, r)
  | OPEN_PKTCHAN | OPEN_SCLCHAN =>
    (mcapi_trans_decode_handle r.handle).map fun p =>
      (s, { r with
        tests := r.tests + 1
        completed := ((E.channels i (r.tests + 1)).entry p).state.connected })

/-- The new frame and the request, or no request if it was completed and removed. -/
def mcapi_trans_test_i (i : ℕ) (s : Frame) (r : Request) : Option (Frame × Option Request) :=
  (if r.completed then some (s, r) else checkRequest E i s r).map fun p =>
    if p.2.completed then ({ p.1 with status := p.2.status, free := p.1.free + 1 }, none)
    else (p.1, some p.2)

/-- The loop of `mcapi_trans_wait`; the result is what it returns. -/
def waitLoop (i : ℕ) : ℕ → ℕ → Frame → Request → Option (Frame × Bool)
  | 0, _, _, _ => none
  | fuel + 1, time, s, r =>
    let time := u32 (time + 1)
    (mcapi_trans_test_i E i s r).bind fun p =>
      match p.2 with
      | none => some (p.1.setRequest i none, true)
      | some r =>
        if timeout ≠ MCA_INFINITE ∧ timeout ≤ time then
          some ({ p.1 with status := MCAPI_TIMEOUT }.setRequest i (some r), false)
        else waitLoop i fuel time p.1 r

/-- `mcapi_trans_wait` for the request of channel `i`. -/
def mcapi_trans_wait (i : ℕ) (s : Frame) : Option (Frame × Bool) :=
  match (s.chan i).request with
  | none => some (s, true)
  | some r => waitLoop E timeout i fuel 0 s r

/-! ## The loops of the call -/

/-- A local endpoint is created and given the buffers of the channel. -/
def createLocal (s : Frame) (i k : ℕ) (side : Side) : Option Frame :=
  if (config.endpoint k).initialized then do
    let port := (config.data k).port
    let created ← mcapi_trans_endpoint_create s.db me port false
    let h ← created.2
    let data : mcapi_endpoint_data_t := ⟨me.domain_id, me.node_num, port⟩
    let s := { s with db := created.1, named := ⟨i, side, data⟩ :: s.named }.obtain k h data
    let p ← mcapi_trans_decode_handle h
    let c := config.chan i
    let (entries, _) := mcapi_trans_endpoint_set_attribute (s.attributes p)
      MCAPI_ENDP_ATTR_BUFFER_TYPE (bufferType c.buffer_type)
    let (entries, status) := mcapi_trans_endpoint_set_attribute entries
      MCAPI_ENDP_ATTR_NUM_SEND_BUFFERS c.buffer_length
    if status = .MCAPI_SUCCESS then
      some ({ s with
        attributes := Function.update s.attributes p entries
        status := MCAPI_SUCCESS }.setEndpoint k ⟨true, h⟩)
    else none
  else some s

/-- The endpoint of another node is asked for under a triple. -/
def requestRemote (s : Frame) (i k : ℕ) (ep : mcapi_endpoint_data_t) (side : Side) :
    Option Frame :=
  if (config.endpoint k).initialized then do
    let s ← mcapi_trans_endpoint_get_i E s i k ep side
    if s.status = MCAPI_SUCCESS then some { s with nchan := s.nchan + 1 } else none
  else some s

/-- Endpoints are created and asked for. -/
def establish (i : ℕ) (s : Frame) : Option Frame :=
  let c := config.chan i
  match c.direction with
  | MCAPI_SEND_DIRECTION => do
    let s ← createLocal me config s i c.from_ep .from_ep
    requestRemote E config s i c.to_ep (config.data c.to_ep) .to_ep
  | MCAPI_RECV_DIRECTION => do
    let s ← createLocal me config s i c.to_ep .to_ep
    -- the source endpoint is asked for under the tuple of the other side
    requestRemote E config s i c.from_ep (config.data c.to_ep) .from_ep

/-- The endpoint of the other node. -/
def mcapi_config_t.remote (i : ℕ) : ℕ :=
  match (config.chan i).direction with
  | MCAPI_SEND_DIRECTION => (config.chan i).to_ep
  | MCAPI_RECV_DIRECTION => (config.chan i).from_ep

/-- The endpoint of this node. -/
def mcapi_config_t.local (i : ℕ) : ℕ :=
  match (config.chan i).direction with
  | MCAPI_SEND_DIRECTION => (config.chan i).from_ep
  | MCAPI_RECV_DIRECTION => (config.chan i).to_ep

/-- A channel's request for an endpoint is waited for. -/
def complete (i : ℕ) (s : Frame) : Option Frame :=
  if (s.chan i).request.isNone then some s
  else do
    let (s, done) ← mcapi_trans_wait E timeout fuel i s
    if done then
      if s.status = MCAPI_SUCCESS then
        let k := config.remote i
        some ({ s with nchan := s.nchan - 1 }.setEndpoint k { s.endpoint k with valid := true })
      else none
    else some { s with rc := false }

/-- One round of `while(0 < nchan)`. -/
def completeAll (s : Frame) : Option Frame :=
  forLoop (complete E timeout fuel config) config.nchans s

/-- `mcapi_trans_pktchan_connect_i` and `mcapi_trans_sclchan_connect_i` -/
def connect_i (s : Frame) (i : ℕ) (type : channel_type) (send_endpoint receive_endpoint : ℕ) :
    Option Frame :=
  if 0 < s.free then do
    let request : Request := ⟨connType type, true, s.status, receive_endpoint, 0, ⟨0, 0, 0⟩, 0⟩
    let s := { s with free := s.free - 1 }.setRequest i (some request)
    if s.status = MCAPI_SUCCESS then
      let db ← Channel.mcapi_trans_connect_channel s.db send_endpoint receive_endpoint type
      some { s with db := db, joined := ⟨i, send_endpoint, receive_endpoint⟩ :: s.joined }
    else some s
  else some { s with status := MCAPI_ERR_REQUEST_LIMIT }

/-- A channel whose endpoints are valid is connected. -/
def connectChannel (i : ℕ) (s : Frame) : Option Frame :=
  let c := config.chan i
  if (!(config.endpoint c.from_ep).initialized || (s.endpoint c.from_ep).valid) &&
      (!(config.endpoint c.to_ep).initialized || (s.endpoint c.to_ep).valid) then
    if !(s.endpoint c.from_ep).valid || !(s.endpoint c.to_ep).valid then some s
    else if c.type = MCAPI_NO_CHAN then some (s.setChan i { s.chan i with valid := true })
    else do
      let s ← connect_i s i c.type (s.endpoint c.from_ep).endpoint (s.endpoint c.to_ep).endpoint
      some (s.setChan i { s.chan i with state := MCAPI_CONN_STATE, valid := true })
  else none

/-- The functions that open an endpoint for sending or receiving. -/
def open_i (s : Frame) (i : ℕ) (type : channel_type) (endpoint : ℕ) : Option Frame :=
  if 0 < s.free then
    let request : Request := ⟨openType type, true, s.status, endpoint, 0, ⟨0, 0, 0⟩, 0⟩
    let s := { s with free := s.free - 1 }
    if s.status = MCAPI_SUCCESS then
      (mcapi_trans_decode_handle endpoint).map fun p =>
        let completed := ((E.channels i 0).entry p).recv_queue.channel_type == type
        { s with
          db := Channel.mcapi_trans_open_channel s.db p
          opened := (i, endpoint) :: s.opened }.setChan i
          { s.chan i with handle := endpoint, request := some { request with completed := completed } }
    else some (s.setRequest i (some request))
  else some { s with status := MCAPI_ERR_REQUEST_LIMIT }

/-- The endpoint of the other node has the buffers of the channel. -/
def sameProperties (i : ℕ) (p : Place) : Bool :=
  let c := config.chan i
  let entries := E.attributes i p
  toUnsigned (bufferType c.buffer_type) == (entries MCAPI_ENDP_ATTR_BUFFER_TYPE).attribute_d &&
    c.buffer_length == (entries MCAPI_ENDP_ATTR_NUM_SEND_BUFFERS).attribute_d

/-- The properties are confirmed, the connect is waited for and the local endpoint is
opened. -/
def openChannel (i : ℕ) (s : Frame) : Option Frame :=
  let c := config.chan i
  let k := config.remote i
  if (s.chan i).valid && (s.endpoint k).valid then do
    let p ← mcapi_trans_decode_handle (s.endpoint k).endpoint
    let s := { s with status := MCAPI_SUCCESS }
    if !sameProperties E config i p then
      some (s.setEndpoint k { s.endpoint k with valid := false })
    else if c.type = MCAPI_NO_CHAN || (s.chan i).request.isNone then some s
    else do
      let (s, done) ← mcapi_trans_wait E timeout fuel i s
      if done then do
        let s ← open_i E s i c.type (s.endpoint (config.local i)).endpoint
        some (s.setChan i { s.chan i with state := MCAPI_CONN_STATE })
      else some { s with rc := false }
  else some s

/-- The request that a channel still has is waited for. -/
def finishChannel (i : ℕ) (s : Frame) : Option Frame :=
  if (s.chan i).valid then
    if (s.chan i).request.isNone then
      some (s.setChan i { s.chan i with state := MCAPI_ACTIVE_STATE })
    else do
      let (s, done) ← mcapi_trans_wait E timeout fuel i { s with status := MCAPI_SUCCESS }
      if done then some (s.setChan i { s.chan i with state := MCAPI_ACTIVE_STATE })
      else some { s with rc := false }
  else some s

/-- The frame in which the call returns; its result is `rc`, `*mcapi_status` its `status`. -/
def mcapi_trans_connect (s : Frame) : Option Frame := do
  let s ← forLoop (establish E me config) config.nchans s
  let s ← whileLoop (fun s => decide (0 < s.nchan)) (completeAll E timeout fuel config) fuel s
  let s ← forLoop (connectChannel config) config.nchans s
  let s ← forLoop (openChannel E timeout fuel config) config.nchans s
  forLoop (finishChannel E timeout fuel) config.nchans s

end

end MxApi.Topology
