/-
Packet and scalar channels, as the public calls work them one after another
(`mcapi_abb.c`, `transport_sm_abb.c`, `Fragments/transport_sm_check_abb.c`,
`Fragments/transport_sm_pktchan_abb.c`, `Fragments/transport_sm_sclchan_abb.c`).

A channel handle is the handle of its endpoint, so every call takes the same
kind of number. Buffers are of the default type `MCAPI_ENDP_ATTR_FIFO_BUFFER`.
What a call needs besides the endpoints is a parameter of it: whether a request
can be reserved, whether a send gets a queue entry and a buffer, whether a
receive that has to wait gets an entry to reserve, whether the message at the
head is for the receive request that is tested. A failed assertion is `none`.

Of the requests only those of opens and receives are kept that still wait. The
channels connected so far, and which of their sides were closed, are recorded
beside the database.
-/
import MxApi.Lib.Agreement
import MxApi.Mcapi.Endpoint

set_option autoImplicit false

namespace MxApi.Channel

open Lib channel_type CallStatus

def MCAPI_MAX_PKT_SIZE : ℕ := 1024

/-! ## Calls and what they return -/

inductive ChannelKind
  | pktchan
  | sclchan
  deriving DecidableEq, Repr

def ChannelKind.type : ChannelKind → channel_type
  | pktchan => MCAPI_PKT_CHAN
  | sclchan => MCAPI_SCL_CHAN

def ChannelKind.other : ChannelKind → ChannelKind
  | pktchan => sclchan
  | sclchan => pktchan

inductive Direction
  | send
  | recv
  deriving DecidableEq, Repr

/-- The sizes of the scalars that are sent and received. -/
inductive ScalarWidth
  | uint64
  | uint32
  | uint16
  | uint8
  deriving DecidableEq, Repr

/-- What a call finds besides the endpoints. -/
structure Resources where
  /-- `mcapi_trans_reserve_request` succeeds -/
  request : Bool
  /-- a send gets a queue entry and a buffer -/
  room : Bool
  /-- a receive that has to wait gets a queue entry to reserve -/
  slot : Bool
  /-- the message at the head is for the receive request that is tested -/
  turn : Bool
  deriving DecidableEq, Repr

/-- The request a call leaves: none, one that waits, or a completed one with its
status. -/
inductive RequestResult
  | none
  | pending
  | completed (status : CallStatus)
  deriving DecidableEq, Repr

/-- How a call ends. -/
inductive Outcome
  | returned (mcapi_status : CallStatus) (request : RequestResult)
  /-- the call hands over a message, and its request, if it has one, is completed
  with the same status -/
  | received (mcapi_status : CallStatus) (message : Message)
  /-- the call does not return: it waits for a request or a message -/
  | waits
  deriving DecidableEq, Repr

/-- The request is completed with an error. -/
def RequestResult.failed : RequestResult → Bool
  | completed status => status != MCAPI_SUCCESS
  | _ => false

/-- An error is reported, by the call or by its completed request. -/
def Outcome.reportsError : Outcome → Bool
  | returned mcapi_status request => mcapi_status != MCAPI_SUCCESS || request.failed
  | received mcapi_status _ => mcapi_status != MCAPI_SUCCESS
  | waits => false

inductive ChannelCall
  /-- `mcapi_endpoint_create` by the node at `n` of the domain at `d` -/
  | create (d : Fin MCA_MAX_DOMAINS) (n : Fin MCA_MAX_NODES) (port_id : ℕ)
  | connect_i (kind : ChannelKind) (send_endpoint receive_endpoint : ℕ)
  | open_i (kind : ChannelKind) (dir : Direction) (endpoint : ℕ)
  | close_i (kind : ChannelKind) (dir : Direction) (handle : ℕ)
  | pktchan_send_i (send_handle : ℕ) (buffer : List UInt8)
  | pktchan_send (send_handle : ℕ) (buffer : List UInt8)
  | sclchan_send (width : ScalarWidth) (send_handle : ℕ) (dataword : UInt64)
  | pktchan_recv_i (receive_handle : ℕ)
  | pktchan_recv (receive_handle : ℕ)
  | sclchan_recv (width : ScalarWidth) (receive_handle : ℕ)
  /-- `mcapi_test` of the open request that stands at `i` of those that wait -/
  | test_open (i : ℕ)
  /-- `mcapi_test` of the receive request that stands at `i` of those that wait -/
  | test_recv (i : ℕ)
  deriving DecidableEq, Repr

section

variable (db : mcapi_database)

/-! ## Checks -/

/-- The four checks of a channel handle: it is decoded, and the endpoint's
channel type is compared. -/
def validChannelHandle (type : channel_type) (handle : ℕ) : Bool :=
  match mcapi_trans_decode_handle handle with
  | none => false
  | some p => (db.entry p).recv_queue.channel_type == type

def mcapi_trans_valid_pktchan_send_handle : ℕ → Bool := validChannelHandle db MCAPI_PKT_CHAN

def mcapi_trans_valid_pktchan_recv_handle : ℕ → Bool := validChannelHandle db MCAPI_PKT_CHAN

def mcapi_trans_valid_sclchan_send_handle : ℕ → Bool := validChannelHandle db MCAPI_SCL_CHAN

def mcapi_trans_valid_sclchan_recv_handle : ℕ → Bool := validChannelHandle db MCAPI_SCL_CHAN

def ChannelKind.valid_recv_handle : ChannelKind → ℕ → Bool
  | pktchan => mcapi_trans_valid_pktchan_recv_handle db
  | sclchan => mcapi_trans_valid_sclchan_recv_handle db

/-- The four `isopen` checks; they assert that the handle is decoded. -/
def isopen (handle : ℕ) : Option Bool :=
  (mcapi_trans_decode_handle handle).map fun p => (db.entry p).state.opened

def mcapi_trans_channel_type (endpoint : ℕ) : Option channel_type :=
  (mcapi_trans_decode_handle endpoint).map fun p => (db.entry p).recv_queue.channel_type

/-- It has not been connected as a receive endpoint. -/
def mcapi_trans_send_endpoint (endpoint : ℕ) : Option Bool :=
  (mcapi_trans_decode_handle endpoint).map fun p =>
    !((db.entry p).state.connected && (db.entry p).recv_queue.state.recv_endpt == endpoint)

/-- It has not been connected as a send endpoint. -/
def mcapi_trans_recv_endpoint (endpoint : ℕ) : Option Bool :=
  (mcapi_trans_decode_handle endpoint).map fun p =>
    !((db.entry p).state.connected && (db.entry p).recv_queue.state.send_endpt == endpoint)

def Direction.endpoint : Direction → ℕ → Option Bool
  | send => mcapi_trans_send_endpoint db
  | recv => mcapi_trans_recv_endpoint db

def mcapi_trans_valid_endpoints (endpoint1 endpoint2 : ℕ) : Bool :=
  match mcapi_trans_decode_handle endpoint1, mcapi_trans_decode_handle endpoint2 with
  | some p, some q => (db.entry p).state.valid && (db.entry q).state.valid
  | _, _ => false

def mcapi_trans_channel_connected (endpoint : ℕ) : Option Bool :=
  (mcapi_trans_decode_handle endpoint).map fun p =>
    (db.entry p).state.valid && (db.entry p).state.connected

/-! ## The transport functions -/

/-- What a connect writes at one of the two endpoints. -/
def connectEnd (p : Place) (type : channel_type) (newqstate : queue_state) : mcapi_database :=
  let db := (db.setType p type).setQueueState p newqstate
  db.setState p { (db.entry p).state with connected := true }

def mcapi_trans_connect_channel (send_endpoint receive_endpoint : ℕ) (type : channel_type) :
    Option mcapi_database := do
  let sp ← mcapi_trans_decode_handle send_endpoint
  let rp ← mcapi_trans_decode_handle receive_endpoint
  let db := connectEnd db sp type ⟨send_endpoint, receive_endpoint⟩
  some (connectEnd db rp type ⟨send_endpoint, receive_endpoint⟩)

def mcapi_trans_open_channel (p : Place) : mcapi_database :=
  db.setState p { (db.entry p).state with opened := true }

def mcapi_trans_close_channel (p : Place) : mcapi_database :=
  db.setState p { (db.entry p).state with opened := false }

def setPending (p : Place) (pending : List Message) : mcapi_database :=
  db.setEntry p { db.entry p with
    recv_queue := { (db.entry p).recv_queue with pending := pending } }

/-- The database with the message behind the others, or nothing for
`MCAPI_FALSE`. The half of the buffer that is not written is left out. -/
def mcapi_trans_send (rp : Place) (buffer : List UInt8) (buffer_size : ℕ) (scalar : UInt64)
    (room : Bool) : Option mcapi_database :=
  let q := (db.entry rp).recv_queue
  if room then
    let message := if q.channel_type = MCAPI_SCL_CHAN then ⟨buffer_size, [], scalar⟩
      else ⟨buffer_size, buffer, 0⟩
    some (setPending db rp (q.pending ++ [message]))
  else none

/-- The database without the first message and that message, or nothing for
`MCAPI_FALSE`. -/
def mcapi_trans_recv (rp : Place) : Option (mcapi_database × Message) :=
  match (db.entry rp).recv_queue.pending with
  | [] => none
  | message :: pending => some (setPending db rp pending, message)

/-- The frame of the transport's non-blocking functions: a request is reserved,
the work is done if no error was found before, and the request is set up. -/
def withRequest (free : Resources) (mcapi_status : CallStatus)
    (work : Option (mcapi_database × RequestResult)) : Option (mcapi_database × Outcome) :=
  if free.request then
    if mcapi_status = MCAPI_SUCCESS then
      work.map fun p => (p.1, .returned mcapi_status p.2)
    else some (db, .returned mcapi_status (.completed mcapi_status))
  else some (db, .returned MCAPI_ERR_REQUEST_LIMIT .none)

/-- `mcapi_trans_pktchan_connect_i` and `mcapi_trans_sclchan_connect_i` -/
def mcapi_trans_connect_i (kind : ChannelKind) (send_endpoint receive_endpoint : ℕ)
    (mcapi_status : CallStatus) (free : Resources) : Option (mcapi_database × Outcome) :=
  withRequest db free mcapi_status do
    let db ← mcapi_trans_connect_channel db send_endpoint receive_endpoint kind.type
    some (db, .completed MCAPI_SUCCESS)

/-- The four transport functions that open an endpoint. The request is completed
if the channel has been connected. -/
def mcapi_trans_open_i (kind : ChannelKind) (endpoint : ℕ) (mcapi_status : CallStatus)
    (free : Resources) : Option (mcapi_database × Outcome) :=
  withRequest db free mcapi_status do
    let p ← mcapi_trans_decode_handle endpoint
    let completed := (db.entry p).recv_queue.channel_type = kind.type
    some (mcapi_trans_open_channel db p,
      if completed then .completed MCAPI_SUCCESS else .pending)

/-- The four transport functions that close an endpoint. -/
def mcapi_trans_close_i (handle : ℕ) (mcapi_status : CallStatus) (free : Resources) :
    Option (mcapi_database × Outcome) :=
  withRequest db free mcapi_status do
    let p ← mcapi_trans_decode_handle handle
    some (mcapi_trans_close_channel db p, .completed MCAPI_SUCCESS)

/-- Both handles are decoded before any error is looked at, and the status of
the send is left to the request. -/
def mcapi_trans_pktchan_send_i (send_handle : ℕ) (buffer : List UInt8)
    (mcapi_status : CallStatus) (free : Resources) : Option (mcapi_database × Outcome) := do
  let sp ← mcapi_trans_decode_handle send_handle
  let rp ← mcapi_trans_decode_handle (db.entry sp).recv_queue.state.recv_endpt
  if free.request then
    if mcapi_status = MCAPI_SUCCESS then
      match mcapi_trans_send db rp buffer buffer.length 0 free.room with
      | some db => some (db, .returned MCAPI_SUCCESS (.completed MCAPI_SUCCESS))
      | none => some (db, .returned MCAPI_SUCCESS (.completed MCAPI_ERR_MEM_LIMIT))
    else some (db, .returned MCAPI_SUCCESS (.completed mcapi_status))
  else some (db, .returned MCAPI_ERR_REQUEST_LIMIT .none)

/-- Sends again and again until a request could be reserved, and waits for it. -/
def mcapi_trans_pktchan_send (send_handle : ℕ) (buffer : List UInt8) (free : Resources) :
    Option (mcapi_database × Outcome) := do
  let sent ← mcapi_trans_pktchan_send_i db send_handle buffer MCAPI_SUCCESS free
  match sent.2 with
  | .returned MCAPI_ERR_REQUEST_LIMIT _ => some (db, .waits)
  | .returned _ (.completed status) => some (sent.1, .returned status .none)
  | outcome => some (sent.1, outcome)

def mcapi_trans_sclchan_send (send_handle : ℕ) (dataword : UInt64) (size : ℕ) (free : Resources) :
    Option (Option mcapi_database) := do
  let sp ← mcapi_trans_decode_handle send_handle
  let rp ← mcapi_trans_decode_handle (db.entry sp).recv_queue.state.recv_endpt
  some (mcapi_trans_send db rp [] size dataword free.room)

/-- The handle is decoded for its attribute before any error is looked at. -/
def mcapi_trans_pktchan_recv_i (receive_handle : ℕ) (mcapi_status : CallStatus)
    (free : Resources) : Option (mcapi_database × Outcome) := do
  let rp ← mcapi_trans_decode_handle receive_handle
  if free.request then
    if mcapi_status = MCAPI_SUCCESS then
      match mcapi_trans_recv db rp with
      | some (db, message) => some (db, .received MCAPI_SUCCESS message)
      | none =>
        if free.slot then some (db, .returned MCAPI_SUCCESS .pending)
        else some (db, .returned MCAPI_SUCCESS (.completed MCAPI_ERR_MEM_LIMIT))
    else some (db, .returned mcapi_status (.completed mcapi_status))
  else some (db, .returned MCAPI_ERR_REQUEST_LIMIT .none)

/-- Receives again and again until a request could be reserved, and waits for
it. -/
def mcapi_trans_pktchan_recv (receive_handle : ℕ) (free : Resources) :
    Option (mcapi_database × Outcome) := do
  let taken ← mcapi_trans_pktchan_recv_i db receive_handle MCAPI_SUCCESS free
  match taken.2 with
  | .returned MCAPI_ERR_REQUEST_LIMIT _ => some (db, .waits)
  | .returned _ .pending => some (db, .waits)
  | .returned _ (.completed status) => some (taken.1, .returned status .none)
  | outcome => some (taken.1, outcome)

/-- A message of another size is taken from the queue all the same. -/
def mcapi_trans_sclchan_recv (receive_handle : ℕ) :
    Option (Option (mcapi_database × Message)) := do
  let rp ← mcapi_trans_decode_handle receive_handle
  some (mcapi_trans_recv db rp)

/-! ## The public calls -/

/-- The status a connect is checked to, before the transport function runs. -/
def connectStatus (send_endpoint receive_endpoint : ℕ) : Option CallStatus :=
  if !mcapi_trans_valid_endpoints db send_endpoint receive_endpoint then
    some MCAPI_ERR_ENDP_INVALID
  else do
    let sendConnected ← mcapi_trans_channel_connected db send_endpoint
    let recvConnected ← mcapi_trans_channel_connected db receive_endpoint
    -- `mcapi_trans_compatible_endpoint_attributes` holds of all endpoints
    some (if sendConnected || recvConnected then MCAPI_ERR_CHAN_CONNECTED else MCAPI_SUCCESS)

def connect_i (kind : ChannelKind) (send_endpoint receive_endpoint : ℕ) (free : Resources) :
    Option (mcapi_database × Outcome) := do
  let mcapi_status ← connectStatus db send_endpoint receive_endpoint
  mcapi_trans_connect_i db kind send_endpoint receive_endpoint mcapi_status free

def mcapi_pktchan_connect_i : ℕ → ℕ → Resources → Option (mcapi_database × Outcome) :=
  connect_i db .pktchan

def mcapi_sclchan_connect_i : ℕ → ℕ → Resources → Option (mcapi_database × Outcome) :=
  connect_i db .sclchan

/-- The status an open is checked to: a type of the other kind is refused, and
an endpoint that is known as the other end. -/
def openStatus (kind : ChannelKind) (dir : Direction) (endpoint : ℕ) : Option CallStatus :=
  if !mcapi_trans_valid_endpoint db endpoint then some MCAPI_ERR_ENDP_INVALID
  else do
    let type ← mcapi_trans_channel_type db endpoint
    let possible ← dir.endpoint db endpoint
    some (if type = kind.other.type then MCAPI_ERR_CHAN_TYPE
      else if !possible then MCAPI_ERR_CHAN_DIRECTION else MCAPI_SUCCESS)

def open_i (kind : ChannelKind) (dir : Direction) (endpoint : ℕ) (free : Resources) :
    Option (mcapi_database × Outcome) := do
  let mcapi_status ← openStatus db kind dir endpoint
  mcapi_trans_open_i db kind endpoint mcapi_status free

def mcapi_pktchan_recv_open_i : ℕ → Resources → Option (mcapi_database × Outcome) :=
  open_i db .pktchan .recv

def mcapi_pktchan_send_open_i : ℕ → Resources → Option (mcapi_database × Outcome) :=
  open_i db .pktchan .send

def mcapi_sclchan_recv_open_i : ℕ → Resources → Option (mcapi_database × Outcome) :=
  open_i db .sclchan .recv

def mcapi_sclchan_send_open_i : ℕ → Resources → Option (mcapi_database × Outcome) :=
  open_i db .sclchan .send

/-- The status a close is checked to. A send handle is checked by the function
for receive handles, too. -/
def closeStatus (kind : ChannelKind) (handle : ℕ) : Option CallStatus :=
  if !kind.valid_recv_handle db handle then some MCAPI_ERR_CHAN_INVALID
  else do
    let opened ← isopen db handle
    some (if !opened then MCAPI_ERR_CHAN_NOTOPEN else MCAPI_SUCCESS)

def close_i (kind : ChannelKind) (handle : ℕ) (free : Resources) :
    Option (mcapi_database × Outcome) := do
  let mcapi_status ← closeStatus db kind handle
  mcapi_trans_close_i db handle mcapi_status free

def mcapi_pktchan_recv_close_i : ℕ → Resources → Option (mcapi_database × Outcome) :=
  close_i db .pktchan

def mcapi_pktchan_send_close_i : ℕ → Resources → Option (mcapi_database × Outcome) :=
  close_i db .pktchan

def mcapi_sclchan_recv_close_i : ℕ → Resources → Option (mcapi_database × Outcome) :=
  close_i db .sclchan

def mcapi_sclchan_send_close_i : ℕ → Resources → Option (mcapi_database × Outcome) :=
  close_i db .sclchan

/-- The status a packet send is checked to. -/
def sendStatus (send_handle : ℕ) (buffer : List UInt8) : CallStatus :=
  if !mcapi_trans_valid_pktchan_send_handle db send_handle then MCAPI_ERR_CHAN_INVALID
  else if buffer.length > MCAPI_MAX_PKT_SIZE then MCAPI_ERR_PKT_LIMIT
  else MCAPI_SUCCESS

def mcapi_pktchan_send_i (send_handle : ℕ) (buffer : List UInt8) (free : Resources) :
    Option (mcapi_database × Outcome) :=
  mcapi_trans_pktchan_send_i db send_handle buffer (sendStatus db send_handle buffer) free

def mcapi_pktchan_send (send_handle : ℕ) (buffer : List UInt8) (free : Resources) :
    Option (mcapi_database × Outcome) :=
  if sendStatus db send_handle buffer = MCAPI_SUCCESS then do
    let sent ← mcapi_trans_pktchan_send db send_handle buffer free
    match sent.2 with
    | .returned status _ =>
      some (sent.1, .returned
        (if status = MCAPI_SUCCESS then MCAPI_SUCCESS else MCAPI_ERR_MEM_LIMIT) .none)
    | outcome => some (sent.1, outcome)
  else some (db, .returned (sendStatus db send_handle buffer) .none)

def sclchanSend (size send_handle : ℕ) (dataword : UInt64) (free : Resources) :
    Option (mcapi_database × Outcome) :=
  if !mcapi_trans_valid_sclchan_send_handle db send_handle then
    some (db, .returned MCAPI_ERR_CHAN_INVALID .none)
  else do
    let sent ← mcapi_trans_sclchan_send db send_handle dataword size free
    match sent with
    | some db => some (db, .returned MCAPI_SUCCESS .none)
    | none => some (db, .returned MCAPI_ERR_MEM_LIMIT .none)

def mcapi_sclchan_send_uint64 : ℕ → UInt64 → Resources → Option (mcapi_database × Outcome) :=
  sclchanSend db 8

def mcapi_sclchan_send_uint32 : ℕ → UInt64 → Resources → Option (mcapi_database × Outcome) :=
  sclchanSend db 4

def mcapi_sclchan_send_uint16 : ℕ → UInt64 → Resources → Option (mcapi_database × Outcome) :=
  sclchanSend db 2

def mcapi_sclchan_send_uint8 : ℕ → UInt64 → Resources → Option (mcapi_database × Outcome) :=
  sclchanSend db 1

/-- The status a packet receive is checked to. -/
def recvStatus (receive_handle : ℕ) : CallStatus :=
  if !mcapi_trans_valid_pktchan_recv_handle db receive_handle then MCAPI_ERR_CHAN_INVALID
  else MCAPI_SUCCESS

def mcapi_pktchan_recv_i (receive_handle : ℕ) (free : Resources) :
    Option (mcapi_database × Outcome) :=
  mcapi_trans_pktchan_recv_i db receive_handle (recvStatus db receive_handle) free

def mcapi_pktchan_recv (receive_handle : ℕ) (free : Resources) :
    Option (mcapi_database × Outcome) :=
  if recvStatus db receive_handle = MCAPI_SUCCESS then do
    let taken ← mcapi_trans_pktchan_recv db receive_handle free
    match taken.2 with
    | .received _ message =>
      some (taken.1, .received
        (if message.size > MCAPI_MAX_PKT_SIZE then MCAPI_ERR_PKT_LIMIT else MCAPI_SUCCESS) message)
    | .returned _ _ => some (taken.1, .returned MCAPI_ERR_MEM_LIMIT .none)
    | .waits => some (taken.1, .waits)
  else some (db, .returned (recvStatus db receive_handle) .none)

def sclchanRecv (exp_size receive_handle : ℕ) : Option (mcapi_database × Outcome) :=
  if !mcapi_trans_valid_sclchan_recv_handle db receive_handle then
    some (db, .returned MCAPI_ERR_CHAN_INVALID .none)
  else do
    let taken ← mcapi_trans_sclchan_recv db receive_handle
    match taken with
    | none => some (db, .waits)
    | some (db, message) =>
      some (db, .received
        (if message.size = exp_size then MCAPI_SUCCESS else MCAPI_ERR_SCL_SIZE) message)

def mcapi_sclchan_recv_uint64 : ℕ → Option (mcapi_database × Outcome) := sclchanRecv db 8

def mcapi_sclchan_recv_uint32 : ℕ → Option (mcapi_database × Outcome) := sclchanRecv db 4

def mcapi_sclchan_recv_uint16 : ℕ → Option (mcapi_database × Outcome) := sclchanRecv db 2

def mcapi_sclchan_recv_uint8 : ℕ → Option (mcapi_database × Outcome) := sclchanRecv db 1

end

/-! ## Runs -/

/-- A pending request of an open, as `setup_request` stored it. -/
structure PendingOpen where
  kind : ChannelKind
  dir : Direction
  endpoint : ℕ
  deriving DecidableEq, Repr

/-- A connected channel, and which of its sides were closed and not opened
again. -/
structure Link where
  kind : ChannelKind
  send : Place
  recv : Place
  sendClosed : Bool
  recvClosed : Bool
  deriving DecidableEq, Repr

structure ChannelState where
  db : mcapi_database
  opens : List PendingOpen
  receives : List ℕ
  links : List Link

namespace Link

variable (l : Link)

/-- The place of one end. -/
def place : Direction → Place
  | .send => l.send
  | .recv => l.recv

/-- The endpoint at `p` was opened. -/
def noteOpen (p : Place) : Link :=
  { l with
    sendClosed := l.sendClosed && l.send != p
    recvClosed := l.recvClosed && l.recv != p }

/-- The side `dir` of the endpoint at `p` was closed. -/
def noteClose (dir : Direction) (p : Place) : Link :=
  { l with
    sendClosed := l.sendClosed || (dir == .send && l.send == p)
    recvClosed := l.recvClosed || (dir == .recv && l.recv == p) }

end Link

/-- The calls that take no request that waits. -/
def ChannelCall.perform (db : mcapi_database) (free : Resources) :
    ChannelCall → Option (mcapi_database × Outcome)
  | .create d n port_id =>
    let me : Whoami := ⟨(db.node d n).state.node_num, n, (db.domains d).state.domain_id, d⟩
    (mcapi_endpoint_create db me port_id).map fun r => (r.1, .returned r.2 .none)
  | .connect_i .pktchan send_endpoint receive_endpoint =>
    mcapi_pktchan_connect_i db send_endpoint receive_endpoint free
  | .connect_i .sclchan send_endpoint receive_endpoint =>
    mcapi_sclchan_connect_i db send_endpoint receive_endpoint free
  | .open_i .pktchan .recv endpoint => mcapi_pktchan_recv_open_i db endpoint free
  | .open_i .pktchan .send endpoint => mcapi_pktchan_send_open_i db endpoint free
  | .open_i .sclchan .recv endpoint => mcapi_sclchan_recv_open_i db endpoint free
  | .open_i .sclchan .send endpoint => mcapi_sclchan_send_open_i db endpoint free
  | .close_i .pktchan .recv handle => mcapi_pktchan_recv_close_i db handle free
  | .close_i .pktchan .send handle => mcapi_pktchan_send_close_i db handle free
  | .close_i .sclchan .recv handle => mcapi_sclchan_recv_close_i db handle free
  | .close_i .sclchan .send handle => mcapi_sclchan_send_close_i db handle free
  | .pktchan_send_i send_handle buffer => mcapi_pktchan_send_i db send_handle buffer free
  | .pktchan_send send_handle buffer => mcapi_pktchan_send db send_handle buffer free
  | .sclchan_send .uint64 send_handle dataword =>
    mcapi_sclchan_send_uint64 db send_handle dataword free
  | .sclchan_send .uint32 send_handle dataword =>
    mcapi_sclchan_send_uint32 db send_handle dataword free
  | .sclchan_send .uint16 send_handle dataword =>
    mcapi_sclchan_send_uint16 db send_handle dataword free
  | .sclchan_send .uint8 send_handle dataword =>
    mcapi_sclchan_send_uint8 db send_handle dataword free
  | .pktchan_recv_i receive_handle => mcapi_pktchan_recv_i db receive_handle free
  | .pktchan_recv receive_handle => mcapi_pktchan_recv db receive_handle free
  | .sclchan_recv .uint64 receive_handle => mcapi_sclchan_recv_uint64 db receive_handle
  | .sclchan_recv .uint32 receive_handle => mcapi_sclchan_recv_uint32 db receive_handle
  | .sclchan_recv .uint16 receive_handle => mcapi_sclchan_recv_uint16 db receive_handle
  | .sclchan_recv .uint8 receive_handle => mcapi_sclchan_recv_uint8 db receive_handle
  | .test_open _ | .test_recv _ => some (db, .returned MCAPI_ERR_REQUEST_INVALID .none)

namespace ChannelState

variable (s : ChannelState)

/-- `mcapi_test` of an open request: `check_open_channel_request` asks only
whether the endpoint is connected. -/
def testOpen (i : ℕ) : Option (ChannelState × Outcome) :=
  match s.opens[i]? with
  | none => some (s, .returned MCAPI_ERR_REQUEST_INVALID .none)
  | some request => do
    let p ← mcapi_trans_decode_handle request.endpoint
    if (s.db.entry p).state.connected then
      some ({ s with opens := s.opens.eraseIdx i },
        .returned MCAPI_SUCCESS (.completed MCAPI_SUCCESS))
    else some (s, .returned MCAPI_SUCCESS .pending)

/-- `mcapi_test` of a receive request: `check_receive_request_` takes the message
at the head if it is the request's turn. -/
def testRecv (i : ℕ) (free : Resources) : Option (ChannelState × Outcome) :=
  match s.receives[i]? with
  | none => some (s, .returned MCAPI_ERR_REQUEST_INVALID .none)
  | some receive_handle => do
    let rp ← mcapi_trans_decode_handle receive_handle
    match mcapi_trans_recv s.db rp with
    | some (db, message) =>
      if free.turn then
        some ({ s with db := db, receives := s.receives.eraseIdx i },
          .received MCAPI_SUCCESS message)
      else some (s, .returned MCAPI_SUCCESS .pending)
    | none => some (s, .returned MCAPI_SUCCESS .pending)

/-- What is recorded of a call that returned `MCAPI_SUCCESS`. -/
def note (call : ChannelCall) (outcome : Outcome) : ChannelState :=
  match call, outcome with
  | .connect_i kind send_endpoint receive_endpoint, .returned MCAPI_SUCCESS _ =>
    match mcapi_trans_decode_handle send_endpoint, mcapi_trans_decode_handle receive_endpoint with
    | some sp, some rp => { s with links := s.links ++ [⟨kind, sp, rp, false, false⟩] }
    | _, _ => s
  | .open_i kind dir endpoint, .returned MCAPI_SUCCESS request =>
    match mcapi_trans_decode_handle endpoint with
    | some p =>
      { s with
        links := s.links.map (·.noteOpen p)
        opens := if request = .pending then s.opens ++ [⟨kind, dir, endpoint⟩] else s.opens }
    | none => s
  | .close_i _ dir handle, .returned MCAPI_SUCCESS _ =>
    match mcapi_trans_decode_handle handle with
    | some p => { s with links := s.links.map (·.noteClose dir p) }
    | none => s
  | .pktchan_recv_i receive_handle, .returned MCAPI_SUCCESS .pending =>
    { s with receives := s.receives ++ [receive_handle] }
  | _, _ => s

/-- One call. -/
def call (c : ChannelCall) (free : Resources) : Option (ChannelState × Outcome) :=
  match c with
  | .test_open i => s.testOpen i
  | .test_recv i => s.testRecv i free
  | _ => (c.perform s.db free).map fun r => (({ s with db := r.1 }).note c r.2, r.2)

end ChannelState

/-- One call with what it finds. -/
def channelStep (s : ChannelState) (o : ChannelCall × Resources) :
    Option (ChannelState × Outcome) := s.call o.1 o.2

/-- Every entry is as zeroed memory, and no node has endpoints. -/
def Unused (db : mcapi_database) : Prop :=
  ∀ d n, (db.node d n).num_endpoints = 0 ∧ ∀ e, db.endpoint d n e = .zero

/-- No endpoint was created yet; domains and nodes are arbitrary. -/
def ChannelState.init (db : mcapi_database) : ChannelState := ⟨db, [], [], []⟩

end MxApi.Channel
