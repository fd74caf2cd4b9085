/-
The transfers of a message to and from the receive queue of an endpoint
(`transport_sm_abb.c`), as one client alone executes them: `mcapi_trans_send` and
`mcapi_trans_recv` on FIFO buffers, `mcapi_trans_send_state` and
`mcapi_trans_recv_state` on state buffers, for all types of channels.

`none` says that an assert fails, that an index leaves its array, or that a loop is
entered that only another client could end. The argument `K` of the functions of
state buffers is the attribute `MCAPI_ENDP_ATTR_NUM_SEND_BUFFERS` of the endpoint.
-/
import MxApi.Lib.Search
import MxApi.Mcapi.StateExchange

set_option autoImplicit false

namespace MxApi.Transfers

open Lib channel_type mcapi_buffer_state mcapi_status_t

/-! ## Buffers -/

/-- The first buffer that is not in use, and the pool after it is marked. -/
def mcapi_trans_alloc_buffer (buffers : ℕ → buffer_entry) (magic_num : ℕ) :
    Option (ℕ × (ℕ → buffer_entry)) :=
  (search MCAPI_MAX_BUFFERS fun i => decide ((buffers i).magic_num = 0)).map fun i =>
    (i, Function.update buffers i { buffers i with magic_num := magic_num })

/-- The message is put into a buffer of the entry. -/
def fill (ct : channel_type) (m : Msg) (qindex : ℕ) (b : buffer_entry) : buffer_entry :=
  if ct = MCAPI_SCL_CHAN then
    { b with parent := some qindex, size := m.buffer_size, scalar := m.scalar }
  else
    { b with
      parent := some qindex, size := m.buffer_size
      buff := fun k => if k < m.buffer_size then m.buffer k else b.buff k }

/-- What a receive with room for `buffer_size` bytes hands to its caller of buffer
`index`. -/
def handOut (ct : channel_type) (b : buffer_entry) (index buffer_size : ℕ) : Delivery where
  received_size := b.size
  payload := match ct with
    | MCAPI_PKT_CHAN => .packet index
    | MCAPI_SCL_CHAN => .scalar b.scalar
    | MCAPI_NO_CHAN => .message ((List.range (min b.size buffer_size)).map b.buff)

/-- What the caller finds: behind the pointer to a packet are its bytes. -/
def contents (sh : Shared) (d : Delivery) : ℕ × Payload :=
  (d.received_size, match d.payload with
    | .packet i => .message ((List.range d.received_size).map (sh.buffers i).buff)
    | payload => payload)

/-! ## FIFO buffers -/

def mcapi_trans_send (sh : Shared) (m : Msg) : Option (Shared × Bool) :=
  match mcapi_trans_queue_tail sh.q with
  | (qindex, MCAPI_SUCCESS) =>
    let buf := sh.q.elements qindex
    -- the index is asserted to be zero, and BUFFER_FREE is waited for
    if buf.buff_index = 0 ∧ buf.state = BUFFER_FREE then
      match mcapi_trans_alloc_buffer sh.buffers MAGIC_NUM with
      | none =>
        let sh := sh.setElement qindex { buf with state := BUFFER_RESERVED }
        some (sh.setElement qindex { sh.q.elements qindex with state := BUFFER_FREE }, false)
      | some (i, buffers) =>
        let sh : Shared :=
          ⟨sh.q, Function.update buffers i (fill sh.q.channel_type m qindex (buffers i))⟩
        let sh := sh.setElement qindex
          { buf with buff_index := validIndex i, state := BUFFER_ALLOCATED }
        -- add entry to queue
        match mcapi_trans_push_queue sh.q with
        | some (.ok x, q) => if x = qindex then some ({ sh with q := q }, true) else none
        | _ => none
    else none
  | (_, MCAPI_ERR_QUEUE_FULL) => some (sh, false)
  | _ => none

def mcapi_trans_recv_ (sh : Shared) (buffer_size qindex : ℕ) : Option (Shared × Delivery) :=
  let ct := sh.q.channel_type
  let index := bufferIndex (sh.q.elements qindex).buff_index
  let sh := sh.setBuffer index { sh.buffers index with parent := some qindex }
  let d := handOut ct (sh.buffers index) index buffer_size
  let sh := sh.setElement qindex ⟨BUFFER_FREE, 0, false⟩
  if ct = MCAPI_PKT_CHAN then some (sh, d)
  else
    -- the buffer is freed by an exchange that is asserted
    let result := sh.casMagic index MAGIC_NUM 0
    if result.1 then some (result.2, d) else none

/-- A non-blocking receive. -/
def mcapi_trans_recv (sh : Shared) (buffer_size : ℕ) : Option (Shared × Option Delivery) :=
  match mcapi_trans_queue_head sh.q with
  | (qindex, MCAPI_SUCCESS) =>
    let buf := sh.q.elements qindex
    if buf.state = BUFFER_ALLOCATED ∧ buf.buff_index ≠ 0 then
      -- mark entry as received
      let sh := sh.setElement qindex { buf with state := BUFFER_RECEIVED }
      match mcapi_trans_recv_ sh buffer_size qindex with
      | none => none
      | some (sh, d) =>
        match mcapi_trans_pop_queue sh.q with
        | some (.ok _, q) => some ({ sh with q := q }, some d)
        | _ => none
    else some (sh, none)
  | (_, MCAPI_ERR_QUEUE_EMPTY) => some (sh, none)
  | _ => none

/-! ## State buffers -/

/-- The entry is one of the array. -/
def entryOk (K qindex : ℕ) : Bool := decide (0 < K) && decide (qindex ≤ MCAPI_MAX_QUEUE_ENTRIES)

/-- The end of a send that has its buffer. -/
def finishSend (sh : Shared) (m : Msg) (counter qindex i : ℕ) : Shared × Bool :=
  let sh := sh.setBuffer i (fill sh.q.channel_type m qindex (sh.buffers i))
  let sh := sh.setElement qindex { sh.q.elements qindex with state := BUFFER_ALLOCATED }
  -- increment counter to complete write operation
  (sh.setUpdateCounter (u32 (counter + 1)), true)

/-- The marker of a packet that was received is changed, so that freeing it gives its
buffer back. The exchange is asserted. -/
def releaseMarker (sh : Shared) (buf : buffer_descriptor) : Option Shared :=
  if sh.q.channel_type = MCAPI_PKT_CHAN ∧ buf.buff_index ≠ 0 ∧ buf.state = BUFFER_RECEIVED then
    let result := sh.casMagic (bufferIndex buf.buff_index) RESERVED_NUM MAGIC_NUM
    if result.1 then some result.2 else none
  else some sh

/-- The buffer of the entry is written again, unless it is a packet that was received. -/
def reusable (ct : channel_type) (buf : buffer_descriptor) : Bool :=
  decide (buf.buff_index ≠ 0) &&
    !(decide (ct = MCAPI_PKT_CHAN) && decide (buf.state = BUFFER_RECEIVED))

def mcapi_trans_send_state (K : ℕ) (sh : Shared) (m : Msg) : Option (Shared × Bool) :=
  -- select next index for write
  let counter := u32 (sh.q.update_counter + 1)
  let qindex := writeSlot K counter
  if entryOk K qindex then
    let buf := sh.q.elements qindex
    -- reserve entry so mcapi_trans_recv_state does not attempt to read
    let sh := (sh.setUpdateCounter counter).setElement qindex { buf with state := BUFFER_RESERVED }
    if reusable sh.q.channel_type buf then
      some (finishSend sh m counter qindex (bufferIndex buf.buff_index))
    else
      match releaseMarker sh buf with
      | none => none
      | some sh =>
        match mcapi_trans_alloc_buffer sh.buffers RESERVED_NUM with
        | none =>
          -- clear buffer index, and increment counter to complete write operation
          let sh := sh.setElement qindex
            { sh.q.elements qindex with state := BUFFER_FREE, buff_index := 0 }
          some (sh.setUpdateCounter (u32 (counter + 1)), false)
        | some (i, buffers) =>
          let sh : Shared := ⟨sh.q, buffers⟩
          let sh := sh.setElement qindex
            { sh.q.elements qindex with buff_index := validIndex i }
          some (finishSend sh m counter qindex i)
  else none

def mcapi_trans_recv_state_ (sh : Shared) (buffer_size qindex : ℕ) : Shared × Delivery :=
  let index := bufferIndex (sh.q.elements qindex).buff_index
  let sh := sh.setBuffer index { sh.buffers index with parent := some qindex }
  (sh, handOut sh.q.channel_type (sh.buffers index) index buffer_size)

/-- A packet is marked, so that its buffer is not written again. -/
def markReceived (sh : Shared) (qindex : ℕ) : Option Shared :=
  let buf := sh.q.elements qindex
  if sh.q.channel_type = MCAPI_PKT_CHAN then
    match buf.state with
    | BUFFER_ALLOCATED => some (sh.setElement qindex { buf with state := BUFFER_RECEIVED })
    | BUFFER_RECEIVED => some sh
    -- a write collision, which is waited out
    | BUFFER_RESERVED => none
    | BUFFER_FREE => none
  else some sh

def mcapi_trans_recv_state (K : ℕ) (sh : Shared) (buffer_size : ℕ) :
    Option (Shared × Option Delivery) :=
  let counter := sh.q.update_counter
  let qindex := readSlot K counter
  if entryOk K qindex then
    if (sh.q.elements qindex).buff_index = 0 then
      -- no message to receive
      some (sh, none)
    else
      match markReceived sh qindex with
      | none => none
      | some sh =>
        let (sh, d) := mcapi_trans_recv_state_ sh buffer_size qindex
        -- confirm successful read; a write that is in progress is waited for
        if subU32 sh.q.update_counter (counter / 2 * 2) ≤ subU32 (u32 (2 * K)) 2 then
          some (sh, some d)
        else none
  else none

end MxApi.Transfers
