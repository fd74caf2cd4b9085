/-
State message exchange on one endpoint (`transport_sm_abb.c`,
`Fragments/transport_sm_pktchan_abb.c`): `mcapi_trans_send_state`,
`mcapi_trans_recv_state` and `mcapi_trans_pktchan_free` as programs of atomic
steps, run by any numbers of clients in any interleaving.

The queue entries serve as `K` buffers that are written in turn, `K` being the
attribute `MCAPI_ENDP_ATTR_NUM_SEND_BUFFERS`. `update_counter` is stepped when a
write starts and when it ends; a reader derives the entry to read from it and
reads it again afterwards. Completing a receive request
(`check_receive_request_state_`) accesses the shared memory as
`mcapi_trans_recv_state` does and is the same program here.

Histories are recorded beside the memory: the messages of the sends that have
started, the results of those that have ended, the receives that returned
`TRUE`, and the packets receivers hold. A reader's program points carry, besides
its locals, how far the histories were when the receive began and when it last
read the counter ([`Moment`]); the program does not look at them.
-/
import MxApi.Mcapi.Fifo

set_option autoImplicit false

namespace MxApi

open Lib channel_type mcapi_buffer_state mcapi_status_t

/-! ## Entries -/

/-- `(counter/2) % K`, the entry a writer writes. -/
def writeSlot (K counter : ℕ) : ℕ := (counter / 2) % K

/-- `((counter/2)-1) % K` on `unsigned`, the entry a reader reads. -/
def readSlot (K counter : ℕ) : ℕ := subU32 (counter / 2) 1 % K

/-! ## `mcapi_trans_send_state` -/

/-- Where a writer stands. -/
inductive WritePc
  | idle
  /-- `mrapi_atomic_inc` of `update_counter` -/
  | incCounter (m : Msg)
  /-- `mrapi_atomic_read` of the entry's state -/
  | readState (m : Msg) (counter : ℕ)
  /-- `mrapi_atomic_read` of the entry's `buff_index` -/
  | readBuffIndex (m : Msg) (counter : ℕ) (oldbstate : mcapi_buffer_state)
  /-- the entry is set to `BUFFER_RESERVED` -/
  | reserve (m : Msg) (counter : ℕ) (oldbstate : mcapi_buffer_state) (buff_index : ℕ)
  /-- the exchange `RESERVED_NUM` to `MAGIC_NUM` on the marker of the old buffer -/
  | casMarker (m : Msg) (counter index : ℕ)
  /-- `mcapi_trans_alloc_buffer` tries buffer `i` -/
  | allocBuffer (m : Msg) (counter i : ℕ)
  /-- no buffer: the entry is set to `BUFFER_FREE` -/
  | setFree (m : Msg) (counter : ℕ)
  /-- no buffer: `buff_index` is cleared -/
  | clearBuffIndex (m : Msg) (counter : ℕ)
  /-- no buffer: the exchange `counter` to `counter + 1`, then `FALSE` is returned -/
  | giveUp (m : Msg) (counter : ℕ)
  /-- the new buffer is put into the entry -/
  | setBuffIndex (m : Msg) (counter i : ℕ)
  /-- `db_buff->parent = buf` -/
  | setParent (m : Msg) (counter i : ℕ)
  /-- the scalar, or byte `k` of the message, is copied to the buffer -/
  | copy (m : Msg) (counter i k : ℕ)
  /-- `db_buff->size = buffer_size` -/
  | setSize (m : Msg) (counter i : ℕ)
  /-- `mrapi_atomic_read` of the entry's state -/
  | rereadState (m : Msg) (counter i : ℕ)
  /-- the exchange of the state read to `BUFFER_ALLOCATED` -/
  | casAllocated (m : Msg) (counter i : ℕ) (oldbstate : mcapi_buffer_state)
  /-- the exchange `counter` to `counter + 1`, then `TRUE` is returned -/
  | casCounter (m : Msg) (counter i : ℕ)
  /-- an assert failed -/
  | failed

/-- The writer's way on once the entry is reserved: with the buffer of the entry,
or to a new one. A packet that was received keeps its buffer. -/
def afterReserve (ct : channel_type) (m : Msg) (counter : ℕ) (oldbstate : mcapi_buffer_state)
    (buff_index : ℕ) : WritePc :=
  if buff_index ≠ 0 ∧ (ct ≠ MCAPI_PKT_CHAN ∨ oldbstate ≠ BUFFER_RECEIVED) then
    .setParent m counter (bufferIndex buff_index)
  else if ct = MCAPI_PKT_CHAN ∧ buff_index ≠ 0 ∧ oldbstate = BUFFER_RECEIVED then
    .casMarker m counter (bufferIndex buff_index)
  else .allocBuffer m counter 0

/-- One atomic step of a writer: the memory it leaves, where it stands then, and
the result if it returns. -/
def writeProgram (K : ℕ) (sh : Shared) : WritePc → Shared × WritePc × Option Bool
  | .idle => (sh, .idle, none)
  | .incCounter m =>
    let counter := u32 (sh.q.update_counter + 1)
    (sh.setUpdateCounter counter, .readState m counter, none)
  | .readState m counter =>
    (sh, .readBuffIndex m counter (sh.q.elements (writeSlot K counter)).state, none)
  | .readBuffIndex m counter oldbstate =>
    (sh, .reserve m counter oldbstate (sh.q.elements (writeSlot K counter)).buff_index, none)
  | .reserve m counter oldbstate buff_index =>
    let qindex := writeSlot K counter
    (sh.setElement qindex { sh.q.elements qindex with state := BUFFER_RESERVED },
      afterReserve sh.q.channel_type m counter oldbstate buff_index, none)
  | .casMarker m counter index =>
    let result := sh.casMagic index RESERVED_NUM MAGIC_NUM
    if result.1 then (result.2, .allocBuffer m counter 0, none) else (result.2, .failed, none)
  | .allocBuffer m counter i =>
    if i < MCAPI_MAX_BUFFERS then
      let result := sh.casMagic i 0 RESERVED_NUM
      if result.1 then (result.2, .setBuffIndex m counter i, none)
      else (result.2, .allocBuffer m counter (i + 1), none)
    else (sh, .setFree m counter, none)
  | .setFree m counter =>
    let qindex := writeSlot K counter
    (sh.setElement qindex { sh.q.elements qindex with state := BUFFER_FREE },
      .clearBuffIndex m counter, none)
  | .clearBuffIndex m counter =>
    let qindex := writeSlot K counter
    (sh.setElement qindex { sh.q.elements qindex with buff_index := 0 }, .giveUp m counter, none)
  | .giveUp _ counter =>
    if sh.q.update_counter = counter then
      (sh.setUpdateCounter (u32 (counter + 1)), .idle, some false)
    else (sh, .failed, none)
  | .setBuffIndex m counter i =>
    let qindex := writeSlot K counter
    (sh.setElement qindex { sh.q.elements qindex with buff_index := validIndex i },
      .setParent m counter i, none)
  | .setParent m counter i =>
    (sh.setBuffer i { sh.buffers i with parent := some (writeSlot K counter) },
      .copy m counter i 0, none)
  | .copy m counter i k =>
    if sh.q.channel_type = MCAPI_SCL_CHAN then
      (sh.setBuffer i { sh.buffers i with scalar := m.scalar }, .setSize m counter i, none)
    else if k < m.buffer_size then
      (sh.setBuffer i { sh.buffers i with
        buff := Function.update (sh.buffers i).buff k (m.buffer k) },
        .copy m counter i (k + 1), none)
    else (sh, .setSize m counter i, none)
  | .setSize m counter i =>
    (sh.setBuffer i { sh.buffers i with size := m.buffer_size }, .rereadState m counter i, none)
  | .rereadState m counter i =>
    let oldbstate := (sh.q.elements (writeSlot K counter)).state
    if oldbstate ≠ BUFFER_ALLOCATED then (sh, .casAllocated m counter i oldbstate, none)
    else (sh, .casCounter m counter i, none)
  | .casAllocated m counter i oldbstate =>
    let result := sh.casState (writeSlot K counter) oldbstate BUFFER_ALLOCATED
    if result.1 then (result.2, .casCounter m counter i, none) else (result.2, .failed, none)
  | .casCounter _ counter _ =>
    if sh.q.update_counter = counter then
      (sh.setUpdateCounter (u32 (counter + 1)), .idle, some true)
    else (sh, .failed, none)
  | .failed => (sh, .failed, none)

/-! ## `mcapi_trans_recv_state` and `mcapi_trans_pktchan_free` -/

/-- How many sends had ended when a receive began, and how many starts and ends
of sends there had been when it last read `update_counter`. -/
structure Moment where
  began : ℕ
  seen : ℕ

/-- Where a reader stands. -/
inductive ReadPc
  | idle
  /-- `mrapi_atomic_read` of `update_counter` -/
  | readCounter (f : RecvArgs) (g : Moment)
  /-- `mrapi_atomic_read` of the entry's state -/
  | readState (f : RecvArgs) (g : Moment) (counter : ℕ)
  /-- `mrapi_atomic_read` of the entry's `buff_index` -/
  | readBuffIndex (f : RecvArgs) (g : Moment) (counter : ℕ)
  /-- a packet: the exchange `BUFFER_ALLOCATED` to `BUFFER_RECEIVED` -/
  | casReceived (f : RecvArgs) (g : Moment) (counter : ℕ)
  /-- `mcapi_trans_recv_state_` reads `buff_index` -/
  | recvBuffIndex (f : RecvArgs) (g : Moment) (counter : ℕ)
  /-- `db_buff->parent = buf` -/
  | setParent (f : RecvArgs) (g : Moment) (counter index : ℕ)
  /-- `size = db_buff->size` -/
  | readSize (f : RecvArgs) (g : Moment) (counter index : ℕ)
  /-- the pointer, the scalar, or the next byte of the message is copied out -/
  | copy (f : RecvArgs) (g : Moment) (counter index size : ℕ) (data : List UInt8)
  /-- `update_counter` is read again and the window tested -/
  | confirm (f : RecvArgs) (g : Moment) (counter index : ℕ) (d : Delivery)
  /-- `mcapi_trans_pktchan_free` reads the marker -/
  | freeMarker (i : ℕ)
  /-- `mcapi_trans_free_buffer` reads the marker -/
  | freeRead (i : ℕ)
  /-- `mcapi_trans_free_buffer` exchanges the marker read for `0` -/
  | freeCas (i oldnum : ℕ)
  /-- `mcapi_trans_pktchan_free` reads `parent` -/
  | freeParent (i : ℕ)
  /-- the exchange `BUFFER_RECEIVED` to `BUFFER_ALLOCATED` on the parent entry -/
  | freeEntry (i qindex : ℕ)
  /-- an assert failed -/
  | failed

/-- What a receive returns `TRUE` with, and the buffer it read. -/
structure Receipt where
  args : RecvArgs
  began : ℕ
  index : ℕ
  delivery : Delivery

/-- One atomic step of a reader at the moment `now`: the memory it leaves, where
it stands then, and the receive it completes if it completes one. -/
def readProgram (K now : ℕ) (sh : Shared) : ReadPc → Shared × ReadPc × Option Receipt
  | .idle => (sh, .idle, none)
  | .readCounter f g => (sh, .readState f ⟨g.began, now⟩ sh.q.update_counter, none)
  | .readState f g counter => (sh, .readBuffIndex f g counter, none)
  | .readBuffIndex f g counter =>
    if (sh.q.elements (readSlot K counter)).buff_index = 0 then (sh, .idle, none)
    else if sh.q.channel_type = MCAPI_PKT_CHAN then (sh, .casReceived f g counter, none)
    else (sh, .recvBuffIndex f g counter, none)
  | .casReceived f g counter =>
    let qindex := readSlot K counter
    match (sh.q.elements qindex).state with
    | BUFFER_ALLOCATED =>
      (sh.setElement qindex { sh.q.elements qindex with state := BUFFER_RECEIVED },
        .recvBuffIndex f g counter, none)
    | BUFFER_RESERVED => (sh, .readCounter f g, none)
    | BUFFER_RECEIVED => (sh, .recvBuffIndex f g counter, none)
    | BUFFER_FREE => (sh, .failed, none)
  | .recvBuffIndex f g counter =>
    (sh, .setParent f g counter
      (bufferIndex (sh.q.elements (readSlot K counter)).buff_index), none)
  | .setParent f g counter index =>
    (sh.setBuffer index { sh.buffers index with parent := some (readSlot K counter) },
      .readSize f g counter index, none)
  | .readSize f g counter index =>
    (sh, .copy f g counter index (sh.buffers index).size [], none)
  | .copy f g counter index size data =>
    match sh.q.channel_type with
    | MCAPI_PKT_CHAN => (sh, .confirm f g counter index ⟨size, .packet index⟩, none)
    | MCAPI_SCL_CHAN =>
      (sh, .confirm f g counter index ⟨size, .scalar (sh.buffers index).scalar⟩, none)
    | MCAPI_NO_CHAN =>
      if data.length < min size f.buffer_size then
        (sh, .copy f g counter index size
          (data ++ [(sh.buffers index).buff data.length]), none)
      else (sh, .confirm f g counter index ⟨size, .message data⟩, none)
  | .confirm f g counter index d =>
    if subU32 sh.q.update_counter (counter / 2 * 2) ≤ 2 * K - 2 then
      (sh, .idle, some ⟨f, g.began, index, d⟩)
    else (sh, .readCounter f g, none)
  | .freeMarker i =>
    if (sh.buffers i).magic_num = MAGIC_NUM then (sh, .freeRead i, none)
    else (sh, .freeParent i, none)
  | .freeRead i => (sh, .freeCas i (sh.buffers i).magic_num, none)
  | .freeCas i oldnum => ((sh.casMagic i oldnum 0).2, .idle, none)
  | .freeParent i =>
    match (sh.buffers i).parent with
    | some qindex => (sh, .freeEntry i qindex, none)
    | none => (sh, .idle, none)
  | .freeEntry _ qindex =>
    ((sh.casState qindex BUFFER_RECEIVED BUFFER_ALLOCATED).2, .idle, none)
  | .failed => (sh, .failed, none)

/-! ## The clients together -/

/-- The memory, where every client stands, and what has been done. -/
structure StateSys (ω ρ : Type) where
  sh : Shared
  wpc : ω → WritePc
  rpc : ρ → ReadPc
  /-- the messages of the sends started -/
  calls : List Msg
  /-- the results of the sends ended -/
  results : List Bool
  /-- the receives that returned `TRUE` -/
  received : List (ρ × Receipt)
  /-- the packets handed to receivers and not yet passed to `pktchan_free` -/
  held : List (ρ × ℕ)

inductive StateLabel (ω ρ : Type)
  /-- `x` calls `mcapi_trans_send_state` -/
  | send (x : ω) (m : Msg)
  /-- `y` calls `mcapi_trans_recv_state` -/
  | recv (y : ρ) (f : RecvArgs)
  /-- `y` calls `mcapi_trans_pktchan_free` on the packet in buffer `i` -/
  | free (y : ρ) (i : ℕ)
  /-- the next atomic step of writer `x` -/
  | stepWrite (x : ω)
  /-- the next atomic step of reader `y` -/
  | stepRead (y : ρ)

def WritePc.isIdle : WritePc → Bool
  | .idle => true
  | _ => false

def ReadPc.isIdle : ReadPc → Bool
  | .idle => true
  | _ => false

/-- The message of a send that is about to start. -/
def WritePc.starts : WritePc → Option Msg
  | .incCounter m => some m
  | _ => none

section System

variable {ω ρ : Type}

/-- How many starts and ends of sends there have been. -/
def StateSys.now (s : StateSys ω ρ) : ℕ := s.calls.length + s.results.length

variable [DecidableEq ω] [DecidableEq ρ]

def stateStep (K : ℕ) (s : StateSys ω ρ) : StateLabel ω ρ → Option (StateSys ω ρ)
  | .send x m =>
    if (s.wpc x).isIdle then some { s with wpc := Function.update s.wpc x (.incCounter m) }
    else none
  | .recv y f =>
    if (s.rpc y).isIdle then
      some { s with rpc := Function.update s.rpc y (.readCounter f ⟨s.results.length, 0⟩) }
    else none
  | .free y i =>
    if (s.rpc y).isIdle ∧ (y, i) ∈ s.held then
      some { s with
        rpc := Function.update s.rpc y (.freeMarker i)
        held := s.held.erase (y, i) }
    else none
  | .stepWrite x =>
    let next := writeProgram K s.sh (s.wpc x)
    some { s with
      sh := next.1
      wpc := Function.update s.wpc x next.2.1
      calls := s.calls ++ (s.wpc x).starts.toList
      results := s.results ++ next.2.2.toList }
  | .stepRead y =>
    let next := readProgram K s.now s.sh (s.rpc y)
    some { s with
      sh := next.1
      rpc := Function.update s.rpc y next.2.1
      received := s.received ++ (next.2.2.map (Prod.mk y)).toList
      held := s.held ++ (next.2.2.bind fun r =>
        match r.delivery.payload with
        | .packet i => some (y, i)
        | _ => none).toList }

/-- A fresh endpoint with an arbitrary pool, all clients outside. -/
def StateSys.init (ω ρ : Type) (ct : channel_type) (pool : ℕ → buffer_entry) : StateSys ω ρ :=
  ⟨⟨queue.zero ct, pool⟩, fun _ => .idle, fun _ => .idle, [], [], [], []⟩

end System

end MxApi
