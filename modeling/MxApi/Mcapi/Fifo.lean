/-
FIFO message exchange on one endpoint (`transport_sm_abb.c`): `mcapi_trans_send`
and `mcapi_trans_recv` as programs of atomic steps, run by any numbers of
clients in any interleaving.

The clients share the endpoint's receive queue and the pool of buffers. Every
`mrapi_atomic_*` call, every plain access to a counter, to a queue entry or to a
buffer, and every byte of a copy is a step of its own, so a program point of
[`SendPc`] or [`RecvPc`] is a place between two such accesses; it carries the
local variables that are read later.

Two histories are recorded beside the memory: `sent` gains an entry when a send
returns `TRUE`, `received` when a receive does.
-/
import MxApi.Lib.Run
import MxApi.Mcapi.Queue

set_option autoImplicit false

namespace MxApi

open Lib channel_type mcapi_buffer_state mcapi_status_t

/-! ## Messages -/

def MCAPI_MAX_MSG_SIZE : ℕ := 1024

/-- The arguments of a send. The size is within a buffer, which the callers of
`mcapi_trans_send` check. -/
structure Msg where
  buffer : ℕ → UInt8
  buffer_size : ℕ
  scalar : UInt64
  buffer_size_le : buffer_size ≤ MCAPI_MAX_MSG_SIZE

theorem one_le_max_msg_size : 1 ≤ MCAPI_MAX_MSG_SIZE := by decide

theorem two_le_max_msg_size : 2 ≤ MCAPI_MAX_MSG_SIZE := by decide

/-- What a receive hands to its caller: bytes copied to the caller's buffer, a
scalar, or a pointer to a buffer of the pool. -/
inductive Payload
  | message (data : List UInt8)
  | scalar (value : UInt64)
  | packet (index : ℕ)
  deriving DecidableEq

structure Delivery where
  received_size : ℕ
  payload : Payload
  deriving DecidableEq

/-! ## Shared memory -/

/-- The memory the clients of an endpoint share. -/
structure Shared where
  q : queue
  buffers : ℕ → buffer_entry

namespace Shared

variable (sh : Shared)

def setElement (j : ℕ) (d : buffer_descriptor) : Shared :=
  { sh with q := { sh.q with elements := Function.update sh.q.elements j d } }

def setBuffer (i : ℕ) (b : buffer_entry) : Shared :=
  { sh with buffers := Function.update sh.buffers i b }

def setUpdateCounter (c : ℕ) : Shared := { sh with q := { sh.q with update_counter := c } }

def setAckCounter (c : ℕ) : Shared := { sh with q := { sh.q with ack_counter := c } }

/-- `mrapi_atomic_cas` on the state of entry `j`. -/
def casState (j : ℕ) (oldbstate newbstate : mcapi_buffer_state) : Bool × Shared :=
  if (sh.q.elements j).state = oldbstate then
    (true, sh.setElement j { sh.q.elements j with state := newbstate })
  else (false, sh)

/-- `mrapi_atomic_cas` on the marker of buffer `i`. -/
def casMagic (i oldnum newnum : ℕ) : Bool × Shared :=
  if (sh.buffers i).magic_num = oldnum then
    (true, sh.setBuffer i { sh.buffers i with magic_num := newnum })
  else (false, sh)

@[simp] theorem setElement_buffers (j : ℕ) (d : buffer_descriptor) :
    (sh.setElement j d).buffers = sh.buffers := rfl

@[simp] theorem setElement_channel_type (j : ℕ) (d : buffer_descriptor) :
    (sh.setElement j d).q.channel_type = sh.q.channel_type := rfl

@[simp] theorem setElement_self (j : ℕ) (d : buffer_descriptor) :
    (sh.setElement j d).q.elements j = d := Function.update_self ..

theorem setElement_of_ne {j k : ℕ} (h : k ≠ j) (d : buffer_descriptor) :
    (sh.setElement j d).q.elements k = sh.q.elements k := Function.update_of_ne h ..

@[simp] theorem setBuffer_self (i : ℕ) (b : buffer_entry) :
    (sh.setBuffer i b).buffers i = b := Function.update_self ..

theorem setBuffer_of_ne {i k : ℕ} (h : k ≠ i) (b : buffer_entry) :
    (sh.setBuffer i b).buffers k = sh.buffers k := Function.update_of_ne h ..

end Shared

/-! ## `mcapi_trans_send` -/

/-- The locals of a send that has its queue entry and its buffer. -/
structure SendFrame where
  msg : Msg
  qindex : ℕ
  i : ℕ

/-- Where a sender stands. -/
inductive SendPc
  | idle
  /-- `queue_tail` reads `ack_counter` -/
  | tailAck (m : Msg)
  /-- `queue_tail` reads `update_counter` -/
  | tailUpdate (m : Msg) (tempAC : ℕ)
  /-- `mrapi_atomic_read` of `buff_index` -/
  | readBuffIndex (m : Msg) (qindex : ℕ)
  /-- `assert(0 == buf->buff_index)` -/
  | checkBuffIndex (m : Msg) (qindex : ℕ)
  /-- the exchange `BUFFER_FREE` to `BUFFER_RESERVED` -/
  | casReserve (m : Msg) (qindex : ℕ)
  /-- `mcapi_trans_alloc_buffer` tries buffer `i` -/
  | allocBuffer (m : Msg) (qindex i : ℕ)
  /-- no buffer: the entry is set to `BUFFER_FREE` and `FALSE` returned -/
  | unreserve (m : Msg) (qindex : ℕ)
  /-- `db_buff->parent = buf` -/
  | setParent (f : SendFrame)
  /-- the scalar, or byte `k` of the message, is copied to the buffer -/
  | copy (f : SendFrame) (k : ℕ)
  /-- `db_buff->size = buffer_size` -/
  | setSize (f : SendFrame)
  /-- the buffer is put into the entry -/
  | setBuffIndex (f : SendFrame)
  /-- the exchange `BUFFER_RESERVED` to `BUFFER_ALLOCATED` -/
  | casAllocated (f : SendFrame)
  /-- `push_queue` reads `update_counter` -/
  | pushUpdate (f : SendFrame)
  /-- `push_queue` reads `ack_counter` and tests for a full queue -/
  | pushAck (f : SendFrame) (UC : ℕ)
  /-- the exchange `UC` to `UC + 1` on `update_counter` -/
  | pushCas (f : SendFrame) (UC : ℕ)
  /-- `update_counter` is stepped again, then `TRUE` is returned -/
  | pushInc (f : SendFrame) (UC : ℕ)
  /-- an assert failed -/
  | failed

/-- One atomic step of a sender: the memory it leaves, where it stands then, and
the send it completes if it completes one. -/
def sendProgram (sh : Shared) : SendPc → Shared × SendPc × Option SendFrame
  | .idle => (sh, .idle, none)
  | .tailAck m => (sh, .tailUpdate m sh.q.ack_counter, none)
  | .tailUpdate m tempAC =>
    let lastUC := lastCompleted sh.q.update_counter
    match tailStatus lastUC tempAC with
    | MCAPI_SUCCESS => (sh, .readBuffIndex m (qindexOf lastUC), none)
    | MCAPI_ERR_QUEUE_FULL => (sh, .idle, none)
    | _ => (sh, .tailAck m, none)
  | .readBuffIndex m qindex => (sh, .checkBuffIndex m qindex, none)
  | .checkBuffIndex m qindex =>
    if (sh.q.elements qindex).buff_index = 0 then (sh, .casReserve m qindex, none)
    else (sh, .failed, none)
  | .casReserve m qindex =>
    let result := sh.casState qindex BUFFER_FREE BUFFER_RESERVED
    if result.1 then (result.2, .allocBuffer m qindex 0, none) else (result.2, .tailAck m, none)
  | .allocBuffer m qindex i =>
    if i < MCAPI_MAX_BUFFERS then
      let result := sh.casMagic i 0 MAGIC_NUM
      if result.1 then (result.2, .setParent ⟨m, qindex, i⟩, none)
      else (result.2, .allocBuffer m qindex (i + 1), none)
    else (sh, .unreserve m qindex, none)
  | .unreserve _ qindex =>
    (sh.setElement qindex { sh.q.elements qindex with state := BUFFER_FREE }, .idle, none)
  | .setParent f =>
    (sh.setBuffer f.i { sh.buffers f.i with parent := some f.qindex }, .copy f 0, none)
  | .copy f k =>
    if sh.q.channel_type = MCAPI_SCL_CHAN then
      (sh.setBuffer f.i { sh.buffers f.i with scalar := f.msg.scalar }, .setSize f, none)
    else if k < f.msg.buffer_size then
      (sh.setBuffer f.i { sh.buffers f.i with
        buff := Function.update (sh.buffers f.i).buff k (f.msg.buffer k) }, .copy f (k + 1), none)
    else (sh, .setSize f, none)
  | .setSize f =>
    (sh.setBuffer f.i { sh.buffers f.i with size := f.msg.buffer_size }, .setBuffIndex f, none)
  | .setBuffIndex f =>
    (sh.setElement f.qindex { sh.q.elements f.qindex with buff_index := validIndex f.i },
      .casAllocated f, none)
  | .casAllocated f =>
    let result := sh.casState f.qindex BUFFER_RESERVED BUFFER_ALLOCATED
    if result.1 then (result.2, .pushUpdate f, none) else (result.2, .failed, none)
  | .pushUpdate f =>
    let UC := sh.q.update_counter
    if UC % 2 ≠ 0 then (sh, .pushUpdate f, none) else (sh, .pushAck f UC, none)
  | .pushAck f UC =>
    match tailStatus (lastCompleted UC) sh.q.ack_counter with
    | MCAPI_SUCCESS => (sh, .pushCas f UC, none)
    | _ => (sh, .failed, none)
  | .pushCas f UC =>
    if sh.q.update_counter = UC then (sh.setUpdateCounter (u32 (UC + 1)), .pushInc f UC, none)
    else (sh, .pushUpdate f, none)
  | .pushInc f UC =>
    let sh' := sh.setUpdateCounter (u32 (sh.q.update_counter + 1))
    if f.qindex = qindexOf (lastCompleted UC) then (sh', .idle, some f) else (sh', .failed, none)
  | .failed => (sh, .failed, none)

/-! ## `mcapi_trans_recv` -/

/-- The arguments of a receive. -/
structure RecvArgs where
  buffer_size : ℕ
  blocking : Bool
  deriving DecidableEq

/-- Where a receiver stands. -/
inductive RecvPc
  | idle
  /-- `queue_head` reads `update_counter` -/
  | headUpdate (f : RecvArgs)
  /-- `queue_head` reads `ack_counter` -/
  | headAck (f : RecvArgs) (tempUC : ℕ)
  /-- `mrapi_atomic_read` of the entry's state -/
  | readState (f : RecvArgs) (qindex : ℕ)
  /-- `mrapi_atomic_read` of the entry's `buff_index` -/
  | readBuffIndex (f : RecvArgs) (qindex : ℕ) (oldbstate : mcapi_buffer_state)
  /-- the exchange `BUFFER_ALLOCATED` to `BUFFER_RECEIVED` -/
  | casReceived (f : RecvArgs) (qindex : ℕ)
  /-- `mcapi_trans_recv_` reads `buff_index` -/
  | recvBuffIndex (f : RecvArgs) (qindex : ℕ)
  /-- `db_buff->parent = buf` -/
  | setParent (f : RecvArgs) (qindex index : ℕ)
  /-- `size = db_buff->size` -/
  | readSize (f : RecvArgs) (qindex index : ℕ)
  /-- the pointer, the scalar, or the next byte of the message is copied out -/
  | copy (f : RecvArgs) (qindex index size : ℕ) (data : List UInt8)
  /-- the exchange `MAGIC_NUM` to `0` on the buffer's marker -/
  | freeBuffer (f : RecvArgs) (qindex index : ℕ) (d : Delivery)
  /-- `buf->reserved = MCAPI_FALSE` -/
  | clearReserved (f : RecvArgs) (qindex : ℕ) (d : Delivery)
  /-- `buf->buff_index = 0` -/
  | clearBuffIndex (f : RecvArgs) (qindex : ℕ) (d : Delivery)
  /-- the entry is set to `BUFFER_FREE` -/
  | setFree (f : RecvArgs) (qindex : ℕ) (d : Delivery)
  /-- `pop_queue` reads `ack_counter` -/
  | popAck (f : RecvArgs) (d : Delivery)
  /-- `pop_queue` reads `update_counter` and tests for an empty queue -/
  | popUpdate (f : RecvArgs) (d : Delivery) (AC : ℕ)
  /-- the exchange `AC` to `AC + 1` on `ack_counter` -/
  | popCas (f : RecvArgs) (d : Delivery) (AC : ℕ)
  /-- `ack_counter` is stepped again, then `TRUE` is returned -/
  | popInc (f : RecvArgs) (d : Delivery)
  /-- an assert failed -/
  | failed

/-- Nothing to receive: a blocking receive starts over, another returns `FALSE`. -/
def RecvArgs.retry (f : RecvArgs) : RecvPc := if f.blocking then .headUpdate f else .idle

/-- One atomic step of a receiver: the memory it leaves, where it stands then,
and the receive it completes if it completes one. -/
def recvProgram (sh : Shared) : RecvPc → Shared × RecvPc × Option (RecvArgs × Delivery)
  | .idle => (sh, .idle, none)
  | .headUpdate f => (sh, .headAck f sh.q.update_counter, none)
  | .headAck f tempUC =>
    let lastAC := lastCompleted sh.q.ack_counter
    match headStatus tempUC lastAC with
    | MCAPI_SUCCESS => (sh, .readState f (qindexOf lastAC), none)
    | MCAPI_ERR_QUEUE_EMPTY => (sh, f.retry, none)
    | _ => (sh, .headUpdate f, none)
  | .readState f qindex => (sh, .readBuffIndex f qindex (sh.q.elements qindex).state, none)
  | .readBuffIndex f qindex oldbstate =>
    if oldbstate ≠ BUFFER_ALLOCATED ∨ (sh.q.elements qindex).buff_index = 0 then
      (sh, f.retry, none)
    else (sh, .casReceived f qindex, none)
  | .casReceived f qindex =>
    let result := sh.casState qindex BUFFER_ALLOCATED BUFFER_RECEIVED
    if result.1 then (result.2, .recvBuffIndex f qindex, none) else (result.2, .failed, none)
  | .recvBuffIndex f qindex =>
    (sh, .setParent f qindex (bufferIndex (sh.q.elements qindex).buff_index), none)
  | .setParent f qindex index =>
    (sh.setBuffer index { sh.buffers index with parent := some qindex },
      .readSize f qindex index, none)
  | .readSize f qindex index => (sh, .copy f qindex index (sh.buffers index).size [], none)
  | .copy f qindex index size data =>
    match sh.q.channel_type with
    | MCAPI_PKT_CHAN => (sh, .clearReserved f qindex ⟨size, .packet index⟩, none)
    | MCAPI_SCL_CHAN =>
      (sh, .freeBuffer f qindex index ⟨size, .scalar (sh.buffers index).scalar⟩, none)
    | MCAPI_NO_CHAN =>
      if data.length < min size f.buffer_size then
        (sh, .copy f qindex index size (data ++ [(sh.buffers index).buff data.length]), none)
      else (sh, .freeBuffer f qindex index ⟨size, .message data⟩, none)
  | .freeBuffer f qindex index d =>
    let result := sh.casMagic index MAGIC_NUM 0
    if result.1 then (result.2, .clearReserved f qindex d, none) else (result.2, .failed, none)
  | .clearReserved f qindex d =>
    (sh.setElement qindex { sh.q.elements qindex with reserved := false },
      .clearBuffIndex f qindex d, none)
  | .clearBuffIndex f qindex d =>
    (sh.setElement qindex { sh.q.elements qindex with buff_index := 0 }, .setFree f qindex d, none)
  | .setFree f qindex d =>
    (sh.setElement qindex { sh.q.elements qindex with state := BUFFER_FREE }, .popAck f d, none)
  | .popAck f d =>
    let AC := sh.q.ack_counter
    if AC % 2 ≠ 0 then (sh, .popAck f d, none) else (sh, .popUpdate f d AC, none)
  | .popUpdate f d AC =>
    match headStatus sh.q.update_counter (lastCompleted AC) with
    | MCAPI_SUCCESS => (sh, .popCas f d AC, none)
    | _ => (sh, .failed, none)
  | .popCas f d AC =>
    if sh.q.ack_counter = AC then (sh.setAckCounter (u32 (AC + 1)), .popInc f d, none)
    else (sh, .popAck f d, none)
  | .popInc f d => (sh.setAckCounter (u32 (sh.q.ack_counter + 1)), .idle, some (f, d))
  | .failed => (sh, .failed, none)

/-! ## The clients together -/

/-- A send that returned `TRUE`: whose it was, and its frame. -/
structure Sent (σ : Type) where
  sender : σ
  frame : SendFrame

/-- A receive that returned `TRUE`. -/
structure Received (ρ : Type) where
  receiver : ρ
  args : RecvArgs
  delivery : Delivery

/-- The memory, where every client stands, and what has been completed. -/
structure Fifo (σ ρ : Type) where
  sh : Shared
  spc : σ → SendPc
  rpc : ρ → RecvPc
  sent : List (Sent σ)
  received : List (Received ρ)

inductive FifoLabel (σ ρ : Type)
  /-- `x` calls `mcapi_trans_send` -/
  | send (x : σ) (m : Msg)
  /-- `y` calls `mcapi_trans_recv` -/
  | recv (y : ρ) (f : RecvArgs)
  /-- the next atomic step of sender `x` -/
  | stepSend (x : σ)
  /-- the next atomic step of receiver `y` -/
  | stepRecv (y : ρ)

/-- A sender outside `mcapi_trans_send`. -/
def SendPc.isIdle : SendPc → Bool
  | .idle => true
  | _ => false

/-- A receiver outside `mcapi_trans_recv`. -/
def RecvPc.isIdle : RecvPc → Bool
  | .idle => true
  | _ => false

section System

variable {σ ρ : Type} [DecidableEq σ] [DecidableEq ρ]

def fifoStep (s : Fifo σ ρ) : FifoLabel σ ρ → Option (Fifo σ ρ)
  | .send x m =>
    if (s.spc x).isIdle then some { s with spc := Function.update s.spc x (.tailAck m) } else none
  | .recv y f =>
    if (s.rpc y).isIdle then some { s with rpc := Function.update s.rpc y (.headUpdate f) }
    else none
  | .stepSend x =>
    let next := sendProgram s.sh (s.spc x)
    some { s with
      sh := next.1
      spc := Function.update s.spc x next.2.1
      sent := s.sent ++ (next.2.2.map (Sent.mk x)).toList }
  | .stepRecv y =>
    let next := recvProgram s.sh (s.rpc y)
    some { s with
      sh := next.1
      rpc := Function.update s.rpc y next.2.1
      received := s.received ++ (next.2.2.map fun r => Received.mk y r.1 r.2).toList }

/-- A fresh endpoint with an arbitrary pool, all clients outside. -/
def Fifo.init (σ ρ : Type) (ct : channel_type) (pool : ℕ → buffer_entry) : Fifo σ ρ :=
  ⟨⟨queue.zero ct, pool⟩, fun _ => .idle, fun _ => .idle, [], []⟩

end System

end MxApi
