/-
One outstanding receive request that several threads test and one cancels, while
a sender sends (`Fragments/transport_sm_wait_abb.c`,
`Fragments/transport_sm_request_abb.c`): `mcapi_trans_test_i` with
`check_receive_request_` and `mcapi_trans_remove_request`, and
`mcapi_trans_cancel`, as programs of atomic steps.

The endpoint is that of FIFO message exchange. A tester that has found its
message takes it with the steps of `mcapi_trans_recv_` and `pop_queue`, which
are the program of a receive from its exchange on: `TestPc.receive` says that
the next step is that program's, and between them stand the exchanges on the
request. The pointer to the user's buffer is not modelled; what is copied there
is the delivery. `mcapi_trans_wait` is `mcapi_trans_test_i` again and again.

A thread keeps its own copy of the request handle, so it may test the request
after another one has seen it finished.
-/
import MxApi.Mcapi.FifoSystem
import MxApi.Mcapi.RequestTable
import MxApi.Mcapi.Tables

set_option autoImplicit false

namespace MxApi.CheckReceive

open Lib channel_type mcapi_buffer_state mcapi_request_state CallStatus

/-! ## The threads -/

/-- Where a tester stands. `rc` and `st` are the result so far and the status it
has stored for the caller. -/
inductive TestPc
  | idle
  /-- `REQUEST_FREE == requests->data[r].state` -/
  | readFree
  /-- `REQUEST_CANCELLED == requests->data[r].state` -/
  | readCancelled
  /-- `status = MCAPI_ERR_REQUEST_CANCELLED` -/
  | setCancelled
  /-- `REQUEST_COMPLETED != requests->data[r].state` -/
  | readCompleted
  /-- `qindex = req->ep_qindex` -/
  | readQindex
  /-- `queue_head` reads `update_counter` -/
  | headUpdate (qindex : ℤ)
  /-- `queue_head` reads `ack_counter`; the head is compared with the request's entry -/
  | headAck (qindex : ℤ) (tempUC : ℕ)
  /-- `mrapi_atomic_read` of the entry's `buff_index` -/
  | readBuffIndex (qindex : ℕ)
  /-- the entry's state is read -/
  | readBufferState (qindex buff_index : ℕ)
  /-- the next step of the exchange on the entry, `mcapi_trans_recv_` or `pop_queue` -/
  | receive
  /-- the exchange `REQUEST_VALID` to `REQUEST_RECEIVED` -/
  | casRequest
  /-- `req->status = MCAPI_SUCCESS` -/
  | setStatus
  /-- `req->size` is passed to `mcapi_trans_recv_` -/
  | passSize
  /-- `*received_size = size` -/
  | storeSize (size : ℕ)
  /-- `req->size > size` -/
  | truncate (size : ℕ)
  /-- `req->size = size` -/
  | setSize (size : ℕ)
  /-- `req->status = MCAPI_ERR_MSG_TRUNCATED` -/
  | setTruncated
  /-- the exchange `REQUEST_RECEIVED` to `REQUEST_COMPLETED` -/
  | casCompleted
  /-- `REQUEST_COMPLETED == requests->data[r].state` -/
  | queryCompleted (rc : Bool) (st : Option CallStatus)
  /-- `REQUEST_CANCELLED == requests->data[r].state` -/
  | queryCancelled (rc : Bool) (st : Option CallStatus)
  /-- `*size = requests->data[r].size` -/
  | takeSize
  /-- `*mcapi_status = requests->data[r].status` -/
  | takeStatus (size : ℕ)
  /-- the next step of `mcapi_trans_remove_request` -/
  | remove (size : ℕ) (st : CallStatus) (p : ReqPc)
  /-- an assert failed -/
  | failed

/-- Where the canceller stands. -/
inductive CancelPc
  | idle
  /-- `REQUEST_FREE == req->state` -/
  | readFree
  /-- `REQUEST_CANCELLED == req->state` -/
  | readCancelled
  /-- the exchange `REQUEST_VALID` to `REQUEST_CANCELLED` -/
  | casCancelled
  /-- `-1 != requests->data[r].ep_qindex` -/
  | readQindex
  /-- `requests->data[r].ep_qindex = -1` -/
  | clearQindex
  deriving DecidableEq

/-- A test that returned `TRUE` and removed the request: what it stored. -/
structure Report where
  size : ℕ
  status : CallStatus
  deriving DecidableEq

/-- The endpoint, the request table, the request's `status` and `size`, where the
threads stand, and what has happened. -/
structure WaitSys (τ : Type) where
  fifo : Fifo Unit τ
  rq : mcapi_requests
  status : CallStatus
  size : ℕ
  tpc : τ → TestPc
  cpc : CancelPc
  /-- what the request was completed with -/
  completed : Option Delivery
  /-- the exchanges that cancelled the request -/
  cancels : ℕ
  /-- the exchanges that freed the request -/
  released : ℕ
  /-- the tests that returned `TRUE` and removed the request -/
  reports : List Report
  /-- the statuses of the other tests that returned `TRUE`, if they stored one -/
  rejected : List (Option CallStatus)

inductive WaitLabel (τ : Type)
  /-- `mcapi_trans_send` is called -/
  | send (m : Msg)
  /-- the sender's next step -/
  | stepSend
  /-- `t` calls `mcapi_trans_test_i` -/
  | test (t : τ)
  /-- the next step of tester `t` -/
  | stepTest (t : τ)
  /-- `mcapi_trans_cancel` is called -/
  | cancel
  /-- the canceller's next step -/
  | stepCancel

def TestPc.isIdle : TestPc → Bool
  | .idle => true
  | _ => false

/-- Where a tester stands after a step of the receive: the receive's program is
left where the request is accessed, and where it ends. -/
def afterReceive : RecvPc → RecvPc → TestPc
  | _, .failed => .failed
  | .casReceived .., _ => .casRequest
  | .readSize .., .copy _ _ _ size _ => .storeSize size
  | .setFree f _ _, _ => .truncate f.buffer_size
  | .popInc .., _ => .queryCompleted false none
  | _, _ => .receive

section System

variable {τ : Type} [DecidableEq τ]

/-- Tester `t` moves to `p`. -/
def WaitSys.goto (s : WaitSys τ) (t : τ) (p : TestPc) : WaitSys τ :=
  { s with tpc := Function.update s.tpc t p }

/-- The endpoint where receiver `t` stands at `p`. -/
def recvAt (f : Fifo Unit τ) (t : τ) (p : RecvPc) : Fifo Unit τ :=
  { f with rpc := Function.update f.rpc t p }

/-- The endpoint after the next step of receiver `t`. -/
def recvStep (f : Fifo Unit τ) (t : τ) : Fifo Unit τ :=
  let next := recvProgram f.sh (f.rpc t)
  { f with
    sh := next.1
    rpc := Function.update f.rpc t next.2.1
    received := f.received ++ (next.2.2.map fun r => Received.mk t r.1 r.2).toList }

/-- `mcapi_trans_recv_` is called with the request's size. -/
def passSize (size : ℕ) : RecvPc → RecvPc
  | .recvBuffIndex _ q => .recvBuffIndex ⟨size, false⟩ q
  | p => p

/-- What a receive that is to pop the queue delivers. -/
def popDelivery : RecvPc → Option Delivery
  | .popAck _ d => some d
  | _ => none

/-- One atomic step of tester `t` of request `r`. -/
def testStep (r : ℕ) (s : WaitSys τ) (t : τ) : WaitSys τ :=
  match s.tpc t with
  | .idle => s
  | .readFree =>
    if (s.rq.data r).state = REQUEST_FREE then
      s.goto t (.queryCompleted true (some MCAPI_ERR_REQUEST_INVALID))
    else s.goto t .readCancelled
  | .readCancelled =>
    if (s.rq.data r).state = REQUEST_CANCELLED then s.goto t .setCancelled
    else s.goto t .readCompleted
  | .setCancelled =>
    { s with status := MCAPI_ERR_REQUEST_CANCELLED }.goto t (.queryCompleted true none)
  | .readCompleted =>
    if (s.rq.data r).state ≠ REQUEST_COMPLETED then s.goto t .readQindex
    else s.goto t (.queryCompleted false none)
  | .readQindex => s.goto t (.headUpdate (s.rq.data r).ep_qindex)
  | .headUpdate qindex => s.goto t (.headAck qindex s.fifo.sh.q.update_counter)
  | .headAck qindex tempUC =>
    let lastAC := lastCompleted s.fifo.sh.q.ack_counter
    if headStatus tempUC lastAC = .MCAPI_SUCCESS ∧ (qindexOf lastAC : ℤ) = qindex then
      s.goto t (.readBuffIndex (qindexOf lastAC))
    else s.goto t (.queryCompleted false none)
  | .readBuffIndex qindex =>
    s.goto t (.readBufferState qindex (s.fifo.sh.q.elements qindex).buff_index)
  | .readBufferState qindex buff_index =>
    if (s.fifo.sh.q.elements qindex).state ≠ BUFFER_ALLOCATED ∨ buff_index = 0 then
      s.goto t (.queryCompleted false none)
    else { s with fifo := recvAt s.fifo t (.casReceived ⟨0, false⟩ qindex) }.goto t .receive
  | .receive =>
    { s with fifo := recvStep s.fifo t }.goto t
      (afterReceive (s.fifo.rpc t) (recvProgram s.fifo.sh (s.fifo.rpc t)).2.1)
  | .casRequest =>
    let result := s.rq.casState r REQUEST_VALID REQUEST_RECEIVED
    if result.1 then { s with rq := result.2 }.goto t .setStatus else s.goto t .failed
  | .setStatus => { s with status := MCAPI_SUCCESS }.goto t .passSize
  | .passSize =>
    { s with fifo := recvAt s.fifo t (passSize s.size (s.fifo.rpc t)) }.goto t .receive
  | .storeSize size => { s with size := size }.goto t .receive
  | .truncate size =>
    if s.fifo.sh.q.channel_type ≠ MCAPI_PKT_CHAN ∧ s.size > size then s.goto t (.setSize size)
    else s.goto t .casCompleted
  | .setSize size => { s with size := size }.goto t .setTruncated
  | .setTruncated => { s with status := MCAPI_ERR_MSG_TRUNCATED }.goto t .casCompleted
  | .casCompleted =>
    let result := s.rq.casState r REQUEST_RECEIVED REQUEST_COMPLETED
    if result.1 then
      { s with rq := result.2, completed := popDelivery (s.fifo.rpc t) }.goto t .receive
    else s.goto t .failed
  | .queryCompleted rc st =>
    if (s.rq.data r).state = REQUEST_COMPLETED then s.goto t .takeSize
    else s.goto t (.queryCancelled rc st)
  | .queryCancelled rc st =>
    if (s.rq.data r).state = REQUEST_CANCELLED then s.goto t .takeSize
    else if rc then { s with rejected := s.rejected ++ [st] }.goto t .idle
    else s.goto t .idle
  | .takeSize => s.goto t (.takeStatus s.size)
  | .takeStatus size => s.goto t (.remove size s.status (.clearBit r))
  | .remove size st p =>
    let next := reqProgram s.rq 0 p
    match next.2.1 with
    | .idle =>
      { s with
        rq := next.1
        released := s.released + 1
        reports := s.reports ++ [Report.mk size st] }.goto t .idle
    | .failed => s.goto t .failed
    | p' => { s with rq := next.1 }.goto t (.remove size st p')
  | .failed => s

/-- One atomic step of the canceller. -/
def cancelStep (r : ℕ) (s : WaitSys τ) : WaitSys τ :=
  match s.cpc with
  | .idle => s
  | .readFree =>
    if (s.rq.data r).state = REQUEST_FREE then { s with cpc := .idle }
    else { s with cpc := .readCancelled }
  | .readCancelled =>
    if (s.rq.data r).state = REQUEST_CANCELLED then { s with cpc := .idle }
    else { s with cpc := .casCancelled }
  | .casCancelled =>
    let result := s.rq.casState r REQUEST_VALID REQUEST_CANCELLED
    if result.1 then { s with rq := result.2, cancels := s.cancels + 1, cpc := .readQindex }
    else { s with cpc := .idle }
  | .readQindex =>
    if (s.rq.data r).ep_qindex ≠ -1 then { s with cpc := .clearQindex }
    else { s with cpc := .idle }
  | .clearQindex =>
    { s with
      rq := { s.rq with
        data := Function.update s.rq.data r { s.rq.data r with ep_qindex := -1 } }
      cpc := .idle }

def waitStep (r : ℕ) (s : WaitSys τ) : WaitLabel τ → Option (WaitSys τ)
  | .send m => (fifoStep s.fifo (.send () m)).map fun f => { s with fifo := f }
  | .stepSend => (fifoStep s.fifo (.stepSend ())).map fun f => { s with fifo := f }
  | .test t => if (s.tpc t).isIdle then some (s.goto t .readFree) else none
  | .stepTest t => some (testStep r s t)
  | .cancel => if s.cpc = .idle then some { s with cpc := .readFree } else none
  | .stepCancel => some (cancelStep r s)

/-- The endpoint once `setup_request` has reserved entry `q` for a request. -/
def setReserved (f : Fifo Unit τ) (q : ℕ) : Fifo Unit τ :=
  { f with sh := f.sh.setElement q { f.sh.q.elements q with reserved := true } }

/-- The request is outstanding on the endpoint `f`, with room for `size` bytes. -/
def WaitSys.start (f : Fifo Unit τ) (rq : mcapi_requests) (q size : ℕ) : WaitSys τ :=
  ⟨setReserved f q, rq, MCAPI_SUCCESS, size, fun _ => .idle, .idle, none, 0, 0, [], []⟩

end System

end MxApi.CheckReceive
