/-
The receive queue of a message endpoint in the lock-based transport, and the calls
that work on it (`Fragments/transport_sm_queue.c`,
`Fragments/transport_sm_request.c`, `transport_sm.c`).

Every function here runs under `global_rwl`, so a call is one step. The ring has
bubbles, entries from which a message was taken out of order, and reservations,
entries that wait for the message that a receive was promised; reservations may
lie beyond the tail. An entry stores the handle of a request, here its index, and
the index of a buffer under a mark, and zero for none; here these are options.
The bytes of a buffer are the message that was copied into it. `none` as the
result of a call says that an assert fails.
-/
import Mathlib.Logic.Function.Basic
import Mathlib.Tactic.Common
import MxApi.Lib.Search
import MxApi.Mcapi.Database
import MxApi.Mcapi.Tables

set_option autoImplicit false

namespace MxApi.Baseline

open Lib CallStatus

/-! ## The queue -/

abbrev Message := List UInt8

structure buffer_descriptor where
  request : Option ℕ
  buff_index : Option ℕ
  invalid : Bool
  deriving DecidableEq, Repr

structure queue where
  num_elements : ℕ
  head : ℕ
  tail : ℕ
  elements : ℕ → buffer_descriptor

/-- A buffer of the pool; `magic_num` says that it is in use. -/
structure buffer_entry where
  magic_num : Bool
  size : ℕ
  buff : Message
  deriving DecidableEq, Repr

def buffer_entry.zero : buffer_entry := ⟨false, 0, []⟩

namespace queue

variable (q : queue)

/-- `(q->head + i) % MCAPI_MAX_QUEUE_ENTRIES` -/
def fromHead (i : ℕ) : ℕ := (q.head + i) % MCAPI_MAX_QUEUE_ENTRIES

def setElement (qindex : ℕ) (e : buffer_descriptor) : queue :=
  { q with elements := Function.update q.elements qindex e }

end queue

/-- Nothing is reserved here and nothing stored. -/
def buffer_descriptor.vacant (e : buffer_descriptor) : Bool :=
  e.request.isNone && e.buff_index.isNone

/-- A message that no request waits for. -/
def buffer_descriptor.available (e : buffer_descriptor) : Bool :=
  e.request.isNone && e.buff_index.isSome

/-- The loop of `mcapi_trans_compact_queue`; it stands still at the tail, and so
after at most as many rounds as there are entries. -/
def compactLoop : ℕ → queue → queue
  | 0, q => q
  | n + 1, q =>
    if q.head = q.tail ∨ (q.elements q.head).vacant = false then q
    else
      -- advance the head pointer
      let q := q.setElement q.head { q.elements q.head with invalid := false }
      compactLoop n { q with head := (q.head + 1) % MCAPI_MAX_QUEUE_ENTRIES }

/-- `mcapi_assert (q->head != q->tail)`, where there are elements. -/
def assertElements (q : queue) : Option queue :=
  if q.num_elements > 0 ∧ q.head = q.tail then none else some q

def mcapi_trans_compact_queue (q : queue) : Option queue :=
  assertElements (compactLoop MCAPI_MAX_QUEUE_ENTRIES q)

def mcapi_trans_full_queue (q : queue) : Bool :=
  (q.tail + 1) % MCAPI_MAX_QUEUE_ENTRIES = q.head

/-- The first message from the head on that no request waits for. -/
def firstAvailable (q : queue) : Option ℕ :=
  search MCAPI_MAX_QUEUE_ENTRIES fun i => (q.elements (q.fromHead i)).available

def mcapi_trans_empty_queue (q : queue) : Bool :=
  q.head = q.tail || (firstAvailable q).isNone

def mcapi_trans_push_queue (q : queue) : Option (queue × ℕ) :=
  if mcapi_trans_full_queue q then none
  else
    let i := q.tail
    let q := { q with
      num_elements := q.num_elements + 1
      tail := (q.tail + 1) % MCAPI_MAX_QUEUE_ENTRIES }
    if q.head = q.tail then none else some (q, i)

def mcapi_trans_pop_queue (q : queue) : Option (queue × ℕ) :=
  if q.head = q.tail then none
  else
    match firstAvailable q with
    | none => none
    | some i =>
      let x := q.fromHead i
      let q := { q with num_elements := q.num_elements - 1 }
      -- if we are removing from the front of the queue, then move head
      let q :=
        if x = q.head then { q with head := (q.head + 1) % MCAPI_MAX_QUEUE_ENTRIES }
        else q.setElement x { q.elements x with invalid := true }
      match assertElements q with
      | none => none
      | some q => (mcapi_trans_compact_queue q).map fun q => (q, x)

/-! ## The endpoint -/

/-- What a request of a receive holds: the size of the caller's buffer until it is
completed, then the size received. -/
structure RecvRequest where
  size : ℕ
  completed : Bool
  status : CallStatus
  deriving DecidableEq, Repr

/-- The endpoint's queue, the pool of buffers and the requests; `none` is a request
that is not valid. -/
structure Endpoint where
  recv_queue : queue
  buffers : ℕ → buffer_entry
  requests : ℕ → Option RecvRequest

def Endpoint.setRequest (ep : Endpoint) (r : ℕ) (v : Option RecvRequest) : Endpoint :=
  { ep with requests := Function.update ep.requests r v }

def mcapi_trans_send_have_lock (ep : Endpoint) (buffer : Message) : Option (Endpoint × Bool) :=
  if mcapi_trans_full_queue ep.recv_queue then
    -- we couldn't get space in the endpoints receive queue, try to compact the queue
    (mcapi_trans_compact_queue ep.recv_queue).map fun q => ({ ep with recv_queue := q }, false)
  else
    match search MCAPI_MAX_BUFFERS fun i => !(ep.buffers i).magic_num with
    | none => some (ep, false)
    | some i =>
      match mcapi_trans_push_queue ep.recv_queue with
      | none => none
      | some (q, qindex) =>
        some ({ ep with
          recv_queue := q.setElement qindex { q.elements qindex with buff_index := some i }
          buffers := Function.update ep.buffers i ⟨true, buffer.length, buffer⟩ }, true)

/-- What is copied to the caller, and the size of the message. -/
structure Received where
  buffer : Message
  received_size : ℕ
  deriving DecidableEq, Repr

def mcapi_trans_recv_have_lock_ (ep : Endpoint) (buffer_size qindex : ℕ) :
    Endpoint × Received :=
  let q := ep.recv_queue
  let index := (q.elements qindex).buff_index.getD 0
  let size := (ep.buffers index).size
  let copied := (ep.buffers index).buff.take (min buffer_size size)
  ({ ep with
      recv_queue := q.setElement qindex { q.elements qindex with buff_index := none }
      buffers := Function.update ep.buffers index buffer_entry.zero },
    ⟨copied, size⟩)

/-- A non-blocking receive. -/
def mcapi_trans_recv_have_lock (ep : Endpoint) (buffer_size : ℕ) :
    Option (Endpoint × Option Received) :=
  if mcapi_trans_empty_queue ep.recv_queue then some (ep, none)
  else
    match mcapi_trans_pop_queue ep.recv_queue with
    | none => none
    | some (q, qindex) =>
      let (ep, received) := mcapi_trans_recv_have_lock_ { ep with recv_queue := q }
        buffer_size qindex
      some (ep, some received)

/-- The first entry from the head on with no request that is not a bubble. -/
def firstUnreserved (q : queue) : Option ℕ :=
  search MCAPI_MAX_QUEUE_ENTRIES fun i =>
    let e := q.elements (q.fromHead i)
    e.request.isNone && !e.invalid

/-- The set-up of a receive that found the queue empty. -/
def setup_request_have_lock_recv (ep : Endpoint) (r size : ℕ) : Endpoint :=
  let q := ep.recv_queue
  match firstUnreserved q with
  | none => ep.setRequest r (some ⟨size, true, MCAPI_ERR_MEM_LIMIT⟩)
  | some i =>
    let qindex := q.fromHead i
    let q := q.setElement qindex { q.elements qindex with request := some r }
    { ep with recv_queue := q }.setRequest r (some ⟨size, false, MCAPI_SUCCESS⟩)

/-- `mcapi_trans_msg_recv_i` with the request `r` that was reserved for it. -/
def mcapi_trans_msg_recv_i (ep : Endpoint) (r buffer_size : ℕ) :
    Option (Endpoint × Option Received) :=
  match mcapi_trans_recv_have_lock ep buffer_size with
  | none => none
  | some (ep, some received) =>
    some (ep.setRequest r (some ⟨received.received_size, true, MCAPI_SUCCESS⟩), some received)
  | some (ep, none) => some (setup_request_have_lock_recv ep r buffer_size, none)

/-- The entry that a request has reserved. -/
def reservedEntry (q : queue) (r : ℕ) : Option ℕ :=
  search MCAPI_MAX_QUEUE_ENTRIES fun i => decide ((q.elements i).request = some r)

/-- What a completed request holds: a message that is larger than the buffer was
cut off. -/
def completedRequest (size : ℕ) (received : Received) : RecvRequest :=
  if received.received_size > size then ⟨size, true, MCAPI_ERR_MSG_TRUNCATED⟩
  else ⟨received.received_size, true, MCAPI_SUCCESS⟩

/-- The attempt to complete request `r`, whose buffer has the given size. -/
def check_receive_request_have_lock (ep : Endpoint) (r size : ℕ) :
    Option (Endpoint × Option Received) :=
  match reservedEntry ep.recv_queue r with
  -- we should have found the outstanding request
  | none => none
  | some i =>
    let e := ep.recv_queue.elements i
    if e.buff_index.isSome then
      let q := ep.recv_queue.setElement i { e with request := none }
      let (ep, received) := mcapi_trans_recv_have_lock_ { ep with recv_queue := q } size i
      let q := ep.recv_queue
      let q := { q with num_elements := q.num_elements - 1 }
      -- mark this entry as invalid so that the "bubble" won't be re-used
      let q := q.setElement i { q.elements i with invalid := true }
      (mcapi_trans_compact_queue q).map fun q =>
        ({ ep with recv_queue := q }.setRequest r (some (completedRequest size received)),
          some received)
    else some (ep, none)

/-- The loop that shifts the reservations down, in the round number `i` and with
`n` rounds left; the last free entry is `last`. -/
def shiftLoop (q : queue) (start : ℕ) :
    ℕ → ℕ → ℕ → (ℕ → buffer_descriptor) → (ℕ → buffer_descriptor)
  | 0, _, _, elements => elements
  | n + 1, i, last, elements =>
    let curr := (i + start) % MCAPI_MAX_QUEUE_ENTRIES
    -- don't cross over the head or the tail
    if curr = q.tail ∧ curr ≠ start then elements
    else if curr = q.head ∧ curr ≠ start then elements
    else if (elements curr).request.isSome then
      let moved := Function.update elements last
        { elements last with request := (elements curr).request }
      let moved := Function.update moved curr { moved curr with request := none }
      shiftLoop q start n (i + 1) curr moved
    else shiftLoop q start n (i + 1) last elements

def cancel_receive_request_have_lock (ep : Endpoint) (r : ℕ) : Option Endpoint :=
  match reservedEntry ep.recv_queue r with
  | none => none
  | some start =>
    let q := ep.recv_queue
    let q := q.setElement start { q.elements start with request := none }
    let elements := shiftLoop q start MCAPI_MAX_QUEUE_ENTRIES 0 start q.elements
    some { ep with recv_queue := { q with elements := elements } }

/-! ## Runs -/

/-- A receive operation: its request, if it is non-blocking, the size of its buffer
and what it was given. -/
structure Receive where
  request : Option ℕ
  size : ℕ
  result : Option Message
  deriving DecidableEq, Repr

/-- The endpoint, with the messages accepted so far and the receive operations that
were issued and not cancelled, each in order. -/
structure Traffic where
  ep : Endpoint
  accepted : List Message
  issued : List Receive

inductive QueueCall
  | send (buffer : Message)
  | recv (buffer_size : ℕ)
  | recv_i (r buffer_size : ℕ)
  | test_i (r : ℕ)
  | cancel (r : ℕ)

/-- The operation is the one that waits with request `r`. -/
def Receive.waits (x : Receive) (r : ℕ) : Bool :=
  decide (x.request = some r) && x.result.isNone

/-- The waiting operation of request `r` is given a message. -/
def deliver (issued : List Receive) (r : ℕ) (buffer : Message) : List Receive :=
  issued.map fun x => if x.waits r then { x with result := some buffer } else x

def queueStep (s : Traffic) : QueueCall → Option Traffic
  | .send buffer =>
    match mcapi_trans_send_have_lock s.ep buffer with
    | none => none
    | some (ep, true) => some { s with ep := ep, accepted := s.accepted ++ [buffer] }
    | some (ep, false) => some { s with ep := ep }
  | .recv buffer_size =>
    match mcapi_trans_recv_have_lock s.ep buffer_size with
    | none => none
    | some (ep, none) => some { s with ep := ep }
    | some (ep, some received) =>
      some { s with
        ep := ep
        issued := s.issued ++ [⟨none, buffer_size, some received.buffer⟩] }
  | .recv_i r buffer_size =>
    -- the request was reserved, it belongs to no other operation
    if (s.ep.requests r).isSome then none
    else
      match mcapi_trans_msg_recv_i s.ep r buffer_size with
      | none => none
      | some (ep, some received) =>
        some { s with
          ep := ep
          issued := s.issued ++ [⟨some r, buffer_size, some received.buffer⟩] }
      | some (ep, none) =>
        -- a receive that is refused for want of an entry is not issued
        if (ep.requests r).any RecvRequest.completed then some { s with ep := ep }
        else some { s with ep := ep, issued := s.issued ++ [⟨some r, buffer_size, none⟩] }
  | .test_i r =>
    match s.ep.requests r with
    | none => some s
    | some ⟨_, true, _⟩ => some { s with ep := s.ep.setRequest r none }
    | some ⟨size, false, _⟩ =>
      match check_receive_request_have_lock s.ep r size with
      | none => none
      | some (ep, none) => some { s with ep := ep }
      | some (ep, some received) =>
        some { s with
          ep := ep.setRequest r none
          issued := deliver s.issued r received.buffer }
  | .cancel r =>
    match s.ep.requests r with
    | none => some s
    | some ⟨_, true, _⟩ => some s
    | some ⟨_, false, _⟩ =>
      (cancel_receive_request_have_lock s.ep r).map fun ep =>
        { s with
          ep := ep.setRequest r none
          issued := s.issued.filter fun x => !x.waits r }

/-- The endpoint of zeroed memory. -/
def initialTraffic : Traffic :=
  ⟨⟨⟨0, 0, 0, fun _ => ⟨none, none, false⟩⟩, fun _ => buffer_entry.zero, fun _ => none⟩, [], []⟩

end MxApi.Baseline
