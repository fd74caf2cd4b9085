/-
The invariant of one receive request that is tested and cancelled.

The request's state says what has happened: as long as it is `REQUEST_VALID`
nothing, and the head of the queue is in the queue or a tester has just marked
it; in `REQUEST_RECEIVED` one tester receives; a completed or a cancelled request
is removed by one tester, which reports it. The endpoint keeps the invariant of
FIFO message exchange throughout, the tester that has the head being its
receiver.
-/
import MxApi.Lib.Section
import MxApi.Mcapi.CheckReceive
import MxApi.Mcapi.FifoSingle

set_option autoImplicit false

namespace MxApi.CheckReceive

open Lib channel_type mcapi_buffer_state mcapi_request_state CallStatus

/-! ## Where a tester stands in the endpoint's program -/

/-- The program points at which a receive pops the queue. -/
def pops : RecvPc → Bool
  | .popAck .. | .popUpdate .. | .popCas .. | .popInc .. => true
  | _ => false

/-- The program point `q` of the receive at the tester's program point `p`. -/
def TestPc.Fits (q : RecvPc) : TestPc → Prop
  | .receive => q.inside = true ∨ ∃ f j, q = .casReceived f j
  | .casRequest | .setStatus | .passSize => ∃ f j, q = .recvBuffIndex f j
  | .storeSize size => ∃ f j i, q = .copy f j i size []
  | .truncate _ | .setSize _ | .setTruncated | .casCompleted => ∃ f d, q = .popAck f d
  | .failed => False
  | _ => q = .idle

/-! ## What a tester knows -/

/-- What a request for `n` bytes reports when it is completed with `d`. -/
def outcome (ct : channel_type) (n : ℕ) (d : Delivery) : Report :=
  if ct ≠ MCAPI_PKT_CHAN ∧ d.received_size > n then ⟨n, MCAPI_ERR_MSG_TRUNCATED⟩
  else ⟨d.received_size, MCAPI_SUCCESS⟩

/-- A receive for `n` bytes has stored `size` in the request once it has read it. -/
def Sized (n size : ℕ) : RecvPc → Prop
  | .recvBuffIndex f _ | .setParent f _ _ | .readSize f _ _ => f.buffer_size = n
  | .copy f _ _ size' _ => f.buffer_size = n ∧ size = size'
  | .freeBuffer f _ _ d | .clearReserved f _ d | .clearBuffIndex f _ d | .setFree f _ d =>
    f.buffer_size = n ∧ size = d.received_size
  | _ => False

/-- A receive for `n` bytes is to pop the queue and deliver what `P` holds of. -/
def Pop (n : ℕ) (q : RecvPc) (P : Delivery → Prop) : Prop :=
  ∃ f d, q = .popAck f d ∧ f.buffer_size = n ∧ P d

/-- What a tester knows when the request is in state `state` and `size` and
`status` are stored in it. -/
def TestPc.Knows (ct : channel_type) (n : ℕ) (state : mcapi_request_state) (size : ℕ)
    (status : CallStatus) (q : RecvPc) : TestPc → Prop
  | .receive =>
    (pops q = true → state = REQUEST_COMPLETED ∨ state = REQUEST_FREE) ∧
      (q.inside = true → pops q = false →
        state = REQUEST_RECEIVED ∧ status = MCAPI_SUCCESS ∧ Sized n size q)
  | .casRequest => state = REQUEST_VALID ∧ size = n
  | .setStatus => state = REQUEST_RECEIVED ∧ size = n
  | .passSize => state = REQUEST_RECEIVED ∧ size = n ∧ status = MCAPI_SUCCESS
  | .storeSize _ => state = REQUEST_RECEIVED ∧ status = MCAPI_SUCCESS ∧
      ∀ f j i size' data, q = .copy f j i size' data → f.buffer_size = n
  | .truncate m => state = REQUEST_RECEIVED ∧ status = MCAPI_SUCCESS ∧ m = n ∧
      Pop n q fun d => size = d.received_size
  | .setSize m => state = REQUEST_RECEIVED ∧ m = n ∧
      Pop n q fun d => ct ≠ MCAPI_PKT_CHAN ∧ d.received_size > n
  | .setTruncated => state = REQUEST_RECEIVED ∧ size = n ∧
      Pop n q fun d => ct ≠ MCAPI_PKT_CHAN ∧ d.received_size > n
  | .casCompleted => state = REQUEST_RECEIVED ∧ Pop n q fun d => ⟨size, status⟩ = outcome ct n d
  | .setCancelled => state = REQUEST_CANCELLED ∨ state = REQUEST_FREE
  | .queryCompleted rc st | .queryCancelled rc st =>
    (rc = true → st = none → (state = REQUEST_CANCELLED ∨ state = REQUEST_FREE) ∧
      status = MCAPI_ERR_REQUEST_CANCELLED) ∧
      ∀ st', st = some st' → rc = true ∧ st' = MCAPI_ERR_REQUEST_INVALID
  | _ => True

/-! ## The tester that removes the request -/

/-- The program points of a tester that has found the request finished. -/
def TestPc.removing : TestPc → Bool
  | .takeSize | .takeStatus _ | .remove .. => true
  | _ => false

/-- A finished request: a cancelled one has the status that says so. -/
def Finished (state : mcapi_request_state) (status : CallStatus) : Prop :=
  state = REQUEST_COMPLETED ∨
    (state = REQUEST_CANCELLED ∧ status = MCAPI_ERR_REQUEST_CANCELLED)

/-- What the tester that removes the request knows; `bit` is the request's bit. -/
def Removes (r : ℕ) (state : mcapi_request_state) (size : ℕ) (status : CallStatus) (bit : Bool) :
    TestPc → Prop
  | .takeSize => Finished state status ∧ bit = true
  | .takeStatus m => Finished state status ∧ bit = true ∧ m = size
  | .remove m st p => Finished state status ∧ m = size ∧ st = status ∧
      ((p = .clearBit r ∧ bit = true) ∨
        ((p = .decCount r ∨ p = .clearQindex r ∨ p = .casCompleted r ∨
          (p = .casCancelled r ∧ state = REQUEST_CANCELLED)) ∧ bit = false))
  | _ => False

/-! ## What has happened -/

/-- What the request's state says has happened. `Message` holds of the delivery of
the head. -/
def Progress (ct : channel_type) (n : ℕ) (Message : Delivery → Prop)
    (state : mcapi_request_state) {τ : Type} (s : WaitSys τ) : Prop :=
  match state with
  | REQUEST_VALID => s.size = n ∧ s.completed = none ∧ s.cancels = 0 ∧ s.released = 0 ∧
      s.reports = []
  | REQUEST_RECEIVED => s.completed = none ∧ s.cancels = 0 ∧ s.released = 0 ∧ s.reports = []
  | REQUEST_COMPLETED => ∃ d, s.completed = some d ∧ Message d ∧
      ⟨s.size, s.status⟩ = outcome ct n d ∧ s.cancels = 0 ∧ s.released = 0 ∧ s.reports = []
  | REQUEST_CANCELLED => s.completed = none ∧ s.cancels = 1 ∧ s.released = 0 ∧ s.reports = []
  | REQUEST_FREE => s.released = 1 ∧
      ((∃ d, s.completed = some d ∧ Message d ∧ s.cancels = 0 ∧
          s.reports = [outcome ct n d]) ∨
        (s.completed = none ∧ s.cancels = 1 ∧
          ∃ m, s.reports = [⟨m, MCAPI_ERR_REQUEST_CANCELLED⟩]))

/-- The delivery of the message after the first `a`, into `n` bytes. -/
def IsMessage {τ : Type} (ct : channel_type) (n a : ℕ) (s : WaitSys τ) (d : Delivery) : Prop :=
  ∃ e, s.fifo.frames[a]? = some e ∧ d = deliver ct e n

/-- The invariant: `w` is the sender that has an entry, `ro` the receive that has
the head, `v` the tester that removes the request; `a` messages had been received
when the request was set up for `n` bytes. -/
structure WaitInv {τ : Type} (ct : channel_type) (r n a : ℕ) (w : Option SendPc)
    (ro : Option RecvPc) (v : Option TestPc) (s : WaitSys τ) : Prop where
  fifo : FifoInv ct w ro s.fifo
  knows : SenderKnows ro s.fifo
  fits : ∀ t, (s.tpc t).Fits (s.fifo.rpc t)
  testers : ∀ t, (s.tpc t).Knows ct n (s.rq.data r).state s.size s.status (s.fifo.rpc t)
  progress : Progress ct n (IsMessage ct n a s) (s.rq.data r).state s
  waiting : s.completed = none → s.fifo.received.length = a
  taken : s.completed ≠ none → s.fifo.received.length + busy ro = a + 1
  cancelled : 0 < s.cancels → ro = none
  received : (s.rq.data r).state = REQUEST_RECEIVED → ro ≠ none
  finishing : (s.rq.data r).state = REQUEST_COMPLETED →
    v ≠ none ∨ ro ≠ none ∨ ∃ t rc st, s.tpc t = .queryCompleted rc st
  remover : Active TestPc.removing s.tpc v
  removes : ∀ p, v = some p → Removes r (s.rq.data r).state s.size s.status (s.rq.bit r) p
  bit : v = none → (s.rq.bit r = true ↔ (s.rq.data r).state ≠ REQUEST_FREE)
  rejected : ∀ st ∈ s.rejected, st = some MCAPI_ERR_REQUEST_INVALID

end MxApi.CheckReceive
