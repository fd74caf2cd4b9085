/-
One client that sends messages, receives them and tests the requests of both.

The calls are those of either transport: `mcapi_trans_msg_send_i`,
`mcapi_trans_msg_recv_i` and `mcapi_trans_test_i`. What a transport does on each of
them is an [`Api`]; the client is the same over both. It keeps, for each operation
that it started, the variable `request` that the calls write, and its buffer. The
calls reserve their request in an order of the transport's own, so the request that
is reserved is an argument of a step.

A call on an endpoint that has an operation for every message is the same whatever
the transport: this is the abstract account, [`Mailboxes`]. Each endpoint numbers
the messages it accepts and the receives that are started on it, and message `j` is
for receive `j`. What an operation is due then depends on nothing but the sends and
receives so far, and not on when its request is tested.
-/
import Mathlib.Logic.Function.Basic
import MxApi.Mcapi.Requests

set_option autoImplicit false

namespace MxApi.Messages

open CallStatus

abbrev Bytes := List UInt8

/-- The types of the requests of messages. -/
inductive request_type
  | OTHER
  | SEND
  | RECV
  deriving DecidableEq, Repr

/-! ## The client -/

/-- What a send or a receive leaves behind: `*request`, `*mcapi_status`, and the
bytes that it copied to the caller's buffer. -/
structure Issued where
  request : ℕ
  status : CallStatus
  buffer : Option Bytes
  deriving DecidableEq, Repr

/-- What a test leaves behind: `*request`, its result, `*mcapi_status`, `*size` if it
was written, and the bytes copied to the buffer of the receive it completed. -/
structure Tested where
  request : ℕ
  rc : Bool
  status : CallStatus
  size : Option ℕ
  buffer : Option Bytes
  deriving DecidableEq, Repr

/-- What a transport with states `T` does on the calls of one client; `none` says
that a call does not return. -/
structure Api (T E : Type) where
  msg_send_i : T → ℕ → E → Bytes → Option (T × Issued)
  msg_recv_i : T → ℕ → E → ℕ → Option (T × Issued)
  test_i : T → ℕ → Option (T × Tested)

inductive MessageCall (E : Type)
  | send (receive_endpoint : E) (buffer : Bytes)
  | recv (receive_endpoint : E) (buffer_size : ℕ)
  | test (k : ℕ)

/-- The status and the size that a request was completed with. -/
structure Completion where
  status : CallStatus
  size : ℕ
  deriving DecidableEq, Repr

/-- An operation of the client: the variable of its request, the bytes in its buffer
and what it was completed with. -/
structure ClientRequest where
  request : ℕ
  buffer : Option Bytes
  outcome : Option Completion
  deriving DecidableEq, Repr

structure Client (T : Type) where
  transport : T
  started : List ClientRequest

/-- What a call tells its caller. -/
structure CallReply where
  rc : Option Bool
  status : CallStatus
  size : Option ℕ
  buffer : Option Bytes
  deriving DecidableEq, Repr

section Calls

variable {T E : Type}

def Client.start (s : Client T) (result : T × Issued) : Client T × CallReply :=
  (⟨result.1, s.started ++ [⟨result.2.request, result.2.buffer, none⟩]⟩,
    ⟨none, result.2.status, none, result.2.buffer⟩)

/-- A completion is recorded once. -/
def ClientRequest.tested (x : ClientRequest) (a : Tested) : ClientRequest :=
  ⟨a.request, a.buffer.or x.buffer, x.outcome.or (a.size.map fun size => ⟨a.status, size⟩)⟩

def Client.finish (s : Client T) (k : ℕ) (x : ClientRequest) (result : T × Tested) :
    Client T × CallReply :=
  (⟨result.1, s.started.set k (x.tested result.2)⟩,
    ⟨some result.2.rc, result.2.status, result.2.size, result.2.buffer⟩)

/-- A call of the client, with the request that a send or a receive reserves. -/
def clientCall (api : Api T E) (s : Client T) (r : ℕ) :
    MessageCall E → Option (Client T × CallReply)
  | .send receive_endpoint buffer =>
    (api.msg_send_i s.transport r receive_endpoint buffer).map s.start
  | .recv receive_endpoint buffer_size =>
    (api.msg_recv_i s.transport r receive_endpoint buffer_size).map s.start
  | .test k =>
    match s.started[k]? with
    | none => none
    | some x => (api.test_i s.transport x.request).map (s.finish k x)

theorem clientCall_send {api : Api T E} {s : Client T} {r : ℕ} {e : E} {a : Bytes} {t : T}
    {x : Issued} (h : api.msg_send_i s.transport r e a = some (t, x)) :
    clientCall api s r (.send e a) =
      some (⟨t, s.started ++ [⟨x.request, x.buffer, none⟩]⟩, ⟨none, x.status, none, x.buffer⟩) := by
  rw [clientCall, h]
  rfl

theorem clientCall_recv {api : Api T E} {s : Client T} {r size : ℕ} {e : E} {t : T}
    {x : Issued} (h : api.msg_recv_i s.transport r e size = some (t, x)) :
    clientCall api s r (.recv e size) =
      some (⟨t, s.started ++ [⟨x.request, x.buffer, none⟩]⟩, ⟨none, x.status, none, x.buffer⟩) := by
  rw [clientCall, h]
  rfl

theorem clientCall_test {api : Api T E} {s : Client T} {r k : ℕ} {x : ClientRequest} {t : T}
    {a : Tested} (hx : s.started[k]? = some x) (h : api.test_i s.transport x.request = some (t, a)) :
    clientCall api s r (.test k) =
      some (⟨t, s.started.set k (x.tested a)⟩, ⟨some a.rc, a.status, a.size, a.buffer⟩) := by
  rw [clientCall, hx]
  simp only [h]
  rfl

end Calls

/-! ## The mailboxes -/

/-- An operation completes when it is started, or it is receive number `j` of its
endpoint and waits for message `j`. -/
inductive Operation (E : Type)
  | complete (outcome : Completion) (buffer : Option Bytes)
  | wait (receive_endpoint : E) (j size : ℕ)

/-- The messages that each endpoint has accepted, the number of receives started on
it, and the operations of the client. -/
structure Mailboxes (E : Type) where
  accepted : E → List Bytes
  issued : E → ℕ
  operations : List (Operation E)

/-- A waiting receive is told the size that it was given, and that more was cut off. -/
def waitOutcome (size : ℕ) (a : Bytes) : Completion :=
  if a.length > size then ⟨MCAPI_ERR_MSG_TRUNCATED, size⟩ else ⟨MCAPI_SUCCESS, a.length⟩

namespace Mailboxes

variable {E : Type} [DecidableEq E]

def send (f : Mailboxes E) (e : E) (a : Bytes) : Mailboxes E where
  accepted := Function.update f.accepted e (f.accepted e ++ [a])
  issued := f.issued
  operations := f.operations ++ [.complete ⟨MCAPI_SUCCESS, a.length⟩ none]

/-- The operation that a receive becomes. -/
def received (f : Mailboxes E) (e : E) (size : ℕ) : Operation E :=
  match (f.accepted e)[f.issued e]? with
  | some a => .complete ⟨MCAPI_SUCCESS, a.length⟩ (some (a.take size))
  | none => .wait e (f.issued e) size

def recv (f : Mailboxes E) (e : E) (size : ℕ) : Mailboxes E where
  accepted := f.accepted
  issued := Function.update f.issued e (f.issued e + 1)
  operations := f.operations ++ [f.received e size]

/-- A test changes nothing here. -/
def call (f : Mailboxes E) : MessageCall E → Mailboxes E
  | .send e a => f.send e a
  | .recv e size => f.recv e size
  | .test _ => f

/-- What an operation is completed with, and the bytes it is given, once that is
determined. -/
def due (f : Mailboxes E) : Operation E → Option (Completion × Option Bytes)
  | .complete outcome buffer => some (outcome, buffer)
  | .wait e j size => ((f.accepted e)[j]?).map fun a => (waitOutcome size a, some (a.take size))

/-- The bytes that are copied by the test that completes the operation. -/
def copied (f : Mailboxes E) : Operation E → Option Bytes
  | .complete _ _ => none
  | .wait e j size => ((f.accepted e)[j]?).map fun a => a.take size

/-- What a test makes of an operation and what it replies; a transport may hold an
operation back that could be completed. -/
def answer (f : Mailboxes E) (held : Bool) (x : ClientRequest) (o : Operation E) :
    ClientRequest × CallReply :=
  if x.outcome.isSome then (x, ⟨some true, MCAPI_ERR_REQUEST_INVALID, none, none⟩)
  else
    match if held then none else f.due o with
    | none => (x, ⟨some false, MCAPI_SUCCESS, none, none⟩)
    | some (outcome, buffer) =>
      (⟨0, buffer, some outcome⟩, ⟨some true, outcome.status, some outcome.size, f.copied o⟩)

/-- The bytes that a receive copies when it is started. -/
def atOnce : Operation E → Option Bytes
  | .complete _ buffer => buffer
  | .wait _ _ _ => none

/-- What a call does to the operations of the client, and what it replies. -/
def Replied (f : Mailboxes E) (held : Bool) (started started' : List ClientRequest)
    (reply : CallReply) : MessageCall E → Prop
  | .send _ _ =>
    (∃ request, started' = started ++ [⟨request, none, none⟩]) ∧
      reply = ⟨none, MCAPI_SUCCESS, none, none⟩
  | .recv e size =>
    (∃ request, started' = started ++ [⟨request, atOnce (f.received e size), none⟩]) ∧
      reply = ⟨none, MCAPI_SUCCESS, none, atOnce (f.received e size)⟩
  | .test k =>
    ∃ x o, started[k]? = some x ∧ f.operations[k]? = some o ∧
      started' = started.set k (f.answer held x o).1 ∧ reply = (f.answer held x o).2

def initial : Mailboxes E := ⟨fun _ => [], fun _ => 0, []⟩

/-! ### What is due stays due -/

variable {f : Mailboxes E} {o : Operation E} {x : Completion × Option Bytes}

theorem due_send (h : f.due o = some x) (e : E) (a : Bytes) : (f.send e a).due o = some x := by
  cases o with
  | complete outcome buffer => exact h
  | wait e' j size =>
    simp only [due, Option.map_eq_some_iff] at h ⊢
    obtain ⟨b, hb, hx⟩ := h
    refine ⟨b, ?_, hx⟩
    by_cases he : e' = e
    · subst he
      simp only [send, Function.update_self]
      rw [List.getElem?_append_left (List.getElem?_eq_some_iff.mp hb).1]
      exact hb
    · simp only [send, Function.update_of_ne he]
      exact hb

theorem due_recv (h : f.due o = some x) (e : E) (size : ℕ) : (f.recv e size).due o = some x := by
  cases o with
  | complete outcome buffer => exact h
  | wait e' j size' => exact h

end Mailboxes

section Answers

variable {E : Type} {f : Mailboxes E} {o : Operation E}

/-- An operation that is over is not one that is tested again. -/
theorem Mailboxes.answer_over (f : Mailboxes E) (held : Bool) (request : ℕ) (buffer : Option Bytes)
    (outcome : Completion) (o : Operation E) :
    f.answer held ⟨request, buffer, some outcome⟩ o =
      (⟨request, buffer, some outcome⟩, ⟨some true, MCAPI_ERR_REQUEST_INVALID, none, none⟩) := rfl

theorem Mailboxes.answer_none {held : Bool} {request : ℕ} {buffer : Option Bytes}
    (h : held = true ∨ f.due o = none) :
    f.answer held ⟨request, buffer, none⟩ o =
      (⟨request, buffer, none⟩, ⟨some false, MCAPI_SUCCESS, none, none⟩) := by
  rcases h with rfl | h
  · rfl
  · cases held with
    | true => rfl
    | false => simp only [answer, h, Option.isSome_none, Bool.false_eq_true, if_false]

theorem Mailboxes.answer_some {request : ℕ} {buffer buffer' : Option Bytes} {outcome : Completion}
    (h : f.due o = some (outcome, buffer')) :
    f.answer false ⟨request, buffer, none⟩ o =
      (⟨0, buffer', some outcome⟩,
        ⟨some true, outcome.status, some outcome.size, f.copied o⟩) := by
  simp only [answer, h, Option.isSome_none, Bool.false_eq_true, if_false]

end Answers

/-! ## The operations of a client, tracked -/

/-- How an operation of the client stands to that of the mailboxes: it is over; or
its request `r` is completed in the transport (`ready`), or waits there for message
`j` of its endpoint (`waiting`). -/
inductive Tracked {E : Type} (f : Mailboxes E) (ready : ℕ → Completion → Prop)
    (waiting : ℕ → E → ℕ → ℕ → Prop) : ClientRequest → Operation E → Prop
  | ended {o : Operation E} {outcome : Completion} {buffer : Option Bytes}
      (hdue : f.due o = some (outcome, buffer)) :
      Tracked f ready waiting ⟨0, buffer, some outcome⟩ o
  | ready {r : ℕ} {outcome : Completion} {buffer : Option Bytes} (hr : r < MCAPI_MAX_REQUESTS)
      (h : ready r outcome) :
      Tracked f ready waiting ⟨requestHandle r, buffer, none⟩ (.complete outcome buffer)
  | waits {r j size : ℕ} {e : E} (hr : r < MCAPI_MAX_REQUESTS) (h : waiting r e j size) :
      Tracked f ready waiting ⟨requestHandle r, none, none⟩ (.wait e j size)

structure Tracks {E : Type} (f : Mailboxes E) (ready : ℕ → Completion → Prop)
    (waiting : ℕ → E → ℕ → ℕ → Prop) (started : List ClientRequest) : Prop where
  length : started.length = f.operations.length
  tracked : ∀ (k : ℕ) (x : ClientRequest) (o : Operation E), started[k]? = some x →
    f.operations[k]? = some o → Tracked f ready waiting x o
  distinct : ∀ (i k : ℕ) (x y : ClientRequest), started[i]? = some x → started[k]? = some y →
    x.request = y.request → x.request ≠ 0 → i = k

theorem requestHandle_ne_zero {r : ℕ} (hr : r < MCAPI_MAX_REQUESTS) : requestHandle r ≠ 0 := by
  intro h
  have hd := decode_requestHandle hr
  rw [h] at hd
  cases hd

section Tracks

variable {E : Type} {f f' : Mailboxes E} {ready ready' : ℕ → Completion → Prop}
  {waiting waiting' : ℕ → E → ℕ → ℕ → Prop} {started : List ClientRequest} {r k : ℕ}
  {x : ClientRequest} {o : Operation E}

/-- An operation stays tracked where its request is left alone. -/
theorem Tracked.keep (h : Tracked f ready waiting x o) (hx : x.request ≠ requestHandle r)
    (hdue : ∀ o d, f.due o = some d → f'.due o = some d)
    (hready : ∀ r' outcome, r' ≠ r → ready r' outcome → ready' r' outcome)
    (hwaiting : ∀ r' e j size, r' ≠ r → waiting r' e j size → waiting' r' e j size) :
    Tracked f' ready' waiting' x o := by
  cases h with
  | ended hd => exact .ended (hdue _ _ hd)
  | ready hr h => exact .ready hr (hready _ _ (fun heq => hx (congrArg requestHandle heq)) h)
  | waits hr h => exact .waits hr (hwaiting _ _ _ _ (fun heq => hx (congrArg requestHandle heq)) h)

/-- A request that is in no use is that of no operation. -/
theorem Tracks.not_started (h : Tracks f ready waiting started) (hr : r < MCAPI_MAX_REQUESTS)
    (hready : ∀ outcome, ¬ ready r outcome) (hwaiting : ∀ e j size, ¬ waiting r e j size)
    (hx : started[k]? = some x) : x.request ≠ requestHandle r := by
  have hk : k < f.operations.length := by
    rw [← h.length]
    exact (List.getElem?_eq_some_iff.mp hx).1
  obtain ⟨o, ho⟩ : ∃ o, f.operations[k]? = some o := ⟨_, List.getElem?_eq_getElem hk⟩
  intro heq
  cases h.tracked k x o hx ho with
  | ended => exact requestHandle_ne_zero hr heq.symm
  | ready hr' h' =>
    obtain rfl := requestHandle_inj hr' hr heq
    exact hready _ h'
  | waits hr' h' =>
    obtain rfl := requestHandle_inj hr' hr heq
    exact hwaiting _ _ _ h'

/-- An operation is started with a request that was in no use. -/
theorem Tracks.start (h : Tracks f ready waiting started) (hr : r < MCAPI_MAX_REQUESTS)
    (hops : f'.operations = f.operations ++ [o])
    (hdue : ∀ o d, f.due o = some d → f'.due o = some d)
    (hreadyr : ∀ outcome, ¬ ready r outcome) (hwaitingr : ∀ e j size, ¬ waiting r e j size)
    (hready : ∀ r' outcome, r' ≠ r → ready r' outcome → ready' r' outcome)
    (hwaiting : ∀ r' e j size, r' ≠ r → waiting r' e j size → waiting' r' e j size)
    {buffer : Option Bytes} (hnew : Tracked f' ready' waiting' ⟨requestHandle r, buffer, none⟩ o) :
    Tracks f' ready' waiting' (started ++ [⟨requestHandle r, buffer, none⟩]) := by
  have hlen := h.length
  have hother : ∀ (k : ℕ) (y : ClientRequest), started[k]? = some y →
      y.request ≠ requestHandle r :=
    fun k y hy => h.not_started hr hreadyr hwaitingr hy
  refine ⟨?_, ?_, ?_⟩
  · rw [hops, List.length_append, List.length_append, hlen]
    rfl
  · intro k y o' hy ho
    rw [hops] at ho
    rcases Nat.lt_or_ge k started.length with hlt | hge
    · rw [List.getElem?_append_left hlt] at hy
      rw [List.getElem?_append_left (by omega)] at ho
      exact (h.tracked k y o' hy ho).keep (hother k y hy) hdue hready hwaiting
    · rw [List.getElem?_append_right hge, List.getElem?_singleton] at hy
      rw [List.getElem?_append_right (by omega), List.getElem?_singleton] at ho
      split at hy
      · obtain rfl := Option.some.inj hy
        rw [if_pos (by omega)] at ho
        obtain rfl := Option.some.inj ho
        exact hnew
      · cases hy
  · intro i k y z hy hz heq hne
    rw [List.getElem?_append] at hy hz
    split at hy
    · split at hz
      · exact h.distinct i k y z hy hz heq hne
      · -- `z` is the new operation
        rw [List.getElem?_singleton] at hz
        split at hz
        · obtain rfl := Option.some.inj hz
          exact absurd heq (hother i y hy)
        · cases hz
    · rw [List.getElem?_singleton] at hy
      split at hy
      · obtain rfl := Option.some.inj hy
        split at hz
        · exact absurd heq.symm (hother k z hz)
        · rw [List.getElem?_singleton] at hz
          split at hz
          · omega
          · cases hz
      · cases hy

/-- An operation is completed and its request given back. -/
theorem Tracks.finish (h : Tracks f ready waiting started) (hr : r < MCAPI_MAX_REQUESTS)
    {b buffer : Option Bytes} {outcome : Completion}
    (hx : started[k]? = some ⟨requestHandle r, b, none⟩) (ho : f.operations[k]? = some o)
    (hdue : f.due o = some (outcome, buffer))
    (hready : ∀ r' outcome, r' ≠ r → ready r' outcome → ready' r' outcome)
    (hwaiting : ∀ r' e j size, r' ≠ r → waiting r' e j size → waiting' r' e j size) :
    Tracks f ready' waiting' (started.set k ⟨0, buffer, some outcome⟩) := by
  have hother : ∀ (i : ℕ) (y : ClientRequest), i ≠ k → started[i]? = some y →
      y.request ≠ requestHandle r := by
    intro i y hik hy heq
    exact hik (h.distinct i k y _ hy hx heq (by rw [heq]; exact requestHandle_ne_zero hr))
  refine ⟨by rw [List.length_set]; exact h.length, ?_, ?_⟩
  · intro i y o' hy ho'
    rw [List.getElem?_set] at hy
    split at hy
    · rename_i hik
      subst hik
      split at hy
      · obtain rfl := Option.some.inj hy
        rw [ho] at ho'
        obtain rfl := Option.some.inj ho'
        exact .ended hdue
      · cases hy
    · rename_i hik
      exact (h.tracked i y o' hy ho').keep (hother i y (Ne.symm hik) hy) (fun _ _ hd => hd)
        hready hwaiting
  · intro i j y z hy hz heq hne
    rw [List.getElem?_set] at hy hz
    split at hy
    · split at hy
      · obtain rfl := Option.some.inj hy
        exact absurd rfl hne
      · cases hy
    · split at hz
      · split at hz
        · obtain rfl := Option.some.inj hz
          exact absurd heq hne
        · cases hz
      · exact h.distinct i j y z hy hz heq hne

end Tracks

end MxApi.Messages
