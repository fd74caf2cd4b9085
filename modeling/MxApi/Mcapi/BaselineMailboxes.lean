/-
The lock-based transport keeps the mailboxes of its client.

Each endpoint, with the requests that were set up for it, is in the state that
`TrafficInv` describes, and no buffer is named by the queues of two of them
([`TransportInv`]). What a call does on its endpoint is known from there; the other
endpoints do not notice it. A waiting request is completed by the first test that
finds its message, whichever other requests wait.
-/
import MxApi.Mcapi.BaselineBuffers
import MxApi.Mcapi.BaselineMessages
import MxApi.Mcapi.BaselineTraffic

set_option autoImplicit false

namespace MxApi.Baseline

open Lib CallStatus Messages

section Transport

variable {E : Type} [DecidableEq E]

/-- An endpoint, with the requests that were set up for it. -/
def Transport.view (s : Transport E) (e : E) : Endpoint :=
  ⟨s.recv_queue e, s.buffers, fun r => if s.handle r = some e then s.requests r else none⟩

/-- Request `r` is completed. -/
def Transport.ready (s : Transport E) (r : ℕ) (c : Completion) : Prop :=
  s.requests r = some ⟨c.size, true, c.status⟩

/-- Request `r` is the one of receive `j` of the endpoint, which has no message yet. -/
def Transport.waiting (s : Transport E) (issued : E → List Receive) (r : ℕ) (e : E)
    (j size : ℕ) : Prop :=
  s.type r = .RECV ∧ s.handle r = some e ∧ (issued e)[j]? = some ⟨some r, size, none⟩

structure TransportInv (s : Transport E) (f : Mailboxes E) (issued : E → List Receive)
    (h : E → ℕ) : Prop where
  traffic : ∀ e, TrafficInv ⟨s.view e, f.accepted e, issued e⟩ (h e)
  length : ∀ e, (issued e).length = f.issued e
  separate : ∀ e e' i j b, ((s.recv_queue e).elements i).buff_index = some b →
    ((s.recv_queue e').elements j).buff_index = some b → e = e'

/-- The requests other than `r` are as before. -/
structure Others (s s' : Transport E) (r : ℕ) : Prop where
  requests : ∀ r', r' ≠ r → s'.requests r' = s.requests r'
  type : ∀ r', r' ≠ r → s'.type r' = s.type r'
  handle : ∀ r', r' ≠ r → s'.handle r' = s.handle r'

/-- What the transport can take: a place in the queue of the endpoint and a buffer for
a message, a place in the queue for a receive that waits. -/
def Transport.room (s : Transport E) : MessageCall E → Prop
  | .send e _ => mcapi_trans_full_queue (s.recv_queue e) = false ∧
      (search MCAPI_MAX_BUFFERS fun i => !(s.buffers i).magic_num).isSome = true
  | .recv e _ => mcapi_trans_empty_queue (s.recv_queue e) = true →
      (firstUnreserved (s.recv_queue e)).isSome = true
  | .test _ => True

end Transport

/-! ## The requests that a call leaves alone -/

section Requests

variable {E : Type} {s s' : Transport E} {issued issued' : E → List Receive} {e : E} {r : ℕ}

theorem available_iff : s.available r = true ↔ r < MCAPI_MAX_REQUESTS ∧ s.requests r = none := by
  rw [Transport.available, Bool.and_eq_true, decide_eq_true_iff, Option.isNone_iff_eq_none]

theorem ready_keep (ho : Others s s' r) {r' : ℕ} {c : Completion} (hne : r' ≠ r)
    (hc : s.ready r' c) : s'.ready r' c := by
  rw [Transport.ready, ho.requests r' hne]
  exact hc

theorem waiting_keep (ho : Others s s' r) {r' j : ℕ} (hne : r' ≠ r)
    (hissued : ∀ (e : E) (j size : ℕ), (issued e)[j]? = some (⟨some r', size, none⟩ : Receive) →
      (issued' e)[j]? = some (⟨some r', size, none⟩ : Receive))
    {size : ℕ} (hw : s.waiting issued r' e j size) : s'.waiting issued' r' e j size := by
  obtain ⟨htype, hhandle, hthere⟩ := hw
  exact ⟨(ho.type r' hne).trans htype, (ho.handle r' hne).trans hhandle, hissued e j size hthere⟩

/-- A request that is in no use is not completed. -/
theorem not_ready_of_none (hr : s.requests r = none) (c : Completion) : ¬ s.ready r c := by
  intro hready
  rw [Transport.ready, hr] at hready
  cases hready


theorem others_clear : Others s (s.clear r) r := by
  refine ⟨?_, ?_, ?_⟩
  · intro r' hne
    exact Function.update_of_ne hne _ _
  · intro r' hne
    exact Function.update_of_ne hne _ _
  · intro r' hne
    exact Function.update_of_ne hne _ _

/-- What a call on request `r` leaves of the requests of the other operations. -/
theorem Others.tracked (ho : Others s s' r) (issued issued' : E → List Receive)
    (hissued : ∀ (e : E) (j r' size : ℕ), r' ≠ r →
      (issued e)[j]? = some (⟨some r', size, none⟩ : Receive) →
      (issued' e)[j]? = some (⟨some r', size, none⟩ : Receive)) :
    (∀ r' outcome, r' ≠ r → s.ready r' outcome → s'.ready r' outcome) ∧
      ∀ r' e j size, r' ≠ r → s.waiting issued r' e j size → s'.waiting issued' r' e j size :=
  ⟨fun _ _ hne hc => ready_keep ho hne hc,
    fun r' _ _ _ hne hw => waiting_keep ho hne (fun e j size => hissued e j r' size hne) hw⟩

end Requests

section Endpoints

variable {E : Type} [DecidableEq E] {s s' : Transport E} {f f' : Mailboxes E}
  {issued issued' : E → List Receive} {h h' : E → ℕ} {e : E} {r size : ℕ} {a : Message}

/-! ## One endpoint among the others -/

/-- Where other buffers than its own change, an endpoint is as before. -/
theorem TrafficInv.congr_buffers {ep : Endpoint} {accepted : List Message} {ops : List Receive}
    {w : ℕ} {buffers : ℕ → buffer_entry} (ht : TrafficInv ⟨ep, accepted, ops⟩ w)
    (hb : ∀ i b, (ep.recv_queue.elements i).buff_index = some b → buffers b = ep.buffers b) :
    TrafficInv ⟨{ ep with buffers := buffers }, accepted, ops⟩ w := by
  refine ⟨ht.window, ?_, ht.distinct, ?_, ht.received, ht.waiting, ht.unique, ht.outstanding⟩
  · intro p b a hp ha hthere
    exact (hb _ b hthere).trans (ht.buffers p b a hp ha hthere)
  · intro i b hi
    have hused := ht.used i b hi
    rwa [← hb i b hi] at hused

/-- A call on endpoint `e` keeps the transport in order if it keeps the endpoint. -/
theorem TransportInv.set (hs : TransportInv s f issued h) (ep : Endpoint)
    (hkept : BuffersKept (s.view e) ep)
    (hq : s'.recv_queue = Function.update s.recv_queue e ep.recv_queue)
    (hb : s'.buffers = ep.buffers)
    (hview : ∀ e', e' ≠ e → (s'.view e').requests = (s.view e').requests)
    (haccepted : ∀ e', e' ≠ e → f'.accepted e' = f.accepted e')
    (hissued : ∀ e', e' ≠ e → issued' e' = issued e')
    (hlength : ∀ e', (issued' e').length = f'.issued e')
    {w : ℕ} (htraffic : TrafficInv ⟨s'.view e, f'.accepted e, issued' e⟩ w) :
    TransportInv s' f' issued' (Function.update h e w) := by
  have hused : ∀ e' i b, ((s.recv_queue e').elements i).buff_index = some b →
      (s.buffers b).magic_num = true := fun e' i b hi => (hs.traffic e').used i b hi
  -- what the queue of `e` names was named by it before, or was free
  have hnamed : ∀ e' i j b, e' ≠ e → (ep.recv_queue.elements i).buff_index = some b →
      ((s.recv_queue e').elements j).buff_index = some b → False := by
    intro e' i j b hne hi hj
    rcases hkept.named i b hi with ⟨i', hi'⟩ | hfree
    · exact hne (hs.separate e' e j i' b hj hi')
    · have hfree' : (s.buffers b).magic_num = false := hfree
      rw [hused e' j b hj] at hfree'
      cases hfree'
  refine ⟨?_, hlength, ?_⟩
  · intro e'
    by_cases he : e' = e
    · subst he
      rw [Function.update_self]
      exact htraffic
    · rw [Function.update_of_ne he, haccepted e' he, hissued e' he]
      have hbuffers : ∀ i b, ((s.recv_queue e').elements i).buff_index = some b →
          s'.buffers b = s.buffers b := by
        intro i b hi
        rw [hb]
        refine hkept.others b (hused e' i b hi) ?_
        intro j hj
        exact he (hs.separate e' e i j b hi hj)
      have hsame := (hs.traffic e').congr_buffers hbuffers
      have heq : s'.view e' = { s.view e' with buffers := s'.buffers } := by
        have hreq := hview e' he
        simp only [Transport.view] at hreq ⊢
        rw [hreq, hq, Function.update_of_ne he]
      rw [heq]
      exact hsame
  · intro e₁ e₂ i j b hi hj
    rw [hq] at hi hj
    by_cases h₁ : e₁ = e
    · by_cases h₂ : e₂ = e
      · rw [h₁, h₂]
      · rw [h₁, Function.update_self] at hi
        rw [Function.update_of_ne h₂] at hj
        exact (hnamed e₂ i j b h₂ hi hj).elim
    · rw [Function.update_of_ne h₁] at hi
      by_cases h₂ : e₂ = e
      · rw [h₂, Function.update_self] at hj
        exact (hnamed e₁ j i b h₁ hj hi).elim
      · rw [Function.update_of_ne h₂] at hj
        exact hs.separate e₁ e₂ i j b hi hj

/-- An endpoint whose only new request is `r`. -/
theorem view_eq (ep : Endpoint) (ho : Others s s' r) (hq : s'.recv_queue e = ep.recv_queue)
    (hb : s'.buffers = ep.buffers)
    (hothers : ∀ r', r' ≠ r → ep.requests r' = (s.view e).requests r')
    (hr : (s'.view e).requests r = ep.requests r) : s'.view e = ep := by
  have hreq : (s'.view e).requests = ep.requests := by
    funext r'
    by_cases hne : r' = r
    · rw [hne]
      exact hr
    · rw [hothers r' hne]
      simp only [Transport.view, ho.requests r' hne, ho.handle r' hne]
  calc s'.view e = ⟨s'.recv_queue e, s'.buffers, (s'.view e).requests⟩ := rfl
    _ = ep := by rw [hq, hb, hreq]

/-- An endpoint that has nothing to do with request `r`, neither before nor after. -/
theorem view_requests (ho : Others s s' r)
    (hr : (s'.view e).requests r = (s.view e).requests r) :
    (s'.view e).requests = (s.view e).requests := by
  funext r'
  by_cases hne : r' = r
  · rw [hne]
    exact hr
  · simp only [Transport.view, ho.requests r' hne, ho.handle r' hne]

theorem view_requests_none (hr : s.requests r = none) : (s.view e).requests r = none := by
  simp only [Transport.view, hr, ite_self]

theorem view_requests_of_ne (hr : s.handle r ≠ some e) : (s.view e).requests r = none := by
  simp only [Transport.view, if_neg hr]

theorem view_requests_of_eq (hr : s.handle r = some e) :
    (s.view e).requests r = s.requests r := by
  simp only [Transport.view, if_pos hr]

/-- A request that is in no use waits for nothing. -/
theorem not_waiting_of_none (hs : TransportInv s f issued h) (hr : s.requests r = none) (e : E)
    (j size : ℕ) : ¬ s.waiting issued r e j size := by
  rintro ⟨-, hhandle, hthere⟩
  have hreq := (hs.traffic e).waiting j _ r hthere rfl rfl
  rw [view_requests_none hr] at hreq
  cases hreq

/-! ## Sends and receives -/

/-- With room in the queue and a free buffer a message is not refused. -/
theorem send_accepted {ep ep' : Endpoint} (hfull : mcapi_trans_full_queue ep.recv_queue = false)
    (hbuffer : (search MCAPI_MAX_BUFFERS fun i => !(ep.buffers i).magic_num).isSome = true) :
    mcapi_trans_send_have_lock ep a ≠ some (ep', false) := by
  obtain ⟨b, hb⟩ := Option.isSome_iff_exists.mp hbuffer
  intro hsend
  rw [mcapi_trans_send_have_lock, if_neg (by rw [hfull]; exact Bool.false_ne_true), hb] at hsend
  cases hpush : mcapi_trans_push_queue ep.recv_queue with
  | none => simp [hpush] at hsend
  | some p => simp [hpush] at hsend

/-- A call that sets request `r` up leaves the other requests alone. -/
theorem others_setKind (s : Transport E) (e : E) (type : request_type) (ep : Endpoint)
    (hep : ∀ r', r' ≠ r → ep.requests r' = s.requests r') :
    Others s ((s.setEndpoint e ep).setKind r type e) r := by
  refine ⟨hep, ?_, ?_⟩
  · intro r' hne
    simp only [Transport.setKind, Transport.setEndpoint, Function.update_of_ne hne]
  · intro r' hne
    simp only [Transport.setKind, Transport.setEndpoint, Function.update_of_ne hne]

/-- Request `r` is new, and set up for endpoint `e`: the other endpoints do not see it. -/
theorem setKind_view {ep : Endpoint} {type : request_type} {e' : E} (hne : e' ≠ e)
    (hr : s.requests r = none) (ho : Others s ((s.setEndpoint e ep).setKind r type e) r) :
    (((s.setEndpoint e ep).setKind r type e).view e').requests = (s.view e').requests := by
  apply view_requests ho
  rw [view_requests_none hr, view_requests_of_ne]
  simp only [Transport.setKind, Function.update_self]
  exact fun heq => hne (Option.some.inj heq).symm

theorem TransportInv.send (hs : TransportInv s f issued h) (hr : s.available r = true)
    (hroom : s.room (.send e a)) :
    ∃ s' w, s.mcapi_trans_msg_send_i r e a =
        some (s', ⟨requestHandle r, MCAPI_SUCCESS, none⟩) ∧
      TransportInv s' (f.send e a) issued (Function.update h e w) ∧ Others s s' r ∧
      s'.ready r ⟨MCAPI_SUCCESS, a.length⟩ := by
  obtain ⟨-, hnone⟩ := available_iff.mp hr
  rcases (hs.traffic e).send a with hrefused | ⟨ep, hsend, hreq, hinv⟩
  · exact absurd hrefused (send_accepted hroom.1 hroom.2)
  have hsend' : mcapi_trans_send_have_lock (s.endpoint e) a =
      some ({ ep with requests := s.requests }, true) := by
    have hframe := send_requests (s.view e) s.requests a
    rw [hsend] at hframe
    exact hframe
  have ho : Others s _ r := others_setKind s e .SEND
    (({ ep with requests := s.requests } : Endpoint).setRequest r
      (some ⟨a.length, true, MCAPI_SUCCESS⟩))
    fun r' hne => Function.update_of_ne hne _ _
  refine ⟨_, h e, by rw [Transport.mcapi_trans_msg_send_i, if_pos hr, hsend']; rfl, ?_, ho, ?_⟩
  · refine hs.set ep (send_buffers hsend) rfl rfl (fun e' hne => setKind_view hne hnone ho)
      ?_ (fun _ _ => rfl) ?_ ?_
    · intro e' hne
      simp only [Mailboxes.send, Function.update_of_ne hne]
    · exact hs.length
    · rw [view_eq (ep.setRequest r (some ⟨a.length, true, MCAPI_SUCCESS⟩)) ho
        (Function.update_self ..) rfl]
      · simp only [Mailboxes.send, Function.update_self]
        apply hinv.setRequest
        · apply hinv.not_waiting
          intro size status
          rw [hreq, view_requests_none hnone]
          simp
        · intro size status hc
          simp at hc
      · intro r' hne
        simp only [Endpoint.setRequest, Function.update_of_ne hne, hreq]
      · rw [view_requests_of_eq (Function.update_self ..)]
        simp only [Transport.setKind, Transport.setEndpoint, Endpoint.setRequest,
          Function.update_self]
  · simp only [Transport.ready, Transport.setKind, Transport.setEndpoint, Endpoint.setRequest,
      Function.update_self]

/-- With an entry to reserve a receive is not refused. -/
theorem recv_i_waits {ep ep' : Endpoint} (hempty : mcapi_trans_recv_have_lock ep size = some (ep, none))
    (hfree : (firstUnreserved ep.recv_queue).isSome = true)
    (hrecv : mcapi_trans_msg_recv_i ep r size = some (ep', none)) :
    ep'.requests r = some ⟨size, false, MCAPI_SUCCESS⟩ := by
  obtain ⟨i, hi⟩ := Option.isSome_iff_exists.mp hfree
  simp only [mcapi_trans_msg_recv_i, hempty, setup_request_have_lock_recv, hi,
    Option.some.injEq, Prod.mk.injEq, and_true] at hrecv
  rw [← hrecv]
  exact Function.update_self ..

/-- The receive as it is numbered, whether it is given its message at once or not. -/
theorem TransportInv.recv_cases (hs : TransportInv s f issued h) (hnone : s.requests r = none)
    (hroom : s.room (.recv e size)) :
    ∃ ep w got x, Baseline.mcapi_trans_msg_recv_i (s.view e) r size = some (ep, got) ∧
      (∀ r', r' ≠ r → ep.requests r' = (s.view e).requests r') ∧
      TrafficInv ⟨ep, f.accepted e, issued e ++ [x]⟩ w ∧
      got.map Received.buffer = Mailboxes.atOnce (f.received e size) ∧
      ((∃ c buffer, f.received e size = .complete c buffer ∧
          ep.requests r = some ⟨c.size, true, c.status⟩) ∨
        f.received e size = .wait e (f.issued e) size ∧ x = ⟨some r, size, none⟩) := by
  have hlen := hs.length e
  have hview := view_requests_none (e := e) hnone
  cases ha : (f.accepted e)[f.issued e]? with
  | some a =>
    rw [← hlen] at ha
    obtain ⟨ep, w, hrecv, hreq, hinv⟩ := (hs.traffic e).recv_i_some hview ha size
    rw [hlen] at ha
    refine ⟨ep, w, _, _, hrecv, ?_, hinv, ?_,
      Or.inl ⟨⟨MCAPI_SUCCESS, a.length⟩, some (a.take size), ?_, ?_⟩⟩
    · intro r' hne
      rw [hreq, Function.update_of_ne hne]
    · simp only [Mailboxes.received, ha]
      rfl
    · simp only [Mailboxes.received, ha]
    · rw [hreq, Function.update_self]
  | none =>
    have hm : (f.accepted e).length ≤ (issued e).length := by
      rw [hlen]
      exact List.getElem?_eq_none_iff.mp ha
    rcases (hs.traffic e).recv_i_none hview hm size with
      ⟨ep, hrecv, hreq, -⟩ | ⟨ep, hrecv, hreq, hinv⟩
    · have hempty := (hs.traffic e).window.empty.mpr hm
      have hwaits := recv_i_waits ((hs.traffic e).recv_none hm size) (hroom hempty) hrecv
      rw [hreq, Function.update_self] at hwaits
      cases hwaits
    · refine ⟨ep, h e, _, _, hrecv, ?_, hinv, ?_, Or.inr ⟨?_, rfl⟩⟩
      · intro r' hne
        rw [hreq, Function.update_of_ne hne]
      · simp only [Mailboxes.received, ha]
        rfl
      · simp only [Mailboxes.received, ha]

theorem TransportInv.recv (hs : TransportInv s f issued h) (hr : s.available r = true)
    (hroom : s.room (.recv e size)) :
    ∃ s' issued' w, s.mcapi_trans_msg_recv_i r e size =
        some (s', ⟨requestHandle r, MCAPI_SUCCESS, Mailboxes.atOnce (f.received e size)⟩) ∧
      TransportInv s' (f.recv e size) issued' (Function.update h e w) ∧ Others s s' r ∧
      (∀ (e' : E) (j : ℕ) (x : Receive), (issued e')[j]? = some x → (issued' e')[j]? = some x) ∧
      Tracked (f.recv e size) s'.ready (s'.waiting issued')
        ⟨requestHandle r, Mailboxes.atOnce (f.received e size), none⟩ (f.received e size) := by
  obtain ⟨hrN, hnone⟩ := available_iff.mp hr
  obtain ⟨ep, w, got, x, hrecv, hreq, hinv, hgot, hnew⟩ := hs.recv_cases hnone hroom
  have hrecv' : Baseline.mcapi_trans_msg_recv_i (s.endpoint e) r size =
      some ({ ep with requests := Function.update s.requests r (ep.requests r) }, got) := by
    have hframe := recv_i_requests (s.view e) s.requests r size
    rw [hrecv] at hframe
    exact hframe
  have ho : Others s _ r := others_setKind s e .RECV
    { ep with requests := Function.update s.requests r (ep.requests r) }
    fun r' hne => Function.update_of_ne hne _ _
  refine ⟨_, Function.update issued e (issued e ++ [x]), w, ?_, ?_, ho, ?_, ?_⟩
  · rw [Transport.mcapi_trans_msg_recv_i, if_pos hr, hrecv', ← hgot]
  · refine hs.set ep (recv_i_buffers hrecv) rfl rfl (fun e' hne => setKind_view hne hnone ho)
      ?_ ?_ ?_ ?_
    · exact fun _ _ => rfl
    · intro e' hne
      exact Function.update_of_ne hne _ _
    · intro e'
      by_cases he : e' = e
      · subst he
        simp only [Mailboxes.recv, Function.update_self, List.length_append, List.length_singleton,
          hs.length]
      · simp only [Mailboxes.recv, Function.update_of_ne he, hs.length]
    · rw [Function.update_self, view_eq ep ho (Function.update_self ..) rfl hreq]
      · exact hinv
      · rw [view_requests_of_eq (Function.update_self ..)]
        simp only [Transport.setKind, Transport.setEndpoint, Function.update_self]
  · intro e' j y hy
    by_cases he : e' = e
    · subst he
      rw [Function.update_self, List.getElem?_append_left (List.getElem?_eq_some_iff.mp hy).1]
      exact hy
    · rw [Function.update_of_ne he]
      exact hy
  · rcases hnew with ⟨c, buffer, hop, hready⟩ | ⟨hop, rfl⟩
    · rw [hop]
      apply Tracked.ready hrN
      simp only [Transport.ready, Transport.setKind, Transport.setEndpoint, Function.update_self]
      exact hready
    · rw [hop]
      apply Tracked.waits hrN
      refine ⟨Function.update_self .., Function.update_self .., ?_⟩
      rw [Function.update_self, ← hs.length e]
      exact List.getElem?_concat_length

/-! ## Tests -/

/-- What a waiting request is completed with. -/
theorem completedRequest_eq :
    completedRequest size ⟨a.take size, a.length⟩ =
      ⟨(waitOutcome size a).size, true, (waitOutcome size a).status⟩ := by
  simp only [completedRequest, waitOutcome]
  split
  · rfl
  · rfl

/-- A request variable that was set to zero is no request. -/
theorem test_over : s.mcapi_trans_test_i 0 =
    some (s, ⟨0, true, MCAPI_ERR_REQUEST_INVALID, none, none⟩) := rfl

/-- A completed request is reported and given back. -/
theorem test_ready {c : Completion} (hr : r < MCAPI_MAX_REQUESTS) (hready : s.ready r c) :
    s.mcapi_trans_test_i (requestHandle r) =
      some (s.clear r, ⟨0, true, c.status, some c.size, none⟩) := by
  rw [Transport.ready] at hready
  simp only [Transport.mcapi_trans_test_i, decode_requestHandle hr, Transport.tryComplete, hready,
    Option.isNone_some, Bool.false_eq_true, if_false]

theorem TransportInv.clear (hs : TransportInv s f issued h) {c : Completion}
    (hready : s.ready r c) : TransportInv (s.clear r) f issued h := by
  refine ⟨?_, hs.length, hs.separate⟩
  intro e
  have hview : (s.clear r).view e = (s.view e).setRequest r none := by
    apply view_eq _ others_clear rfl rfl
    · intro r' hne
      exact Function.update_of_ne hne _ _
    · rw [view_requests_none (s := s.clear r) (Function.update_self ..)]
      simp only [Endpoint.setRequest, Function.update_self]
  rw [hview]
  apply (hs.traffic e).setRequest
  · apply (hs.traffic e).not_waiting
    intro size status
    simp only [Transport.view, show s.requests r = _ from hready]
    split
    · simp
    · simp
  · intro size status hc
    cases hc

/-- A request that waits is one that is not completed. -/
theorem TransportInv.requests_waiting (hs : TransportInv s f issued h) {j : ℕ}
    (hw : s.waiting issued r e j size) : s.requests r = some ⟨size, false, MCAPI_SUCCESS⟩ := by
  obtain ⟨-, hhandle, hthere⟩ := hw
  rw [← view_requests_of_eq hhandle]
  exact (hs.traffic e).waiting j _ r hthere rfl rfl

/-- The test of a request whose message has not come changes nothing. -/
theorem TransportInv.test_none (hs : TransportInv s f issued h) {j : ℕ}
    (hr : r < MCAPI_MAX_REQUESTS) (hw : s.waiting issued r e j size)
    (ha : (f.accepted e)[j]? = none) :
    s.mcapi_trans_test_i (requestHandle r) =
      some (s, ⟨requestHandle r, false, MCAPI_SUCCESS, none, none⟩) := by
  have hreq := hs.requests_waiting hw
  obtain ⟨htype, hhandle, hthere⟩ := hw
  have hk : reservation (issued e) j = some r := reservation_eq_some.mpr ⟨_, hthere, rfl, rfl⟩
  have hcheck : check_receive_request_have_lock (s.endpoint e) r size =
      some (s.endpoint e, none) := by
    have hframe := check_requests (s.view e) s.requests r size
    rw [(hs.traffic e).check_none hk (List.getElem?_eq_none_iff.mp ha)] at hframe
    exact hframe
  have hset : s.setEndpoint e (s.endpoint e) = s := by
    simp only [Transport.setEndpoint, Transport.endpoint, Function.update_eq_self]
  simp only [Transport.mcapi_trans_test_i, decode_requestHandle hr, Transport.tryComplete, hreq,
    htype, hhandle, hcheck, hset, Option.isNone_some, Bool.false_eq_true, if_false, Option.map_none]

/-- The test of a request whose message has come completes it. -/
theorem TransportInv.test_some (hs : TransportInv s f issued h) {j : ℕ}
    (hr : r < MCAPI_MAX_REQUESTS) (hw : s.waiting issued r e j size)
    (ha : (f.accepted e)[j]? = some a) :
    ∃ s' w, s.mcapi_trans_test_i (requestHandle r) =
        some (s', ⟨0, true, (waitOutcome size a).status, some (waitOutcome size a).size,
          some (a.take size)⟩) ∧
      TransportInv s' f (Function.update issued e (deliver (issued e) r (a.take size)))
        (Function.update h e w) ∧ Others s s' r := by
  have hreq := hs.requests_waiting hw
  obtain ⟨htype, hhandle, hthere⟩ := hw
  obtain ⟨ep, w, hcheck, hepreq, hinv⟩ := (hs.traffic e).check_some hthere rfl rfl ha
  have hcheck' : check_receive_request_have_lock (s.endpoint e) r size =
      some ({ ep with requests := Function.update s.requests r (ep.requests r) },
        some ⟨a.take size, a.length⟩) := by
    have hframe := check_requests (s.view e) s.requests r size
    rw [hcheck] at hframe
    exact hframe
  have hdone : ep.requests r =
      some ⟨(waitOutcome size a).size, true, (waitOutcome size a).status⟩ := by
    rw [hepreq, Function.update_self, completedRequest_eq]
  obtain ⟨s', hs'⟩ : ∃ s', s' = (s.setEndpoint e { ep with
      requests := Function.update s.requests r (ep.requests r) }).clear r := ⟨_, rfl⟩
  have ho : Others s s' r := by
    rw [hs']
    refine ⟨?_, others_clear.type, others_clear.handle⟩
    intro r' hne
    rw [others_clear.requests r' hne]
    exact Function.update_of_ne hne _ _
  have hnone : s'.requests r = none := by
    rw [hs']
    exact Function.update_self ..
  refine ⟨s', w, ?_, ?_, ho⟩
  · simp only [Transport.mcapi_trans_test_i, decode_requestHandle hr, Transport.tryComplete, hreq,
      htype, hhandle, hcheck', Option.isNone_some, Bool.false_eq_true, if_false, Option.map_some,
      Transport.setEndpoint, Function.update_self, hdone, hs']
  · refine hs.set ep (check_buffers hcheck) (by rw [hs']; rfl) (by rw [hs']; rfl) ?_ ?_ ?_ ?_ ?_
    · intro e' hne
      apply view_requests ho
      rw [view_requests_none hnone, view_requests_of_ne]
      rw [hhandle]
      exact fun heq => hne (Option.some.inj heq).symm
    · exact fun _ _ => rfl
    · intro e' hne
      exact Function.update_of_ne hne _ _
    · intro e'
      by_cases he : e' = e
      · subst he
        rw [Function.update_self, deliver, List.length_map, hs.length]
      · rw [Function.update_of_ne he, hs.length]
    · rw [Function.update_self, view_eq (ep.setRequest r none) ho]
      · exact hinv
      · rw [hs']
        exact Function.update_self ..
      · rw [hs']
        rfl
      · intro r' hne
        simp only [Endpoint.setRequest, Function.update_of_ne hne, hepreq]
      · rw [view_requests_none hnone]
        simp only [Endpoint.setRequest, Function.update_self]

/-! ## The client -/

/-- A client of the lock-based transport and its mailboxes. -/
structure ClientInv (c : Client (Transport E)) (f : Mailboxes E) (issued : E → List Receive)
    (h : E → ℕ) : Prop where
  transport : TransportInv c.transport f issued h
  tracks : Tracks f c.transport.ready (c.transport.waiting issued) c.started

/-- A send or a receive is given a request that is free; a test is of an operation of the
client. -/
def enabled (c : Client (Transport E)) (r : ℕ) : MessageCall E → Prop
  | .send _ _ | .recv _ _ => c.transport.available r = true
  | .test k => k < c.started.length

variable {c : Client (Transport E)}

theorem ClientInv.send (hc : ClientInv c f issued h) (hr : c.transport.available r = true)
    (hroom : c.transport.room (.send e a)) :
    ∃ c' reply w, clientCall (api E) c r (.send e a) = some (c', reply) ∧
      ClientInv c' (f.send e a) issued (Function.update h e w) ∧
      f.Replied false c.started c'.started reply (.send e a) := by
  obtain ⟨hrN, hnone⟩ := available_iff.mp hr
  obtain ⟨s', w, hsend, hs', ho, hready⟩ := hc.transport.send hr hroom
  obtain ⟨hready', hwaiting'⟩ := ho.tracked issued issued fun _ _ _ _ _ hthere => hthere
  have htracks : Tracks (f.send e a) s'.ready (s'.waiting issued) _ :=
    hc.tracks.start hrN rfl (fun o d hd => Mailboxes.due_send hd e a)
      (not_ready_of_none hnone) (not_waiting_of_none hc.transport hnone) hready' hwaiting'
      (.ready hrN hready)
  exact ⟨_, _, w, clientCall_send hsend, ⟨hs', htracks⟩, ⟨_, rfl⟩, rfl⟩

theorem ClientInv.recv (hc : ClientInv c f issued h) (hr : c.transport.available r = true)
    (hroom : c.transport.room (.recv e size)) :
    ∃ c' reply issued' w, clientCall (api E) c r (.recv e size) = some (c', reply) ∧
      ClientInv c' (f.recv e size) issued' (Function.update h e w) ∧
      f.Replied false c.started c'.started reply (.recv e size) := by
  obtain ⟨hrN, hnone⟩ := available_iff.mp hr
  obtain ⟨s', issued', w, hrecv, hs', ho, hgrow, hnew⟩ := hc.transport.recv hr hroom
  obtain ⟨hready', hwaiting'⟩ := ho.tracked issued issued'
    fun e j r' size _ hthere => hgrow e j _ hthere
  have htracks : Tracks (f.recv e size) s'.ready (s'.waiting issued') _ :=
    hc.tracks.start hrN rfl (fun o d hd => Mailboxes.due_recv hd e size)
      (not_ready_of_none hnone) (not_waiting_of_none hc.transport hnone) hready' hwaiting' hnew
  exact ⟨_, _, issued', w, clientCall_recv hrecv, ⟨hs', htracks⟩, ⟨_, rfl⟩, rfl⟩

/-- A test completes what is due, and is refused where the operation is over. -/
theorem ClientInv.test {k : ℕ} (hc : ClientInv c f issued h) (hk : k < c.started.length) :
    ∃ c' reply issued' h', clientCall (api E) c r (.test k) = some (c', reply) ∧
      ClientInv c' f issued' h' ∧ f.Replied false c.started c'.started reply (.test k) := by
  obtain ⟨x, hx⟩ : ∃ x, c.started[k]? = some x := ⟨_, List.getElem?_eq_getElem hk⟩
  have hko : k < f.operations.length := by
    rw [← hc.tracks.length]
    exact hk
  obtain ⟨o, ho⟩ : ∃ o, f.operations[k]? = some o := ⟨_, List.getElem?_eq_getElem hko⟩
  have hsame : c.started.set k x = c.started := by
    obtain ⟨hlt, rfl⟩ := List.getElem?_eq_some_iff.mp hx
    exact List.set_getElem_self hlt
  -- a test that leaves the operation as it is
  have hleft : ClientInv ⟨c.transport, c.started.set k x⟩ f issued h := by
    rw [hsame]
    exact hc
  cases hc.tracks.tracked k x o hx ho with
  | ended hdue =>
    have htest : (api E).test_i c.transport 0 = _ := test_over
    exact ⟨_, _, issued, h, clientCall_test hx htest, hleft, _, _, hx, ho, rfl, rfl⟩
  | ready hr hready =>
    rename_i q outcome buffer
    obtain ⟨hready', hwaiting'⟩ := (others_clear (s := c.transport) (r := q)).tracked issued issued
      fun _ _ _ _ _ hthere => hthere
    have hdue : f.due (.complete outcome buffer) = some (outcome, buffer) := rfl
    refine ⟨_, _, issued, h, clientCall_test hx (test_ready hr hready),
      ⟨hc.transport.clear hready, hc.tracks.finish hr hx ho hdue hready' hwaiting'⟩,
      _, _, hx, ho, ?_, ?_⟩
    · rw [Mailboxes.answer_some hdue]
      rfl
    · rw [Mailboxes.answer_some hdue]
      rfl
  | waits hr hw =>
    rename_i q j size e
    cases ha : (f.accepted e)[j]? with
    | none =>
      have hdue : f.due (.wait e j size) = none := by
        rw [Mailboxes.due, ha]
        rfl
      refine ⟨_, _, issued, h, clientCall_test hx (hc.transport.test_none hr hw ha), hleft,
        _, _, hx, ho, ?_, ?_⟩
      · rw [Mailboxes.answer_none (Or.inr hdue)]
        rfl
      · rw [Mailboxes.answer_none (Or.inr hdue)]
    | some a =>
      have hdue : f.due (.wait e j size) = some (waitOutcome size a, some (a.take size)) := by
        rw [Mailboxes.due, ha]
        rfl
      have hcopied : f.copied (.wait e j size) = some (a.take size) := by
        rw [Mailboxes.copied, ha]
        rfl
      obtain ⟨s', w, htest, hs', hothers⟩ := hc.transport.test_some hr hw ha
      obtain ⟨hready', hwaiting'⟩ := hothers.tracked issued
        (Function.update issued e (deliver (issued e) q (a.take size))) (by
          intro e' i r' size' hne hthere
          by_cases he : e' = e
          · subst he
            have hnot : ¬ (⟨some r', size', none⟩ : Receive).waits q = true := by
              rw [waits_iff]
              rintro ⟨heq, -⟩
              exact hne (Option.some.inj heq)
            rw [Function.update_self, deliver_getElem?, hthere, Option.map_some, if_neg hnot]
          · rw [Function.update_of_ne he]
            exact hthere)
      refine ⟨_, _, _, _, clientCall_test hx htest,
        ⟨hs', hc.tracks.finish hr hx ho hdue hready' hwaiting'⟩, _, _, hx, ho, ?_, ?_⟩
      · rw [Mailboxes.answer_some hdue]
        rfl
      · rw [Mailboxes.answer_some hdue, hcopied]

theorem initialClient_inv (E : Type) [DecidableEq E] :
    ClientInv (initialClient E) Mailboxes.initial (fun _ => []) (fun _ => 0) := by
  have hview : ∀ e : E, (initialClient E).transport.view e = initialTraffic.ep := by
    intro e
    simp only [Transport.view, initialClient, initialTraffic, reduceCtorEq, if_false]
  refine ⟨⟨?_, fun _ => rfl, ?_⟩, ?_⟩
  · intro e
    rw [hview]
    exact initialTraffic_inv
  · intro e e' i j b hb
    cases hb
  · refine ⟨rfl, ?_, ?_⟩
    · intro k x o hx
      cases hx
    · intro i k x y hx
      cases hx

end Endpoints

end MxApi.Baseline
