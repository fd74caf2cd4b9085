/-
The lock-free transport keeps the mailboxes of its client, where the client issues its
calls in a certain order.

`mcapi_trans_recv` takes the message at the head whether or not its entry is reserved.
So a receive that is issued while the message of an earlier one is there is given that
message. A walk over the place where the counters wrap reserves another entry than the
one that the message will be put in. And the test of an operation that is over asks for
request 0. Calls that meet none of this are [`orderly`]. Over them the receives of an
endpoint are served in the order they were issued, so every one of them is given the
message with its number; a request whose entry is not the one at the head is held back
until the earlier ones are completed.
-/
import MxApi.Mcapi.LockFreeEndpoint

set_option autoImplicit false

namespace MxApi.LockFree

open Lib mcapi_buffer_state mcapi_status_t mcapi_request_state Messages

section Transport

variable {E : Type} [DecidableEq E]

/-- The numbers of the receives that are served, the buffers of the messages, and the
requests of the receives. -/
structure Ghost (E : Type) where
  received : E → ℕ
  buf : E → ℕ → ℕ
  owner : E → ℕ → ℕ

structure TransportInv (s : Transport E) (f : Mailboxes E) (g : Ghost E) : Prop where
  endpoint : ∀ e, EndpointInv (s.endpoint e) (f.accepted e) (f.issued e) (g.received e) (g.buf e)
  separate : ∀ e p e' p', g.received e ≤ p → p < (f.accepted e).length → g.received e' ≤ p' →
    p' < (f.accepted e').length → g.buf e p = g.buf e' p' → e = e' ∧ p = p'

/-- Request `r` is completed. -/
def Transport.ready (s : Transport E) (r : ℕ) (c : Completion) : Prop :=
  (s.requests r).state = REQUEST_COMPLETED ∧ (s.requests r).size = c.size ∧
    (s.requests r).status = c.status

/-- Request `r` is the one of receive `j` of the endpoint, and has reserved its entry. -/
structure Transport.Waiting (s : Transport E) (f : Mailboxes E) (g : Ghost E) (r : ℕ) (e : E)
    (j size : ℕ) : Prop where
  state : (s.requests r).state = REQUEST_VALID
  type : (s.requests r).type = .RECV
  handle : (s.requests r).handle = some e
  size : (s.requests r).size = size
  ep_qindex : (s.requests r).ep_qindex = (ringSlot j : ℤ)
  owner : g.owner e j = r
  received : g.received e ≤ j
  issued : j < f.issued e

/-! ## What the transport can take, and in which order -/

/-- A place in the queue of the endpoint and a buffer for a message, an entry for a
receive that waits. -/
def Transport.room (s : Transport E) : MessageCall E → Prop
  | .send e _ => (mcapi_trans_queue_tail (s.recv_queue e)).2 ≠ MCAPI_ERR_QUEUE_FULL ∧
      (mcapi_trans_alloc_buffer s.buffers).isSome = true
  | .recv e _ => (mcapi_trans_queue_head (s.recv_queue e)).2 ≠ MCAPI_SUCCESS →
      (firstUnreserved (s.recv_queue e)).isSome = true
  | .test _ => True

/-- The entry at the tail is free. -/
def tailFree (q : queue) : Prop :=
  (q.elements (mcapi_trans_queue_tail q).1).buff_index = 0 ∧
    (q.elements (mcapi_trans_queue_tail q).1).state = BUFFER_FREE

/-- No receive waits for the message at the head; and where there is none, the counters
do not wrap before the message that a new receive would wait for. -/
def headOpen (q : queue) : Prop :=
  if (mcapi_trans_queue_head q).2 = MCAPI_SUCCESS then
    (q.elements (mcapi_trans_queue_head q).1).reserved = false
  else q.ack_counter + 2 * reservedEntries q < 2 ^ 32

/-- The condition on a call of the client. -/
def orderly (c : Client (Transport E)) : MessageCall E → Prop
  | .send e _ => tailFree (c.transport.recv_queue e)
  | .recv e _ => headOpen (c.transport.recv_queue e)
  | .test k => ∀ x ∈ c.started[k]?, mcapi_trans_decode_request_handle x.request = none →
      (c.transport.requests (requestIndex x.request)).state ≠ REQUEST_COMPLETED ∧
        (c.transport.requests (requestIndex x.request)).state ≠ REQUEST_CANCELLED

/-- The request waits, and its entry is not the one at the front of the queue. -/
def Transport.behind (s : Transport E) (request : ℕ) : Bool :=
  match mcapi_trans_decode_request_handle request with
  | none => false
  | some r =>
    let req := s.requests r
    decide (req.state = REQUEST_VALID) &&
      req.handle.any fun e =>
        decide (req.ep_qindex ≠ ((mcapi_trans_queue_head (s.recv_queue e)).1 : ℤ))

end Transport

/-! ## Requests -/

section Requests

variable {E : Type} {s s' : Transport E} {f : Mailboxes E} {g : Ghost E} {e : E} {r size : ℕ}

theorem available_iff :
    s.available r = true ↔ r < MCAPI_MAX_REQUESTS ∧ (s.requests r).state = REQUEST_FREE := by
  rw [Transport.available, Bool.and_eq_true, decide_eq_true_iff, decide_eq_true_iff]

theorem not_ready_of_free (hr : (s.requests r).state = REQUEST_FREE) (c : Completion) :
    ¬ s.ready r c := by
  rintro ⟨hstate, -⟩
  rw [hr] at hstate
  cases hstate

theorem not_waiting_of_free (hr : (s.requests r).state = REQUEST_FREE) (e : E) (j size : ℕ) :
    ¬ s.Waiting f g r e j size := by
  intro hw
  have hstate := hw.state
  rw [hr] at hstate
  cases hstate

theorem ready_keep {r' : ℕ} {c : Completion} (hothers : s'.requests r' = s.requests r')
    (hc : s.ready r' c) : s'.ready r' c := by
  rw [Transport.ready, hothers]
  exact hc

theorem waiting_keep {f' : Mailboxes E} {g' : Ghost E} {r' j : ℕ}
    (hothers : s'.requests r' = s.requests r') (howner : g'.owner e j = g.owner e j)
    (hreceived : g'.received e ≤ j) (hissued : j < f'.issued e)
    (hw : s.Waiting f g r' e j size) : s'.Waiting f' g' r' e j size := by
  refine ⟨?_, ?_, ?_, ?_, ?_, howner.trans hw.owner, hreceived, hissued⟩
  · rw [hothers]
    exact hw.state
  · rw [hothers]
    exact hw.type
  · rw [hothers]
    exact hw.handle
  · rw [hothers]
    exact hw.size
  · rw [hothers]
    exact hw.ep_qindex

/-- What a call on request `r` leaves of the other requests. -/
def Others (s s' : Transport E) (r : ℕ) : Prop := ∀ r', r' ≠ r → s'.requests r' = s.requests r'

end Requests

/-! ## One endpoint among the others -/

section Endpoints

variable {E : Type} [DecidableEq E] {s s' : Transport E} {f f' : Mailboxes E} {g : Ghost E}
  {e : E} {r size : ℕ} {a : Bytes}

/-- The other endpoints do not notice that a buffer none of their messages is in
changes. -/
theorem EndpointInv.congr_buffers {q : queue} {buffers buffers' : ℕ → buffer_entry}
    {accepted : List Bytes} {issued received : ℕ} {buf : ℕ → ℕ}
    (h : EndpointInv ⟨q, buffers⟩ accepted issued received buf)
    (hb : ∀ p, received ≤ p → p < accepted.length → buffers' (buf p) = buffers (buf p)) :
    EndpointInv ⟨q, buffers'⟩ accepted issued received buf := by
  refine ⟨h.uc, h.ac, h.le, h.bound, h.le_issued, h.issued_le, h.lap, h.state, h.buff_index,
    h.in_pool, ?_, h.slots, h.reserved⟩
  intro p a hp ha
  have hsame := hb p hp (List.getElem?_eq_some_iff.mp ha).1
  have hthere : Holds (buffers (buf p)) a := h.holds p a hp ha
  rw [← hsame] at hthere
  exact hthere

/-- A call on endpoint `e` keeps the transport in order if it keeps the endpoint and
leaves the buffers of the other endpoints' messages alone. -/
theorem TransportInv.set (hs : TransportInv s f g) (sh : Shared) (owner : E → ℕ → ℕ)
    {received : ℕ} {buf : ℕ → ℕ} (hq : s'.recv_queue = Function.update s.recv_queue e sh.q)
    (hb : s'.buffers = sh.buffers)
    (haccepted : ∀ e', e' ≠ e → f'.accepted e' = f.accepted e')
    (hissued : ∀ e', e' ≠ e → f'.issued e' = f.issued e')
    (hinv : EndpointInv sh (f'.accepted e) (f'.issued e) received buf)
    (hothers : ∀ e' p, e' ≠ e → g.received e' ≤ p → p < (f.accepted e').length →
      sh.buffers (g.buf e' p) = s.buffers (g.buf e' p) ∧
        ∀ p', received ≤ p' → p' < (f'.accepted e).length → buf p' ≠ g.buf e' p)
    (hinj : ∀ p p', received ≤ p → p < (f'.accepted e).length → received ≤ p' →
      p' < (f'.accepted e).length → buf p = buf p' → p = p') :
    TransportInv s' f' ⟨Function.update g.received e received, Function.update g.buf e buf,
      owner⟩ := by
  refine ⟨?_, ?_⟩
  · intro e'
    by_cases he : e' = e
    · subst he
      simp only [Transport.endpoint, hq, hb, Function.update_self]
      exact hinv
    · simp only [Transport.endpoint, hq, hb, Function.update_of_ne he, haccepted e' he,
        hissued e' he]
      exact (hs.endpoint e').congr_buffers fun p hp hpt => (hothers e' p he hp hpt).1
  · intro e₁ p e₂ p' hp hpt hp' hpt' heq
    by_cases h₁ : e₁ = e
    · subst h₁
      by_cases h₂ : e₂ = e₁
      · subst h₂
        simp only [Function.update_self] at hp hp' heq
        exact ⟨rfl, hinj p p' hp hpt hp' hpt' heq⟩
      · simp only [Function.update_self, Function.update_of_ne h₂] at hp hp' heq
        rw [haccepted e₂ h₂] at hpt'
        exact absurd heq ((hothers e₂ p' h₂ hp' hpt').2 p hp hpt)
    · by_cases h₂ : e₂ = e
      · subst h₂
        simp only [Function.update_self, Function.update_of_ne h₁] at hp hp' heq
        rw [haccepted e₁ h₁] at hpt
        exact absurd heq.symm ((hothers e₁ p h₁ hp hpt).2 p' hp' hpt')
      · simp only [Function.update_of_ne h₁, Function.update_of_ne h₂] at hp hp' heq
        rw [haccepted e₁ h₁] at hpt
        rw [haccepted e₂ h₂] at hpt'
        exact hs.separate e₁ p e₂ p' hp hpt hp' hpt' heq

/-! ## Sends and receives -/

/-- A call that puts request `r` in order leaves the other requests alone. -/
theorem others_setup (s : Transport E) (r : ℕ) (handle : E) (mcapi_status : CallStatus)
    (completed : Bool) (size : ℕ) (type : request_type) :
    Others s (s.setup_request r handle mcapi_status completed size type) r := by
  intro r' hne
  unfold Transport.setup_request
  cases completed with
  | true =>
    rw [if_pos rfl]
    exact Function.update_of_ne hne _ _
  | false =>
    rw [if_neg Bool.false_ne_true]
    cases type with
    | OTHER | SEND => exact Function.update_of_ne hne _ _
    | RECV =>
      dsimp only
      split
      · exact Function.update_of_ne hne _ _
      · exact Function.update_of_ne hne _ _

theorem TransportInv.send (hs : TransportInv s f g) (hr : s.available r = true)
    (hroom : s.room (.send e a)) (hfree : tailFree (s.recv_queue e)) :
    ∃ s' g', s.mcapi_trans_msg_send_i r e a =
        some (s', ⟨requestHandle r, .MCAPI_SUCCESS, none⟩) ∧
      TransportInv s' (f.send e a) g' ∧ Others s s' r ∧
      g'.received = g.received ∧ g'.owner = g.owner ∧
      s'.ready r ⟨.MCAPI_SUCCESS, a.length⟩ := by
  have he := hs.endpoint e
  obtain ⟨sh, i, hsend, hmagic, hothers, hinv⟩ := he.send hroom.1 hroom.2 hfree.1 hfree.2 a
  have hnot : ∀ e' p, g.received e' ≤ p → p < (f.accepted e').length → g.buf e' p ≠ i := by
    intro e' p hp hpt heq
    have hholds := (hs.endpoint e').holds p _ hp (List.getElem?_eq_getElem hpt)
    rw [heq] at hholds
    exact MAGIC_NUM_ne_zero (hholds.magic_num.symm.trans hmagic)
  have hlen : (f.send e a).accepted e = f.accepted e ++ [a] := Function.update_self ..
  have hcases : ∀ p, p < ((f.send e a).accepted e).length →
      p < (f.accepted e).length ∨ p = (f.accepted e).length := by
    intro p hp
    rw [hlen, List.length_append, List.length_singleton] at hp
    omega
  refine ⟨_, _, by rw [Transport.mcapi_trans_msg_send_i, if_pos hr, hsend],
    hs.set sh g.owner rfl rfl ?_ ?_ (by rw [hlen]; exact hinv) ?_ ?_, ?_, ?_, rfl, ?_⟩
  · intro e' hne
    exact Function.update_of_ne hne _ _
  · intro e' _
    rfl
  · intro e' p hne hp hpt
    refine ⟨hothers _ (hnot e' p hp hpt), ?_⟩
    intro p' hp' hpt'
    rcases hcases p' hpt' with hlt | rfl
    · rw [Function.update_of_ne (Nat.ne_of_lt hlt)]
      intro heq
      exact hne (hs.separate e p' e' p hp' hlt hp hpt heq).1.symm
    · rw [Function.update_self]
      exact (hnot e' p hp hpt).symm
  · intro p p' hp hpt hp' hpt' heq
    rcases hcases p hpt with hlt | rfl
    · rcases hcases p' hpt' with hlt' | rfl
      · rw [Function.update_of_ne (Nat.ne_of_lt hlt),
          Function.update_of_ne (Nat.ne_of_lt hlt')] at heq
        exact (hs.separate e p e p' hp hlt hp' hlt' heq).2
      · rw [Function.update_of_ne (Nat.ne_of_lt hlt), Function.update_self] at heq
        exact absurd heq (hnot e p hp hlt)
    · rcases hcases p' hpt' with hlt' | rfl
      · rw [Function.update_of_ne (Nat.ne_of_lt hlt'), Function.update_self] at heq
        exact absurd heq.symm (hnot e p' hp' hlt')
      · rfl
  · exact others_setup (s.setEndpoint e sh) r e _ true _ _
  · exact Function.update_eq_self e g.received
  · simp only [Transport.ready, Transport.setup_request, Transport.setRequest, if_true,
      Function.update_self, and_self]

/-- The receives that wait with another request than `r` go on waiting. -/
structure Kept (f : Mailboxes E) (g g' : Ghost E) (r : ℕ) : Prop where
  received : ∀ e j, g.received e ≤ j → j < f.issued e → g.owner e j ≠ r → g'.received e ≤ j
  owner : ∀ e j, g.received e ≤ j → j < f.issued e → g.owner e j ≠ r →
    g'.owner e j = g.owner e j

/-- A receive that finds the message at the head: none waits for it, so it is the next
one of the endpoint. -/
theorem EndpointInv.recv_some {sh : Shared} {accepted : List Bytes} {issued received : ℕ}
    {buf : ℕ → ℕ} (he : EndpointInv sh accepted issued received buf)
    (hopen : headOpen sh.q) (ha : accepted[received]? = some a)
    (hinj : ∀ p, received < p → p < accepted.length → buf p ≠ buf received) (size : ℕ) :
    issued = received ∧
      ∃ sh', mcapi_trans_recv sh size = some (sh', some ⟨a.take size, a.length⟩) ∧
        (∀ b, b ≠ buf received → sh'.buffers b = sh.buffers b) ∧
        EndpointInv sh' accepted (issued + 1) (received + 1) buf := by
  have hlt : received < accepted.length := (List.getElem?_eq_some_iff.mp ha).1
  have hhead := he.head_some hlt
  rw [headOpen, hhead, if_pos rfl] at hopen
  have hle := he.le_issued
  have hissued : issued = received := by
    by_contra hne
    have hres := (he.reserved _).mpr ⟨received, le_rfl, by omega, rfl⟩
    rw [hopen] at hres
    cases hres
  refine ⟨hissued, ?_⟩
  subst hissued
  obtain ⟨sh', htake, hothers, hinv⟩ := he.take ha hinj (issued + 1) le_rfl (by omega)
    (fun p hp => iff_of_false (by omega) (by omega)) size
  refine ⟨sh', ?_, hothers, hinv⟩
  simp only [mcapi_trans_recv, hhead, he.sent_head hlt, if_true, htake, Option.map_some]

/-- A receive that finds the queue empty leaves it. -/
theorem EndpointInv.recv_none {sh : Shared} {accepted : List Bytes} {issued received : ℕ}
    {buf : ℕ → ℕ} (he : EndpointInv sh accepted issued received buf)
    (hge : accepted.length ≤ received) (size : ℕ) :
    mcapi_trans_recv sh size = some (sh, none) := by
  simp only [mcapi_trans_recv, he.head_none hge]

theorem TransportInv.recv (hs : TransportInv s f g) (hr : s.available r = true)
    (hroom : s.room (.recv e size)) (hopen : headOpen (s.recv_queue e)) :
    ∃ s' g', s.mcapi_trans_msg_recv_i r e size =
        some (s', ⟨requestHandle r, .MCAPI_SUCCESS, Mailboxes.atOnce (f.received e size)⟩) ∧
      TransportInv s' (f.recv e size) g' ∧ Others s s' r ∧ Kept f g g' r ∧
      Tracked (f.recv e size) s'.ready (s'.Waiting (f.recv e size) g')
        ⟨requestHandle r, Mailboxes.atOnce (f.received e size), none⟩ (f.received e size) := by
  have he := hs.endpoint e
  obtain ⟨hrN, -⟩ := available_iff.mp hr
  have hissued : (f.recv e size).issued e = f.issued e + 1 := Function.update_self ..
  have hothers_issued : ∀ e', e' ≠ e → (f.recv e size).issued e' = f.issued e' :=
    fun e' hne => Function.update_of_ne hne _ _
  rcases Nat.lt_or_ge (g.received e) (f.accepted e).length with hlt | hge
  · -- the message is there
    have ha := List.getElem?_eq_getElem hlt
    obtain ⟨hie, sh, hrecv, hbuffers, hinv⟩ := he.recv_some hopen ha (fun p hp hpt heq => by
      have hpr := (hs.separate e p e _ (by omega) hpt le_rfl hlt heq).2
      omega) size
    have hop : f.received e size = .complete ⟨.MCAPI_SUCCESS, ((f.accepted e)[g.received e]).length⟩
        (some (((f.accepted e)[g.received e]).take size)) := by
      rw [Mailboxes.received, hie, ha]
    refine ⟨_, _, by rw [Transport.mcapi_trans_msg_recv_i, if_pos hr, hrecv, hop]; rfl,
      hs.set sh g.owner rfl rfl (fun _ _ => rfl) hothers_issued (by rw [hissued]; exact hinv)
        ?_ ?_, ?_, ?_, ?_⟩
    · intro e' p hne hp hpt
      refine ⟨hbuffers _ ?_, ?_⟩
      · intro heq
        exact hne (hs.separate e' p e _ hp hpt le_rfl hlt heq).1
      · intro p' hp' hpt' heq
        exact hne (hs.separate e p' e' p (by omega) hpt' hp hpt heq).1.symm
    · intro p p' hp hpt hp' hpt' heq
      exact (hs.separate e p e p' (by omega) hpt (by omega) hpt' heq).2
    · exact others_setup (s.setEndpoint e sh) r e _ true _ _
    · refine ⟨?_, fun _ _ _ _ _ => rfl⟩
      intro e' j hj hji _
      by_cases hee : e' = e
      · subst hee
        omega
      · dsimp only
        rw [Function.update_of_ne hee]
        exact hj
    · rw [hop]
      apply Tracked.ready hrN
      simp only [Transport.ready, Transport.setup_request, Transport.setRequest, if_true,
        Function.update_self, and_self, Option.map_some, Option.isSome_some, Option.getD_some]
  · -- the receive waits
    have hle := he.le_issued
    have hhead := he.head_none hge
    have hwrap : (s.recv_queue e).ack_counter + 2 * reservedEntries (s.recv_queue e) < 2 ^ 32 := by
      rw [headOpen, if_neg] at hopen
      · exact hopen
      · intro hc
        have hlt := he.head_snd.mp hc
        omega
    obtain ⟨hfound, hinv⟩ := he.reserve (hroom (fun hc => by
      have hlt := he.head_snd.mp hc
      omega)) hwrap
    have hop : f.received e size = .wait e (f.issued e) size := by
      rw [Mailboxes.received, List.getElem?_eq_none (by omega)]
    have hset : s.setEndpoint e (s.endpoint e) = s := by
      simp only [Transport.setEndpoint, Transport.endpoint, Function.update_eq_self]
    have hsetup : Others s (s.setup_request r e .MCAPI_SUCCESS false size .RECV) r :=
      others_setup s r e _ false size _
    have hrecv : s.mcapi_trans_msg_recv_i r e size =
        some (s.setup_request r e .MCAPI_SUCCESS false size .RECV,
          ⟨requestHandle r, .MCAPI_SUCCESS, none⟩) := by
      rw [Transport.mcapi_trans_msg_recv_i, if_pos hr, he.recv_none hge]
      simp only [hset]
      rfl
    obtain ⟨s', hs'⟩ : ∃ s', s' = s.setup_request r e .MCAPI_SUCCESS false size .RECV := ⟨_, rfl⟩
    have hsetup_eq : s' = ((s.setEndpoint e ((s.endpoint e).setElement (ringSlot (f.issued e))
        { (s.recv_queue e).elements (ringSlot (f.issued e)) with reserved := true })).setRequest r
          { s.requests r with
            state := REQUEST_VALID, type := .RECV, handle := some e, size := size
            status := .MCAPI_SUCCESS, ep_qindex := ringSlot (f.issued e) }) := by
      have hfound' : firstUnreserved (s.recv_queue e) = some (ringSlot (f.issued e)) := hfound
      simp only [hs', Transport.setup_request, hfound', Bool.false_eq_true, if_false]
    refine ⟨s', _, by rw [hrecv, hop, hs']; rfl,
      hs.set _ (Function.update g.owner e (Function.update (g.owner e) (f.issued e) r))
        (by rw [hsetup_eq]; rfl) (by rw [hsetup_eq]; rfl) (fun _ _ => rfl) hothers_issued
        (by rw [hissued]; exact hinv) ?_ ?_, by rw [hs']; exact hsetup, ?_, ?_⟩
    · intro e' p hne hp hpt
      refine ⟨rfl, ?_⟩
      intro p' hp' hpt' heq
      exact hne (hs.separate e p' e' p hp' hpt' hp hpt heq).1.symm
    · intro p p' hp hpt hp' hpt' heq
      exact (hs.separate e p e p' hp hpt hp' hpt' heq).2
    · refine ⟨?_, ?_⟩
      · intro e' j hj hji _
        dsimp only
        by_cases hee : e' = e
        · subst hee
          rw [Function.update_self]
          exact hj
        · rw [Function.update_of_ne hee]
          exact hj
      · intro e' j hj hji _
        dsimp only
        by_cases hee : e' = e
        · subst hee
          rw [Function.update_self, Function.update_of_ne (Nat.ne_of_lt hji)]
        · rw [Function.update_of_ne hee]
    · rw [hop]
      apply Tracked.waits hrN
      have hreq : s'.requests r = { s.requests r with
          state := REQUEST_VALID, type := .RECV, handle := some e, size := size
          status := .MCAPI_SUCCESS, ep_qindex := ringSlot (f.issued e) } := by
        rw [hsetup_eq]
        exact Function.update_self ..
      refine ⟨by rw [hreq], by rw [hreq], by rw [hreq], by rw [hreq], by rw [hreq], ?_, ?_, ?_⟩
      · dsimp only
        rw [Function.update_self, Function.update_self]
      · dsimp only
        rw [Function.update_self]
        exact hle
      · rw [hissued]
        omega

end Endpoints

/-! ## Tests -/

section Waiting

variable {E : Type} {s s' : Transport E} {f f' : Mailboxes E} {g : Ghost E} {e : E} {r size : ℕ}

/-- Where the mailboxes grow, the requests other than `r` stand as before. -/
theorem Others.tracked {g' : Ghost E} (ho : Others s s' r) (hk : Kept f g g' r)
    (hissued : ∀ e, f.issued e ≤ f'.issued e) :
    (∀ r' c, r' ≠ r → s.ready r' c → s'.ready r' c) ∧
      ∀ r' e j size, r' ≠ r → s.Waiting f g r' e j size → s'.Waiting f' g' r' e j size := by
  refine ⟨fun r' c hne hc => ready_keep (ho r' hne) hc, ?_⟩
  intro r' e j size hne hw
  have howner : g.owner e j ≠ r := by
    rw [hw.owner]
    exact hne
  exact waiting_keep (ho r' hne) (hk.owner e j hw.received hw.issued howner)
    (hk.received e j hw.received hw.issued howner) (Nat.lt_of_lt_of_le hw.issued (hissued e)) hw

theorem Kept.refl (f : Mailboxes E) (g : Ghost E) (r : ℕ) : Kept f g g r :=
  ⟨fun _ _ hj _ _ => hj, fun _ _ _ _ _ => rfl⟩

/-- The transport after request `r` was removed. -/
def Transport.remove (s : Transport E) (r : ℕ) : Transport E :=
  s.setRequest r { s.requests r with state := REQUEST_FREE, ep_qindex := -1 }

theorem others_remove (s : Transport E) (r : ℕ) : Others s (s.remove r) r :=
  fun _ hne => Function.update_of_ne hne _ _

/-- Requests are no part of what an endpoint is in. -/
theorem TransportInv.congr_requests (hs : TransportInv s f g)
    (hq : s'.recv_queue = s.recv_queue) (hb : s'.buffers = s.buffers) : TransportInv s' f g := by
  refine ⟨?_, hs.separate⟩
  intro e
  rw [Transport.endpoint, hq, hb]
  exact hs.endpoint e

/-- The entry that the request has reserved is the one at the front exactly if its turn
has come. -/
theorem TransportInv.front (hs : TransportInv s f g) {j : ℕ} (hw : s.Waiting f g r e j size) :
    ((ringSlot (g.received e) : ℕ) : ℤ) = (s.requests r).ep_qindex ↔ j = g.received e := by
  rw [hw.ep_qindex, Nat.cast_inj]
  constructor
  · intro heq
    by_contra hne
    have hlt : g.received e < j := Nat.lt_of_le_of_ne hw.received (Ne.symm hne)
    exact (hs.endpoint e).waiting_slot_ne hlt hw.issued heq.symm
  · rintro rfl
    rfl

theorem TransportInv.behind_iff (hs : TransportInv s f g) {j : ℕ} (hr : r < MCAPI_MAX_REQUESTS)
    (hw : s.Waiting f g r e j size) :
    s.behind (requestHandle r) = true ↔ j ≠ g.received e := by
  have hhead : (mcapi_trans_queue_head (s.recv_queue e)).1 = ringSlot (g.received e) :=
    (hs.endpoint e).head_fst
  simp only [Transport.behind, decode_requestHandle hr, hw.state, hw.handle, decide_true,
    Bool.true_and, Option.any_some, decide_eq_true_iff, hhead]
  rw [ne_comm, Ne, hs.front hw]

/-- What a waiting request is completed with. -/
theorem completedRequest_ready (a : Bytes) (req : Request E) :
    (Transport.completedRequest req ⟨a.take req.size, a.length⟩).state = REQUEST_COMPLETED ∧
      (Transport.completedRequest req ⟨a.take req.size, a.length⟩).size = (waitOutcome req.size a).size ∧
      (Transport.completedRequest req ⟨a.take req.size, a.length⟩).status =
        (waitOutcome req.size a).status := by
  simp only [Transport.completedRequest, waitOutcome]
  split
  · exact ⟨rfl, rfl, rfl⟩
  · exact ⟨rfl, rfl, rfl⟩

/-- The call is a test of an operation that is held back by an earlier one. -/
def heldBack (c : Client (Transport E)) : MessageCall E → Bool
  | .send _ _ | .recv _ _ => false
  | .test k => (c.started[k]?).any fun x => c.transport.behind x.request

theorem heldBack_test {c : Client (Transport E)} {k : ℕ} {x : ClientRequest} (hx : c.started[k]? = some x) :
    heldBack c (.test k) = c.transport.behind x.request := by
  rw [heldBack, hx]
  rfl

end Waiting

section Tests

variable {E : Type} [DecidableEq E] {s s' : Transport E} {f : Mailboxes E} {g : Ghost E} {e : E}
  {r size : ℕ} {a : Bytes}

theorem requestIndex_requestHandle (hr : r < MCAPI_MAX_REQUESTS) :
    requestIndex (requestHandle r) = r := (decode_request_handle_some (decode_requestHandle hr)).1

/-- A request variable that was set to zero is no request. It is queried as request 0
all the same, so that one must not be found completed. -/
theorem test_over (hcompleted : (s.requests 0).state ≠ REQUEST_COMPLETED)
    (hcancelled : (s.requests 0).state ≠ REQUEST_CANCELLED) :
    s.mcapi_trans_test_i 0 = some (s, ⟨0, true, .MCAPI_ERR_REQUEST_INVALID, none, none⟩) := by
  have hstate : s.testState 0 = some (s, true, .MCAPI_ERR_REQUEST_INVALID, none) := rfl
  have hindex : requestIndex 0 = 0 := rfl
  have hlt : 0 < MCAPI_MAX_REQUESTS := by decide
  simp only [Transport.mcapi_trans_test_i, hstate, hindex, hlt, hcompleted, hcancelled, if_true,
    or_self, if_false]

/-- A test that leaves its request completed reports it and gives it back. -/
theorem test_completed {c : Completion} {rc : Bool} {status : CallStatus}
    {buffer : Option Bytes} (hr : r < MCAPI_MAX_REQUESTS)
    (hstate : s.testState (requestHandle r) = some (s', rc, status, buffer))
    (hready : s'.ready r c) :
    s.mcapi_trans_test_i (requestHandle r) =
      some (s'.remove r, ⟨0, true, c.status, some c.size, buffer⟩) := by
  obtain ⟨hcompleted, hsize, hstatus⟩ := hready
  simp only [Transport.mcapi_trans_test_i, hstate, requestIndex_requestHandle hr, hr, hcompleted,
    hsize, hstatus, if_true, true_or, Transport.remove]

/-- A completed request is reported and given back. -/
theorem test_ready {c : Completion} (hr : r < MCAPI_MAX_REQUESTS) (hready : s.ready r c) :
    s.mcapi_trans_test_i (requestHandle r) =
      some (s.remove r, ⟨0, true, c.status, some c.size, none⟩) := by
  apply test_completed hr _ hready
  · exact false
  · exact .MCAPI_SUCCESS
  · simp only [Transport.testState, decode_requestHandle hr, hready.1]

/-- A test that finds a request waiting is decided by the endpoint. -/
theorem testState_waiting {j : ℕ} (hr : r < MCAPI_MAX_REQUESTS)
    (hw : s.Waiting f g r e j size) :
    s.testState (requestHandle r) =
      (s.check_receive_request_ r).map fun p => (p.1, false, .MCAPI_SUCCESS, p.2) := by
  simp only [Transport.testState, decode_requestHandle hr, hw.state, hw.type]

/-- The test of a request whose turn or whose message has not come changes nothing. -/
theorem TransportInv.test_none (hs : TransportInv s f g) {j : ℕ} (hr : r < MCAPI_MAX_REQUESTS)
    (hw : s.Waiting f g r e j size) (hheld : j ≠ g.received e ∨ (f.accepted e)[j]? = none) :
    s.mcapi_trans_test_i (requestHandle r) =
      some (s, ⟨requestHandle r, false, .MCAPI_SUCCESS, none, none⟩) := by
  have he := hs.endpoint e
  have hcheck : s.check_receive_request_ r = some (s, none) := by
    simp only [Transport.check_receive_request_, hw.handle]
    rcases Nat.lt_or_ge (g.received e) (f.accepted e).length with hlt | hge
    · have hhead : mcapi_trans_queue_head (s.recv_queue e) =
          (ringSlot (g.received e), MCAPI_SUCCESS) := he.head_some hlt
      have hj : j ≠ g.received e := by
        rcases hheld with hj | ha
        · exact hj
        · rintro rfl
          rw [List.getElem?_eq_none_iff] at ha
          omega
      simp only [hhead]
      rw [if_neg]
      rintro ⟨heq, -⟩
      exact hj ((hs.front hw).mp heq)
    · have hhead : mcapi_trans_queue_head (s.recv_queue e) =
          (ringSlot (g.received e), MCAPI_ERR_QUEUE_EMPTY) := he.head_none hge
      simp only [hhead]
  have hvalid := hw.state
  simp only [Transport.mcapi_trans_test_i, testState_waiting hr hw, hcheck, Option.map_some,
    requestIndex_requestHandle hr, hr, hvalid, if_true]
  simp

/-- The test of a request whose turn and whose message have come completes it. -/
theorem TransportInv.test_some (hs : TransportInv s f g) (hr : r < MCAPI_MAX_REQUESTS)
    (hw : s.Waiting f g r e (g.received e) size) (ha : (f.accepted e)[g.received e]? = some a) :
    ∃ s' g', s.mcapi_trans_test_i (requestHandle r) =
        some (s', ⟨0, true, (waitOutcome size a).status, some (waitOutcome size a).size,
          some (a.take size)⟩) ∧
      TransportInv s' f g' ∧ Others s s' r ∧ Kept f g g' r := by
  have he := hs.endpoint e
  have hlt : g.received e < (f.accepted e).length := (List.getElem?_eq_some_iff.mp ha).1
  have hissued := hw.issued
  have hissued_le := he.issued_le
  obtain ⟨sh, htake, hbuffers, hinv⟩ := he.take ha (fun p hp hpt heq => by
      have hpr := (hs.separate e p e _ (by omega) hpt le_rfl hlt heq).2
      omega) (f.issued e) (by omega) (by omega) (fun _ _ => Iff.rfl) size
  have hhead : mcapi_trans_queue_head (s.recv_queue e) =
      (ringSlot (g.received e), MCAPI_SUCCESS) := he.head_some hlt
  have hsent : sent ((s.recv_queue e).elements (ringSlot (g.received e))) = true :=
    he.sent_head hlt
  obtain ⟨s', hs'⟩ : ∃ s', s' = (s.setEndpoint e sh).setRequest r
      (Transport.completedRequest (s.requests r) ⟨a.take size, a.length⟩) := ⟨_, rfl⟩
  have hcheck : s.check_receive_request_ r = some (s', some (a.take size)) := by
    simp only [Transport.check_receive_request_, hw.handle, hhead]
    rw [if_pos ⟨(hs.front hw).mpr rfl, hsent⟩]
    simp only [hw.state, if_true, hw.size, htake, hs']
  have hready : s'.ready r (waitOutcome size a) := by
    have hthere := completedRequest_ready a (s.requests r)
    rw [hw.size] at hthere
    rw [Transport.ready, hs']
    simp only [Transport.setRequest, Function.update_self]
    exact hthere
  have hothers : Others s (s'.remove r) r := by
    intro r' hne
    rw [others_remove s' r r' hne, hs']
    exact Function.update_of_ne hne _ _
  refine ⟨s'.remove r, _, test_completed hr (by rw [testState_waiting hr hw, hcheck]; rfl) hready,
    hs.set sh g.owner (by rw [hs']; rfl) (by rw [hs']; rfl) (fun _ _ => rfl) (fun _ _ => rfl) hinv
      ?_ ?_, hothers, ?_⟩
  · intro e' p hne hp hpt
    refine ⟨hbuffers _ ?_, ?_⟩
    · intro heq
      exact hne (hs.separate e' p e _ hp hpt le_rfl hlt heq).1
    · intro p' hp' hpt' heq
      exact hne (hs.separate e p' e' p (by omega) hpt' hp hpt heq).1.symm
  · intro p p' hp hpt hp' hpt' heq
    exact (hs.separate e p e p' (by omega) hpt (by omega) hpt' heq).2
  · refine ⟨?_, fun _ _ _ _ _ => rfl⟩
    intro e' j hj _ howner
    by_cases hee : e' = e
    · subst hee
      -- the receive that was served is that of `r`
      have hne : j ≠ g.received e' := by
        rintro rfl
        exact howner hw.owner
      dsimp only
      rw [Function.update_self]
      omega
    · dsimp only
      rw [Function.update_of_ne hee]
      exact hj

/-! ## The client -/

/-- A client of the lock-free transport and its mailboxes. -/
structure ClientInv (c : Client (Transport E)) (f : Mailboxes E) (g : Ghost E) : Prop where
  transport : TransportInv c.transport f g
  tracks : Tracks f c.transport.ready (c.transport.Waiting f g) c.started

/-- A send or a receive is given a request that is free; a test is of an operation of the
client. -/
def enabled (c : Client (Transport E)) (r : ℕ) : MessageCall E → Prop
  | .send _ _ | .recv _ _ => c.transport.available r = true
  | .test k => k < c.started.length

variable {c : Client (Transport E)}

theorem ClientInv.send (hc : ClientInv c f g) (hr : c.transport.available r = true)
    (hroom : c.transport.room (.send e a)) (hfree : orderly c (.send e a)) :
    ∃ c' reply g', clientCall (api E) c r (.send e a) = some (c', reply) ∧
      ClientInv c' (f.send e a) g' ∧
      f.Replied false c.started c'.started reply (.send e a) := by
  obtain ⟨hrN, hstate⟩ := available_iff.mp hr
  obtain ⟨s', g', hsend, hs', ho, hreceived, howner, hready⟩ := hc.transport.send hr hroom hfree
  have hk : Kept f g g' r := by
    refine ⟨?_, ?_⟩
    · intro e' j hj _ _
      rw [hreceived]
      exact hj
    · intro e' j _ _ _
      rw [howner]
  obtain ⟨hready', hwaiting'⟩ := ho.tracked hk
    (show ∀ e', f.issued e' ≤ (f.send e a).issued e' from fun _ => le_rfl)
  have htracks : Tracks (f.send e a) s'.ready (s'.Waiting (f.send e a) g') _ :=
    hc.tracks.start hrN rfl (fun o d hd => Mailboxes.due_send hd e a)
      (not_ready_of_free hstate) (not_waiting_of_free hstate) hready' hwaiting'
      (.ready hrN hready)
  exact ⟨_, _, g', clientCall_send hsend, ⟨hs', htracks⟩, ⟨_, rfl⟩, rfl⟩

theorem ClientInv.recv (hc : ClientInv c f g) (hr : c.transport.available r = true)
    (hroom : c.transport.room (.recv e size)) (hopen : orderly c (.recv e size)) :
    ∃ c' reply g', clientCall (api E) c r (.recv e size) = some (c', reply) ∧
      ClientInv c' (f.recv e size) g' ∧
      f.Replied false c.started c'.started reply (.recv e size) := by
  obtain ⟨hrN, hstate⟩ := available_iff.mp hr
  obtain ⟨s', g', hrecv, hs', ho, hk, hnew⟩ := hc.transport.recv hr hroom hopen
  have hissued : ∀ e', f.issued e' ≤ (f.recv e size).issued e' := by
    intro e'
    by_cases he : e' = e
    · subst he
      simp only [Mailboxes.recv, Function.update_self]
      omega
    · simp only [Mailboxes.recv, Function.update_of_ne he]
      exact le_rfl
  obtain ⟨hready', hwaiting'⟩ := ho.tracked hk hissued
  have htracks : Tracks (f.recv e size) s'.ready (s'.Waiting (f.recv e size) g') _ :=
    hc.tracks.start hrN rfl (fun o d hd => Mailboxes.due_recv hd e size)
      (not_ready_of_free hstate) (not_waiting_of_free hstate) hready' hwaiting' hnew
  exact ⟨_, _, g', clientCall_recv hrecv, ⟨hs', htracks⟩, ⟨_, rfl⟩, rfl⟩

/-- A test completes what is due, unless it is held back, and is refused where the
operation is over. -/
theorem ClientInv.test {k : ℕ} (hc : ClientInv c f g) (hk : k < c.started.length)
    (hover : orderly c (.test k)) :
    ∃ c' reply g', clientCall (api E) c r (.test k) = some (c', reply) ∧
      ClientInv c' f g' ∧
      f.Replied (heldBack c (.test k)) c.started c'.started reply (.test k) := by
  obtain ⟨x, hx⟩ : ∃ x, c.started[k]? = some x := ⟨_, List.getElem?_eq_getElem hk⟩
  have hko : k < f.operations.length := by
    rw [← hc.tracks.length]
    exact hk
  obtain ⟨o, ho⟩ : ∃ o, f.operations[k]? = some o := ⟨_, List.getElem?_eq_getElem hko⟩
  have hsame : c.started.set k x = c.started := by
    obtain ⟨hlt, rfl⟩ := List.getElem?_eq_some_iff.mp hx
    exact List.set_getElem_self hlt
  -- a test that leaves the operation as it is
  have hleft : ClientInv ⟨c.transport, c.started.set k x⟩ f g := by
    rw [hsame]
    exact hc
  rw [heldBack_test hx]
  cases hc.tracks.tracked k x o hx ho with
  | ended hdue =>
    have hzero : mcapi_trans_decode_request_handle 0 = none := by decide
    obtain ⟨hcompleted, hcancelled⟩ := hover _ hx hzero
    have htest : (api E).test_i c.transport 0 = _ := test_over hcompleted hcancelled
    exact ⟨_, _, g, clientCall_test hx htest, hleft, _, _, hx, ho, rfl, rfl⟩
  | ready hr hready =>
    rename_i q outcome buffer
    obtain ⟨hready', hwaiting'⟩ := (others_remove c.transport q).tracked (Kept.refl f g q)
      fun e => le_refl (f.issued e)
    have hdue : f.due (.complete outcome buffer) = some (outcome, buffer) := rfl
    have hnot : c.transport.behind (requestHandle q) = false := by
      simp only [Transport.behind, decode_requestHandle hr, hready.1]
      rfl
    refine ⟨_, _, g, clientCall_test hx (test_ready hr hready),
      ⟨hc.transport.congr_requests rfl rfl, hc.tracks.finish hr hx ho hdue hready' hwaiting'⟩,
      _, _, hx, ho, ?_, ?_⟩
    · rw [hnot, Mailboxes.answer_some hdue]
      rfl
    · rw [hnot, Mailboxes.answer_some hdue]
      rfl
  | waits hr hw =>
    rename_i q j size e
    by_cases hheld : j ≠ g.received e ∨ (f.accepted e)[j]? = none
    · have hanswer : c.transport.behind (requestHandle q) = true ∨ f.due (.wait e j size) = none := by
        rcases hheld with hj | ha
        · exact Or.inl ((hc.transport.behind_iff hr hw).mpr hj)
        · right
          rw [Mailboxes.due, ha]
          rfl
      refine ⟨_, _, g, clientCall_test hx (hc.transport.test_none hr hw hheld), hleft,
        _, _, hx, ho, ?_, ?_⟩
      · rw [Mailboxes.answer_none hanswer]
        rfl
      · rw [Mailboxes.answer_none hanswer]
    · obtain ⟨hj, hsome⟩ := not_or.mp hheld
      obtain rfl := not_not.mp hj
      obtain ⟨a, ha⟩ := Option.ne_none_iff_exists'.mp hsome
      have hdue : f.due (.wait e (g.received e) size) =
          some (waitOutcome size a, some (a.take size)) := by
        rw [Mailboxes.due, ha]
        rfl
      have hcopied : f.copied (.wait e (g.received e) size) = some (a.take size) := by
        rw [Mailboxes.copied, ha]
        rfl
      have hnot : c.transport.behind (requestHandle q) = false := by
        rw [Bool.eq_false_iff, Ne, hc.transport.behind_iff hr hw]
        exact hj
      obtain ⟨s', g', htest, hs', hothers, hkept⟩ := hc.transport.test_some hr hw ha
      obtain ⟨hready', hwaiting'⟩ := hothers.tracked hkept fun e => le_refl (f.issued e)
      refine ⟨_, _, g', clientCall_test hx htest,
        ⟨hs', hc.tracks.finish hr hx ho hdue hready' hwaiting'⟩, _, _, hx, ho, ?_, ?_⟩
      · rw [hnot, Mailboxes.answer_some hdue]
        rfl
      · rw [hnot, Mailboxes.answer_some hdue, hcopied]

theorem initialClient_inv (E : Type) [DecidableEq E] :
    ClientInv (initialClient E) Mailboxes.initial
      ⟨fun _ => 0, fun _ _ => 0, fun _ _ => 0⟩ := by
  refine ⟨⟨?_, ?_⟩, ?_⟩
  · intro e
    refine ⟨rfl, rfl, le_rfl, Nat.zero_le _, le_rfl, Nat.zero_le _, ?_, ?_, ?_, ?_, ?_, ?_, ?_⟩
    · intro p _ hp
      cases hp
    · intro p _ hp
      cases hp
    · intro p _ hp
      cases hp
    · intro p _ hp
      cases hp
    · intro p a _ ha
      cases ha
    · intro p p' _ hp
      cases hp
    · intro i
      refine iff_of_false (by exact Bool.false_ne_true) ?_
      rintro ⟨p, -, hp, -⟩
      cases hp
  · intro e p e' p' _ hp
    cases hp
  · refine ⟨rfl, ?_, ?_⟩
    · intro k x o hx
      cases hx
    · intro i k x y hx
      cases hx

end Tests

end MxApi.LockFree
