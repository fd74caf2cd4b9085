/-
The receive queue over whole runs.

Operation `k` is given message `k`, an accepted message is in the queue until it is
delivered, and a request is completed as soon as it is tested after its message has
come. All this depends on how requests are cancelled. The loop that shifts the
reservations down does not cross the tail. Where the message of the cancelled
request is in the queue already, and an operation waits beyond the tail, that
message is left to no operation while the operation that is due it waits for a
later one; and where a message behind it was taken, the reservations are shifted
past a message that has its operation. In the runs that cancel no request that way
the queue stays in order ([`receive_queue_ok`]).
-/
import MxApi.Lib.Run
import MxApi.Mcapi.BaselineTraffic

set_option autoImplicit false

namespace MxApi.Baseline

open Lib CallStatus

/-! ## The property -/

structure QueueOk (s : Traffic) : Prop where
  /-- The elements counted are the messages accepted and not delivered. -/
  undelivered : Tally (fun p => p < s.accepted.length ∧ delivered s.issued p = false)
    s.ep.recv_queue.num_elements
  /-- They are the entries of the ring that hold a message. -/
  elements : Tally (fun i => i < MCAPI_MAX_QUEUE_ENTRIES ∧
    (s.ep.recv_queue.elements i).buff_index.isSome = true) s.ep.recv_queue.num_elements
  /-- An accepted message is in the queue until it is delivered. -/
  queued : ∀ (k : ℕ) (a : Message), s.accepted[k]? = some a → delivered s.issued k = false →
    ∃ i b, i < MCAPI_MAX_QUEUE_ENTRIES ∧ (s.ep.recv_queue.elements i).buff_index = some b ∧
      s.ep.buffers b = ⟨true, a.length, a⟩
  /-- What operation `k` was given is message `k`. -/
  order : ∀ (k : ℕ) (x : Receive) msg, s.issued[k]? = some x → x.result = some msg →
    ∃ a : Message, s.accepted[k]? = some a ∧ msg = a.take x.size
  /-- An operation that waits is given its message by the next test of its request. -/
  due : ∀ (k : ℕ) (x : Receive) (a : Message), s.issued[k]? = some x → x.result = none →
    s.accepted[k]? = some a → ∃ r s', x.request = some r ∧ queueStep s (.test_i r) = some s' ∧
      s'.issued[k]? = some { x with result := some (a.take x.size) }
  /-- A message that no operation waits for is given to the next one. -/
  next : ∀ (a : Message) size, s.accepted[s.issued.length]? = some a →
    ∃ s', queueStep s (.recv size) = some s' ∧
      s'.issued = s.issued ++ [⟨none, size, some (a.take size)⟩]

/-- What was delivered stays as it is, and what was accepted stays accepted. -/
structure TrafficKept (s s' : Traffic) : Prop where
  delivered : ∀ (k : ℕ) (x : Receive) msg, s.issued[k]? = some x → x.result = some msg →
    s'.issued[k]? = some x
  accepted : s.accepted <+: s'.accepted

/-- The request of the cancelled operation has no message yet; or no operation waits
beyond the tail, and from its message on to the tail none was taken. -/
def goodCancel (q : queue) (r : ℕ) : Prop :=
  ∃ i ∈ reservedEntry q r,
    (q.elements i).buff_index = none ∨
    (q.elements q.tail).request = none ∧
      ∀ d, d < (q.tail + MCAPI_MAX_QUEUE_ENTRIES - i) % MCAPI_MAX_QUEUE_ENTRIES →
        (q.elements ((i + d) % MCAPI_MAX_QUEUE_ENTRIES)).buff_index.isSome = true

instance (q : queue) (r : ℕ) : Decidable (goodCancel q r) :=
  inferInstanceAs (Decidable (∃ i ∈ reservedEntry q r, _))

/-- The condition on a call. -/
def goodQueueCall (ep : Endpoint) : QueueCall → Prop
  | .cancel r => (ep.requests r).any (fun x => !x.completed) = true → goodCancel ep.recv_queue r
  | _ => True

instance (ep : Endpoint) : ∀ call : QueueCall, Decidable (goodQueueCall ep call)
  | .send _ | .recv _ | .recv_i _ _ | .test_i _ => .isTrue trivial
  | .cancel r => inferInstanceAs (Decidable (_ → goodCancel ep.recv_queue r))

/-- The request of a new receive was reserved. -/
def QueueCall.enabled (ep : Endpoint) : QueueCall → Prop
  | .recv_i r _ => ep.requests r = none
  | _ => True

/-! ## One call -/

section Step

variable {s : Traffic} {h k r : ℕ}

/-- The entries from position `k` on to the tail are as many as the positions. -/
theorem tail_distance {t : ℕ} (hle : k ≤ t) (hlt : t < k + MCAPI_MAX_QUEUE_ENTRIES) :
    (slot t + MCAPI_MAX_QUEUE_ENTRIES - slot k) % MCAPI_MAX_QUEUE_ENTRIES = t - k := by
  simp only [slot, MCAPI_MAX_QUEUE_ENTRIES_eq] at hlt ⊢
  omega

theorem TrafficInv.cancellable (hs : TrafficInv s h) (hr : reservation s.issued k = some r)
    (hgood : goodCancel s.ep.recv_queue r) : Cancellable s.issued s.accepted.length k := by
  obtain ⟨ep, accepted, issued⟩ := s
  have hq : QueueInv ep.recv_queue accepted.length issued h := hs.window
  have hle := hq.le_of_reservation hr
  have hlt := hq.tail_lt
  have hkN : k < h + MCAPI_MAX_QUEUE_ENTRIES :=
    Nat.lt_of_lt_of_le (lt_of_reservation hr) hq.issued_le
  obtain ⟨i, hi, hgood⟩ := hgood
  rw [hs.reservedEntry hr, Option.mem_some_iff] at hi
  subst hi
  rcases Nat.lt_or_ge k accepted.length with hkt | hkt
  · right
    rcases hgood with hempty | ⟨hfree, hfilled⟩
    · have hthere := (hq.entries k hle hkN).filled.mpr ⟨hkt, not_delivered_of_reservation hr⟩
      rw [hempty] at hthere
      cases hthere
    · refine ⟨?_, ?_⟩
      · by_contra hmore
        have hopen : delivered issued accepted.length = false := by
          rw [Bool.eq_false_iff]
          intro hd
          exact Nat.lt_irrefl _ (hq.bound _ hd)
        obtain ⟨r', hr'⟩ := hq.waits accepted.length (Nat.lt_of_not_le hmore) hopen
        have hreq := (hq.entries accepted.length hq.head_le hlt).request
        rw [← hq.tail, hfree, hr'] at hreq
        cases hreq
      · intro j hj (hjt : j < accepted.length)
        have hthere := hfilled (j - k) (by
          rw [hq.tail, tail_distance (by omega) (by omega)]
          omega)
        have hslot : (slot k + (j - k)) % MCAPI_MAX_QUEUE_ENTRIES = slot j := by
          rw [slot, Nat.mod_add_mod]
          congr 1
          omega
        rw [hslot] at hthere
        exact ((hq.entries j (by omega) (by omega)).filled.mp hthere).2
  · exact Or.inl hkt

/-- Every call of a good run succeeds, and leaves what was delivered as it is. -/
theorem TrafficInv.step (hs : TrafficInv s h) (call : QueueCall)
    (henabled : call.enabled s.ep) (hgood : goodQueueCall s.ep call) :
    ∃ s' h', queueStep s call = some s' ∧ TrafficInv s' h' ∧ TrafficKept s s' := by
  obtain ⟨ep, accepted, issued⟩ := s
  have hgrow : ∀ x : Receive, ∀ (k : ℕ) (y : Receive) (msg : Message), issued[k]? = some y →
      y.result = some msg → (issued ++ [x])[k]? = some y := by
    intro x k y msg hy _
    rw [List.getElem?_append_left (List.getElem?_eq_some_iff.mp hy).1]
    exact hy
  cases call with
  | send buffer =>
    rcases hs.send buffer with hsend | ⟨ep', hsend, -, hinv⟩
    · refine ⟨⟨ep, accepted, issued⟩, h, ?_, hs, fun _ _ _ hx _ => hx, List.prefix_rfl⟩
      simp only [queueStep, hsend]
    · refine ⟨_, h, ?_, hinv, fun _ _ _ hx _ => hx, List.prefix_append ..⟩
      simp only [queueStep, hsend]
  | recv size =>
    cases ha : accepted[issued.length]? with
    | none =>
      refine ⟨⟨ep, accepted, issued⟩, h, ?_, hs, fun _ _ _ hx _ => hx, List.prefix_rfl⟩
      simp only [queueStep, hs.recv_none (List.getElem?_eq_none_iff.mp ha)]
    | some a =>
      obtain ⟨ep', h', hrecv, -, hinv⟩ := hs.recv_some ha none size
      refine ⟨_, h', ?_, hinv, hgrow _, List.prefix_rfl⟩
      simp only [queueStep, hrecv]
  | recv_i r size =>
    have hr : ep.requests r = none := henabled
    have hnot : ¬ (ep.requests r).isSome = true := by
      rw [hr]
      exact Bool.false_ne_true
    cases ha : accepted[issued.length]? with
    | none =>
      rcases hs.recv_i_none hr (List.getElem?_eq_none_iff.mp ha) size with
        ⟨ep', hrecv, hrequests, hinv⟩ | ⟨ep', hrecv, hrequests, hinv⟩
      · refine ⟨_, h, ?_, hinv, fun _ _ _ hx _ => hx, List.prefix_rfl⟩
        have hdone : (ep'.requests r).any RecvRequest.completed = true := by
          rw [hrequests, Function.update_self]
          rfl
        simp only [queueStep, if_neg hnot, hrecv, if_pos hdone]
      · refine ⟨_, h, ?_, hinv, hgrow _, List.prefix_rfl⟩
        have hdone : ¬ (ep'.requests r).any RecvRequest.completed = true := by
          rw [hrequests, Function.update_self]
          exact Bool.false_ne_true
        simp only [queueStep, if_neg hnot, hrecv, if_neg hdone]
    | some a =>
      obtain ⟨ep', h', hrecv, -, hinv⟩ := hs.recv_i_some hr ha size
      refine ⟨_, h', ?_, hinv, hgrow _, List.prefix_rfl⟩
      simp only [queueStep, if_neg hnot, hrecv]
  | test_i r =>
    rcases hr : ep.requests r with _ | ⟨size, completed, status⟩
    · refine ⟨⟨ep, accepted, issued⟩, h, ?_, hs, fun _ _ _ hx _ => hx, List.prefix_rfl⟩
      simp only [queueStep, hr]
    cases completed with
    | true =>
      have hinv := hs.setRequest (r := r) (v := none)
        (hs.not_waiting fun size' status' => by rw [hr]; simp) (fun _ _ => by simp)
      refine ⟨_, h, ?_, hinv, fun _ _ _ hx _ => hx, List.prefix_rfl⟩
      simp only [queueStep, hr]
    | false =>
      obtain ⟨k, hk⟩ := hs.outstanding r size status hr
      obtain ⟨x, hx, hnone, hreq⟩ := reservation_eq_some.mp hk
      have hwait := hs.waiting k x r hx hnone hreq
      rw [hr, Option.some.injEq, RecvRequest.mk.injEq] at hwait
      obtain ⟨rfl, -, rfl⟩ := hwait
      cases ha : accepted[k]? with
      | none =>
        refine ⟨⟨ep, accepted, issued⟩, h, ?_, hs, fun _ _ _ hx _ => hx, List.prefix_rfl⟩
        simp only [queueStep, hr, hs.check_none hk (List.getElem?_eq_none_iff.mp ha)]
      | some a =>
        obtain ⟨ep', h', hcheck, -, hinv⟩ := hs.check_some hx hnone hreq ha
        refine ⟨_, h', ?_, hinv, ?_, List.prefix_rfl⟩
        · simp only [queueStep, hr, hcheck]
        · intro j y msg hy hmsg
          have hw : ¬ y.waits r = true := by
            rw [waits_iff, hmsg]
            simp
          rw [deliver_getElem?, hy, Option.map_some, if_neg hw]
  | cancel r =>
    rcases hr : ep.requests r with _ | ⟨size, completed, status⟩
    · refine ⟨⟨ep, accepted, issued⟩, h, ?_, hs, fun _ _ _ hx _ => hx, List.prefix_rfl⟩
      simp only [queueStep, hr]
    cases completed with
    | true =>
      refine ⟨⟨ep, accepted, issued⟩, h, ?_, hs, fun _ _ _ hx _ => hx, List.prefix_rfl⟩
      simp only [queueStep, hr]
    | false =>
      obtain ⟨k, hk⟩ := hs.outstanding r size status hr
      obtain ⟨x, hx, hnone, hreq⟩ := reservation_eq_some.mp hk
      have hc := hs.cancellable hk (hgood (by rw [hr]; rfl))
      obtain ⟨ep', hcancel, hinv⟩ := hs.cancel hk hc
      refine ⟨_, h, ?_, hinv, ?_, List.prefix_rfl⟩
      · simp only [queueStep, hr, hcancel, Option.map_some]
      · intro j y msg hy hmsg
        have hjk : j < k := by
          by_contra hge
          have hd := hc.undelivered hs.window.bound (Nat.le_of_not_lt hge)
          rw [delivered_of_result hy hmsg] at hd
          cases hd
        rw [filter_waits hx hnone hreq fun i hi => hs.unique i k r hi hk,
          List.getElem?_eraseIdx, if_pos hjk]
        exact hy

/-- Between two calls the queue is in order. -/
theorem TrafficInv.ok (hs : TrafficInv s h) : QueueOk s := by
  obtain ⟨ep, accepted, issued⟩ := s
  have hq : QueueInv ep.recv_queue accepted.length issued h := hs.window
  have hlt := hq.tail_lt
  have hpos := one_lt_entries
  have hfrom : ∀ p, p < accepted.length → delivered issued p = false → h ≤ p := by
    intro p _ hd
    by_contra hp
    rw [hq.passed p (by omega)] at hd
    cases hd
  refine ⟨hq.count, ?_, ?_, hs.received, ?_, ?_⟩
  · apply hq.count.image (f := slot)
    · rintro p p' ⟨hp, hd⟩ ⟨hp', hd'⟩ hsame
      have hle := hfrom p hp hd
      have hle' := hfrom p' hp' hd'
      by_contra hne
      exact window_slot_ne hle (by omega) hle' (by omega) hne hsame
    · intro i
      constructor
      · rintro ⟨hi, hfilled⟩
        obtain ⟨p, hp, hpN, rfl⟩ := exists_slot hi h
        exact ⟨p, (hq.entries p hp hpN).filled.mp hfilled, rfl⟩
      · rintro ⟨p, ⟨hp, hd⟩, rfl⟩
        have hle := hfrom p hp hd
        exact ⟨Nat.mod_lt _ (by omega), (hq.entries p hle (by omega)).filled.mpr ⟨hp, hd⟩⟩
  · intro k a ha hd
    have hk : k < accepted.length := (List.getElem?_eq_some_iff.mp ha).1
    have hle := hfrom k hk hd
    have hfilled := (hq.entries k hle (by omega)).filled.mpr ⟨hk, hd⟩
    obtain ⟨b, hb⟩ := Option.isSome_iff_exists.mp hfilled
    exact ⟨slot k, b, Nat.mod_lt _ (by omega), hb, hs.buffers k b a hle ha hb⟩
  · intro k x a hx hnone ha
    obtain ⟨r, hr⟩ := hq.waits k (List.getElem?_eq_some_iff.mp hx).1 (delivered_of_none hx hnone)
    have hreq : x.request = some r := (reservation_of_none hx hnone).symm.trans hr
    obtain ⟨ep', h', hcheck, -, hinv⟩ := hs.check_some hx hnone hreq ha
    have hwait : ep.requests r = some ⟨x.size, false, MCAPI_SUCCESS⟩ :=
      hs.waiting k x r hx hnone hreq
    refine ⟨r, ⟨ep'.setRequest r none, accepted, deliver issued r (a.take x.size)⟩, hreq, ?_, ?_⟩
    · simp only [queueStep, hwait, hcheck]
    · simp only [deliver_getElem?, hx, Option.map_some, if_pos (waits_iff.mpr ⟨hreq, hnone⟩)]
  · intro a size ha
    obtain ⟨ep', h', hrecv, -, hinv⟩ := hs.recv_some ha none size
    refine ⟨⟨ep', accepted, issued ++ [⟨none, size, some (a.take size)⟩]⟩, ?_, rfl⟩
    simp only [queueStep, hrecv]

end Step

/-! ## Runs -/

/-- **The receive queue.** In every run whose cancellations meet the condition, the
queue is in order after every call, and no assertion fails in the next one. -/
theorem receive_queue_ok (s : Traffic)
    (hrun : Run queueStep (fun s call _ => goodQueueCall s.ep call) initialTraffic s) :
    QueueOk s ∧ ∀ call : QueueCall, call.enabled s.ep → goodQueueCall s.ep call →
      ∃ s', queueStep s call = some s' ∧ TrafficKept s s' := by
  have hinv : ∃ h, TrafficInv s h := by
    refine hrun.invariant (I := fun s => ∃ h, TrafficInv s h) ?_ ⟨0, initialTraffic_inv⟩
    rintro s call s' ⟨h, hs⟩ hstep hgood
    have henabled : call.enabled s.ep := by
      cases call with
      | recv_i r size =>
        simp only [queueStep] at hstep
        split at hstep
        · cases hstep
        · rename_i hnone
          exact Option.not_isSome_iff_eq_none.mp hnone
      | _ => trivial
    obtain ⟨s'', h', hstep', hs', -⟩ := hs.step call henabled hgood
    rw [hstep, Option.some.injEq] at hstep'
    subst hstep'
    exact ⟨h', hs'⟩
  obtain ⟨h, hs⟩ := hinv
  refine ⟨hs.ok, ?_⟩
  intro call henabled hgood
  obtain ⟨s', h', hstep, -, hkept⟩ := hs.step call henabled hgood
  exact ⟨s', hstep, hkept⟩

/-- A receive that waits is cancelled before a message comes, and the next receive is
given that message. -/
theorem receive_queue_ok_cancel : ∃ s,
    (s.accepted = [[7]] ∧ s.issued = [⟨some 1, 8, some [7]⟩]) ∧ QueueOk s := by
  have hexec : (exec queueStep (fun s call _ => decide (goodQueueCall s.ep call)) initialTraffic
      [.recv_i 0 8, .recv_i 1 8, .cancel 0, .send [7], .test_i 1]).any
        (fun s => decide (s.accepted = [[7]] ∧ s.issued = [⟨some 1, 8, some [7]⟩])) = true := by
    decide +kernel
  obtain ⟨s, hrun, hs⟩ := exec_run_of_any hexec
  refine ⟨s, of_decide_eq_true hs, ?_⟩
  exact (receive_queue_ok s (hrun.mono fun _ _ _ hg => of_decide_eq_true hg)).1

/-- Two receives wait when a message comes. The first one is cancelled, and the second one
does not get the message. -/
theorem cancelled_message_stays : ∃ s,
    Run queueStep (fun _ _ _ => True) initialTraffic s ∧ ¬ QueueOk s := by
  have hexec : (exec queueStep (fun _ _ _ => true) initialTraffic
      [.recv_i 0 8, .recv_i 1 8, .send [7], .cancel 0]).any
        (fun s => decide (s.accepted = [[7]] ∧ s.issued = [⟨some 1, 8, none⟩] ∧
          ((queueStep s (.test_i 1)).any fun s' => s'.issued == [⟨some 1, 8, none⟩]) = true))
        = true := by
    decide +kernel
  obtain ⟨s, hrun, hs⟩ := exec_run_of_any hexec
  refine ⟨s, hrun.mono fun _ _ _ _ => trivial, fun hok => ?_⟩
  obtain ⟨haccepted, hissued, htest⟩ := of_decide_eq_true hs
  obtain ⟨r, s', hr, hstep, hgiven⟩ := hok.due 0 ⟨some 1, 8, none⟩ [7] (by rw [hissued]; rfl) rfl
    (by rw [haccepted]; rfl)
  obtain rfl := Option.some.inj hr
  rw [hstep, Option.any_some, beq_iff_eq] at htest
  rw [htest] at hgiven
  cases hgiven

end MxApi.Baseline
