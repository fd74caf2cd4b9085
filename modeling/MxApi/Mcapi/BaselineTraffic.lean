/-
The calls of the lock-based transport on one message endpoint, as operations on the
messages accepted so far and the receive operations issued so far.

Between two calls the queue has its window, the buffers that its entries name are
distinct and hold the undelivered messages, and the outstanding requests are those
of the operations that wait ([`TrafficInv`]). From such a state every call
succeeds, and its result is determined by the two lists: operation `k` is given
message `k`.
-/
import MxApi.Mcapi.BaselineQueueCancel

set_option autoImplicit false

namespace MxApi.Baseline

open Lib CallStatus

/-- What holds of an endpoint between two calls. -/
structure TrafficInv (s : Traffic) (h : ℕ) : Prop where
  window : QueueInv s.ep.recv_queue s.accepted.length s.issued h
  buffers : ∀ (p b : ℕ) (a : Message), h ≤ p → s.accepted[p]? = some a →
    (s.ep.recv_queue.elements (slot p)).buff_index = some b →
    s.ep.buffers b = ⟨true, a.length, a⟩
  distinct : ∀ i j b, (s.ep.recv_queue.elements i).buff_index = some b →
    (s.ep.recv_queue.elements j).buff_index = some b → i = j
  used : ∀ i b, (s.ep.recv_queue.elements i).buff_index = some b →
    (s.ep.buffers b).magic_num = true
  received : ∀ (k : ℕ) (x : Receive) msg, s.issued[k]? = some x → x.result = some msg →
    ∃ a : Message, s.accepted[k]? = some a ∧ msg = a.take x.size
  waiting : ∀ (k : ℕ) (x : Receive) r, s.issued[k]? = some x → x.result = none → x.request = some r →
    s.ep.requests r = some ⟨x.size, false, MCAPI_SUCCESS⟩
  unique : ∀ j k r, reservation s.issued j = some r → reservation s.issued k = some r → j = k
  outstanding : ∀ r size status, s.ep.requests r = some ⟨size, false, status⟩ →
    ∃ k, reservation s.issued k = some r

section Calls

variable {ep : Endpoint} {accepted : List Message} {issued : List Receive} {h r size k : ℕ}
  {a buffer : Message}

/-- The message of an entry is copied out and its buffer given back. -/
theorem recv_have_lock_at (ep : Endpoint) {qindex b : ℕ}
    (he : (ep.recv_queue.elements qindex).buff_index = some b)
    (hb : ep.buffers b = ⟨true, a.length, a⟩) :
    mcapi_trans_recv_have_lock_ ep size qindex =
      ({ ep with
          recv_queue := ep.recv_queue.setElement qindex
            { ep.recv_queue.elements qindex with buff_index := none }
          buffers := Function.update ep.buffers b buffer_entry.zero },
        ⟨a.take size, a.length⟩) := by
  simp only [mcapi_trans_recv_have_lock_, he, Option.getD_some, hb,
    ← List.take_eq_take_min]

/-- A request that no operation waits with may be set to anything but an
outstanding one. -/
theorem TrafficInv.setRequest (hs : TrafficInv ⟨ep, accepted, issued⟩ h)
    {v : Option RecvRequest} (hfree : ∀ k, reservation issued k ≠ some r)
    (hv : ∀ size status, v ≠ some ⟨size, false, status⟩) :
    TrafficInv ⟨ep.setRequest r v, accepted, issued⟩ h := by
  refine ⟨hs.window, hs.buffers, hs.distinct, hs.used, hs.received, ?_, hs.unique, ?_⟩
  · intro k x r' hx hnone hreq
    have hne : r' ≠ r := by
      rintro rfl
      exact hfree k (reservation_eq_some.mpr ⟨x, hx, hnone, hreq⟩)
    simp only [Endpoint.setRequest, Function.update_of_ne hne]
    exact hs.waiting k x r' hx hnone hreq
  · intro r' size status hr'
    by_cases hne : r' = r
    · subst hne
      simp only [Endpoint.setRequest, Function.update_self] at hr'
      exact absurd hr' (hv size status)
    · simp only [Endpoint.setRequest, Function.update_of_ne hne] at hr'
      exact hs.outstanding r' size status hr'

/-- A request that is not outstanding is that of no waiting operation. -/
theorem TrafficInv.not_waiting (hs : TrafficInv ⟨ep, accepted, issued⟩ h)
    (hr : ∀ size status, ep.requests r ≠ some ⟨size, false, status⟩) :
    ∀ k, reservation issued k ≠ some r := by
  intro k hk
  obtain ⟨x, hx, hnone, hreq⟩ := reservation_eq_some.mp hk
  exact hr _ _ (hs.waiting k x r hx hnone hreq)

/-! ## Sending -/

/-- A send is refused and changes nothing, or its message is the next one accepted. -/
theorem TrafficInv.send (hs : TrafficInv ⟨ep, accepted, issued⟩ h) (buffer : Message) :
    mcapi_trans_send_have_lock ep buffer = some (ep, false) ∨
    ∃ ep', mcapi_trans_send_have_lock ep buffer = some (ep', true) ∧
      ep'.requests = ep.requests ∧ TrafficInv ⟨ep', accepted ++ [buffer], issued⟩ h := by
  have hq : QueueInv ep.recv_queue accepted.length issued h := hs.window
  unfold mcapi_trans_send_have_lock
  cases hfull : mcapi_trans_full_queue ep.recv_queue with
  | true =>
    left
    rw [if_pos rfl, hq.compact_eq]
    rfl
  | false =>
    rw [if_neg Bool.false_ne_true]
    cases hfind : search MCAPI_MAX_BUFFERS fun i => !(ep.buffers i).magic_num with
    | none => exact Or.inl rfl
    | some b =>
      right
      have hfree : (ep.buffers b).magic_num = false := by
        have hp := (search_some hfind).2
        simpa using hp
      have hroom : accepted.length + 1 ≠ h + MCAPI_MAX_QUEUE_ENTRIES := by
        intro heq
        rw [hq.full.mpr heq] at hfull
        cases hfull
      obtain ⟨q, hpush, helements, hinv⟩ := hq.push b hroom
      rw [hpush]
      refine ⟨_, rfl, rfl, ?_⟩
      have hnot : ∀ i, (ep.recv_queue.elements i).buff_index ≠ some b := by
        intro i hi
        have hused := hs.used i b hi
        rw [hfree] at hused
        cases hused
      have hself : ((q.setElement (slot accepted.length)
          { q.elements (slot accepted.length) with buff_index := some b }).elements
          (slot accepted.length)).buff_index = some b := by
        simp only [queue.setElement, Function.update_self]
      have hothers : ∀ i, i ≠ slot accepted.length →
          ((q.setElement (slot accepted.length)
            { q.elements (slot accepted.length) with buff_index := some b }).elements i).buff_index
          = (ep.recv_queue.elements i).buff_index := by
        intro i hi
        simp only [queue.setElement, Function.update_of_ne hi, helements]
      refine ⟨?_, ?_, ?_, ?_, ?_, hs.waiting, hs.unique, hs.outstanding⟩
      · simp only [List.length_append, List.length_singleton]
        exact hinv
      · intro p b' a hp ha hb'
        have hlt := hq.tail_lt
        have hle := hq.head_le
        by_cases hp' : p = accepted.length
        · subst hp'
          rw [hself, Option.some.injEq] at hb'
          subst hb'
          rw [List.getElem?_concat_length, Option.some.injEq] at ha
          subst ha
          exact Function.update_self ..
        · have hplt : p < accepted.length := by
            have hlen := (List.getElem?_eq_some_iff.mp ha).1
            rw [List.length_append, List.length_singleton] at hlen
            omega
          rw [List.getElem?_append_left hplt] at ha
          rw [hothers _ (window_slot_ne hp (by omega) hle hlt hp')] at hb'
          have hne : b' ≠ b := by
            rintro rfl
            exact hnot _ hb'
          simp only [Function.update_of_ne hne]
          exact hs.buffers p b' a hp ha hb'
      · intro i j b' hi hj
        by_cases hi' : i = slot accepted.length
        · by_cases hj' : j = slot accepted.length
          · rw [hi', hj']
          · rw [hothers j hj'] at hj
            rw [hi', hself, Option.some.injEq] at hi
            subst hi
            exact absurd hj (hnot j)
        · rw [hothers i hi'] at hi
          by_cases hj' : j = slot accepted.length
          · rw [hj', hself, Option.some.injEq] at hj
            subst hj
            exact absurd hi (hnot i)
          · rw [hothers j hj'] at hj
            exact hs.distinct i j b' hi hj
      · intro i b' hi
        by_cases hb' : b' = b
        · subst hb'
          simp only [Function.update_self]
        · simp only [Function.update_of_ne hb']
          by_cases hi' : i = slot accepted.length
          · rw [hi', hself, Option.some.injEq] at hi
            exact absurd hi.symm hb'
          · rw [hothers i hi'] at hi
            exact hs.used i b' hi
      · intro k x msg hx hmsg
        obtain ⟨a, ha, heq⟩ := hs.received k x msg hx hmsg
        refine ⟨a, ?_, heq⟩
        rw [List.getElem?_append_left (List.getElem?_eq_some_iff.mp ha).1]
        exact ha

/-! ## Receiving -/

/-- A receive finds nothing where no message waits for it. -/
theorem TrafficInv.recv_none (hs : TrafficInv ⟨ep, accepted, issued⟩ h)
    (hm : accepted.length ≤ issued.length) (size : ℕ) :
    mcapi_trans_recv_have_lock ep size = some (ep, none) := by
  have hq : QueueInv ep.recv_queue accepted.length issued h := hs.window
  rw [mcapi_trans_recv_have_lock, if_pos (hq.empty.mpr hm)]

/-- Taking the buffer of an entry away keeps the others. -/
theorem buffers_taken {elements elements' : ℕ → buffer_descriptor} {buffers : ℕ → buffer_entry}
    {i b : ℕ} (hb : (elements i).buff_index = some b)
    (hself : (elements' i).buff_index = none)
    (hothers : ∀ j, j ≠ i → (elements' j).buff_index = (elements j).buff_index)
    (hdistinct : ∀ i j b, (elements i).buff_index = some b → (elements j).buff_index = some b →
      i = j) {j b' : ℕ} (hj : (elements' j).buff_index = some b') :
    (elements j).buff_index = some b' ∧
      Function.update buffers b buffer_entry.zero b' = buffers b' := by
  have hji : j ≠ i := by
    rintro rfl
    rw [hself] at hj
    cases hj
  rw [hothers j hji] at hj
  have hne : b' ≠ b := by
    rintro rfl
    exact hji (hdistinct j i b' hj hb)
  exact ⟨hj, Function.update_of_ne hne _ _⟩

/-- A position keeps its message while operations are added. -/
theorem received_append {x : Receive} (ha : accepted[issued.length]? = some a)
    (hx : x.result = some (a.take x.size))
    (hreceived : ∀ (k : ℕ) (x : Receive) msg, issued[k]? = some x → x.result = some msg →
      ∃ a : Message, accepted[k]? = some a ∧ msg = a.take x.size) :
    ∀ (k : ℕ) (y : Receive) msg, (issued ++ [x])[k]? = some y → y.result = some msg →
      ∃ a : Message, accepted[k]? = some a ∧ msg = a.take y.size := by
  intro k y msg hy hmsg
  rcases Nat.lt_or_ge k issued.length with hlt | hge
  · rw [List.getElem?_append_left hlt] at hy
    exact hreceived k y msg hy hmsg
  · have hk : k = issued.length := by
      have hlen := (List.getElem?_eq_some_iff.mp hy).1
      rw [List.length_append, List.length_singleton] at hlen
      omega
    subst hk
    rw [List.getElem?_concat_length, Option.some.injEq] at hy
    subst hy
    rw [hx, Option.some.injEq] at hmsg
    exact ⟨a, ha, hmsg.symm⟩

/-- An operation that finds a message waiting is given it. -/
theorem TrafficInv.recv_some (hs : TrafficInv ⟨ep, accepted, issued⟩ h)
    (ha : accepted[issued.length]? = some a) (request : Option ℕ) (size : ℕ) :
    ∃ ep' h', mcapi_trans_recv_have_lock ep size =
        some (ep', some ⟨a.take size, a.length⟩) ∧ ep'.requests = ep.requests ∧
      TrafficInv ⟨ep', accepted, issued ++ [⟨request, size, some (a.take size)⟩]⟩ h' := by
  have hq : QueueInv ep.recv_queue accepted.length issued h := hs.window
  have hm : issued.length < accepted.length := (List.getElem?_eq_some_iff.mp ha).1
  have hle := hq.le_length
  have hlt := hq.tail_lt
  have hne : ¬ mcapi_trans_empty_queue ep.recv_queue = true := by
    rw [hq.empty]
    omega
  have hfilled := (hq.entries issued.length hle (by omega)).filled.mpr
    ⟨hm, delivered_of_le le_rfl⟩
  obtain ⟨b, hb⟩ := Option.isSome_iff_exists.mp hfilled
  have hbuffer : ep.buffers b = ⟨true, a.length, a⟩ := hs.buffers _ b a hle ha hb
  obtain ⟨q, h', hpop, hh', hkept, hinv⟩ :=
    hq.pop (x := ⟨request, size, some (a.take size)⟩) hm rfl
  have hother : ∀ {j b'}, ((q.setElement (slot issued.length)
      { q.elements (slot issued.length) with buff_index := none }).elements j).buff_index
        = some b' → (ep.recv_queue.elements j).buff_index = some b' ∧
      Function.update ep.buffers b buffer_entry.zero b' = ep.buffers b' := by
    intro j b' hj
    refine buffers_taken hb ?_ ?_ hs.distinct hj
    · simp only [queue.setElement, Function.update_self]
    · intro i hi
      simp only [queue.setElement, Function.update_of_ne hi]
      exact hkept i
  have hres : ∀ k, reservation (issued ++ [⟨request, size, some (a.take size)⟩]) k =
      reservation issued k := fun k => reservation_append_done rfl
  have hrecv : mcapi_trans_recv_have_lock ep size =
      some ({ ep with
          recv_queue := q.setElement (slot issued.length)
            { q.elements (slot issued.length) with buff_index := none }
          buffers := Function.update ep.buffers b buffer_entry.zero },
        some ⟨a.take size, a.length⟩) := by
    rw [mcapi_trans_recv_have_lock, if_neg hne, hpop]
    simp only [recv_have_lock_at { ep with recv_queue := q } ((hkept _).trans hb) hbuffer]
  refine ⟨_, h', hrecv, rfl, hinv, ?_, ?_, ?_, received_append ha rfl hs.received, ?_, ?_, ?_⟩
  · intro p b' a' hp ha' hb'
    obtain ⟨hold, hsame⟩ := hother hb'
    exact hsame.trans (hs.buffers p b' a' (by omega) ha' hold)
  · intro i j b' hi hj
    exact hs.distinct i j b' (hother hi).1 (hother hj).1
  · intro i b' hi
    obtain ⟨hold, hsame⟩ := hother hi
    exact (congrArg buffer_entry.magic_num hsame).trans (hs.used i b' hold)
  · intro k x r hx hnone hreq
    have hk : reservation issued k = some r := by
      rw [← hres]
      exact reservation_eq_some.mpr ⟨x, hx, hnone, hreq⟩
    rw [List.getElem?_append_left (lt_of_reservation hk)] at hx
    exact hs.waiting k x r hx hnone hreq
  · intro j k r hj hk
    rw [hres] at hj hk
    exact hs.unique j k r hj hk
  · intro r size status hr
    obtain ⟨k, hk⟩ := hs.outstanding r size status hr
    exact ⟨k, by rw [hres]; exact hk⟩

/-- A receive that finds a message waiting completes its request at once. -/
theorem TrafficInv.recv_i_some (hs : TrafficInv ⟨ep, accepted, issued⟩ h)
    (hr : ep.requests r = none) (ha : accepted[issued.length]? = some a) (size : ℕ) :
    ∃ ep' h', mcapi_trans_msg_recv_i ep r size = some (ep', some ⟨a.take size, a.length⟩) ∧
      ep'.requests = Function.update ep.requests r (some ⟨a.length, true, MCAPI_SUCCESS⟩) ∧
      TrafficInv ⟨ep', accepted, issued ++ [⟨some r, size, some (a.take size)⟩]⟩ h' := by
  obtain ⟨ep', h', hrecv, hrequests, hinv⟩ := hs.recv_some ha (some r) size
  refine ⟨ep'.setRequest r (some ⟨a.length, true, MCAPI_SUCCESS⟩), h', ?_, ?_, ?_⟩
  · rw [mcapi_trans_msg_recv_i, hrecv]
  · rw [Endpoint.setRequest, hrequests]
  · apply hinv.setRequest
    · apply hinv.not_waiting
      intro size status
      rw [hrequests, hr]
      simp
    · intro size status hc
      simp at hc

/-- A receive that finds no message waits for it, while there is an entry for it. -/
theorem TrafficInv.recv_i_none (hs : TrafficInv ⟨ep, accepted, issued⟩ h)
    (hr : ep.requests r = none) (hm : accepted.length ≤ issued.length) (size : ℕ) :
    (∃ ep', mcapi_trans_msg_recv_i ep r size = some (ep', none) ∧
      ep'.requests = Function.update ep.requests r (some ⟨size, true, MCAPI_ERR_MEM_LIMIT⟩) ∧
      TrafficInv ⟨ep', accepted, issued⟩ h) ∨
    ∃ ep', mcapi_trans_msg_recv_i ep r size = some (ep', none) ∧
      ep'.requests = Function.update ep.requests r (some ⟨size, false, MCAPI_SUCCESS⟩) ∧
      TrafficInv ⟨ep', accepted, issued ++ [⟨some r, size, none⟩]⟩ h := by
  have hq : QueueInv ep.recv_queue accepted.length issued h := hs.window
  have hle := hq.le_length
  have hrecv : mcapi_trans_msg_recv_i ep r size =
      some (setup_request_have_lock_recv ep r size, none) := by
    rw [mcapi_trans_msg_recv_i, hs.recv_none hm]
  have hfree : ∀ k, reservation issued k ≠ some r :=
    hs.not_waiting fun size status => by rw [hr]; simp
  rw [hrecv]
  rcases Nat.eq_or_lt_of_le hq.issued_le with hfull | hroom
  · left
    refine ⟨_, rfl, ?_, ?_⟩
    · rw [setup_request_have_lock_recv]
      simp only [hq.firstUnreserved_none hfull]
      rfl
    · rw [setup_request_have_lock_recv]
      simp only [hq.firstUnreserved_none hfull]
      apply hs.setRequest hfree
      intro size status hc
      simp at hc
  · right
    have hfrom : ep.recv_queue.fromHead (issued.length - h) = slot issued.length := by
      rw [hq.fromHead]
      congr 1
      omega
    have hinv := hq.reserve (x := ⟨some r, size, none⟩) hroom rfl rfl
    have hself : reservation (issued ++ [⟨some r, size, none⟩]) issued.length = some r := by
      rw [reservation_append_self]
      rfl
    have hother : ∀ k, k ≠ issued.length →
        reservation (issued ++ [⟨some r, size, none⟩]) k = reservation issued k :=
      fun k hk => reservation_append_of_ne hk
    have hbuff : ∀ i, ((ep.recv_queue.setElement (slot issued.length)
        { ep.recv_queue.elements (slot issued.length) with request := some r }).elements
          i).buff_index = (ep.recv_queue.elements i).buff_index := by
      intro i
      by_cases hi : i = slot issued.length
      · rw [hi]
        simp only [queue.setElement, Function.update_self]
      · simp only [queue.setElement, Function.update_of_ne hi]
    refine ⟨_, rfl, ?_, ?_⟩
    · rw [setup_request_have_lock_recv]
      simp only [hq.firstUnreserved_some hroom]
      rfl
    rw [setup_request_have_lock_recv]
    simp only [hq.firstUnreserved_some hroom, hfrom]
    refine ⟨hinv, ?_, ?_, ?_, ?_, ?_, ?_, ?_⟩
    · intro p b a hp ha hb
      exact hs.buffers p b a hp ha ((hbuff _).symm.trans hb)
    · intro i j b hi hj
      exact hs.distinct i j b ((hbuff i).symm.trans hi) ((hbuff j).symm.trans hj)
    · intro i b hi
      exact hs.used i b ((hbuff i).symm.trans hi)
    · intro k x msg hx hmsg
      rcases Nat.lt_or_ge k issued.length with hlt | hge
      · rw [List.getElem?_append_left hlt] at hx
        exact hs.received k x msg hx hmsg
      · have hk : k = issued.length := by
          have hlen := (List.getElem?_eq_some_iff.mp hx).1
          rw [List.length_append, List.length_singleton] at hlen
          omega
        subst hk
        rw [List.getElem?_concat_length, Option.some.injEq] at hx
        subst hx
        cases hmsg
    · intro k x r' hx hnone hreq
      have hk : reservation (issued ++ [⟨some r, size, none⟩]) k = some r' :=
        reservation_eq_some.mpr ⟨x, hx, hnone, hreq⟩
      by_cases hk' : k = issued.length
      · subst hk'
        rw [List.getElem?_concat_length, Option.some.injEq] at hx
        subst hx
        rw [Option.some.injEq] at hreq
        subst hreq
        exact Function.update_self ..
      · rw [hother k hk'] at hk
        have hne : r' ≠ r := by
          rintro rfl
          exact hfree k hk
        rw [List.getElem?_append_left (lt_of_reservation hk)] at hx
        simp only [Endpoint.setRequest, Function.update_of_ne hne]
        exact hs.waiting k x r' hx hnone hreq
    · intro j k r' hj hk
      by_cases hj' : j = issued.length
      · by_cases hk' : k = issued.length
        · rw [hj', hk']
        · rw [hj', hself, Option.some.injEq] at hj
          rw [hother k hk', ← hj] at hk
          exact absurd hk (hfree k)
      · rw [hother j hj'] at hj
        by_cases hk' : k = issued.length
        · rw [hk', hself, Option.some.injEq] at hk
          rw [← hk] at hj
          exact absurd hj (hfree j)
        · rw [hother k hk'] at hk
          exact hs.unique j k r' hj hk
    · intro r' size' status hr'
      by_cases hne : r' = r
      · exact ⟨issued.length, by rw [hne]; exact hself⟩
      · simp only [Endpoint.setRequest, Function.update_of_ne hne] at hr'
        obtain ⟨k, hk⟩ := hs.outstanding r' size' status hr'
        exact ⟨k, by rw [hother k (Nat.ne_of_lt (lt_of_reservation hk))]; exact hk⟩

/-! ## Completing and cancelling a request -/

theorem TrafficInv.reservedEntry (hs : TrafficInv ⟨ep, accepted, issued⟩ h)
    (hr : reservation issued k = some r) : reservedEntry ep.recv_queue r = some (slot k) :=
  hs.window.reservedEntry (fun j hj => hs.unique j k r hj hr) hr

/-- A request whose message has not come yet goes on waiting. -/
theorem TrafficInv.check_none (hs : TrafficInv ⟨ep, accepted, issued⟩ h)
    (hr : reservation issued k = some r) (hk : accepted.length ≤ k) (size : ℕ) :
    check_receive_request_have_lock ep r size = some (ep, none) := by
  have hq : QueueInv ep.recv_queue accepted.length issued h := hs.window
  have hle := hq.le_of_reservation hr
  have hlt : k < h + MCAPI_MAX_QUEUE_ENTRIES :=
    Nat.lt_of_lt_of_le (lt_of_reservation hr) hq.issued_le
  have hempty : ¬ (ep.recv_queue.elements (slot k)).buff_index.isSome = true := by
    rw [(hq.entries k hle hlt).filled]
    omega
  rw [check_receive_request_have_lock, hs.reservedEntry hr]
  simp only [if_neg hempty]

/-- A request whose message has come is completed with it. -/
theorem TrafficInv.check_some {x : Receive} (hs : TrafficInv ⟨ep, accepted, issued⟩ h)
    (hx : issued[k]? = some x) (hnone : x.result = none) (hreq : x.request = some r)
    (ha : accepted[k]? = some a) :
    ∃ ep' h', check_receive_request_have_lock ep r x.size =
        some (ep', some ⟨a.take x.size, a.length⟩) ∧
      ep'.requests = Function.update ep.requests r
        (some (completedRequest x.size ⟨a.take x.size, a.length⟩)) ∧
      TrafficInv ⟨ep'.setRequest r none, accepted, deliver issued r (a.take x.size)⟩ h' := by
  have hq : QueueInv ep.recv_queue accepted.length issued h := hs.window
  have hr : reservation issued k = some r := reservation_eq_some.mpr ⟨x, hx, hnone, hreq⟩
  have hle := hq.le_of_reservation hr
  have hkt : k < accepted.length := (List.getElem?_eq_some_iff.mp ha).1
  have hlt : k < h + MCAPI_MAX_QUEUE_ENTRIES :=
    Nat.lt_of_lt_of_le (lt_of_reservation hr) hq.issued_le
  have hunique : ∀ j, reservation issued j = some r → j = k := fun j hj => hs.unique j k r hj hr
  have he := hq.entries k hle hlt
  have hfilled := he.filled.mpr ⟨hkt, not_delivered_of_reservation hr⟩
  obtain ⟨b, hb⟩ := Option.isSome_iff_exists.mp hfilled
  have hbuffer : ep.buffers b = ⟨true, a.length, a⟩ := hs.buffers _ b a hle ha hb
  have hbuffer' : ((ep.recv_queue.setElement (slot k)
      { ep.recv_queue.elements (slot k) with request := none }).elements
        (slot k)).buff_index = some b := by
    simp only [queue.setElement, Function.update_self, hb]
  obtain ⟨q₁, hq₁⟩ : ∃ q₁ : queue, q₁ = queue.setElement
      { ep.recv_queue with num_elements := ep.recv_queue.num_elements - 1 } (slot k)
        ⟨none, none, true⟩ := ⟨_, rfl⟩
  have hothers : ∀ i, i ≠ slot k → q₁.elements i = ep.recv_queue.elements i := by
    intro i hi
    rw [hq₁]
    exact Function.update_of_ne hi _ _
  have hself : q₁.elements (slot k) = ⟨none, none, true⟩ := by
    rw [hq₁]
    exact Function.update_self ..
  obtain ⟨q₂, h₂, hcompact, hh₂, hinv, hkept⟩ := hq.complete q₁ (a.take x.size)
    hunique hr hkt (by rw [hq₁]; rfl) (by rw [hq₁]; rfl) (by rw [hq₁]; rfl) hself hothers
  have hcheck : check_receive_request_have_lock ep r x.size =
      some (({ ep with
          recv_queue := q₂
          buffers := Function.update ep.buffers b buffer_entry.zero } : Endpoint).setRequest r
          (some (completedRequest x.size ⟨a.take x.size, a.length⟩)),
        some ⟨a.take x.size, a.length⟩) := by
    rw [check_receive_request_have_lock, hs.reservedEntry hr]
    simp only [if_pos hfilled]
    rw [recv_have_lock_at
      { ep with
        recv_queue := ep.recv_queue.setElement (slot k)
          { ep.recv_queue.elements (slot k) with request := none } }
      hbuffer' hbuffer]
    have hsame : ∀ q₀ : queue, q₀ = q₁ →
        mcapi_trans_compact_queue q₀ = some q₂ := by
      rintro _ rfl
      exact hcompact
    rw [hsame]
    · rfl
    · rw [hq₁]
      simp only [queue.setElement, Function.update_self, Function.update_idem]
  have hother : ∀ {j b'}, (q₂.elements j).buff_index = some b' →
      (ep.recv_queue.elements j).buff_index = some b' ∧
      Function.update ep.buffers b buffer_entry.zero b' = ep.buffers b' := by
    intro j b' hj
    rw [hkept] at hj
    refine buffers_taken hb ?_ ?_ hs.distinct hj
    · rw [hself]
    · intro i hi
      rw [hothers i hi]
  refine ⟨_, h₂, hcheck, rfl, hinv, ?_, ?_, ?_, ?_, ?_, ?_, ?_⟩
  · intro p b' a' hp ha' hb'
    obtain ⟨hold, hsame⟩ := hother hb'
    exact hsame.trans (hs.buffers p b' a' (by omega) ha' hold)
  · intro i j b' hi hj
    exact hs.distinct i j b' (hother hi).1 (hother hj).1
  · intro i b' hi
    obtain ⟨hold, hsame⟩ := hother hi
    exact (congrArg buffer_entry.magic_num hsame).trans (hs.used i b' hold)
  · intro j y msg hy hmsg
    rw [deliver_getElem?, Option.map_eq_some_iff] at hy
    obtain ⟨z, hz, rfl⟩ := hy
    by_cases hw : z.waits r = true
    · obtain ⟨hzr, hznone⟩ := waits_iff.mp hw
      have hj : j = k := hunique j (reservation_eq_some.mpr ⟨z, hz, hznone, hzr⟩)
      subst hj
      rw [hx, Option.some.injEq] at hz
      subst hz
      rw [if_pos hw] at hmsg ⊢
      rw [Option.some.injEq] at hmsg
      exact ⟨a, ha, hmsg.symm⟩
    · rw [if_neg hw] at hmsg ⊢
      exact hs.received j z msg hz hmsg
  · intro j y r' hy hynone hyr
    rw [deliver_getElem?, Option.map_eq_some_iff] at hy
    obtain ⟨z, hz, rfl⟩ := hy
    by_cases hw : z.waits r = true
    · rw [if_pos hw] at hynone
      cases hynone
    · rw [if_neg hw] at hynone hyr ⊢
      have hne : r' ≠ r := by
        rintro rfl
        exact hw (waits_iff.mpr ⟨hyr, hynone⟩)
      simp only [Endpoint.setRequest, Function.update_of_ne hne]
      exact hs.waiting j z r' hz hynone hyr
  · intro i j r' hi hj
    rw [reservation_deliver] at hi hj
    split at hi
    · cases hi
    · split at hj
      · cases hj
      · exact hs.unique i j r' hi hj
  · intro r' size status hr'
    by_cases hne : r' = r
    · subst hne
      simp only [Endpoint.setRequest, Function.update_self] at hr'
      cases hr'
    · simp only [Endpoint.setRequest, Function.update_of_ne hne] at hr'
      obtain ⟨j, hj⟩ := hs.outstanding r' size status hr'
      refine ⟨j, ?_⟩
      rw [reservation_deliver, if_neg]
      · exact hj
      · rw [hj, Option.some.injEq]
        exact hne

/-- What is left of the operations when the waiting one is cancelled. -/
theorem filter_waits {x : Receive} (hx : issued[k]? = some x) (hnone : x.result = none)
    (hreq : x.request = some r) (hunique : ∀ j, reservation issued j = some r → j = k) :
    (issued.filter fun x => !x.waits r) = issued.eraseIdx k := by
  induction issued generalizing k with
  | nil => simp at hx
  | cons y ys ih =>
    cases k with
    | zero =>
      rw [List.getElem?_cons_zero, Option.some.injEq] at hx
      subst hx
      have hw : y.waits r = true := waits_iff.mpr ⟨hreq, hnone⟩
      have hrest : ∀ z ∈ ys, (!z.waits r) = true := by
        intro z hz
        obtain ⟨j, hj⟩ := List.mem_iff_getElem?.mp hz
        by_contra hzw
        obtain ⟨hzr, hznone⟩ := waits_iff.mp (by simpa using hzw)
        have hsucc := hunique (j + 1) (reservation_eq_some.mpr ⟨z, by simpa using hj, hznone, hzr⟩)
        omega
      rw [List.eraseIdx_cons_zero, List.filter_cons_of_neg (by simp [hw]),
        List.filter_eq_self.mpr hrest]
    | succ k =>
      rw [List.getElem?_cons_succ] at hx
      have hy : ¬ y.waits r = true := by
        intro hw
        obtain ⟨hyr, hynone⟩ := waits_iff.mp hw
        have hzero := hunique 0 (reservation_eq_some.mpr ⟨y, rfl, hynone, hyr⟩)
        omega
      rw [List.eraseIdx_cons_succ, List.filter_cons_of_pos (by simp [hy]), ih hx]
      intro j hj
      obtain ⟨z, hz, hznone, hzr⟩ := reservation_eq_some.mp hj
      have hsucc := hunique (j + 1) (reservation_eq_some.mpr ⟨z, by simpa using hz, hznone, hzr⟩)
      omega

/-- A cancellation takes the operation out of the list, its request is free again. -/
theorem TrafficInv.cancel (hs : TrafficInv ⟨ep, accepted, issued⟩ h)
    (hr : reservation issued k = some r) (hc : Cancellable issued accepted.length k) :
    ∃ ep', cancel_receive_request_have_lock ep r = some ep' ∧
      TrafficInv ⟨ep'.setRequest r none, accepted, issued.filter fun x => !x.waits r⟩ h := by
  have hq : QueueInv ep.recv_queue accepted.length issued h := hs.window
  obtain ⟨x, hx, hnone, hreq⟩ := reservation_eq_some.mp hr
  have hunique : ∀ j, reservation issued j = some r → j = k := fun j hj => hs.unique j k r hj hr
  rw [filter_waits hx hnone hreq hunique]
  obtain ⟨hinv, hbuff⟩ := hq.cancel hr hc
  have hother : ∀ j, j ≠ k → reservation issued j ≠ some r := fun j hj hjr => hj (hunique j hjr)
  have hindex : ∀ j, (if j < k then j else j + 1) ≠ k := by
    intro j
    split
    · omega
    · omega
  rw [cancel_receive_request_have_lock, hs.reservedEntry hr]
  refine ⟨_, rfl, hinv, ?_, ?_, ?_, ?_, ?_, ?_, ?_⟩
  · intro p b a hp ha hb
    exact hs.buffers p b a hp ha ((hbuff _).symm.trans hb)
  · intro i j b hi hj
    exact hs.distinct i j b ((hbuff i).symm.trans hi) ((hbuff j).symm.trans hj)
  · intro i b hi
    exact hs.used i b ((hbuff i).symm.trans hi)
  · intro j y msg hy hmsg
    rw [List.getElem?_eraseIdx] at hy
    split at hy
    · exact hs.received j y msg hy hmsg
    · -- behind the cancelled operation nothing is delivered
      have hd := hc.undelivered hq.bound (k := j + 1) (by omega)
      rw [delivered_of_result hy hmsg] at hd
      cases hd
  · intro j y r' hy hynone hyr
    rw [List.getElem?_eraseIdx] at hy
    have hold : issued[if j < k then j else j + 1]? = some y := by
      split at hy
      · rename_i hlt
        rw [if_pos hlt]
        exact hy
      · rename_i hge
        rw [if_neg hge]
        exact hy
    have hne : r' ≠ r := by
      rintro rfl
      exact hother _ (hindex j) (reservation_eq_some.mpr ⟨y, hold, hynone, hyr⟩)
    simp only [Endpoint.setRequest, Function.update_of_ne hne]
    exact hs.waiting _ y r' hold hynone hyr
  · intro i j r' hi hj
    rw [reservation_eraseIdx] at hi hj
    have hsame := hs.unique _ _ r' hi hj
    split at hsame
    · split at hsame
      · exact hsame
      · omega
    · split at hsame
      · omega
      · omega
  · intro r' size status hr'
    by_cases hne : r' = r
    · subst hne
      simp only [Endpoint.setRequest, Function.update_self] at hr'
      cases hr'
    · simp only [Endpoint.setRequest, Function.update_of_ne hne] at hr'
      obtain ⟨j, hj⟩ := hs.outstanding r' size status hr'
      have hjk : j ≠ k := by
        rintro rfl
        rw [hr, Option.some.injEq] at hj
        exact hne hj.symm
      rcases Nat.lt_or_ge j k with hlt | hge
      · exact ⟨j, by rw [reservation_eraseIdx, if_pos hlt]; exact hj⟩
      · refine ⟨j - 1, ?_⟩
        rw [reservation_eraseIdx, if_neg (by omega)]
        have hback : j - 1 + 1 = j := by omega
        rw [hback]
        exact hj

end Calls

theorem initialTraffic_inv : TrafficInv initialTraffic 0 := by
  have hpos := one_lt_entries
  have hdel : ∀ p, delivered [] p = false := fun p => delivered_of_le (by simp)
  refine ⟨⟨⟨rfl, rfl, le_rfl, ?_, ?_, ?_, ?_, ?_, ?_, ?_⟩, ?_⟩, ?_, ?_, ?_, ?_, ?_, ?_, ?_⟩
  · simp only [initialTraffic, List.length_nil]
    omega
  · simp only [initialTraffic, List.length_nil]
    omega
  · intro p _ _
    exact ⟨rfl, rfl, by simp [initialTraffic]⟩
  · intro p hp
    omega
  · intro p hd
    cases hd
  · intro p hp
    simp [initialTraffic] at hp
  · apply Tally.none
    rintro p ⟨hp, -⟩
    simp [initialTraffic] at hp
  · intro hlt
    simp [initialTraffic] at hlt
  · intro p b a _ ha
    simp [initialTraffic] at ha
  · intro i j b hi
    cases hi
  · intro i b hi
    cases hi
  · intro k x msg hx
    simp [initialTraffic] at hx
  · intro k x r hx
    simp [initialTraffic] at hx
  · intro j k r hj
    cases hj
  · intro r size status hr
    cases hr

end MxApi.Baseline
