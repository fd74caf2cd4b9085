/-
Receives on FIFO buffers, as one thread executes them: what the non-blocking call leaves
behind, and what a test of its request finds.

If a message is at the head of the queue, the request is completed at once. If not, it
holds the entry at the head, and the test that finds the message there completes it.
-/
import MxApi.Mcapi.SendOutcome

set_option autoImplicit false

namespace MxApi.Calls

open Lib Transfers channel_type mcapi_buffer_state mcapi_status_t mcapi_request_state
  mcapi_request_type mcapi_buffer_type

/-! ## A message at the head of a FIFO -/

/-- What the caller of a receive with so much room finds of the message. -/
def received (ct : channel_type) (m : Msg) (room : ℕ) : Payload :=
  match ct with
  | MCAPI_NO_CHAN => .message ((List.range (min m.buffer_size room)).map m.buffer)
  | MCAPI_PKT_CHAN => .message ((List.range m.buffer_size).map m.buffer)
  | MCAPI_SCL_CHAN => .scalar m.scalar

/-- The message is in the entry at the head, in buffer `i` of the pool. -/
structure AtHead (sh : Shared) (ct : channel_type) (m : Msg) (front i : ℕ) : Prop where
  channel : sh.q.channel_type = ct
  even : sh.q.ack_counter % 2 = 0
  head : mcapi_trans_queue_head sh.q = (front, MCAPI_SUCCESS)
  state : (sh.q.elements front).state = BUFFER_ALLOCATED
  index : (sh.q.elements front).buff_index = validIndex i
  lt : i < MCAPI_MAX_BUFFERS
  marker : (sh.buffers i).magic_num = MAGIC_NUM
  carries : Carries ct m (sh.buffers i)

/-- Nothing waits on the FIFO and nothing is in it, and a send has room. -/
structure EmptyFifo (sh : Shared) (front : ℕ) : Prop where
  even : sh.q.update_counter % 2 = 0
  lt : sh.q.update_counter < 2 ^ 32
  same : sh.q.ack_counter = sh.q.update_counter
  slot : qindexOf sh.q.update_counter = front
  state : (sh.q.elements front).state = BUFFER_FREE
  index : (sh.q.elements front).buff_index = 0
  free : HasBufferFree sh

section Head

variable {sh : Shared} {ct : channel_type} {m : Msg} {front i room : ℕ}

/-- An exchange of the marker that finds what it expects. -/
theorem casMagic_of_eq {sh : Shared} {i oldnum newnum : ℕ}
    (h : (sh.buffers i).magic_num = oldnum) : sh.casMagic i oldnum newnum =
      (true, sh.setBuffer i { sh.buffers i with magic_num := newnum }) := if_pos h

/-- A copy of the message out of its buffer. -/
theorem Carries.copy {b : buffer_entry} (h : Carries ct m b) (hct : ct ≠ MCAPI_SCL_CHAN) {n : ℕ}
    (hn : n ≤ m.buffer_size) : (List.range n).map b.buff = (List.range n).map m.buffer := by
  have hcontent := h.content
  rw [if_neg hct] at hcontent
  apply List.map_congr_left
  intro k hk
  rw [List.mem_range] at hk
  exact hcontent k (by omega)

/-- What is handed out of the message's buffer is the message, however its entry was
written to. -/
theorem contents_handOut {b : buffer_entry} (h : Carries ct m b) (sh' : Shared)
    (hbuff : (sh'.buffers i).buff = b.buff) :
    contents sh' (handOut ct b i room) = (m.buffer_size, received ct m room) := by
  unfold contents handOut received
  rw [h.size]
  cases ct with
  | MCAPI_NO_CHAN =>
    dsimp only
    rw [h.copy nofun (Nat.min_le_left _ _)]
  | MCAPI_PKT_CHAN =>
    dsimp only
    rw [hbuff, h.copy nofun (Nat.le_refl _)]
  | MCAPI_SCL_CHAN =>
    have hscalar := h.content
    rw [if_pos rfl] at hscalar
    dsimp only
    rw [hscalar]

/-- **A receive of the message at the head** takes it out of the queue. -/
theorem AtHead.recv (h : AtHead sh ct m front i) (room : ℕ) :
    ∃ sh' d q', mcapi_trans_recv_ (sh.setElement front
        { sh.q.elements front with state := BUFFER_RECEIVED }) room front = some (sh', d) ∧
      mcapi_trans_pop_queue sh'.q = some (.ok front, q') ∧ d.received_size = m.buffer_size ∧
      contents { sh' with q := q' } d = (m.buffer_size, received ct m room) := by
  obtain ⟨hct, heven, hhead, hstate, hindex, hi, hmagic, hcarries⟩ := h
  obtain ⟨hfront, hstatus⟩ := Prod.mk.inj hhead
  have hodd : ¬ sh.q.ack_counter % 2 ≠ 0 := by omega
  -- the entry and its buffer are cleared, and the counters are still the same
  have hpop : ∀ q' : queue, q'.update_counter = sh.q.update_counter →
      q'.ack_counter = sh.q.ack_counter → mcapi_trans_pop_queue q' =
        some (.ok front, { q' with ack_counter := u32 (u32 (sh.q.ack_counter + 1) + 1) }) := by
    intro q' huc hac
    unfold mcapi_trans_pop_queue
    simp only [huc, hac, if_neg hodd, hstatus, hfront]
  unfold mcapi_trans_recv_
  simp only [Shared.setElement_channel_type, Shared.setElement_self, hct, hindex,
    bufferIndex_validIndex hi, Shared.setElement_buffers, Shared.setBuffer_self]
  by_cases hpkt : ct = MCAPI_PKT_CHAN
  · rw [if_pos hpkt]
    refine ⟨_, _, _, rfl, hpop _ rfl rfl, hcarries.size, ?_⟩
    apply contents_handOut (b := { sh.buffers i with parent := some front })
      ⟨hcarries.size, hcarries.content⟩
    simp
  · rw [if_neg hpkt]
    rw [casMagic_of_eq (by simpa using hmagic)]
    refine ⟨_, _, _, if_pos rfl, hpop _ rfl rfl, hcarries.size, ?_⟩
    apply contents_handOut (b := { sh.buffers i with parent := some front })
      ⟨hcarries.size, hcarries.content⟩
    simp

/-- Before the message arrives, a receive finds nothing. -/
theorem EmptyFifo.head (h : EmptyFifo sh front) :
    mcapi_trans_queue_head sh.q = (front, MCAPI_ERR_QUEUE_EMPTY) := by
  have hlast : lastCompleted sh.q.ack_counter = sh.q.update_counter := by
    rw [h.same]
    unfold lastCompleted
    have := h.even
    omega
  unfold mcapi_trans_queue_head
  simp only [hlast, h.slot, headStatus, if_true]

/-- **The message arrives**: the next send puts it at the head. -/
theorem EmptyFifo.send (h : EmptyFifo sh front) (m : Msg) :
    ∃ i, mcapi_trans_send sh m = some (sentTo sh m front i, true) ∧
      AtHead (sentTo sh m front i) sh.q.channel_type m front i := by
  have hlast : lastCompleted sh.q.update_counter = sh.q.update_counter := by
    have := h.even
    unfold lastCompleted
    omega
  have htail : mcapi_trans_queue_tail sh.q = (front, MCAPI_SUCCESS) := by
    have hnear : tailStatus sh.q.update_counter sh.q.update_counter = MCAPI_SUCCESS := by
      apply tailStatus_success
      have hzero : subU32 sh.q.update_counter sh.q.update_counter = 0 := by
        have := h.lt
        unfold subU32
        omega
      rw [hzero]
      decide
    unfold mcapi_trans_queue_tail
    simp only [hlast, h.slot, h.same, hnear]
  have hsend := send_of_tail h.even htail h.state h.index m
  cases halloc : mcapi_trans_alloc_buffer sh.buffers MAGIC_NUM with
  | none =>
    obtain ⟨i, hi, hfree⟩ := h.free
    exact absurd hfree (alloc_buffer_none.mp halloc i hi)
  | some a =>
    obtain ⟨i, buffers⟩ := a
    obtain ⟨hi, -, -⟩ := alloc_buffer_some halloc
    rw [halloc] at hsend
    refine ⟨i, hsend, rfl, ?_, ?_, ?_, ?_, hi, ?_, ?_⟩
    · exact h.same.symm ▸ h.even
    · -- the counter of the sender is one message ahead
      have hack : lastCompleted sh.q.ack_counter = sh.q.update_counter := h.same ▸ hlast
      have hhead : headStatus (u32 (u32 (sh.q.update_counter + 1) + 1)) sh.q.update_counter =
          MCAPI_SUCCESS := by
        rw [headStatus_success_iff (u32_lt _) h.lt]
        have := h.lt
        unfold subU32 u32
        omega
      have hac : (sentTo sh m front i).q.ack_counter = sh.q.ack_counter := rfl
      have huc : (sentTo sh m front i).q.update_counter =
        u32 (u32 (sh.q.update_counter + 1) + 1) := rfl
      unfold mcapi_trans_queue_head
      simp only [hac, huc, hack, h.slot, hhead]
    · rw [sentTo_element]
    · rw [sentTo_element]
    · rw [sentTo_buffer]
      unfold fill
      split
      · rfl
      · rfl
    · rw [sentTo_buffer]
      exact carries_fill ..

end Head

/-! ## Tests of a request -/

/-- A receive finds nothing at the endpoint. -/
def NothingAt (w : World) (p : Place) : Prop :=
  match (w.endpoints p).buffer_type with
  | MCAPI_ENDP_ATTR_FIFO_BUFFER =>
    (mcapi_trans_queue_head (w.endpoints p).recv_queue).2 ≠ MCAPI_SUCCESS
  | MCAPI_ENDP_ATTR_STATE_BUFFER =>
    let q := (w.endpoints p).recv_queue
    entryOk (w.endpoints p).num_send_buffers
        (readSlot (w.endpoints p).num_send_buffers q.update_counter) = true ∧
      (q.elements (readSlot (w.endpoints p).num_send_buffers q.update_counter)).buff_index = 0

/-- The request is that of a receive at the endpoint that the thread waits for. -/
structure WaitsAt (w : World) (request r : ℕ) (p : Place) : Prop where
  decode : mcapi_trans_decode_request_handle request = some r
  mine : (w.requests r).mine = true
  state : (w.requests r).state = REQUEST_VALID
  type : (w.requests r).type = RECV
  handle : mcapi_trans_decode_handle (w.requests r).handle = some p

section Tests

variable {w w' : World} {request r front i : ℕ} {p : Place} {m : Msg} {ct : channel_type}

/-- A test of a receive that finds nothing changes nothing. -/
theorem test_nothing (h : WaitsAt w request r p) (hnone : NothingAt w p) :
    mcapi_trans_test_i w request = some ⟨w, request, false, none, none, none⟩ := by
  obtain ⟨hdecode, -, hstate, htype, hhandle⟩ := h
  have hcheck : check_receive_request w r = some (w, none) := by
    unfold NothingAt at hnone
    unfold check_receive_request
    simp only [hhandle]
    cases hbt : (w.endpoints p).buffer_type with
    | MCAPI_ENDP_ATTR_FIFO_BUFFER =>
      rw [hbt] at hnone
      unfold check_receive_request_
      simp only [hhandle]
      generalize mcapi_trans_queue_head (w.endpoints p).recv_queue = head at hnone ⊢
      obtain ⟨front, status⟩ := head
      cases status with
      | MCAPI_SUCCESS => exact absurd rfl hnone
      | _ => rfl
    | MCAPI_ENDP_ATTR_STATE_BUFFER =>
      rw [hbt] at hnone
      obtain ⟨hentry, hindex⟩ := hnone
      have hrecv : mcapi_trans_recv_state (w.endpoints p).num_send_buffers (w.shared p)
          (w.requests r).size = some (w.shared p, none) := by
        exact (if_pos hentry).trans (if_pos hindex)
      unfold check_receive_request_state_
      simp only [hhandle, hrecv, World.setShared_shared]
  have htest : testState w request = some (w, false, none, none) := by
    simp only [testState, hdecode, hstate, htype, hcheck, Option.map_some]
  obtain ⟨hindex, hlt⟩ := decode_request_handle_some hdecode
  simp only [mcapi_trans_test_i, htest, hindex, if_pos hlt, hstate]
  rfl

/-- What the test of the receive that gets the message reports. -/
structure Completes (t : Tested) (p : Place) (ct : channel_type) (m : Msg) (room : ℕ) : Prop where
  rc : t.rc = true
  size : t.size = some (if ct = MCAPI_PKT_CHAN then m.buffer_size else min m.buffer_size room)
  status : t.status = some (if ct ≠ MCAPI_PKT_CHAN ∧ m.buffer_size > room
    then .MCAPI_ERR_MSG_TRUNCATED else .MCAPI_SUCCESS)
  delivery : ∃ d, t.delivery = some d ∧
    (contents (t.world.shared p) d).2 = received ct m room

/-- **A test of the receive that holds the head of the queue** completes it with the message
there. -/
theorem test_head (h : WaitsAt w request r p)
    (hbt : (w.endpoints p).buffer_type = MCAPI_ENDP_ATTR_FIFO_BUFFER)
    (hhead : AtHead (w.shared p) ct m front i) (hindex : (w.requests r).ep_qindex = front) :
    ∃ t, mcapi_trans_test_i w request = some t ∧ Completes t p ct m (w.requests r).size := by
  obtain ⟨hdecode, -, hstate, htype, hhandle⟩ := h
  obtain ⟨sh', d, q', hrecv, hpop, hsize, hcontents⟩ := hhead.recv (w.requests r).size
  have hsent : LockFree.sent ((w.endpoints p).recv_queue.elements front) = true := by
    unfold LockFree.sent
    rw [Bool.and_eq_true, decide_eq_true_eq, decide_eq_true_eq]
    refine ⟨hhead.state, ?_⟩
    have hvalid := hhead.index
    dsimp only [World.shared] at hvalid
    rw [hvalid]
    exact validIndex_ne_zero hhead.lt
  have hchan : (w.endpoints p).recv_queue.channel_type = ct := hhead.channel
  have hfront : mcapi_trans_queue_head (w.endpoints p).recv_queue = (front, MCAPI_SUCCESS) :=
    hhead.head
  -- the request after its message was found
  generalize hw' : (w.setShared p { sh' with q := q' }).setRequest r
    (completedRequest ct (w.requests r) d) = w'
  have hcheck : check_receive_request w r = some (w', some d) := by
    unfold check_receive_request
    simp only [hhandle, hbt]
    unfold check_receive_request_
    have hrecv' : mcapi_trans_recv_ ((w.shared p).setElement front
        { (w.endpoints p).recv_queue.elements front with state := BUFFER_RECEIVED })
        (w.requests r).size front = some (sh', d) := hrecv
    simp only [hhandle, hfront, hindex, hsent, and_self, if_true, hstate, hrecv', hpop, hchan,
      hw']
  have hreq : w'.requests r = completedRequest ct (w.requests r) d := by
    rw [← hw', World.requests_setRequest_self]
  have hdone : (completedRequest ct (w.requests r) d).state = REQUEST_COMPLETED := by
    unfold completedRequest
    split
    · rfl
    · rfl
  have htest : testState w request = some (w', false, none, some d) := by
    simp only [testState, hdecode, hstate, htype, hcheck, Option.map_some]
  obtain ⟨hridx, hlt⟩ := decode_request_handle_some hdecode
  refine ⟨⟨w'.setRequest r { w'.requests r with
    state := REQUEST_FREE, ep_qindex := -1, mine := false }, 0, true,
    some (w'.requests r).status, some (w'.requests r).size, some d⟩, ?_, rfl, ?_, ?_, d, rfl, ?_⟩
  · have hcompleted : (w'.requests r).state = REQUEST_COMPLETED := by
      rw [hreq, hdone]
    simp only [mcapi_trans_test_i, htest, hridx, if_pos hlt, hcompleted, true_or, if_true]
  · dsimp only
    rw [hreq]
    unfold completedRequest
    rw [hsize]
    by_cases hpkt : ct = MCAPI_PKT_CHAN
    · simp [hpkt]
    · by_cases hlarge : m.buffer_size > (w.requests r).size
      · rw [if_pos ⟨hpkt, hlarge⟩, if_neg hpkt]
        congr 1
        dsimp only
        omega
      · rw [if_neg (fun hc => hlarge hc.2), if_neg hpkt]
        congr 1
        dsimp only
        omega
  · dsimp only
    rw [hreq]
    unfold completedRequest
    rw [hsize]
    split
    · rfl
    · rfl
  · dsimp only
    have hsh : w'.shared p = { sh' with q := q' } := by
      rw [← hw', World.shared_setRequest, World.shared_setShared]
    rw [World.shared_setRequest, hsh, hcontents]

end Tests

/-! ## A receive is issued on FIFO buffers -/

/-- Only endpoint `p` and request `r` are changed. -/
structure Beside (w₁ w : World) (p : Place) (r : ℕ) : Prop where
  endpoints : ∀ p', p' ≠ p → w.endpoints p' = w₁.endpoints p'
  requests : ∀ r', r' ≠ r → w.requests r' = w₁.requests r'

section Issue

variable {w : World} {handle room rand request front i : ℕ} {p : Place} {m : Msg}
  {ct : channel_type}

/-- **The message is there**: the request is completed with its own size. -/
theorem recv_i_head (hbt : (w.endpoints p).buffer_type = MCAPI_ENDP_ATTR_FIFO_BUFFER)
    (hhead : AtHead (w.shared p) ct m front i) (hfree : w.HasFree)
    (rand handle room request : ℕ) :
    ∃ c r d, recv_i w rand p (some p) handle room request .MCAPI_SUCCESS = some c ∧
      SetUp c r .MCAPI_SUCCESS ∧ (c.world.requests r).size = m.buffer_size ∧
      c.delivery = some d ∧ (contents (c.world.shared p) d).2 = received ct m room ∧
      Beside w c.world p r ∧ (w.requests r).state = REQUEST_FREE := by
  obtain ⟨sh', d, q', hrecv, hpop, hsize, hcontents⟩ := hhead.recv room
  cases hr : mcapi_trans_reserve_request w rand with
  | none => exact absurd hfree (reserve_request_none.mp hr)
  | some a =>
    obtain ⟨w', r⟩ := a
    obtain ⟨hlt, hstate, rfl⟩ := reserve_request_some hr
    have hbuf : ((w.shared p).q.elements front).state = BUFFER_ALLOCATED ∧
        ((w.shared p).q.elements front).buff_index ≠ 0 := by
      refine ⟨hhead.state, ?_⟩
      rw [hhead.index]
      exact validIndex_ne_zero hhead.lt
    have htake : mcapi_trans_recv (w.shared p) room = some ({ sh' with q := q' }, some d) := by
      unfold mcapi_trans_recv
      simp only [hhead.head, if_pos hbuf, hrecv, hpop]
    -- the request after its set-up
    generalize hw' : w.setRequest r { w.requests r with state := REQUEST_VALID, mine := true } = w'
      at hr
    have hw'shared : w'.shared p = w.shared p := by
      rw [← hw', World.shared_setRequest]
    have hmine : (w'.requests r).mine = true := by
      rw [← hw', World.requests_setRequest_self]
    have hbeside : Beside w w' p r := by
      rw [← hw']
      exact ⟨fun _ _ => rfl, fun r' hr' => World.requests_setRequest_of_ne _ _ _ hr'⟩
    have hcall : recv_i w rand p (some p) handle room request .MCAPI_SUCCESS =
        some ⟨(w'.setShared p { sh' with q := q' }).setRequest r
          { w'.requests r with
            type := RECV, handle := handle, size := d.received_size, status := .MCAPI_SUCCESS
            state := REQUEST_COMPLETED },
          requestHandle r, .MCAPI_SUCCESS, some d⟩ := by
      unfold recv_i
      simp only [hbt, hr, if_true, hw'shared, htake]
      rfl
    refine ⟨_, r, d, hcall, ⟨hlt, rfl, rfl, ?_, ?_, ?_⟩, ?_, rfl, ?_, ⟨?_, ?_⟩, hstate⟩
    · rw [World.requests_setRequest_self]
    · rw [World.requests_setRequest_self]
      exact hmine
    · rw [World.requests_setRequest_self]
    · rw [World.requests_setRequest_self]
      exact hsize
    · rw [World.shared_setRequest, World.shared_setShared, hcontents]
    · intro p' hp'
      rw [World.endpoints_setRequest, World.endpoints_setShared_of_ne _ _ _ hp']
      exact hbeside.endpoints p' hp'
    · intro r' hr'
      rw [World.requests_setRequest_of_ne _ _ _ hr', World.requests_setShared]
      exact hbeside.requests r' hr'

/-- The head of a queue that is free is the entry that a request is given. -/
theorem firstUnreserved_head {q : queue} (hlt : front < MCAPI_MAX_QUEUE_ENTRIES)
    (hhead : (mcapi_trans_queue_head q).1 = front) (hfree : (q.elements front).reserved = false) :
    LockFree.firstUnreserved q = some front := by
  have hzero : (front + 0) % MCAPI_MAX_QUEUE_ENTRIES = front := Nat.mod_eq_of_lt hlt
  have hfirst : search MCAPI_MAX_QUEUE_ENTRIES (fun i =>
      !(q.elements ((front + i) % MCAPI_MAX_QUEUE_ENTRIES)).reserved) = some 0 := by
    rw [search_eq_some]
    refine ⟨by decide, ?_, fun j hj => absurd hj (Nat.not_lt_zero j)⟩
    rw [hzero, hfree]
    rfl
  unfold LockFree.firstUnreserved
  rw [hhead, hfirst, Option.map_some, hzero]

/-- **The message is not there yet**: the request holds the entry at the head. -/
theorem recv_i_empty (hbt : (w.endpoints p).buffer_type = MCAPI_ENDP_ATTR_FIFO_BUFFER)
    (hempty : EmptyFifo (w.shared p) front)
    (hunreserved : ((w.shared p).q.elements front).reserved = false) (hfree : w.HasFree)
    (hdecode : mcapi_trans_decode_handle handle = some p) (rand room request : ℕ) :
    ∃ c r, recv_i w rand p (some p) handle room request .MCAPI_SUCCESS = some c ∧
      r < MCAPI_MAX_REQUESTS ∧ c.request = requestHandle r ∧ c.status = .MCAPI_SUCCESS ∧
      c.delivery = none ∧ WaitsAt c.world (requestHandle r) r p ∧
      (c.world.requests r).ep_qindex = front ∧ (c.world.requests r).size = room ∧
      EmptyFifo (c.world.shared p) front ∧
      (c.world.endpoints p).buffer_type = MCAPI_ENDP_ATTR_FIFO_BUFFER ∧
      (c.world.shared p).q.channel_type = (w.shared p).q.channel_type ∧
      Beside w c.world p r ∧ (w.requests r).state = REQUEST_FREE := by
  cases hr : mcapi_trans_reserve_request w rand with
  | none => exact absurd hfree (reserve_request_none.mp hr)
  | some a =>
    obtain ⟨w', r⟩ := a
    obtain ⟨hlt, hstate, rfl⟩ := reserve_request_some hr
    have htake : mcapi_trans_recv (w.shared p) room = some (w.shared p, none) := by
      unfold mcapi_trans_recv
      simp only [hempty.head]
    have hslot : front < MCAPI_MAX_QUEUE_ENTRIES := by
      rw [← hempty.slot]
      exact Nat.mod_lt _ (by decide)
    have hfirst : LockFree.firstUnreserved (w.endpoints p).recv_queue = some front :=
      firstUnreserved_head hslot (congrArg Prod.fst hempty.head) hunreserved
    -- the entry is only marked as reserved
    generalize hsh' : (w.shared p).setElement front
      { (w.shared p).q.elements front with reserved := true } = sh'
    have hself : sh'.q.elements front =
        { (w.shared p).q.elements front with reserved := true } := by
      rw [← hsh', Shared.setElement_self]
    have hstill : EmptyFifo sh' front := by
      obtain ⟨heven, hlt32, hsame, hslot, hst, hindex, hpool⟩ := hempty
      subst hsh'
      exact ⟨heven, hlt32, hsame, hslot, by rw [hself]; exact hst, by rw [hself]; exact hindex,
        hpool⟩
    have hct : sh'.q.channel_type = (w.shared p).q.channel_type := by
      rw [← hsh', Shared.setElement_channel_type]
    generalize hw' : w.setRequest r { w.requests r with state := REQUEST_VALID, mine := true } = w'
      at hr
    have hw'shared : w'.shared p = w.shared p := by
      rw [← hw', World.shared_setRequest]
    have hw'end : w'.endpoints = w.endpoints := by
      rw [← hw', World.endpoints_setRequest]
    have hw'req : w'.requests r = { w.requests r with state := REQUEST_VALID, mine := true } := by
      rw [← hw', World.requests_setRequest_self]
    have hbeside : Beside w w' p r := by
      rw [← hw']
      exact ⟨fun _ _ => rfl, fun r' hr' => World.requests_setRequest_of_ne _ _ _ hr'⟩
    have hcall : recv_i w rand p (some p) handle room request .MCAPI_SUCCESS =
        some ⟨(w'.setShared p sh').setRequest r
          { w'.requests r with
            type := RECV, handle := handle, size := room, status := .MCAPI_SUCCESS
            ep_qindex := front },
          requestHandle r, .MCAPI_SUCCESS, none⟩ := by
      have hset : w'.setShared p (w.shared p) = w' := by
        rw [← hw'shared, World.setShared_shared]
      unfold recv_i
      simp only [hbt, hr, if_true, hw'shared, htake, hset]
      unfold setup_request reserveEntry
      simp only [Bool.false_eq_true, if_false, if_true, hdecode, Option.map_some, hw'end, hfirst,
        hw'shared]
      rw [← hsh']
      rfl
    refine ⟨_, r, hcall, hlt, rfl, rfl, rfl, ⟨decode_requestHandle hlt, ?_, ?_, ?_, ?_⟩, ?_, ?_,
      ?_, ?_, ?_, ⟨?_, ?_⟩, hstate⟩
    · rw [World.requests_setRequest_self, hw'req]
    · rw [World.requests_setRequest_self, hw'req]
    · rw [World.requests_setRequest_self]
    · rw [World.requests_setRequest_self]
      exact hdecode
    · rw [World.requests_setRequest_self]
    · rw [World.requests_setRequest_self]
    · rw [World.shared_setRequest, World.shared_setShared]
      exact hstill
    · rw [World.endpoints_setRequest, World.endpoints_setShared_self]
      dsimp only
      rw [hw'end, hbt]
    · rw [World.shared_setRequest, World.shared_setShared, hct]
    · intro p' hp'
      rw [World.endpoints_setRequest, World.endpoints_setShared_of_ne _ _ _ hp']
      exact hbeside.endpoints p' hp'
    · intro r' hr'
      rw [World.requests_setRequest_of_ne _ _ _ hr', World.requests_setShared]
      exact hbeside.requests r' hr'

end Issue

end MxApi.Calls
