/-
What a receive reports, and whether that depends on when the message arrives.

A receive is issued by the blocking or by the non-blocking call, and a pending request is
completed by a test, a wait or a wait for any of several requests. The message is sent by
another thread, before the receive is issued or in any later round. On FIFO buffers every
way of receiving has one outcome if the message fits into the caller's buffer. If it does
not, a message that was there before reports its own size, one that arrives later reports
the size of the buffer, and the blocking call tells that it was cut off only in the first
case. On state buffers a receive that finds a message never reports its size
([`timing_free_iff`]).
-/
import MxApi.Mcapi.Completion
import MxApi.Mcapi.FifoRequests

set_option autoImplicit false

namespace MxApi.Calls

open Lib Transfers channel_type mcapi_buffer_state mcapi_status_t mcapi_request_state
  mcapi_request_type mcapi_buffer_type

/-! ## Receives -/

/-- A receive of a message with room for so many bytes, or of a packet. -/
inductive Receive
  | msg (buffer_size : ℕ)
  | pkt

/-- How it is made: by the blocking call, or by the non-blocking one and a wait. -/
inductive Way
  | blocking
  | nonblocking (completion : Completion)

/-- What the caller is given: everything that was delivered, the size and the status. -/
structure Outcome where
  delivered : List Payload
  size : ℕ
  status : Status

def payloads (w : World) (p : Place) (deliveries : List Delivery) : List Payload :=
  deliveries.map fun d => (contents (w.shared p) d).2

namespace Receive

variable (rcv : Receive)

def channel : channel_type :=
  match rcv with
  | msg _ => MCAPI_NO_CHAN
  | pkt => MCAPI_PKT_CHAN

def room : ℕ :=
  match rcv with
  | msg buffer_size => buffer_size
  | pkt => MCAPI_MAX_PKT_SIZE

/-- The non-blocking call of the transport. -/
def issue (w : World) (rand handle request : ℕ) (mcapi_status : Status) : Option Called :=
  match rcv with
  | msg buffer_size => mcapi_trans_msg_recv_i w rand handle buffer_size request mcapi_status
  | pkt => mcapi_trans_pktchan_recv_i w rand handle request mcapi_status

/-- The non-blocking call of the application. -/
def issue_i (w : World) (rand handle : ℕ) : Option Called :=
  match rcv with
  | msg buffer_size => mcapi_msg_recv_i w rand handle true buffer_size (some 0)
  | pkt => mcapi_pktchan_recv_i w rand handle true (some 0)

/-- The blocking call of the application. -/
def recv (env : Env) (rand : ℕ → ℕ) (fuel : ℕ) (w : World) (handle received_size : ℕ) :
    Option Received :=
  match rcv with
  | msg buffer_size => mcapi_msg_recv env rand fuel w handle true buffer_size received_size
  | pkt => mcapi_pktchan_recv env rand fuel w handle true received_size

/-- A receive whose caller has `received_size` in its variable before. A size or a status
that is not written stays as it was. -/
def perform (handle : ℕ) (p : Place) (env : Env) (rand : ℕ → ℕ) (w : World)
    (received_size : ℕ) (way : Way) (fuel : ℕ) : Option Outcome :=
  match way with
  | .blocking =>
    (rcv.recv env rand fuel w handle received_size).map fun x =>
      ⟨payloads x.world p x.deliveries, x.received_size, x.status⟩
  | .nonblocking completion =>
    match rcv.issue_i (env 0 w) (rand 0) handle with
    | none => none
    | some c =>
      (completion.run env fuel 1 c.world c.request c.delivery.toList).map fun x =>
        ⟨payloads x.1.world p x.2, x.1.size.getD received_size, x.1.status.getD c.status⟩

end Receive

/-! ## Arrivals -/

/-- Another thread sends the message to the endpoint. -/
def arrive (p : Place) (m : Msg) (w : World) : World :=
  let sent := match (w.endpoints p).buffer_type with
    | MCAPI_ENDP_ATTR_FIFO_BUFFER => mcapi_trans_send (w.shared p) m
    | MCAPI_ENDP_ATTR_STATE_BUFFER =>
      mcapi_trans_send_state (w.endpoints p).num_send_buffers (w.shared p) m
  match sent with
  | some (sh, _) => w.setShared p sh
  | none => w

/-- The message arrives in round `k`. Round `0` is before the receive is issued. -/
def arriving (env : Env) (k : ℕ) (p : Place) (m : Msg) : Env := fun n w =>
  if n = k then arrive p m (env n w) else env n w

/-- Other threads use requests of their own, and leave the rest alone. -/
structure Env.Leaves (env : Env) : Prop extends env.OnlyRequests where
  domains : ∀ n w, (env n w).domains = w.domains
  nodes : ∀ n w, (env n w).nodes = w.nodes

/-- The arguments pass the checks. -/
structure Receive.Valid (rcv : Receive) (w : World) (handle : ℕ) (p : Place) : Prop where
  decode : mcapi_trans_decode_handle handle = some p
  domain : w.domains p.1 = true
  node : w.nodes p.1 p.2.1 = true
  valid : (w.endpoints p).valid = true
  channel : (w.endpoints p).recv_queue.channel_type = rcv.channel

/-- The receive is about to be issued. Nothing is at its endpoint, no other receive waits
there, and a message that is sent has room. -/
structure Receive.Waiting (rcv : Receive) (w : World) (handle : ℕ) (p : Place) : Prop extends
    rcv.Valid w handle p where
  empty : match (w.endpoints p).buffer_type with
    | MCAPI_ENDP_ATTR_FIFO_BUFFER => ∃ front, EmptyFifo (w.shared p) front ∧
      ((w.endpoints p).recv_queue.elements front).reserved = false
    | MCAPI_ENDP_ATTR_STATE_BUFFER => NothingAt w p ∧
      Ready MCAPI_ENDP_ATTR_STATE_BUFFER (w.endpoints p).num_send_buffers (w.shared p) ∧
      HasRoom (w.endpoints p).num_send_buffers (w.shared p) ∧
      (w.shared p).q.update_counter % 2 = 0 ∧ (w.shared p).q.update_counter + 2 < 2 ^ 32

/-- A receive that waits and finds nothing at another endpoint. -/
def WaitsElsewhere (w : World) (request : ℕ) (p : Place) : Prop :=
  ∃ r p', WaitsAt w request r p' ∧ p' ≠ p ∧ NothingAt w p'

/-- The other requests of the list are those of such receives. -/
def Way.OthersWait (way : Way) (w : World) (p : Place) : Prop :=
  match way with
  | .blocking => True
  | .nonblocking completion => ∀ other ∈ completion.others, WaitsElsewhere w other p

/-- One outcome is that of the receive, whenever the message arrives and whichever way the
receive is made, if a request is free for it. -/
def Receive.TimingFree (rcv : Receive) (w : World) (handle : ℕ) (p : Place) (m : Msg) : Prop :=
  ∃ o, ∀ env : Env, env.Leaves → ∀ rand k received_size way, (env 0 w).HasFree →
    way.OthersWait w p →
      Settles (rcv.perform handle p (arriving env k p m) rand w received_size way) (· = o)

/-! ## The calls under their checks -/

section Checks

variable {rcv : Receive} {w : World} {handle : ℕ} {p : Place}

theorem Receive.issue_eq (hdecode : mcapi_trans_decode_handle handle = some p)
    (hchan : (w.endpoints p).recv_queue.channel_type = rcv.channel) (rand request : ℕ)
    (status : Status) :
    rcv.issue w rand handle request status =
      recv_i w rand p (some p) handle rcv.room request status := by
  cases rcv with
  | msg c =>
    have hno : noChannel w p (some p) = some p := by
      unfold noChannel
      rw [Option.filter_some, hchan]
      rfl
    simp only [issue, mcapi_trans_msg_recv_i, hdecode, hno, room]
  | pkt => simp only [issue, mcapi_trans_pktchan_recv_i, hdecode, room]

theorem Receive.Valid.endpoint (h : rcv.Valid w handle p) :
    mcapi_trans_valid_endpoint w handle = true := by
  simp only [mcapi_trans_valid_endpoint, h.decode, Option.any_some, h.domain, h.node, h.valid,
    Bool.and_self]

theorem Receive.Valid.recv_handle (h : Receive.pkt.Valid w handle p) :
    mcapi_trans_valid_pktchan_recv_handle w handle = true := by
  simp only [mcapi_trans_valid_pktchan_recv_handle, h.decode, Option.any_some, h.channel]
  rfl

/-- With valid arguments the transport is given the status `MCAPI_SUCCESS`. -/
theorem Receive.Valid.issue_i_eq (h : rcv.Valid w handle p) (rand : ℕ) :
    rcv.issue_i w rand handle =
      recv_i w rand p (some p) handle rcv.room 0 .MCAPI_SUCCESS := by
  rw [← Receive.issue_eq h.decode h.channel]
  cases rcv with
  | msg c => simp [issue_i, issue, mcapi_msg_recv_i, h.endpoint]
  | pkt => simp [issue_i, issue, mcapi_pktchan_recv_i, h.recv_handle]

/-- What the application makes of the result of a blocking receive. -/
def Receive.report (rcv : Receive) (received_size : ℕ) (x : Returned) : Received :=
  let received_size := x.size.getD received_size
  match rcv with
  | .msg buffer_size =>
    if received_size > buffer_size then
      ⟨x.world, buffer_size, .MCAPI_ERR_MSG_TRUNCATED, x.deliveries⟩
    else ⟨x.world, received_size, .MCAPI_SUCCESS, x.deliveries⟩
  | .pkt =>
    ⟨x.world, received_size, if x.rc then
      if received_size > MCAPI_MAX_PKT_SIZE then .MCAPI_ERR_PKT_LIMIT else .MCAPI_SUCCESS
      else .MCAPI_ERR_MEM_LIMIT, x.deliveries⟩

theorem Receive.Valid.recv_eq (h : rcv.Valid w handle p) (env : Env) (rand : ℕ → ℕ)
    (fuel received_size : ℕ) :
    rcv.recv env rand fuel w handle received_size =
      (blocking env (fun n w request status => rcv.issue w (rand n) handle request status)
        fuel w).map (rcv.report received_size) := by
  cases rcv with
  | msg c =>
    simp only [recv, mcapi_msg_recv, h.endpoint, Bool.not_true, Bool.false_eq_true, if_false]
    rfl
  | pkt =>
    simp only [recv, mcapi_pktchan_recv, h.recv_handle, Bool.not_true, Bool.false_eq_true,
      if_false]
    rfl

end Checks

/-! ## What other threads keep -/

/-- The queues, the pool and the requests of the thread are those of `w₁`. -/
structure Kept (w₁ w : World) : Prop where
  endpoints : w.endpoints = w₁.endpoints
  buffers : w.buffers = w₁.buffers
  requests : ∀ r, (w₁.requests r).mine = true → w.requests r = w₁.requests r

section Keeps

variable {w w₁ w₂ : World} {env : Env} {request r n k : ℕ} {p p' : Place} {m : Msg}

theorem Kept.refl (w : World) : Kept w w := ⟨rfl, rfl, fun _ _ => rfl⟩

theorem Kept.shared (h : Kept w₁ w) (p : Place) : w.shared p = w₁.shared p := by
  rw [World.shared, World.shared, h.endpoints, h.buffers]

theorem Kept.round (h : Kept w₁ w) (henv : env.OnlyRequests) (n : ℕ) : Kept w₁ (env n w) where
  endpoints := (henv.endpoints n w).trans h.endpoints
  buffers := (henv.buffers n w).trans h.buffers
  requests r hmine := by
    have hreq := h.requests r hmine
    rw [henv.kept n w r (by rw [hreq]; exact hmine), hreq]

@[simp] theorem arrive_requests (p : Place) (m : Msg) (w : World) :
    (arrive p m w).requests = w.requests := by
  unfold arrive
  dsimp only
  split
  · rfl
  · rfl

theorem arrive_endpoints (p : Place) (m : Msg) (w : World) (h : p' ≠ p) :
    (arrive p m w).endpoints p' = w.endpoints p' := by
  unfold arrive
  dsimp only
  split
  · exact Function.update_of_ne h _ _
  · rfl

theorem Kept.arrive (h : Kept w₁ w) (p : Place) (m : Msg) :
    Kept (arrive p m w₁) (arrive p m w) := by
  have hshared := h.shared p
  refine ⟨?_, ?_, ?_⟩
  · unfold Calls.arrive
    rw [h.endpoints, hshared]
    dsimp only
    split
    · rw [World.setShared, World.setShared, h.endpoints]
    · exact h.endpoints
  · unfold Calls.arrive
    rw [h.endpoints, hshared]
    dsimp only
    split
    · rfl
    · exact h.buffers
  · intro r hmine
    rw [arrive_requests] at hmine ⊢
    rw [h.requests r hmine, arrive_requests]

theorem Kept.waitsAt (h : Kept w₁ w) (hw : WaitsAt w₁ request r p) : WaitsAt w request r p := by
  have hreq := h.requests r hw.mine
  refine ⟨hw.decode, ?_, ?_, ?_, ?_⟩
  · rw [hreq, hw.mine]
  · rw [hreq, hw.state]
  · rw [hreq, hw.type]
  · rw [hreq, hw.handle]

theorem nothingAt_congr (h : w.endpoints p = w₁.endpoints p) (hw : NothingAt w₁ p) :
    NothingAt w p := by
  unfold NothingAt at hw ⊢
  rw [h]
  exact hw

theorem WaitsElsewhere.kept (h : WaitsElsewhere w₁ request p) (hk : Kept w₁ w) :
    WaitsElsewhere w request p := by
  obtain ⟨r, p', hw, hne, hnone⟩ := h
  exact ⟨r, p', hk.waitsAt hw, hne, nothingAt_congr (congrFun hk.endpoints p') hnone⟩

theorem WaitsElsewhere.arrive (h : WaitsElsewhere w request p) (m : Msg) :
    WaitsElsewhere (arrive p m w) request p := by
  obtain ⟨r, p', ⟨hdecode, hmine, hstate, htype, hhandle⟩, hne, hnone⟩ := h
  refine ⟨r, p', ⟨hdecode, ?_, ?_, ?_, ?_⟩, hne,
    nothingAt_congr (arrive_endpoints p m w hne) hnone⟩
  · rw [arrive_requests, hmine]
  · rw [arrive_requests, hstate]
  · rw [arrive_requests, htype]
  · rw [arrive_requests, hhandle]

theorem WaitsElsewhere.beside (h : WaitsElsewhere w₁ request p) (hb : Beside w₁ w p r)
    (hfree : (w₁.requests r).state = REQUEST_FREE) : WaitsElsewhere w request p := by
  obtain ⟨r', p', ⟨hdecode, hmine, hstate, htype, hhandle⟩, hne, hnone⟩ := h
  have hr : r' ≠ r := by
    rintro rfl
    rw [hfree] at hstate
    cases hstate
  have hreq := hb.requests r' hr
  exact ⟨r', p', ⟨hdecode, hreq ▸ hmine, hreq ▸ hstate, hreq ▸ htype, hreq ▸ hhandle⟩, hne,
    nothingAt_congr (hb.endpoints p' hne) hnone⟩

/-- The worlds `W n` that the rounds find, up to what other threads do, tell when the
request is done. -/
theorem doneFrom_of_worlds (W : ℕ → World) {others : List ℕ} {Q : Tested → Prop}
    (hstep : ∀ n w, 1 ≤ n → Kept (W (n - 1)) w → Kept (W n) (env n w))
    (hother : ∀ other ∈ others, ∀ n, WaitsElsewhere (W n) other p)
    (hearly : ∀ n, n < k → WaitsAt (W n) request r p ∧ NothingAt (W n) p)
    (hdone : ∀ n w, k ≤ n → Kept (W n) w →
      ∃ t, mcapi_trans_test_i w request = some t ∧ t.rc = true ∧ Q t) :
    DoneFrom env request others k (fun n w => 1 ≤ n ∧ Kept (W (n - 1)) w) Q where
  early := by
    rintro n w ⟨hn, hk⟩ hlt
    have hk' := hstep n w hn hk
    obtain ⟨hw, hnone⟩ := hearly n hlt
    have hnone' := nothingAt_congr (congrFun hk'.endpoints p) hnone
    exact ⟨_, test_nothing (hk'.waitsAt hw) hnone', rfl, rfl, rfl, by omega, hk'⟩
  done := by
    rintro n w ⟨hn, hk⟩ hle
    exact hdone n _ hle (hstep n w hn hk)
  other := by
    rintro other hmem n w ⟨hn, hk⟩
    have hk' := hstep n w hn hk
    obtain ⟨r', p', hw, -, hnone⟩ := (hother other hmem n).kept hk'
    exact ⟨_, test_nothing hw hnone, rfl, rfl, by omega, hk'⟩

end Keeps

/-! ## The outcomes on FIFO buffers -/

/-- The size and the status of the request. A message that was there before the receive
reports its own size, whether it was cut off or not. -/
def Receive.reported (rcv : Receive) (m : Msg) (before : Bool) : ℕ × Status :=
  match rcv, before with
  | .msg buffer_size, false =>
    (min m.buffer_size buffer_size,
      if m.buffer_size > buffer_size then .MCAPI_ERR_MSG_TRUNCATED else .MCAPI_SUCCESS)
  | _, _ => (m.buffer_size, .MCAPI_SUCCESS)

def Receive.fifoOutcome (rcv : Receive) (m : Msg) (before : Bool) (way : Way) : Outcome :=
  let delivered := [received rcv.channel m rcv.room]
  let reported := rcv.reported m before
  match way, rcv with
  | .nonblocking _, _ => ⟨delivered, reported.1, reported.2⟩
  | .blocking, .msg buffer_size =>
    if reported.1 > buffer_size then ⟨delivered, buffer_size, .MCAPI_ERR_MSG_TRUNCATED⟩
    else ⟨delivered, reported.1, .MCAPI_SUCCESS⟩
  | .blocking, .pkt => ⟨delivered, reported.1, .MCAPI_SUCCESS⟩

/-- The request was completed with this. -/
def Receive.Reports (rcv : Receive) (m : Msg) (p : Place) (before : Bool)
    (x : Tested × List Delivery) : Prop :=
  payloads x.1.world p x.2 = [received rcv.channel m rcv.room] ∧
    x.1.size = some (rcv.reported m before).1 ∧ x.1.status = some (rcv.reported m before).2

section Outcomes

variable {rcv : Receive} {w : World} {handle front k : ℕ} {p : Place} {m : Msg} {env : Env}
  {rand : ℕ → ℕ}

theorem arriving_of_ne {n : ℕ} (h : n ≠ k) (w : World) :
    arriving env k p m n w = env n w := if_neg h

theorem arriving_self (w : World) : arriving env k p m k w = arrive p m (env k w) := if_pos rfl

/-- The message arrives at the head of the empty queue. -/
theorem arrive_head (hbt : (w.endpoints p).buffer_type = MCAPI_ENDP_ATTR_FIFO_BUFFER)
    (hempty : EmptyFifo (w.shared p) front) (m : Msg) :
    ∃ i, AtHead ((arrive p m w).shared p) (w.shared p).q.channel_type m front i ∧
      (arrive p m w).endpoints p = { w.endpoints p with
        recv_queue := (sentTo (w.shared p) m front i).q } := by
  obtain ⟨i, hsend, hhead⟩ := hempty.send m
  have harrive : arrive p m w = w.setShared p (sentTo (w.shared p) m front i) := by
    unfold arrive
    simp only [hbt, hsend]
  refine ⟨i, ?_, ?_⟩
  · rw [harrive, World.shared_setShared]
    exact hhead
  · rw [harrive, World.endpoints_setShared_self]

/-- The endpoint is one for which the table of outcomes is meant. -/
structure FifoWaiting (rcv : Receive) (w : World) (handle : ℕ) (p : Place) (front : ℕ) : Prop where
  decode : mcapi_trans_decode_handle handle = some p
  buffer_type : (w.endpoints p).buffer_type = MCAPI_ENDP_ATTR_FIFO_BUFFER
  channel : (w.shared p).q.channel_type = rcv.channel
  empty : EmptyFifo (w.shared p) front
  unreserved : ((w.shared p).q.elements front).reserved = false

theorem FifoWaiting.kept {w₁ : World} (h : FifoWaiting rcv w₁ handle p front) (hk : Kept w₁ w) :
    FifoWaiting rcv w handle p front where
  decode := h.decode
  buffer_type := by rw [hk.endpoints, h.buffer_type]
  channel := by rw [hk.shared, h.channel]
  empty := by rw [hk.shared]; exact h.empty
  unreserved := by rw [hk.shared]; exact h.unreserved

/-- **The message was there before**, and the request is done from the start. -/
theorem issued_before (h : FifoWaiting rcv w handle p front) (henv : env.OnlyRequests)
    (hfree : (env 0 w).HasFree) (m : Msg) (rand : ℕ) :
    ∃ c r, recv_i (arriving env 0 p m 0 w) rand p (some p) handle rcv.room 0 .MCAPI_SUCCESS =
        some c ∧ c.request = requestHandle r ∧ r < MCAPI_MAX_REQUESTS ∧
      c.status = .MCAPI_SUCCESS ∧
      ∀ completion : Completion, (∀ other ∈ completion.others, WaitsElsewhere w other p) →
        Settles (fun fuel => completion.run (arriving env 0 p m) fuel 1 c.world c.request
          c.delivery.toList) (rcv.Reports m p true) := by
  have hkept : Kept w (env 0 w) := (Kept.refl w).round henv 0
  have h₀ := h.kept hkept
  rw [arriving_self]
  obtain ⟨i, hhead, hend⟩ := arrive_head h₀.buffer_type h₀.empty m
  rw [h₀.channel] at hhead
  have hbt : ((arrive p m (env 0 w)).endpoints p).buffer_type = MCAPI_ENDP_ATTR_FIFO_BUFFER := by
    rw [hend]
    exact h₀.buffer_type
  have hfree' : (arrive p m (env 0 w)).HasFree := by
    unfold World.HasFree
    rw [arrive_requests]
    exact hfree
  obtain ⟨c, r, d, hc, hsetup, hsize, hdel, hcontents, hbeside, hfr⟩ :=
    recv_i_head hbt hhead hfree' rand handle rcv.room 0
  refine ⟨c, r, hc, hsetup.request, hsetup.lt, hsetup.ok, ?_⟩
  intro completion hothers
  rw [hsetup.request]
  have hdone : DoneFrom (arriving env 0 p m) (requestHandle r) completion.others 0
      (fun n w => 1 ≤ n ∧ Kept c.world w)
      (fun t => t.size = some m.buffer_size ∧ t.status = some .MCAPI_SUCCESS ∧
        t.delivery = none ∧ t.world.shared p = c.world.shared p) := by
    apply doneFrom_of_worlds (fun _ => c.world) (p := p) (r := r)
    · intro n w' hn hw'
      rw [arriving_of_ne (by omega)]
      exact hw'.round henv n
    · intro other hmem n
      exact (((hothers other hmem).kept hkept).arrive m).beside hbeside hfr
    · exact fun n hn => absurd hn (Nat.not_lt_zero n)
    · intro n w' _ hw'
      have hreq := hw'.requests r hsetup.mine
      have htest := test_completed hsetup.lt (by rw [hreq]; exact hsetup.state)
      refine ⟨_, htest, rfl, ?_, ?_, rfl, ?_⟩
      · rw [hreq, hsize]
      · rw [hreq, hsetup.stored]
      · rw [World.shared_setRequest, hw'.shared]
  have hrun := hdone.run (Messages.requestHandle_ne_zero hsetup.lt)
    (by rw [decode_requestHandle hsetup.lt]; nofun) ⟨Nat.le_refl 1, Kept.refl c.world⟩
    c.delivery.toList
  refine ⟨hrun.returns, ?_⟩
  intro fuel x hx
  obtain ⟨⟨hxsize, hxstatus, hxdel, hxshared⟩, hxlist⟩ := hrun.result fuel x hx
  have hreported : rcv.reported m true = (m.buffer_size, .MCAPI_SUCCESS) := by
    cases rcv with
    | msg c => rfl
    | pkt => rfl
  refine ⟨?_, ?_, ?_⟩
  · rw [hxlist, hxdel, hdel]
    unfold payloads
    simp only [Option.toList_some, Option.toList_none, List.append_nil, List.map_cons,
      List.map_nil, hxshared, hcontents]
  · rw [hreported, hxsize]
  · rw [hreported, hxstatus]

/-- **The message arrives later**, and the request is done from then on. -/
theorem issued_later (h : FifoWaiting rcv w handle p front) (henv : env.OnlyRequests)
    (hfree : (env 0 w).HasFree) (m : Msg) (rand : ℕ) (hk : k ≠ 0) :
    ∃ c r, recv_i (arriving env k p m 0 w) rand p (some p) handle rcv.room 0 .MCAPI_SUCCESS =
        some c ∧ c.request = requestHandle r ∧ r < MCAPI_MAX_REQUESTS ∧
      c.status = .MCAPI_SUCCESS ∧
      ∀ completion : Completion, (∀ other ∈ completion.others, WaitsElsewhere w other p) →
        Settles (fun fuel => completion.run (arriving env k p m) fuel 1 c.world c.request
          c.delivery.toList) (rcv.Reports m p false) := by
  have hkept : Kept w (env 0 w) := (Kept.refl w).round henv 0
  have h₀ := h.kept hkept
  rw [arriving_of_ne hk.symm]
  obtain ⟨c, r, hc, hlt, hrequest, hstatus, hdel, hwaits, hindex, hsize, hempty, hbt, hct, hbeside,
    hfr⟩ := recv_i_empty h₀.buffer_type h₀.empty h₀.unreserved hfree h.decode rand rcv.room 0
  rw [h₀.channel] at hct
  refine ⟨c, r, hc, hrequest, hlt, hstatus, ?_⟩
  intro completion hothers
  rw [hrequest]
  have hothers' : ∀ other ∈ completion.others, WaitsElsewhere c.world other p :=
    fun other hmem => ((hothers other hmem).kept hkept).beside hbeside hfr
  obtain ⟨i, hhead, hend⟩ := arrive_head hbt hempty m
  rw [hct] at hhead
  have hdone : DoneFrom (arriving env k p m) (requestHandle r) completion.others k
      (fun n w => 1 ≤ n ∧ Kept (if n - 1 < k then c.world else arrive p m c.world) w)
      (fun t => Completes t p rcv.channel m rcv.room) := by
    apply doneFrom_of_worlds (fun n => if n < k then c.world else arrive p m c.world) (p := p)
    · intro n w' hn hw'
      rcases Nat.lt_trichotomy n k with hlt | rfl | hgt
      · rw [if_pos hlt, arriving_of_ne hlt.ne]
        rw [if_pos (by omega)] at hw'
        exact hw'.round henv n
      · rw [if_neg (lt_irrefl n), arriving_self]
        rw [if_pos (by omega)] at hw'
        exact (hw'.round henv n).arrive p m
      · rw [if_neg (by omega), arriving_of_ne hgt.ne']
        rw [if_neg (by omega)] at hw'
        exact hw'.round henv n
    · intro other hmem n
      split
      · exact hothers' other hmem
      · exact (hothers' other hmem).arrive m
    · intro n hn
      rw [if_pos hn]
      refine ⟨hwaits, ?_⟩
      unfold NothingAt
      rw [hbt]
      have hnone := congrArg Prod.snd hempty.head
      exact fun hsuccess => absurd (hnone.symm.trans hsuccess) nofun
    · intro n w' hn hw'
      rw [if_neg (by omega)] at hw'
      have hwaits' : WaitsAt (arrive p m c.world) (requestHandle r) r p := by
        obtain ⟨hdecode, hmine, hstate, htype, hhandle⟩ := hwaits
        exact ⟨hdecode, by rw [arrive_requests, hmine], by rw [arrive_requests, hstate],
          by rw [arrive_requests, htype], by rw [arrive_requests, hhandle]⟩
      have hreq := hw'.requests r hwaits'.mine
      rw [arrive_requests] at hreq
      obtain ⟨t, ht, hcompletes⟩ := test_head (hw'.waitsAt hwaits')
        (by rw [hw'.endpoints, hend]; exact hbt) (by rw [hw'.shared]; exact hhead)
        (by rw [hreq]; exact hindex)
      rw [hreq, hsize] at hcompletes
      exact ⟨t, ht, hcompletes.rc, hcompletes⟩
  have hrun := hdone.run (Messages.requestHandle_ne_zero hlt)
    (by rw [decode_requestHandle hlt]; nofun)
    ⟨Nat.le_refl 1, by rw [if_pos (by omega)]; exact Kept.refl c.world⟩ c.delivery.toList
  refine ⟨hrun.returns, ?_⟩
  intro fuel x hx
  obtain ⟨⟨-, hxsize, hxstatus, d, hxdel, hcontents⟩, hxlist⟩ := hrun.result fuel x hx
  refine ⟨?_, ?_, ?_⟩
  · rw [hxlist, hxdel, hdel]
    unfold payloads
    simp only [Option.toList_some, Option.toList_none, List.nil_append, List.map_cons,
      List.map_nil, hcontents]
  · rw [hxsize]
    cases rcv with
    | msg c => rfl
    | pkt => rfl
  · rw [hxstatus]
    cases rcv with
    | msg c => simp [Receive.channel, Receive.reported, Receive.room]
    | pkt => simp [Receive.channel, Receive.reported]

theorem arrive_domains (p : Place) (m : Msg) (w : World) :
    (arrive p m w).domains = w.domains ∧ (arrive p m w).nodes = w.nodes := by
  unfold arrive
  dsimp only
  split
  · exact ⟨rfl, rfl⟩
  · exact ⟨rfl, rfl⟩

/-- The arguments are still valid when the call is made. -/
theorem Receive.Valid.arriving (h : rcv.Valid w handle p) (henv : env.Leaves)
    (hf : FifoWaiting rcv w handle p front) (k : ℕ) (m : Msg) :
    rcv.Valid (arriving env k p m 0 w) handle p := by
  have hkept : Kept w (env 0 w) := (Kept.refl w).round henv.toOnlyRequests 0
  have h₀ : rcv.Valid (env 0 w) handle p :=
    ⟨h.decode, by rw [henv.domains, h.domain], by rw [henv.nodes, h.node],
      by rw [hkept.endpoints, h.valid], by rw [hkept.endpoints, h.channel]⟩
  by_cases hk : k = 0
  · subst hk
    rw [arriving_self]
    have hf₀ := hf.kept hkept
    obtain ⟨i, hhead, hend⟩ := arrive_head hf₀.buffer_type hf₀.empty m
    obtain ⟨hdomains, hnodes⟩ := arrive_domains p m (env 0 w)
    refine ⟨h.decode, by rw [hdomains, h₀.domain], by rw [hnodes, h₀.node], ?_, ?_⟩
    · rw [hend]
      exact h₀.valid
    · exact hhead.channel.trans hf₀.channel
  · rw [arriving_of_ne (Ne.symm hk)]
    exact h₀

/-- The call, whichever round the message arrives in. -/
theorem issued_fifo (h : FifoWaiting rcv w handle p front) (henv : env.OnlyRequests)
    (hfree : (env 0 w).HasFree) (m : Msg) (k rand : ℕ) :
    ∃ c r, recv_i (arriving env k p m 0 w) rand p (some p) handle rcv.room 0 .MCAPI_SUCCESS =
        some c ∧ c.request = requestHandle r ∧ r < MCAPI_MAX_REQUESTS ∧
      c.status = .MCAPI_SUCCESS ∧
      ∀ completion : Completion, (∀ other ∈ completion.others, WaitsElsewhere w other p) →
        Settles (fun fuel => completion.run (arriving env k p m) fuel 1 c.world c.request
          c.delivery.toList) (rcv.Reports m p (decide (k = 0))) := by
  by_cases hk : k = 0
  · subst hk
    exact issued_before h henv hfree m rand
  · rw [decide_eq_false hk]
    exact issued_later h henv hfree m rand hk

/-- What the application is told by the blocking call. -/
theorem report_fifo {x : Tested × List Delivery} {before : Bool} (hx : rcv.Reports m p before x)
    (received_size : ℕ) (status : Status) :
    let y := rcv.report received_size ⟨x.1.world,
      decide (x.1.status.getD status = .MCAPI_SUCCESS), x.1.status.getD status, x.1.size, x.2⟩
    (⟨payloads y.world p y.deliveries, y.received_size, y.status⟩ : Outcome) =
      rcv.fifoOutcome m before .blocking := by
  obtain ⟨hpayloads, hsize, hstatus⟩ := hx
  cases rcv with
  | msg c =>
    unfold Receive.report Receive.fifoOutcome
    rw [hsize]
    dsimp only [Option.getD_some]
    split
    · rw [hpayloads]
    · rw [hpayloads]
  | pkt =>
    have hle : ¬ m.buffer_size > MCAPI_MAX_PKT_SIZE := by
      have := m.buffer_size_le
      unfold MCAPI_MAX_MSG_SIZE at this
      unfold MCAPI_MAX_PKT_SIZE
      omega
    unfold Receive.report Receive.fifoOutcome
    rw [hsize, hstatus]
    dsimp only [Option.getD_some]
    rw [hpayloads]
    simp [Receive.reported, hle]

/-- **Every receive on FIFO buffers** has the outcome of the table. -/
theorem perform_fifo (h : rcv.Valid w handle p) (hf : FifoWaiting rcv w handle p front)
    (henv : env.Leaves) (hfree : (env 0 w).HasFree) (m : Msg) (k : ℕ) (rand : ℕ → ℕ)
    (received_size : ℕ) {way : Way} (hothers : way.OthersWait w p) :
    Settles (rcv.perform handle p (arriving env k p m) rand w received_size way)
      (· = rcv.fifoOutcome m (decide (k = 0)) way) := by
  obtain ⟨c, r, hc, hrequest, hlt, hstatus, hrun⟩ :=
    issued_fifo hf henv.toOnlyRequests hfree m k (rand 0)
  have hvalid := h.arriving henv hf k m
  cases way with
  | nonblocking completion =>
    have hperform : rcv.perform handle p (arriving env k p m) rand w received_size
        (.nonblocking completion) = fun fuel =>
          (completion.run (arriving env k p m) fuel 1 c.world c.request c.delivery.toList).map
            fun x => ⟨payloads x.1.world p x.2, x.1.size.getD received_size,
              x.1.status.getD c.status⟩ := by
      funext fuel
      simp only [Receive.perform, hvalid.issue_i_eq, hc]
    rw [hperform]
    apply (hrun completion hothers).map
    rintro x ⟨hpayloads, hsize, hst⟩
    rw [hpayloads, hsize, hst]
    rfl
  | blocking =>
    have hcall : rcv.issue (arriving env k p m 0 w) (rand 0) handle 0 .MCAPI_SUCCESS = some c := by
      rw [Receive.issue_eq h.decode hvalid.channel, hc]
    have hwait := hrun .wait (fun other hmem => absurd hmem List.not_mem_nil)
    -- the first attempt finds a request, and the rest is the wait
    have hblocking : ∀ fuel, blocking (arriving env k p m)
        (fun n w request status => rcv.issue w (rand n) handle request status) (fuel + 1) w =
          (Completion.wait.run (arriving env k p m) (fuel + 1) 1 c.world c.request
            c.delivery.toList).map fun x => ⟨x.1.world,
              decide (x.1.status.getD c.status = .MCAPI_SUCCESS), x.1.status.getD c.status,
              x.1.size, x.2⟩ := by
      intro fuel
      have hattempts : attempts (arriving env k p m)
          (fun n w request status => rcv.issue w (rand n) handle request status) (fuel + 1) 0 w 0
          .MCAPI_SUCCESS [] = some (c, 1, [] ++ c.delivery.toList) :=
        attempts_first fuel [] hcall (by rw [hstatus]; nofun)
      rw [blocking_eq_wait, hattempts]
      rfl
    have hperform : ∀ fuel, rcv.perform handle p (arriving env k p m) rand w received_size
        .blocking (fuel + 1) =
          (Completion.wait.run (arriving env k p m) (fuel + 1) 1 c.world c.request
            c.delivery.toList).map fun x => rcv.fifoOutcome m (decide (k = 0)) .blocking := by
      intro fuel
      unfold Receive.perform
      simp only [h.recv_eq, hblocking, Option.map_map]
      apply Option.map_congr
      intro x hx
      exact report_fifo (hwait.result _ x hx) received_size c.status
    refine ⟨?_, ?_⟩
    · obtain ⟨bound, hbound⟩ := hwait.returns
      refine ⟨bound + 1, ?_⟩
      intro fuel hfuel
      obtain ⟨fuel, rfl⟩ := Nat.exists_eq_succ_of_ne_zero (by omega : fuel ≠ 0)
      obtain ⟨x, hx⟩ := hbound (fuel + 1) (by omega)
      exact ⟨_, by rw [hperform, hx]; rfl⟩
    · intro fuel o ho
      cases fuel with
      | zero =>
        unfold Receive.perform at ho
        simp only [h.recv_eq] at ho
        cases ho
      | succ fuel =>
        rw [hperform] at ho
        obtain ⟨x, -, rfl⟩ := Option.map_eq_some_iff.mp ho
        rfl

/-! ## State buffers -/

/-- A receive that finds a message on state buffers returns no request, and does not say
how large the message is. -/
theorem recv_i_state {status : Status} {c : Called} {request : ℕ}
    (hbt : (w.endpoints p).buffer_type = MCAPI_ENDP_ATTR_STATE_BUFFER)
    (hsome : ((w.shared p).q.elements (readSlot (w.endpoints p).num_send_buffers
      (w.shared p).q.update_counter)).buff_index ≠ 0) {n room : ℕ} {re : Option Place}
    (hre : ∀ p' ∈ re, p' = p) (hc : recv_i w n p re handle room request status = some c) :
    c.request = 0 := by
  unfold recv_i at hc
  simp only [hbt] at hc
  split at hc
  · -- the entry holds a buffer, so that something is found
    have hfound : ∀ sh', mcapi_trans_recv_state (w.endpoints p).num_send_buffers (w.shared p) room ≠
        some (sh', none) := by
      intro sh' hnone
      unfold mcapi_trans_recv_state at hnone
      simp only [if_neg hsome] at hnone
      split at hnone
      · split at hnone
        · cases hnone
        · split at hnone
          · cases hnone
          · cases hnone
      · cases hnone
    cases re with
    | none => cases hc
    | some p' =>
      obtain rfl := hre p' rfl
      dsimp only at hc
      split at hc
      · cases hc
      · obtain rfl := Option.some.inj hc
        rfl
      · rename_i sh' hnone
        exact absurd hnone (hfound sh')
  · obtain rfl := Option.some.inj hc
    rfl

/-- The message arrives in the entry that is read next. -/
theorem arrive_state (hbt : (w.endpoints p).buffer_type = MCAPI_ENDP_ATTR_STATE_BUFFER)
    (hready : Ready MCAPI_ENDP_ATTR_STATE_BUFFER (w.endpoints p).num_send_buffers (w.shared p))
    (hroom : HasRoom (w.endpoints p).num_send_buffers (w.shared p))
    (heven : (w.shared p).q.update_counter % 2 = 0)
    (hlt : (w.shared p).q.update_counter + 2 < 2 ^ 32) (m : Msg) :
    ((arrive p m w).endpoints p).buffer_type = MCAPI_ENDP_ATTR_STATE_BUFFER ∧
      (((arrive p m w).shared p).q.elements
        (readSlot ((arrive p m w).endpoints p).num_send_buffers
          ((arrive p m w).shared p).q.update_counter)).buff_index ≠ 0 := by
  rcases send_state_cases hready m with ⟨-, sh', hsend, i, -, hindex, -, -, huc, -⟩ | ⟨hno, -⟩
  · have harrive : arrive p m w = w.setShared p sh' := by
      unfold arrive
      simp only [hbt, hsend]
    rw [harrive, World.shared_setShared, World.endpoints_setShared_self]
    refine ⟨hbt, ?_⟩
    have hslot : readSlot (w.endpoints p).num_send_buffers sh'.q.update_counter =
        nextEntry MCAPI_ENDP_ATTR_STATE_BUFFER (w.endpoints p).num_send_buffers (w.shared p).q := by
      rw [huc, u32_succ]
      exact readSlot_after heven (by omega) (.inl hlt)
    dsimp only
    rw [hslot]
    exact hindex
  · exact absurd hroom hno

/-- The caller is left with the size that it had. -/
theorem perform_state (h : rcv.Waiting w handle p)
    (hbt : (w.endpoints p).buffer_type = MCAPI_ENDP_ATTR_STATE_BUFFER) (m : Msg)
    (received_size fuel : ℕ) {o : Outcome}
    (ho : rcv.perform handle p (arriving (fun _ w => w) 0 p m) (fun _ => 0) w received_size
      (.nonblocking .wait) fuel = some o) : o.size = received_size := by
  have hempty := h.empty
  rw [hbt] at hempty
  obtain ⟨-, hready, hroom, heven, hlt⟩ := hempty
  obtain ⟨hbt', hindex⟩ := arrive_state hbt hready hroom heven hlt m
  unfold Receive.perform at ho
  rw [arriving_self] at ho
  cases hc : rcv.issue_i (arrive p m w) 0 handle with
  | none =>
    simp only [hc] at ho
    cases ho
  | some c =>
    simp only [hc] at ho
    have hrequest : c.request = 0 := by
      cases rcv with
      | msg n =>
        simp only [Receive.issue_i, mcapi_msg_recv_i, mcapi_trans_msg_recv_i, h.decode] at hc
        refine recv_i_state hbt' hindex ?_ hc
        intro p' hp'
        exact (Option.some.inj (Option.filter_eq_some_iff.mp hp').1).symm
      | pkt =>
        simp only [Receive.issue_i, mcapi_pktchan_recv_i, mcapi_trans_pktchan_recv_i,
          h.decode] at hc
        refine recv_i_state hbt' hindex ?_ hc
        intro p' hp'
        exact (Option.some.inj hp').symm
    unfold Completion.run mcapi_trans_wait at ho
    simp only [hrequest, if_true, Option.map_some, Option.getD_none] at ho
    obtain rfl := Option.some.inj ho
    rfl

/-! ## Whether the timing shows -/

/-- The message is not larger than the caller's buffer. A packet comes in a buffer of the
pool. -/
def Receive.Fits (rcv : Receive) (m : Msg) : Prop :=
  match rcv with
  | .msg buffer_size => m.buffer_size ≤ buffer_size
  | .pkt => True

/-- The table has one row for a message that fits. -/
theorem fifoOutcome_of_fits (h : rcv.Fits m) (before : Bool) (way : Way) :
    rcv.fifoOutcome m before way =
      ⟨[received rcv.channel m rcv.room], m.buffer_size, .MCAPI_SUCCESS⟩ := by
  have hreported : rcv.reported m before = (m.buffer_size, .MCAPI_SUCCESS) := by
    cases rcv with
    | msg n =>
      have hle : m.buffer_size ≤ n := h
      cases before with
      | true => rfl
      | false => simp [Receive.reported, hle, Nat.not_lt.mpr hle]
    | pkt =>
      cases before with
      | true => rfl
      | false => rfl
  unfold Receive.fifoOutcome
  rw [hreported]
  cases way with
  | nonblocking completion => rfl
  | blocking =>
    cases rcv with
    | msg n => exact if_neg (Nat.not_lt.mpr h)
    | pkt => rfl

/-- **The timing of a receive does not show** exactly if its endpoint has FIFO buffers and
the message fits into the buffer of the caller. -/
theorem timing_free_iff (h : rcv.Waiting w handle p) (hfree : w.HasFree) (m : Msg) :
    rcv.TimingFree w handle p m ↔
      (w.endpoints p).buffer_type = MCAPI_ENDP_ATTR_FIFO_BUFFER ∧ rcv.Fits m := by
  have hquiet : Env.Leaves fun _ w => w :=
    { kept := fun _ _ _ _ => rfl
      not_mine := fun _ _ _ hmine => hmine
      endpoints := fun _ _ => rfl
      buffers := fun _ _ => rfl
      domains := fun _ _ => rfl
      nodes := fun _ _ => rfl }
  have hfifo : (w.endpoints p).buffer_type = MCAPI_ENDP_ATTR_FIFO_BUFFER →
      ∃ front, FifoWaiting rcv w handle p front := by
    intro hbt
    have hempty := h.empty
    rw [hbt] at hempty
    obtain ⟨front, hempty, hunreserved⟩ := hempty
    exact ⟨front, h.decode, hbt, h.channel, hempty, hunreserved⟩
  constructor
  · rintro ⟨o, ho⟩
    have halone : (Way.nonblocking .wait).OthersWait w p :=
      fun other hmem => absurd hmem List.not_mem_nil
    -- the outcomes of a non-blocking call and a wait, if no other thread does anything else
    have hwait : ∀ k received_size, Settles
        (rcv.perform handle p (arriving (fun _ w => w) k p m) (fun _ => 0) w received_size
          (.nonblocking .wait)) (· = o) := fun k received_size =>
      ho _ hquiet _ k received_size (.nonblocking .wait) hfree halone
    cases hbt : (w.endpoints p).buffer_type with
    | MCAPI_ENDP_ATTR_STATE_BUFFER =>
      -- the size in the caller's variable is left as it was
      have hsize : ∀ received_size, o.size = received_size := by
        intro received_size
        obtain ⟨bound, hbound⟩ := (hwait 0 received_size).returns
        obtain ⟨x, hx⟩ := hbound bound (Nat.le_refl _)
        obtain rfl := (hwait 0 received_size).result _ x hx
        exact perform_state h hbt m received_size bound hx
      exact absurd ((hsize 0).symm.trans (hsize 1)) nofun
    | MCAPI_ENDP_ATTR_FIFO_BUFFER =>
      refine ⟨rfl, ?_⟩
      obtain ⟨front, hf⟩ := hfifo hbt
      have houtcome : ∀ k, o = rcv.fifoOutcome m (decide (k = 0)) (.nonblocking .wait) := by
        intro k
        obtain ⟨bound, hbound⟩ := (hwait k 0).returns
        obtain ⟨x, hx⟩ := hbound bound (Nat.le_refl _)
        obtain rfl := (hwait k 0).result _ x hx
        exact (perform_fifo h.toValid hf hquiet hfree m k (fun _ => 0) 0 halone).result _ x hx
      cases rcv with
      | pkt => exact trivial
      | msg n =>
        have hsame := congrArg Outcome.size ((houtcome 0).symm.trans (houtcome 1))
        have hmin : m.buffer_size = min m.buffer_size n := hsame
        have hle : m.buffer_size ≤ n := by omega
        exact hle
  · rintro ⟨hbt, hfits⟩
    obtain ⟨front, hf⟩ := hfifo hbt
    refine ⟨⟨[received rcv.channel m rcv.room], m.buffer_size, .MCAPI_SUCCESS⟩, ?_⟩
    intro env henv rand k received_size way hfree' hothers
    have hperform := perform_fifo h.toValid hf henv hfree' m k rand received_size hothers
    refine ⟨hperform.returns, ?_⟩
    intro fuel x hx
    rw [hperform.result fuel x hx, fifoOutcome_of_fits hfits]

end Outcomes

/-- One endpoint with FIFO buffers, and nothing else yet. -/
def fifoWorld : World where
  domains := fun _ => true
  nodes := fun _ _ => true
  endpoints := fun _ => ⟨true, MCAPI_ENDP_ATTR_FIFO_BUFFER, 1, 0, .zero MCAPI_NO_CHAN⟩
  buffers := fun _ => .zero
  requests := fun _ => ⟨REQUEST_FREE, SEND, 0, 0, .MCAPI_SUCCESS, -1, false⟩

theorem waiting_fifoWorld (buffer_size : ℕ) :
    (Receive.msg buffer_size).Waiting fifoWorld 0 (0, 0, 0) where
  decode := rfl
  domain := rfl
  node := rfl
  valid := rfl
  channel := rfl
  empty := ⟨0, ⟨rfl, Nat.two_pow_pos 32, rfl, rfl, rfl, rfl, 0, by decide, rfl⟩, rfl⟩

theorem timing_free_one_byte :
    (Receive.msg 1).TimingFree fifoWorld 0 (0, 0, 0) (shortMsg 7) :=
  (timing_free_iff (waiting_fifoWorld 1) ⟨0, by decide, rfl⟩ (shortMsg 7)).mpr
    ⟨rfl, Nat.le_refl 1⟩

/-- A message of one byte is received with no room. If it was there before the receive, the
request reports one byte and success, and if it comes later no byte and an error. -/
theorem timing_shows : ¬ ∀ (rcv : Receive) (w : World) (handle : ℕ) (p : Place) (m : Msg),
    rcv.Waiting w handle p → w.HasFree → rcv.TimingFree w handle p m := by
  intro hall
  obtain ⟨o, ho⟩ := hall (.msg 0) fifoWorld 0 (0, 0, 0) (shortMsg 7) (waiting_fifoWorld 0)
    ⟨0, by decide, rfl⟩
  have hquiet : Env.Leaves fun _ w => w :=
    ⟨⟨⟨fun _ _ _ _ => rfl, fun _ _ _ hmine => hmine⟩, fun _ _ => rfl, fun _ _ => rfl⟩,
      fun _ _ => rfl, fun _ _ => rfl⟩
  have hwait := fun k => ho (fun _ w => w) hquiet (fun _ => 0) k 0 (.nonblocking .wait)
    ⟨0, by decide, rfl⟩ (fun other hmem => absurd hmem List.not_mem_nil)
  have hrun : ∀ k < 2, ((Receive.msg 0).perform 0 (0, 0, 0) (arriving (fun _ w => w) k (0, 0, 0)
      (shortMsg 7)) (fun _ => 0) fifoWorld 0 (.nonblocking .wait) 3).map Outcome.size =
        some (if k = 0 then 1 else 0) := by
    decide +kernel
  obtain ⟨x, hx, hbefore⟩ := Option.map_eq_some_iff.mp (hrun 0 (by decide))
  obtain ⟨y, hy, hafter⟩ := Option.map_eq_some_iff.mp (hrun 1 (by decide))
  obtain rfl := (hwait 0).result 3 x hx
  obtain rfl := (hwait 1).result 3 y hy
  rw [hbefore] at hafter
  cases hafter

end MxApi.Calls
