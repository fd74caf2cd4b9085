/-
Sends and receives on values that are not the handle of an endpoint (`mcapi_msg_send_i`,
`mcapi_msg_recv_i`, `mcapi_pktchan_send_i` and `mcapi_pktchan_recv_i` of `mcapi_abb.c`).

The application layer checks the value and calls the transport in any case, with the status
that it found. The transport asserts that the value can be decoded, and looks up the type of
the buffers at the place where it points to. With FIFO buffers the error is stored in a
request; a send to state buffers has no request and overwrites the status.

The result says for all values and all states of the database when the error is reported
and everything is left as it was.
-/
import MxApi.Mcapi.BlockingRequests

set_option autoImplicit false

namespace MxApi.Calls

open Lib Transfers channel_type mcapi_buffer_state mcapi_status_t mcapi_request_state
  mcapi_request_type mcapi_buffer_type

/-! ## Calls on a value -/

/-- The non-blocking calls, with what the application hands to them. -/
inductive ValueCall
  | msg_send_i (send_endpoint receive_endpoint : ℕ) (m : Msg) (priority : ℤ) (request : ℕ)
  | msg_recv_i (receive_endpoint : ℕ) (buffer : Bool) (buffer_size : ℕ) (request : Option ℕ)
  | pktchan_send_i (send_handle : ℕ) (m : Msg) (request : Option ℕ)
  | pktchan_recv_i (receive_handle : ℕ) (buffer : Bool) (request : Option ℕ)

namespace ValueCall

def perform (w : World) (rand : ℕ) : ValueCall → Option Called
  | msg_send_i se re m priority request => mcapi_msg_send_i w rand se re m priority request
  | msg_recv_i re buffer buffer_size request =>
    mcapi_msg_recv_i w rand re buffer buffer_size request
  | pktchan_send_i h m request => mcapi_pktchan_send_i w rand h m request
  | pktchan_recv_i h buffer request => mcapi_pktchan_recv_i w rand h buffer request

/-- The endpoints and channel handles among the arguments. -/
def values : ValueCall → List ℕ
  | msg_send_i se re _ _ _ => [se, re]
  | msg_recv_i re _ _ _ => [re]
  | pktchan_send_i h _ _ => [h]
  | pktchan_recv_i h _ _ => [h]

/-- The status for a value that is not valid. -/
def error : ValueCall → Status
  | msg_send_i .. => .MCAPI_ERR_ENDP_INVALID
  | msg_recv_i .. => .MCAPI_ERR_ENDP_INVALID
  | pktchan_send_i .. => .MCAPI_ERR_CHAN_INVALID
  | pktchan_recv_i .. => .MCAPI_ERR_CHAN_INVALID

end ValueCall

/-- The value is the handle of an endpoint that is valid, as are its domain and its node. -/
def IsEndpoint (w : World) (value : ℕ) : Prop :=
  ∃ p : Place, mcapi_trans_encode_handle p.1 p.2.1 p.2.2 = some value ∧
    w.domains p.1 = true ∧ w.nodes p.1 p.2.1 = true ∧ (w.endpoints p).valid = true

/-! ## Rejection -/

/-- The error is in `*mcapi_status`, or in the request of a call that succeeded otherwise,
which is complete: it is then the status of the next test. -/
def Called.Reports (c : Called) (error : Status) : Prop :=
  c.status = error ∨
    c.status = .MCAPI_SUCCESS ∧ ∃ r < MCAPI_MAX_REQUESTS, c.request = requestHandle r ∧
      (c.world.requests r).state = REQUEST_COMPLETED ∧ (c.world.requests r).status = error

/-- The call returns with the error, and all endpoints, queues and buffers are as before. -/
def RejectedWith (w : World) (error : Status) (x : Option Called) : Prop :=
  ∃ c, x = some c ∧ c.Reports error ∧ c.world.endpoints = w.endpoints ∧
    c.world.buffers = w.buffers

def ValueCall.Rejected (w : World) (rand : ℕ) (call : ValueCall) : Prop :=
  RejectedWith w call.error (call.perform w rand)

/-- The place that the value points to has buffers of this type. -/
def BuffersAt (w : World) (value : ℕ) (bt : mcapi_buffer_type) : Prop :=
  ∃ p, mcapi_trans_decode_handle value = some p ∧ (w.endpoints p).buffer_type = bt

/-- The other arguments are right, the check finds the value invalid, and the transport
reaches a branch that keeps the error. -/
def ValueCall.Kept (w : World) : ValueCall → Prop
  | msg_send_i se re _ priority _ =>
    mcapi_trans_valid_priority priority = true ∧ mcapi_trans_valid_endpoints w se re = false ∧
      BuffersAt w se MCAPI_ENDP_ATTR_FIFO_BUFFER ∧ w.HasFree
  | msg_recv_i re buffer _ request =>
    buffer = true ∧ request.isSome = true ∧ mcapi_trans_valid_endpoint w re = false ∧
      (BuffersAt w re MCAPI_ENDP_ATTR_STATE_BUFFER ∨
        BuffersAt w re MCAPI_ENDP_ATTR_FIFO_BUFFER ∧ w.HasFree)
  | pktchan_send_i h _ request =>
    request.isSome = true ∧ mcapi_trans_valid_pktchan_send_handle w h = false ∧
      (∃ p, mcapi_trans_decode_handle h = some p ∧
        (mcapi_trans_decode_handle (w.endpoints p).recv_endpt).isSome = true) ∧
      BuffersAt w h MCAPI_ENDP_ATTR_FIFO_BUFFER ∧ w.HasFree
  | pktchan_recv_i h buffer request =>
    buffer = true ∧ request.isSome = true ∧ mcapi_trans_valid_pktchan_recv_handle w h = false ∧
      (BuffersAt w h MCAPI_ENDP_ATTR_STATE_BUFFER ∨
        BuffersAt w h MCAPI_ENDP_ATTR_FIFO_BUFFER ∧ w.HasFree)

/-! ## What the transport does with a status -/

section

variable {w w' w₁ : World} {rand r handle room request : ℕ} {se p : Place} {re : Option Place}
  {status error : Status} {m : Msg} {c : Called}

theorem requestHandle_inj {r r' : ℕ} (hr : r < MCAPI_MAX_REQUESTS) (hr' : r' < MCAPI_MAX_REQUESTS)
    (h : requestHandle r = requestHandle r') : r = r' := by
  have hd := decode_requestHandle hr
  rw [h, decode_requestHandle hr'] at hd
  exact (Option.some.inj hd).symm

/-- A report through the request is the next test's. -/
theorem Called.Reports.tested (h : c.Reports error) (hstatus : c.status ≠ error) :
    ∃ t, mcapi_trans_test_i c.world c.request = some t ∧ t.rc = true ∧ t.status = some error := by
  rcases h with h | ⟨-, r, hr, hrequest, hstate, herror⟩
  · exact absurd h hstatus
  · rw [hrequest]
    refine ⟨_, test_completed hr hstate, rfl, ?_⟩
    rw [herror]

theorem World.HasFree.reserved (h : w.HasFree) (rand : ℕ) :
    ∃ x, mcapi_trans_reserve_request w rand = some x :=
  Option.ne_none_iff_exists'.mp fun hnone => reserve_request_none.mp hnone h

/-- What a request reports that was just set up. -/
theorem reports_setup (hr : r < MCAPI_MAX_REQUESTS)
    (hrequest : c.request = requestHandle r) :
    c.Reports error ↔ c.status = error ∨ c.status = .MCAPI_SUCCESS ∧
      (c.world.requests r).state = REQUEST_COMPLETED ∧ (c.world.requests r).status = error := by
  refine or_congr_right (and_congr_right fun _ => ?_)
  constructor
  · rintro ⟨r', hr', hrequest', h⟩
    obtain rfl := requestHandle_inj hr hr' (hrequest.symm.trans hrequest')
    exact h
  · exact fun h => ⟨r, hr, hrequest, h⟩

/-- Without a request only `*mcapi_status` reports something. -/
theorem reports_zero (hrequest : c.request = 0) : c.Reports error ↔ c.status = error := by
  constructor
  · rintro (h | ⟨-, r, hr, hrequest', -⟩)
    · exact h
    · exact absurd (hrequest'.symm.trans hrequest) (Messages.requestHandle_ne_zero hr)
  · exact .inl

/-- The errors of the checks, which no part of the transport sets. -/
def OfCheck (error : Status) : Prop :=
  error = .MCAPI_ERR_ENDP_INVALID ∨ error = .MCAPI_ERR_CHAN_INVALID

theorem OfCheck.ne {error other : Status} (h : OfCheck error)
    (h₁ : other ≠ .MCAPI_ERR_ENDP_INVALID) (h₂ : other ≠ .MCAPI_ERR_CHAN_INVALID) :
    other ≠ error := by
  rcases h with rfl | rfl
  · exact h₁
  · exact h₂

/-- A request is set up with the status that it is given, or with `MCAPI_ERR_MEM_LIMIT`. -/
theorem setup_reports {completed : Bool} {size : ℕ} {type : mcapi_request_type}
    (hr : mcapi_trans_reserve_request w rand = some (w₁, r)) (herror : OfCheck error)
    (h : setup_request w' r handle status completed size type = some c.world)
    (hrequest : c.request = requestHandle r) (hreports : c.Reports error) :
    c.status = error ∨ status = error ∨ completed = false ∧ (w'.requests r).state =
      REQUEST_COMPLETED := by
  obtain ⟨hlt, -, -⟩ := reserve_request_some hr
  rcases (reports_setup hlt hrequest).mp hreports with hstatus | ⟨-, hstate, hstatus⟩
  · exact .inl hstatus
  · obtain ⟨-, -, ⟨-, hset⟩ | ⟨hpending, hset, -⟩⟩ := setup_request_some h
    · cases completed with
      | true => exact .inr (.inl (hset.symm.trans hstatus))
      | false => exact absurd (hset.symm.trans hstatus) (herror.ne nofun nofun)
    · exact .inr (.inr ⟨hpending, hset.symm.trans hstate⟩)

/-- A completed request with the error is set up on the unchanged database. -/
theorem setup_error (handle : ℕ) (status : Status)
    (hr : mcapi_trans_reserve_request w rand = some (w₁, r)) (size : ℕ)
    (type : mcapi_request_type) :
    ∃ w', setup_request w₁ r handle status true size type = some w' ∧
      w'.endpoints = w.endpoints ∧ w'.buffers = w.buffers ∧
      (w'.requests r).state = REQUEST_COMPLETED ∧ (w'.requests r).status = status := by
  obtain ⟨-, -, rfl⟩ := reserve_request_some hr
  simp only [setup_request, if_true, Option.some.injEq, exists_eq_left']
  exact ⟨rfl, rfl, by rw [World.requests_setRequest_self], by rw [World.requests_setRequest_self]⟩

/-- A send reports an error of the checks if it is given it, and has a request for it. -/
theorem send_i_rejected (herror : OfCheck error) :
    RejectedWith w error (send_i w rand se re handle m request status) ↔
      status = error ∧ (w.endpoints se).buffer_type = MCAPI_ENDP_ATTR_FIFO_BUFFER ∧ w.HasFree := by
  have hsuccess : Status.MCAPI_SUCCESS ≠ error := herror.ne nofun nofun
  have hlimit : Status.MCAPI_ERR_REQUEST_LIMIT ≠ error := herror.ne nofun nofun
  constructor
  · rintro ⟨c, hc, hreports, -, -⟩
    unfold send_i at hc
    split at hc
    · rename_i hbt
      split at hc
      · obtain rfl := Option.some.inj hc
        rcases hreports with h | ⟨h, -⟩
        · exact absurd h hlimit
        · cases h
      · rename_i w₁ r hr
        have hfree : w.HasFree := by
          by_contra hno
          rw [reserve_request_none.mpr hno] at hr
          cases hr
        refine ⟨?_, hbt, hfree⟩
        split at hc
        · -- the transfer sets a status of its own
          split at hc
          · cases hc
          · split at hc
            · cases hc
            · rename_i ok _
              obtain ⟨w', hw', rfl⟩ := Option.map_eq_some_iff.mp hc
              rcases setup_reports hr herror hw' rfl hreports with h | h | ⟨h, -⟩
              · exact absurd h hsuccess
              · cases ok
                · exact absurd h (herror.ne nofun nofun)
                · exact absurd h hsuccess
              · cases h
        · obtain ⟨w', hw', rfl⟩ := Option.map_eq_some_iff.mp hc
          rcases setup_reports hr herror hw' rfl hreports with h | h | ⟨h, -⟩
          · exact absurd h hsuccess
          · exact h
          · cases h
    · -- no request, and the status is overwritten
      have hzero : c.request = 0 ∧ c.status = .MCAPI_SUCCESS := by
        split at hc
        · split at hc
          · cases hc
          · split at hc
            · cases hc
            · obtain rfl := Option.some.inj hc
              exact ⟨rfl, rfl⟩
        · obtain rfl := Option.some.inj hc
          exact ⟨rfl, rfl⟩
      rw [reports_zero hzero.1, hzero.2] at hreports
      exact absurd hreports hsuccess
  · rintro ⟨rfl, hbt, hfree⟩
    obtain ⟨⟨w₁, r⟩, hr⟩ := hfree.reserved rand
    obtain ⟨w', hw', hendpoints, hbuffers, hstate, hstatus⟩ :=
      setup_error handle status hr m.buffer_size SEND
    refine ⟨⟨w', requestHandle r, .MCAPI_SUCCESS, none⟩, ?_, ?_, hendpoints, hbuffers⟩
    · unfold send_i
      simp only [hbt, hr, if_neg hsuccess.symm, hw', Option.map_some]
    · exact (reports_setup (reserve_request_some hr).1 rfl).mpr (.inr ⟨rfl, hstate, hstatus⟩)

/-- A receive that has no request for the error has state buffers, and keeps it as its
status. -/
theorem recv_i_rejected (herror : OfCheck error) :
    RejectedWith w error (recv_i w rand p re handle room request status) ↔
      status = error ∧ ((w.endpoints p).buffer_type = MCAPI_ENDP_ATTR_STATE_BUFFER ∨
        (w.endpoints p).buffer_type = MCAPI_ENDP_ATTR_FIFO_BUFFER ∧ w.HasFree) := by
  have hsuccess : Status.MCAPI_SUCCESS ≠ error := herror.ne nofun nofun
  have hlimit : Status.MCAPI_ERR_REQUEST_LIMIT ≠ error := herror.ne nofun nofun
  constructor
  · rintro ⟨c, hc, hreports, -, -⟩
    unfold recv_i at hc
    split at hc
    · rename_i hbt
      split at hc
      · obtain rfl := Option.some.inj hc
        rcases hreports with h | ⟨h, -⟩
        · exact absurd h hlimit
        · cases h
      · rename_i w₁ r hr
        have hfree : w.HasFree := by
          by_contra hno
          rw [reserve_request_none.mpr hno] at hr
          cases hr
        refine ⟨?_, .inr ⟨hbt, hfree⟩⟩
        have hvalid : (w₁.requests r).state = REQUEST_VALID := by
          obtain ⟨-, -, rfl⟩ := reserve_request_some hr
          rw [World.requests_setRequest_self]
        split at hc
        · rename_i hstatus
          split at hc
          · cases hc
          · split at hc
            · cases hc
            · obtain ⟨w', hw', rfl⟩ := Option.map_eq_some_iff.mp hc
              rcases setup_reports hr herror hw' rfl hreports with h | h | ⟨h, -⟩
              · exact h
              · exact h
              · cases h
            · obtain ⟨w', hw', rfl⟩ := Option.map_eq_some_iff.mp hc
              rcases setup_reports hr herror hw' rfl hreports with h | h | ⟨-, h⟩
              · exact h
              · exact h
              · rw [World.requests_setShared, hvalid] at h
                cases h
        · obtain ⟨w', hw', rfl⟩ := Option.map_eq_some_iff.mp hc
          rcases setup_reports hr herror hw' rfl hreports with h | h | ⟨h, -⟩
          · exact h
          · exact h
          · cases h
    · rename_i hbt
      refine ⟨?_, .inl hbt⟩
      split at hc
      · split at hc
        · cases hc
        · split at hc
          · cases hc
          · obtain rfl := Option.some.inj hc
            exact (reports_zero rfl).mp hreports
          · -- the request that waits is not complete
            dsimp only at hc
            split at hc
            · obtain rfl := Option.some.inj hc
              exact absurd ((reports_zero rfl).mp hreports) hlimit
            · rename_i hr
              obtain ⟨w', hw', rfl⟩ := Option.map_eq_some_iff.mp hc
              obtain ⟨hlt, -, rfl⟩ := reserve_request_some hr
              rcases (reports_setup hlt rfl).mp hreports with h | ⟨-, h, -⟩
              · exact absurd h hsuccess
              · obtain ⟨_, -, rfl⟩ := Option.map_eq_some_iff.mp hw'
                rw [World.requests_setRequest_self, World.requests_setRequest_self] at h
                cases h
      · obtain rfl := Option.some.inj hc
        exact (reports_zero rfl).mp hreports
  · rintro ⟨rfl, hbt | ⟨hbt, hfree⟩⟩
    · refine Exists.intro ⟨w, 0, status, none⟩ ⟨?_, .inl rfl, rfl, rfl⟩
      unfold recv_i
      simp only [hbt, if_neg hsuccess.symm]
    · obtain ⟨⟨w₁, r⟩, hr⟩ := hfree.reserved rand
      obtain ⟨w', hw', hendpoints, hbuffers, -, -⟩ :=
        setup_error handle status hr room RECV
      refine Exists.intro ⟨w', requestHandle r, status, none⟩
        ⟨?_, .inl rfl, hendpoints, hbuffers⟩
      unfold recv_i
      simp only [hbt, hr, if_neg hsuccess.symm, hw', Option.map_some]

end

/-! ## When an invalid value is rejected -/

section

variable {w : World} {rand value : ℕ} {error : Status}

theorem rejectedWith_none : ¬ RejectedWith w error none := by
  rintro ⟨c, hc, -⟩
  cases hc

/-- A call without a request is answered with `MCAPI_ERR_PARAMETER`. -/
theorem rejectedWith_parameter (herror : OfCheck error) :
    ¬ RejectedWith w error (some ⟨w, 0, .MCAPI_ERR_PARAMETER, none⟩) := by
  rintro ⟨c, hc, hreports, -⟩
  obtain rfl := Option.some.inj hc
  have hne : Status.MCAPI_ERR_PARAMETER ≠ error := herror.ne nofun nofun
  exact hne ((reports_zero rfl).mp hreports)

theorem buffersAt_some {p : Place} {bt : mcapi_buffer_type}
    (hp : mcapi_trans_decode_handle value = some p) :
    BuffersAt w value bt ↔ (w.endpoints p).buffer_type = bt := by
  rw [BuffersAt, hp]
  simp only [Option.some.injEq, exists_eq_left']

theorem buffersAt_none {bt : mcapi_buffer_type} (hp : mcapi_trans_decode_handle value = none) :
    ¬ BuffersAt w value bt := by
  rintro ⟨p, hp', -⟩
  rw [hp] at hp'
  cases hp'

/-- The receives of the transport, on a value with the status of the check. -/
theorem receive_rejected {status : Status} {room request : ℕ} (re : Place → Option Place)
    (herror : OfCheck error) :
    RejectedWith w error (match mcapi_trans_decode_handle value with
        | none => none
        | some p => recv_i w rand p (re p) value room request status) ↔
      status = error ∧ (BuffersAt w value MCAPI_ENDP_ATTR_STATE_BUFFER ∨
        BuffersAt w value MCAPI_ENDP_ATTR_FIFO_BUFFER ∧ w.HasFree) := by
  cases hp : mcapi_trans_decode_handle value with
  | none =>
    have hno : ∀ bt, ¬ BuffersAt w value bt := fun _ => buffersAt_none hp
    simp only [rejectedWith_none, hno, false_and, or_self, and_false]
  | some p => rw [buffersAt_some hp, buffersAt_some hp, recv_i_rejected herror]

theorem msg_send_i_rejected (se re : ℕ) (m : Msg) (priority : ℤ) (request : ℕ) :
    RejectedWith w .MCAPI_ERR_ENDP_INVALID (mcapi_msg_send_i w rand se re m priority request) ↔
      mcapi_trans_valid_priority priority = true ∧ mcapi_trans_valid_endpoints w se re = false ∧
        BuffersAt w se MCAPI_ENDP_ATTR_FIFO_BUFFER ∧ w.HasFree := by
  unfold mcapi_msg_send_i mcapi_trans_msg_send_i
  cases hp : mcapi_trans_decode_handle se with
  | none =>
    have hno : ∀ bt, ¬ BuffersAt w se bt := fun _ => buffersAt_none hp
    simp only [rejectedWith_none, hno, false_and, and_false]
  | some p =>
    rw [buffersAt_some hp]
    refine (send_i_rejected (.inl rfl)).trans ?_
    have hsize : ¬ m.buffer_size > MCAPI_MAX_MSG_SIZE := Nat.not_lt.mpr m.buffer_size_le
    rw [← and_assoc (a := mcapi_trans_valid_priority priority = true), if_neg hsize]
    refine and_congr_left fun _ => ?_
    -- the priority is checked first
    cases mcapi_trans_valid_priority priority <;>
      cases mcapi_trans_valid_endpoints w se re <;> simp

theorem msg_recv_i_rejected (re : ℕ) (buffer : Bool) (buffer_size : ℕ) (request : Option ℕ) :
    RejectedWith w .MCAPI_ERR_ENDP_INVALID
        (mcapi_msg_recv_i w rand re buffer buffer_size request) ↔
      buffer = true ∧ request.isSome = true ∧ mcapi_trans_valid_endpoint w re = false ∧
        (BuffersAt w re MCAPI_ENDP_ATTR_STATE_BUFFER ∨
          BuffersAt w re MCAPI_ENDP_ATTR_FIFO_BUFFER ∧ w.HasFree) := by
  cases request with
  | none =>
    simp only [mcapi_msg_recv_i, rejectedWith_parameter (.inl rfl), Option.isSome_none,
      Bool.false_eq_true, false_and, and_false]
  | some request =>
    dsimp only [mcapi_msg_recv_i]
    unfold mcapi_trans_msg_recv_i
    refine (receive_rejected (fun p => noChannel w p (some p)) (.inl rfl)).trans ?_
    cases buffer <;> cases mcapi_trans_valid_endpoint w re <;> simp

theorem pktchan_send_i_rejected (h : ℕ) (m : Msg) (request : Option ℕ) :
    RejectedWith w .MCAPI_ERR_CHAN_INVALID (mcapi_pktchan_send_i w rand h m request) ↔
      request.isSome = true ∧ mcapi_trans_valid_pktchan_send_handle w h = false ∧
        (∃ p, mcapi_trans_decode_handle h = some p ∧
          (mcapi_trans_decode_handle (w.endpoints p).recv_endpt).isSome = true) ∧
        BuffersAt w h MCAPI_ENDP_ATTR_FIFO_BUFFER ∧ w.HasFree := by
  cases request with
  | none =>
    simp only [mcapi_pktchan_send_i, rejectedWith_parameter (.inr rfl), Option.isSome_none,
      Bool.false_eq_true, false_and]
  | some request =>
    dsimp only [mcapi_pktchan_send_i]
    unfold mcapi_trans_pktchan_send_i
    cases hp : mcapi_trans_decode_handle h with
    | none =>
      have hno : ∀ bt, ¬ BuffersAt w h bt := fun _ => buffersAt_none hp
      simp only [rejectedWith_none, hno, false_and, and_false]
    | some p =>
      have hsize : ¬ m.buffer_size > MCAPI_MAX_PKT_SIZE := Nat.not_lt.mpr m.buffer_size_le
      rw [buffersAt_some hp]
      cases hre : mcapi_trans_decode_handle (w.endpoints p).recv_endpt with
      | none =>
        simp only [hre, rejectedWith_none, Option.some.injEq, exists_eq_left', Option.isSome_none,
          Bool.false_eq_true, false_and, and_false]
      | some q =>
        simp only [hre, send_i_rejected (.inr rfl), Option.some.injEq, exists_eq_left',
          Option.isSome_some, true_and]
        refine and_congr_left fun _ => ?_
        cases mcapi_trans_valid_pktchan_send_handle w h <;> simp [hsize]

theorem pktchan_recv_i_rejected (h : ℕ) (buffer : Bool) (request : Option ℕ) :
    RejectedWith w .MCAPI_ERR_CHAN_INVALID (mcapi_pktchan_recv_i w rand h buffer request) ↔
      buffer = true ∧ request.isSome = true ∧
        mcapi_trans_valid_pktchan_recv_handle w h = false ∧
        (BuffersAt w h MCAPI_ENDP_ATTR_STATE_BUFFER ∨
          BuffersAt w h MCAPI_ENDP_ATTR_FIFO_BUFFER ∧ w.HasFree) := by
  cases request with
  | none =>
    simp only [mcapi_pktchan_recv_i, rejectedWith_parameter (.inr rfl), Option.isSome_none,
      Bool.false_eq_true, false_and, and_false]
  | some request =>
    dsimp only [mcapi_pktchan_recv_i]
    unfold mcapi_trans_pktchan_recv_i
    refine (receive_rejected (fun p => some p) (.inr rfl)).trans ?_
    cases buffer <;> cases mcapi_trans_valid_pktchan_recv_handle w h <;> simp

/-- **A value is rejected without effect if and only if the other arguments are right, the
check finds it invalid, it can be decoded, and there is a request for the error, which a
receive from state buffers does not need and a send to state buffers never has.** -/
theorem rejected_iff (w : World) (rand : ℕ) (call : ValueCall) :
    call.Rejected w rand ↔ call.Kept w := by
  cases call with
  | msg_send_i se re m priority request => exact msg_send_i_rejected se re m priority request
  | msg_recv_i re buffer buffer_size request =>
    exact msg_recv_i_rejected re buffer buffer_size request
  | pktchan_send_i h m request => exact pktchan_send_i_rejected h m request
  | pktchan_recv_i h buffer request => exact pktchan_recv_i_rejected h buffer request

end

/-- A receive on a value whose low bytes are no place terminates the process. -/
theorem invalid_terminates : ¬ ∀ (w : World) (rand : ℕ) (call : ValueCall),
    (∃ value ∈ call.values, value < 2 ^ 32 ∧ ¬ IsEndpoint w value) → call.Rejected w rand := by
  intro hall
  have hvalue : ¬ IsEndpoint fifoWorld 0xffffff := by
    rintro ⟨p, hp, -⟩
    have hd := mcapi_trans_decode_encode hp
    cases hd
  obtain ⟨c, hc, -⟩ := hall fifoWorld 0 (.msg_recv_i 0xffffff true 1 (some 0))
    ⟨0xffffff, List.mem_singleton_self _, by decide, hvalue⟩
  cases hc

end MxApi.Calls
