/-
What each of the channel calls does, one lemma a call: when it is refused, and
otherwise what it changes and returns. From these the invariant of the
endpoints is preserved by every call ([`channelStep_inv`]).

A refused call reports an error and leaves the database as it is. The six calls
that send or receive have in common that one which is not refused appends a
message to one queue, takes one from it, or waits ([`Queued`]).
-/
import MxApi.Mcapi.ChannelInvariant

set_option autoImplicit false

namespace MxApi.Channel

open Lib channel_type CallStatus

/-! ## Refusals -/

/-- The call is refused: it returns an error, by itself or in its request, and
changes nothing. -/
def Refused (db : mcapi_database) (result : Option (mcapi_database × Outcome)) : Prop :=
  ∃ status request, result = some (db, .returned status request) ∧
    (Outcome.returned status request).reportsError = true ∧ request ≠ .pending

/-- The call is refused with an error of its own. -/
def Rejected (db : mcapi_database) (result : Option (mcapi_database × Outcome)) : Prop :=
  ∃ status request, result = some (db, .returned status request) ∧
    status ≠ MCAPI_SUCCESS ∧ request ≠ .pending

theorem reportsError_of_ne {status : CallStatus} {request : RequestResult}
    (h : status ≠ MCAPI_SUCCESS) : (Outcome.returned status request).reportsError = true := by
  show (status != MCAPI_SUCCESS || request.failed) = true
  rw [bne_iff_ne.mpr h, Bool.true_or]

theorem reportsError_of_completed {status status' : CallStatus}
    (h : status' ≠ MCAPI_SUCCESS) :
    (Outcome.returned status (.completed status')).reportsError = true := by
  show (status != MCAPI_SUCCESS || status' != MCAPI_SUCCESS) = true
  rw [bne_iff_ne.mpr h, Bool.or_true]

theorem Rejected.refused {db : mcapi_database} {result : Option (mcapi_database × Outcome)}
    (h : Rejected db result) : Refused db result := by
  obtain ⟨status, request, heq, hne, hreq⟩ := h
  exact ⟨status, request, heq, reportsError_of_ne hne, hreq⟩

section

variable {db : mcapi_database} {free : Resources}

theorem withRequest_of_none {mcapi_status : CallStatus}
    {work : Option (mcapi_database × RequestResult)} (h : free.request = false) :
    Rejected db (withRequest db free mcapi_status work) := by
  unfold withRequest
  rw [h, if_neg Bool.false_ne_true]
  exact ⟨_, _, rfl, (by nofun), (by nofun)⟩

/-- With an error found before, nothing is done. -/
theorem withRequest_of_error {mcapi_status : CallStatus}
    {work : Option (mcapi_database × RequestResult)} (h : mcapi_status ≠ MCAPI_SUCCESS) :
    Rejected db (withRequest db free mcapi_status work) := by
  by_cases hr : free.request = true
  · unfold withRequest
    rw [if_pos hr, if_neg h]
    exact ⟨_, _, rfl, h, (by nofun)⟩
  · exact withRequest_of_none (Bool.eq_false_iff.mpr hr)

theorem withRequest_success {work : Option (mcapi_database × RequestResult)}
    (hr : free.request = true) :
    withRequest db free MCAPI_SUCCESS work
      = work.map fun p => (p.1, .returned MCAPI_SUCCESS p.2) := by
  unfold withRequest
  rw [if_pos hr, if_pos rfl]

/-! ## Connecting -/

/-- Both handles name endpoints that are not connected. -/
def Connectable (db : mcapi_database) (send_endpoint receive_endpoint : ℕ) (sp rp : Place) : Prop :=
  mcapi_trans_decode_handle send_endpoint = some sp ∧
    mcapi_trans_decode_handle receive_endpoint = some rp ∧
    (∀ p, p = sp ∨ p = rp →
      (db.entry p).state.valid = true ∧ (db.entry p).state.connected = false)

theorem connectStatus_of_invalid {send_endpoint receive_endpoint : ℕ}
    (h : mcapi_trans_valid_endpoints db send_endpoint receive_endpoint = false) :
    connectStatus db send_endpoint receive_endpoint = some MCAPI_ERR_ENDP_INVALID := by
  unfold connectStatus
  rw [h, Bool.not_false, if_pos rfl]

theorem connectStatus_of_valid {send_endpoint receive_endpoint : ℕ} {sp rp : Place}
    (hs : mcapi_trans_decode_handle send_endpoint = some sp)
    (hr : mcapi_trans_decode_handle receive_endpoint = some rp)
    (hsv : (db.entry sp).state.valid = true) (hrv : (db.entry rp).state.valid = true) :
    connectStatus db send_endpoint receive_endpoint =
      some (if (db.entry sp).state.connected || (db.entry rp).state.connected then
        MCAPI_ERR_CHAN_CONNECTED else MCAPI_SUCCESS) := by
  have hv : mcapi_trans_valid_endpoints db send_endpoint receive_endpoint = true := by
    unfold mcapi_trans_valid_endpoints
    simp only [hs, hr, hsv, hrv, Bool.and_self]
  unfold connectStatus mcapi_trans_channel_connected
  rw [hv, Bool.not_true, if_neg Bool.false_ne_true]
  simp only [hs, hr, hsv, hrv, Option.map_some, Option.bind_eq_bind, Option.bind_some,
    Bool.true_and]

/-- A connect is rejected, or wires two endpoints that were not connected. -/
theorem connect_i_cases (db : mcapi_database) (free : Resources) (kind : ChannelKind) (send_endpoint receive_endpoint : ℕ) :
    Rejected db (connect_i db kind send_endpoint receive_endpoint free) ∨
    (∃ sp rp, Connectable db send_endpoint receive_endpoint sp rp ∧
      connect_i db kind send_endpoint receive_endpoint free =
        some (connectEnd (connectEnd db sp kind.type ⟨send_endpoint, receive_endpoint⟩) rp kind.type
          ⟨send_endpoint, receive_endpoint⟩, .returned MCAPI_SUCCESS (.completed MCAPI_SUCCESS))) := by
  unfold connect_i mcapi_trans_connect_i
  by_cases hv : mcapi_trans_valid_endpoints db send_endpoint receive_endpoint = true
  · cases hs : mcapi_trans_decode_handle send_endpoint with
    | none => simp [mcapi_trans_valid_endpoints, hs] at hv
    | some sp =>
    cases hr : mcapi_trans_decode_handle receive_endpoint with
    | none => simp [mcapi_trans_valid_endpoints, hs, hr] at hv
    | some rp =>
    obtain ⟨hsv, hrv⟩ : (db.entry sp).state.valid = true ∧ (db.entry rp).state.valid = true := by
      simpa [mcapi_trans_valid_endpoints, hs, hr] using hv
    rw [connectStatus_of_valid hs hr hsv hrv]
    simp only [Option.bind_eq_bind, Option.bind_some]
    by_cases hconn : ((db.entry sp).state.connected || (db.entry rp).state.connected) = true
    · left
      rw [if_pos hconn]
      exact withRequest_of_error (by nofun)
    · rw [if_neg hconn]
      by_cases hreq : free.request = true
      · right
        obtain ⟨hsc, hrc⟩ := Bool.or_eq_false_iff.mp (Bool.eq_false_iff.mpr hconn)
        refine ⟨sp, rp, ⟨hs, hr, ?_⟩, ?_⟩
        · rintro p (rfl | rfl)
          · exact ⟨hsv, hsc⟩
          · exact ⟨hrv, hrc⟩
        · rw [withRequest_success hreq]
          simp only [mcapi_trans_connect_channel, hs, hr, Option.bind_eq_bind, Option.bind_some,
            Option.map_some]
      · left
        exact withRequest_of_none (Bool.eq_false_iff.mpr hreq)
  · left
    rw [connectStatus_of_invalid (Bool.eq_false_iff.mpr hv)]
    exact withRequest_of_error (by nofun)

/-! ## Opening and closing -/

/-- An open is accepted: a request is free, the handle names a valid endpoint,
and neither its type nor the handle stored for the other end speaks against it. -/
structure OpenAccepted (db : mcapi_database) (free : Resources) (kind : ChannelKind)
    (dir : Direction) (endpoint : ℕ) (p : Place) : Prop where
  request : free.request = true
  decode : mcapi_trans_decode_handle endpoint = some p
  valid : mcapi_trans_valid_endpoint db endpoint = true
  type : (db.entry p).recv_queue.channel_type ≠ kind.other.type
  possible : dir.endpoint db endpoint = some true

theorem openStatus_of_decode (kind : ChannelKind) (dir : Direction) {endpoint : ℕ} {p : Place}
    (hdec : mcapi_trans_decode_handle endpoint = some p)
    (hv : mcapi_trans_valid_endpoint db endpoint = true) :
    ∃ possible, dir.endpoint db endpoint = some possible ∧
      openStatus db kind dir endpoint =
        some (if (db.entry p).recv_queue.channel_type = kind.other.type then MCAPI_ERR_CHAN_TYPE
          else if !possible then MCAPI_ERR_CHAN_DIRECTION else MCAPI_SUCCESS) := by
  have hposs : ∃ possible, dir.endpoint db endpoint = some possible := by
    cases dir with
    | send => exact ⟨_, by rw [Direction.endpoint, mcapi_trans_send_endpoint, hdec]; rfl⟩
    | recv => exact ⟨_, by rw [Direction.endpoint, mcapi_trans_recv_endpoint, hdec]; rfl⟩
  obtain ⟨possible, hposs⟩ := hposs
  refine ⟨possible, hposs, ?_⟩
  unfold openStatus mcapi_trans_channel_type
  rw [hv, Bool.not_true, if_neg Bool.false_ne_true, hdec, hposs]
  rfl

/-- An open that is not accepted is rejected. -/
theorem open_i_rejected {kind : ChannelKind} {dir : Direction} {endpoint : ℕ}
    (h : ∀ p, ¬ OpenAccepted db free kind dir endpoint p) :
    Rejected db (open_i db kind dir endpoint free) := by
  unfold open_i mcapi_trans_open_i
  by_cases hv : mcapi_trans_valid_endpoint db endpoint = true
  · cases hdec : mcapi_trans_decode_handle endpoint with
    | none => simp [mcapi_trans_valid_endpoint, hdec] at hv
    | some p =>
    obtain ⟨possible, hposs, hstatus⟩ := openStatus_of_decode kind dir hdec hv
    rw [hstatus]
    simp only [Option.bind_eq_bind, Option.bind_some]
    by_cases htype : (db.entry p).recv_queue.channel_type = kind.other.type
    · rw [if_pos htype]
      exact withRequest_of_error (by simp)
    · rw [if_neg htype]
      cases possible with
      | false => exact withRequest_of_error (by simp)
      | true =>
        apply withRequest_of_none
        by_contra hreq
        exact h p ⟨Bool.eq_true_of_not_eq_false hreq, hdec, hv, htype, hposs⟩
  · have hstatus : openStatus db kind dir endpoint = some MCAPI_ERR_ENDP_INVALID := by
      unfold openStatus
      rw [Bool.eq_false_iff.mpr hv, Bool.not_false, if_pos rfl]
    rw [hstatus]
    exact withRequest_of_error (by simp)

/-- An accepted open sets the flag; its request is completed if the endpoint has
the type. -/
theorem open_i_accepted {kind : ChannelKind} {dir : Direction} {endpoint : ℕ} {p : Place}
    (h : OpenAccepted db free kind dir endpoint p) :
    open_i db kind dir endpoint free =
      some (mcapi_trans_open_channel db p, .returned MCAPI_SUCCESS
        (if (db.entry p).recv_queue.channel_type = kind.type then .completed MCAPI_SUCCESS
          else .pending)) := by
  obtain ⟨possible, hposs, hstatus⟩ :=
    openStatus_of_decode kind dir h.decode h.valid
  obtain rfl : possible = true := Option.some.inj (hposs.symm.trans h.possible)
  unfold open_i mcapi_trans_open_i
  rw [hstatus]
  simp only [Option.bind_eq_bind, Option.bind_some]
  rw [if_neg h.type, Bool.not_true, if_neg Bool.false_ne_true, withRequest_success h.request,
    h.decode]
  rfl

/-- A close is rejected, or clears the flag. -/
theorem close_i_cases (db : mcapi_database) (free : Resources) (kind : ChannelKind) (handle : ℕ) :
    Rejected db (close_i db kind handle free) ∨
    (∃ p, mcapi_trans_decode_handle handle = some p ∧
      (db.entry p).recv_queue.channel_type = kind.type ∧
      close_i db kind handle free = some (mcapi_trans_close_channel db p,
        .returned MCAPI_SUCCESS (.completed MCAPI_SUCCESS))) := by
  have hvalid : kind.valid_recv_handle db handle = validChannelHandle db kind.type handle := by
    cases kind <;> rfl
  unfold close_i mcapi_trans_close_i closeStatus isopen
  rw [hvalid]
  cases hdec : mcapi_trans_decode_handle handle with
  | none =>
    left
    unfold validChannelHandle
    rw [hdec]
    exact withRequest_of_error (by nofun)
  | some p =>
    by_cases htype : (db.entry p).recv_queue.channel_type = kind.type
    · have hv : validChannelHandle db kind.type handle = true := by
        unfold validChannelHandle
        rw [hdec]
        exact beq_iff_eq.mpr htype
      rw [hv, Bool.not_true, if_neg Bool.false_ne_true]
      simp only [Option.map_some, Option.bind_eq_bind, Option.bind_some]
      cases (db.entry p).state.opened with
      | false => exact .inl (withRequest_of_error (by nofun))
      | true =>
        by_cases hreq : free.request = true
        · right
          refine ⟨p, rfl, htype, ?_⟩
          rw [Bool.not_true, if_neg Bool.false_ne_true, withRequest_success hreq]
          rfl
        · left
          exact withRequest_of_none (Bool.eq_false_iff.mpr hreq)
    · left
      have hv : validChannelHandle db kind.type handle = false := by
        unfold validChannelHandle
        rw [hdec]
        exact beq_eq_false_iff_ne.mpr htype
      rw [hv, Bool.not_false, if_pos rfl]
      exact withRequest_of_error (by nofun)

/-! ## Sending and receiving -/

/-- What a call does that goes on to the queue at `rp`: it appends a message, it
takes the first one, or it waits for one. -/
inductive Queued (db : mcapi_database) (rp : Place) : mcapi_database → Outcome → Prop
  | pushed (message : Message) (request : RequestResult) (hok : request.failed = false) :
      request ≠ .pending →
      Queued db rp (setPending db rp ((db.entry rp).recv_queue.pending ++ [message]))
        (.returned MCAPI_SUCCESS request)
  | taken (message : Message) (pending : List Message) (status : CallStatus)
      (hp : (db.entry rp).recv_queue.pending = message :: pending) :
      Queued db rp (setPending db rp pending) (.received status message)
  | pending : Queued db rp db (.returned MCAPI_SUCCESS .pending)
  | waits : Queued db rp db .waits

/-- The call goes on to the queue at `rp` if `engages` holds, and is refused
otherwise. -/
structure Handled (db : mcapi_database) (rp : Place) (engages : Prop)
    (result : Option (mcapi_database × Outcome)) : Prop where
  queued : engages → ∃ db' outcome, result = some (db', outcome) ∧ Queued db rp db' outcome
  refused : ¬ engages → Refused db result

/-- The messages pending at the endpoint of a handle. -/
def pendingAt (db : mcapi_database) (handle : ℕ) : List Message :=
  match mcapi_trans_decode_handle handle with
  | none => []
  | some p => (db.entry p).recv_queue.pending

/-- The kind, the side and the handle of a call that sends or receives. -/
def ChannelCall.side : ChannelCall → Option (ChannelKind × Direction × ℕ)
  | pktchan_send_i send_handle _ | pktchan_send send_handle _ =>
    some (.pktchan, .send, send_handle)
  | sclchan_send _ send_handle _ => some (.sclchan, .send, send_handle)
  | pktchan_recv_i receive_handle | pktchan_recv receive_handle =>
    some (.pktchan, .recv, receive_handle)
  | sclchan_recv _ receive_handle => some (.sclchan, .recv, receive_handle)
  | _ => none

/-- The call is not refused: the handle has the channel's type, the packet is not
too long, and nothing that an error is reported for is missing. A blocking call
without a request waits for one. -/
def ChannelCall.engages (db : mcapi_database) (free : Resources) : ChannelCall → Prop
  | pktchan_send_i send_handle buffer =>
    mcapi_trans_valid_pktchan_send_handle db send_handle = true ∧
      buffer.length ≤ MCAPI_MAX_PKT_SIZE ∧ free.request = true ∧ free.room = true
  | pktchan_send send_handle buffer =>
    mcapi_trans_valid_pktchan_send_handle db send_handle = true ∧
      buffer.length ≤ MCAPI_MAX_PKT_SIZE ∧ (free.request = true → free.room = true)
  | sclchan_send _ send_handle _ =>
    mcapi_trans_valid_sclchan_send_handle db send_handle = true ∧ free.room = true
  | pktchan_recv_i receive_handle =>
    mcapi_trans_valid_pktchan_recv_handle db receive_handle = true ∧
      free.request = true ∧ (pendingAt db receive_handle = [] → free.slot = true)
  | pktchan_recv receive_handle =>
    mcapi_trans_valid_pktchan_recv_handle db receive_handle = true ∧
      (free.request = true → pendingAt db receive_handle = [] → free.slot = true)
  | sclchan_recv _ receive_handle => mcapi_trans_valid_sclchan_recv_handle db receive_handle = true
  | _ => False

theorem validChannelHandle_iff {type : channel_type} {handle : ℕ} {p : Place}
    (hdec : mcapi_trans_decode_handle handle = some p) :
    validChannelHandle db type handle = true ↔ (db.entry p).recv_queue.channel_type = type := by
  unfold validChannelHandle
  rw [hdec]
  exact beq_iff_eq

theorem pendingAt_of_decode {handle : ℕ} {p : Place}
    (hdec : mcapi_trans_decode_handle handle = some p) :
    pendingAt db handle = (db.entry p).recv_queue.pending := by
  unfold pendingAt
  rw [hdec]

theorem sendStatus_iff (handle : ℕ) (buffer : List UInt8) :
    sendStatus db handle buffer = MCAPI_SUCCESS ↔
      mcapi_trans_valid_pktchan_send_handle db handle = true ∧
        buffer.length ≤ MCAPI_MAX_PKT_SIZE := by
  unfold sendStatus
  cases mcapi_trans_valid_pktchan_send_handle db handle with
  | false => simp
  | true =>
    by_cases hlen : buffer.length > MCAPI_MAX_PKT_SIZE
    · simp [hlen]
    · simp [Nat.not_lt.mp hlen]

theorem recvStatus_iff (handle : ℕ) :
    recvStatus db handle = MCAPI_SUCCESS ↔
      mcapi_trans_valid_pktchan_recv_handle db handle = true := by
  unfold recvStatus
  cases mcapi_trans_valid_pktchan_recv_handle db handle <;> simp

/-- The message a send appends. -/
def sentMessage (db : mcapi_database) (rp : Place) (buffer : List UInt8) (size : ℕ)
    (scalar : UInt64) : Message :=
  if (db.entry rp).recv_queue.channel_type = MCAPI_SCL_CHAN then ⟨size, [], scalar⟩
  else ⟨size, buffer, 0⟩

theorem mcapi_trans_send_eq (rp : Place) (buffer : List UInt8) (size : ℕ) (scalar : UInt64)
    (room : Bool) :
    mcapi_trans_send db rp buffer size scalar room =
      if room then some (setPending db rp
        ((db.entry rp).recv_queue.pending ++ [sentMessage db rp buffer size scalar]))
      else none := rfl

section

variable {handle : ℕ} {p rp : Place}

/-- `mcapi_trans_pktchan_send_i` after its two assertions. -/
theorem mcapi_trans_pktchan_send_i_eq (hdec : mcapi_trans_decode_handle handle = some p)
    (hrp : mcapi_trans_decode_handle (db.entry p).recv_queue.state.recv_endpt = some rp)
    (buffer : List UInt8) (status : CallStatus) :
    mcapi_trans_pktchan_send_i db handle buffer status free =
      if free.request then
        if status = MCAPI_SUCCESS then
          if free.room then
            some (setPending db rp ((db.entry rp).recv_queue.pending ++
              [sentMessage db rp buffer buffer.length 0]),
              .returned MCAPI_SUCCESS (.completed MCAPI_SUCCESS))
          else some (db, .returned MCAPI_SUCCESS (.completed MCAPI_ERR_MEM_LIMIT))
        else some (db, .returned MCAPI_SUCCESS (.completed status))
      else some (db, .returned MCAPI_ERR_REQUEST_LIMIT .none) := by
  unfold mcapi_trans_pktchan_send_i
  simp only [hdec, hrp, Option.bind_eq_bind, Option.bind_some, mcapi_trans_send_eq]
  cases free.room <;> rfl

theorem pktchan_send_i_handled (hdec : mcapi_trans_decode_handle handle = some p)
    (hrp : mcapi_trans_decode_handle (db.entry p).recv_queue.state.recv_endpt = some rp)
    (buffer : List UInt8) :
    Handled db rp ((ChannelCall.pktchan_send_i handle buffer).engages db free)
      (mcapi_pktchan_send_i db handle buffer free) := by
  unfold mcapi_pktchan_send_i
  rw [mcapi_trans_pktchan_send_i_eq hdec hrp]
  constructor
  · rintro ⟨hv, hlen, hreq, hroom⟩
    rw [(sendStatus_iff handle buffer).mpr ⟨hv, hlen⟩, if_pos hreq, if_pos rfl, if_pos hroom]
    exact ⟨_, _, rfl, .pushed _ _ rfl (by nofun)⟩
  · intro hno
    by_cases hreq : free.request = true
    · rw [if_pos hreq]
      by_cases hst : sendStatus db handle buffer = MCAPI_SUCCESS
      · have hroom : free.room ≠ true := by
          intro hroom
          obtain ⟨hv, hlen⟩ := (sendStatus_iff handle buffer).mp hst
          exact hno ⟨hv, hlen, hreq, hroom⟩
        rw [if_pos hst, if_neg hroom]
        exact ⟨_, _, rfl, reportsError_of_completed (by nofun), (by nofun)⟩
      · rw [if_neg hst]
        exact ⟨_, _, rfl, reportsError_of_completed hst, (by nofun)⟩
    · rw [if_neg hreq]
      exact ⟨_, _, rfl, reportsError_of_ne (by nofun), (by nofun)⟩

theorem pktchan_send_handled (hdec : mcapi_trans_decode_handle handle = some p)
    (hrp : mcapi_trans_decode_handle (db.entry p).recv_queue.state.recv_endpt = some rp)
    (buffer : List UInt8) :
    Handled db rp ((ChannelCall.pktchan_send handle buffer).engages db free)
      (mcapi_pktchan_send db handle buffer free) := by
  unfold mcapi_pktchan_send mcapi_trans_pktchan_send
  rw [mcapi_trans_pktchan_send_i_eq hdec hrp, if_pos rfl]
  constructor
  · rintro ⟨hv, hlen, hroom⟩
    rw [if_pos ((sendStatus_iff handle buffer).mpr ⟨hv, hlen⟩)]
    by_cases hreq : free.request = true
    · rw [if_pos hreq, if_pos (hroom hreq)]
      exact ⟨_, _, rfl, .pushed _ _ rfl (by nofun)⟩
    · rw [if_neg hreq]
      exact ⟨_, _, rfl, .waits⟩
  · intro hno
    by_cases hst : sendStatus db handle buffer = MCAPI_SUCCESS
    · obtain ⟨hv, hlen⟩ := (sendStatus_iff handle buffer).mp hst
      -- only the buffer can be missing
      have hreq : free.request = true := by
        by_contra hreq
        exact hno ⟨hv, hlen, fun h => absurd h hreq⟩
      have hroom : free.room ≠ true := fun hroom => hno ⟨hv, hlen, fun _ => hroom⟩
      rw [if_pos hst, if_pos hreq, if_neg hroom]
      exact ⟨_, _, rfl, reportsError_of_ne (by decide), (by nofun)⟩
    · rw [if_neg hst]
      exact ⟨_, _, rfl, reportsError_of_ne hst, (by nofun)⟩

theorem sclchan_send_handled (hdec : mcapi_trans_decode_handle handle = some p)
    (hrp : mcapi_trans_decode_handle (db.entry p).recv_queue.state.recv_endpt = some rp)
    (size : ℕ) (dataword : UInt64) :
    Handled db rp
      (mcapi_trans_valid_sclchan_send_handle db handle = true ∧ free.room = true)
      (sclchanSend db size handle dataword free) := by
  unfold sclchanSend mcapi_trans_sclchan_send
  simp only [hdec, hrp, Option.bind_eq_bind, Option.bind_some, mcapi_trans_send_eq]
  constructor
  · rintro ⟨hv, hroom⟩
    rw [hv, hroom]
    exact ⟨_, _, rfl, .pushed _ _ rfl (by nofun)⟩
  · intro hno
    cases hv : mcapi_trans_valid_sclchan_send_handle db handle with
    | false => exact ⟨_, _, rfl, reportsError_of_ne (by nofun), (by nofun)⟩
    | true =>
      have hroom : free.room = false := Bool.eq_false_iff.mpr fun hroom => hno ⟨hv, hroom⟩
      rw [hroom]
      exact ⟨_, _, rfl, reportsError_of_ne (by nofun), (by nofun)⟩

/-- `mcapi_trans_pktchan_recv_i` after the assertion. -/
theorem mcapi_trans_pktchan_recv_i_eq (hdec : mcapi_trans_decode_handle handle = some p)
    (status : CallStatus) :
    mcapi_trans_pktchan_recv_i db handle status free =
      if free.request then
        if status = MCAPI_SUCCESS then
          match (db.entry p).recv_queue.pending with
          | message :: pending => some (setPending db p pending, .received MCAPI_SUCCESS message)
          | [] =>
            if free.slot then some (db, .returned MCAPI_SUCCESS .pending)
            else some (db, .returned MCAPI_SUCCESS (.completed MCAPI_ERR_MEM_LIMIT))
        else some (db, .returned status (.completed status))
      else some (db, .returned MCAPI_ERR_REQUEST_LIMIT .none) := by
  unfold mcapi_trans_pktchan_recv_i mcapi_trans_recv
  simp only [hdec, Option.bind_eq_bind, Option.bind_some]
  cases (db.entry p).recv_queue.pending <;> rfl

theorem pktchan_recv_i_handled (hdec : mcapi_trans_decode_handle handle = some p) :
    Handled db p ((ChannelCall.pktchan_recv_i handle).engages db free)
      (mcapi_pktchan_recv_i db handle free) := by
  unfold mcapi_pktchan_recv_i
  rw [mcapi_trans_pktchan_recv_i_eq hdec]
  simp only [ChannelCall.engages, pendingAt_of_decode hdec]
  constructor
  · rintro ⟨hv, hreq, hslot⟩
    rw [(recvStatus_iff handle).mpr hv, if_pos hreq, if_pos rfl]
    cases hp : (db.entry p).recv_queue.pending with
    | nil =>
      show ∃ db' outcome, (if free.slot then _ else _) = some (db', outcome) ∧ _
      rw [if_pos (hslot hp)]
      exact ⟨_, _, rfl, .pending⟩
    | cons message pending => exact ⟨_, _, rfl, .taken _ _ _ hp⟩
  · intro hno
    by_cases hreq : free.request = true
    · rw [if_pos hreq]
      by_cases hst : recvStatus db handle = MCAPI_SUCCESS
      · rw [if_pos hst]
        have hv := (recvStatus_iff handle).mp hst
        cases hp : (db.entry p).recv_queue.pending with
        | nil =>
          have hslot : free.slot ≠ true := fun hslot => hno ⟨hv, hreq, fun _ => hslot⟩
          show Refused db (if free.slot then _ else _)
          rw [if_neg hslot]
          exact ⟨_, _, rfl, reportsError_of_completed (by nofun), (by nofun)⟩
        | cons message pending =>
          refine absurd ⟨hv, hreq, fun hnil => ?_⟩ hno
          rw [hp] at hnil
          cases hnil
      · rw [if_neg hst]
        exact ⟨_, _, rfl, reportsError_of_ne hst, (by nofun)⟩
    · rw [if_neg hreq]
      exact ⟨_, _, rfl, reportsError_of_ne (by nofun), (by nofun)⟩

theorem pktchan_recv_handled (hdec : mcapi_trans_decode_handle handle = some p) :
    Handled db p ((ChannelCall.pktchan_recv handle).engages db free)
      (mcapi_pktchan_recv db handle free) := by
  unfold mcapi_pktchan_recv mcapi_trans_pktchan_recv
  rw [mcapi_trans_pktchan_recv_i_eq hdec, if_pos rfl]
  simp only [ChannelCall.engages, pendingAt_of_decode hdec]
  constructor
  · rintro ⟨hv, hslot⟩
    rw [if_pos ((recvStatus_iff handle).mpr hv)]
    by_cases hreq : free.request = true
    · rw [if_pos hreq]
      cases hp : (db.entry p).recv_queue.pending with
      | nil =>
        rw [hslot hreq hp]
        exact ⟨_, _, rfl, .waits⟩
      | cons message pending => exact ⟨_, _, rfl, .taken _ _ _ hp⟩
    · rw [if_neg hreq]
      exact ⟨_, _, rfl, .waits⟩
  · intro hno
    by_cases hst : recvStatus db handle = MCAPI_SUCCESS
    · have hv := (recvStatus_iff handle).mp hst
      have hreq : free.request = true := by
        by_contra hreq
        exact hno ⟨hv, fun h => absurd h hreq⟩
      have hslot : free.slot = false :=
        Bool.eq_false_iff.mpr fun hslot => hno ⟨hv, fun _ _ => hslot⟩
      rw [if_pos hst, if_pos hreq, hslot]
      cases hp : (db.entry p).recv_queue.pending with
      | nil => exact ⟨_, _, rfl, reportsError_of_ne (by nofun), (by nofun)⟩
      | cons message pending =>
        refine absurd ⟨hv, fun _ hnil => ?_⟩ hno
        rw [hp] at hnil
        cases hnil
    · rw [if_neg hst]
      exact ⟨_, _, rfl, reportsError_of_ne hst, (by nofun)⟩

theorem sclchan_recv_handled (hdec : mcapi_trans_decode_handle handle = some p) (size : ℕ) :
    Handled db p (mcapi_trans_valid_sclchan_recv_handle db handle = true)
      (sclchanRecv db size handle) := by
  unfold sclchanRecv mcapi_trans_sclchan_recv mcapi_trans_recv
  simp only [hdec, Option.bind_eq_bind, Option.bind_some]
  constructor
  · intro hv
    rw [hv]
    cases hp : (db.entry p).recv_queue.pending with
    | nil => exact ⟨_, _, rfl, .waits⟩
    | cons message pending => exact ⟨_, _, rfl, .taken _ _ _ hp⟩
  · intro hno
    rw [Bool.eq_false_iff.mpr hno]
    exact ⟨_, _, rfl, reportsError_of_ne (by nofun), (by nofun)⟩

end

end

end MxApi.Channel
