/-
Every channel call preserves the invariant of the endpoints.

The six calls that send or receive are treated as one, by the kind, the side and
the handle they are called with: they change at most the queue of their target,
which is the receive endpoint of a send and the endpoint itself of a receive.
-/
import MxApi.Mcapi.ChannelCalls

set_option autoImplicit false

namespace MxApi.Channel

open Lib channel_type CallStatus

/-! ## The calls that send or receive -/

/-- The assertions of the call fail for a handle that is not decoded. -/
def ChannelCall.asserts : ChannelCall → Bool
  | pktchan_send_i .. | pktchan_recv_i .. => true
  | _ => false

/-- The queue a call works on: that of the receive endpoint `rp` for a send, that
of the endpoint `p` itself for a receive. -/
def Direction.target : Direction → Place → Place → Place
  | send, _, rp => rp
  | recv, p, _ => p

/-- The pending messages are the same everywhere. -/
def Undisturbed (db db' : mcapi_database) : Prop :=
  ∀ q, (db'.entry q).recv_queue.pending = (db.entry q).recv_queue.pending

section

variable {db db' : mcapi_database} {free : Resources} {c : ChannelCall} {kind : ChannelKind}
  {dir : Direction} {handle : ℕ} {p rp : Place} {outcome : Outcome}

theorem perform_handled (hside : c.side = some (kind, dir, handle))
    (hdec : mcapi_trans_decode_handle handle = some p)
    (hrp : mcapi_trans_decode_handle (db.entry p).recv_queue.state.recv_endpt = some rp) :
    Handled db (dir.target p rp) (c.engages db free) (c.perform db free) := by
  cases c with
  | pktchan_send_i | pktchan_send | pktchan_recv_i | pktchan_recv =>
    obtain ⟨rfl, rfl, rfl⟩ := by simpa [ChannelCall.side] using hside
    first
    | exact pktchan_send_i_handled hdec hrp _
    | exact pktchan_send_handled hdec hrp _
    | exact pktchan_recv_i_handled hdec
    | exact pktchan_recv_handled hdec
  | sclchan_send width =>
    obtain ⟨rfl, rfl, rfl⟩ := by simpa [ChannelCall.side] using hside
    cases width <;> exact sclchan_send_handled hdec hrp _ _
  | sclchan_recv width =>
    obtain ⟨rfl, rfl, rfl⟩ := by simpa [ChannelCall.side] using hside
    cases width <;> exact sclchan_recv_handled hdec _
  | _ => cases hside

/-- A handle that is not decoded is refused, or an assertion fails. -/
theorem perform_not_decoded (hside : c.side = some (kind, dir, handle))
    (hdec : mcapi_trans_decode_handle handle = none) :
    if c.asserts then c.perform db free = none else Refused db (c.perform db free) := by
  have hv : ∀ type, validChannelHandle db type handle = false := by
    intro type
    unfold validChannelHandle
    rw [hdec]
  cases c with
  | pktchan_send_i send_handle buffer =>
    obtain ⟨rfl, rfl, rfl⟩ := by simpa [ChannelCall.side] using hside
    show mcapi_trans_pktchan_send_i db _ buffer _ free = none
    unfold mcapi_trans_pktchan_send_i
    rw [hdec]
    rfl
  | pktchan_recv_i receive_handle =>
    obtain ⟨rfl, rfl, rfl⟩ := by simpa [ChannelCall.side] using hside
    show mcapi_trans_pktchan_recv_i db _ _ free = none
    unfold mcapi_trans_pktchan_recv_i
    rw [hdec]
    rfl
  | pktchan_send send_handle buffer =>
    obtain ⟨rfl, rfl, rfl⟩ := by simpa [ChannelCall.side] using hside
    show Refused db (mcapi_pktchan_send db _ buffer free)
    have hst : sendStatus db send_handle buffer ≠ MCAPI_SUCCESS := by
      intro hst
      have hvalid := ((sendStatus_iff send_handle buffer).mp hst).1
      rw [mcapi_trans_valid_pktchan_send_handle, hv] at hvalid
      cases hvalid
    unfold mcapi_pktchan_send
    rw [if_neg hst]
    exact ⟨_, _, rfl, reportsError_of_ne hst, (by nofun)⟩
  | pktchan_recv receive_handle =>
    obtain ⟨rfl, rfl, rfl⟩ := by simpa [ChannelCall.side] using hside
    show Refused db (mcapi_pktchan_recv db _ free)
    have hst : recvStatus db receive_handle ≠ MCAPI_SUCCESS := by
      intro hst
      have hvalid := (recvStatus_iff receive_handle).mp hst
      rw [mcapi_trans_valid_pktchan_recv_handle, hv] at hvalid
      cases hvalid
    unfold mcapi_pktchan_recv
    rw [if_neg hst]
    exact ⟨_, _, rfl, reportsError_of_ne hst, (by nofun)⟩
  | sclchan_send width send_handle dataword =>
    obtain ⟨rfl, rfl, rfl⟩ := by simpa [ChannelCall.side] using hside
    have hsend : ∀ size, Refused db (sclchanSend db size send_handle dataword free) := by
      intro size
      unfold sclchanSend
      rw [mcapi_trans_valid_sclchan_send_handle, hv, Bool.not_false, if_pos rfl]
      exact ⟨_, _, rfl, reportsError_of_ne (by nofun), (by nofun)⟩
    cases width <;> exact hsend _
  | sclchan_recv width receive_handle =>
    obtain ⟨rfl, rfl, rfl⟩ := by simpa [ChannelCall.side] using hside
    have hrecv : ∀ size, Refused db (sclchanRecv db size receive_handle) := by
      intro size
      unfold sclchanRecv
      rw [mcapi_trans_valid_sclchan_recv_handle, hv, Bool.not_false, if_pos rfl]
      exact ⟨_, _, rfl, reportsError_of_ne (by nofun), (by nofun)⟩
    cases width <;> exact hrecv _
  | _ => cases hside

example : (ChannelCall.pktchan_recv_i 0).asserts := by decide +kernel

/-- A call that is not refused was called with a handle of its kind. -/
theorem engages_type (hside : c.side = some (kind, dir, handle))
    (hdec : mcapi_trans_decode_handle handle = some p) (h : c.engages db free) :
    (db.entry p).recv_queue.channel_type = kind.type := by
  have hv : validChannelHandle db kind.type handle = true := by
    cases c with
    | pktchan_send_i | pktchan_send | pktchan_recv_i | pktchan_recv | sclchan_send =>
      obtain ⟨rfl, rfl, rfl⟩ := by simpa [ChannelCall.side] using hside
      exact h.1
    | sclchan_recv =>
      obtain ⟨rfl, rfl, rfl⟩ := by simpa [ChannelCall.side] using hside
      exact h
    | _ => cases hside
  exact (validChannelHandle_iff hdec).mp hv

/-! ## What goes on to a queue -/

theorem setPending_wiring (pending : List Message) (q : Place) :
    SameWiring (db.entry q) ((setPending db rp pending).entry q) := by
  rw [entry_setPending]
  by_cases h : q = rp
  · subst h
    rw [if_pos rfl]
    exact ⟨rfl, rfl, rfl, rfl⟩
  · rw [if_neg h]
    exact .rfl

theorem Queued.wiring (h : Queued db rp db' outcome) (q : Place) :
    SameWiring (db.entry q) (db'.entry q) := by
  cases h with
  | pushed | taken => exact setPending_wiring _ q
  | pending | waits => exact .rfl

theorem Queued.num (h : Queued db rp db' outcome) (d n : ℕ) :
    (db'.node d n).num_endpoints = (db.node d n).num_endpoints := by
  cases h with
  | pushed | taken => exact num_setEntry ..
  | pending | waits => rfl

theorem Queued.elsewhere (h : Queued db rp db' outcome) {q : Place} (hq : q ≠ rp) :
    (db'.entry q).recv_queue.pending = (db.entry q).recv_queue.pending := by
  cases h with
  | pushed | taken => rw [entry_setPending, if_neg hq]
  | pending | waits => rfl

/-- What went on to a queue is not a refusal. -/
theorem Queued.not_refused (h : Queued db rp db' outcome)
    (herror : outcome.reportsError = true) : ¬ Undisturbed db db' := by
  cases h with
  | pushed message request hok =>
    intro hsame
    have hlen := congrArg List.length (hsame rp)
    rw [entry_setPending, if_pos rfl] at hlen
    simp at hlen
  | taken message pending status hp =>
    intro hsame
    have hlen := congrArg List.length (hsame rp)
    rw [entry_setPending, if_pos rfl, hp] at hlen
    simp at hlen
  | pending | waits => cases herror

end

/-! ## Creating and connecting -/

section

variable {db : mcapi_database} {me : Whoami}

theorem entry_created (port_num i : ℕ) (q : Place) :
    (created db me port_num i).entry q =
      if q = (me.dindex, me.nindex, i) then
        { db.entry q with
          anonymous := false
          num_attributes := 0
          recv_queue := .zero
          state := { (db.entry q).state with port_num := port_num, opened := false, valid := true } }
      else db.entry q := by
  obtain ⟨d, n, e⟩ := q
  unfold mcapi_database.entry mcapi_database.endpoint created
  by_cases hdn : d = me.dindex ∧ n = me.nindex
  · obtain ⟨rfl, rfl⟩ := hdn
    rw [mcapi_database.setNode_self]
    by_cases he : e = i
    · subst he
      simp
    · simp [he]
  · rw [mcapi_database.setNode_of_ne _ hdn, if_neg]
    rintro heq
    obtain ⟨rfl, h⟩ := Prod.mk.inj heq
    obtain ⟨rfl, -⟩ := Prod.mk.inj h
    exact hdn ⟨rfl, rfl⟩

/-- A create changes nothing, or takes an entry that is not valid. -/
theorem mcapi_endpoint_create_some (db : mcapi_database) (me : Whoami)
    (hd : me.dindex < MCA_MAX_DOMAINS)
    (hn : me.nindex < MCA_MAX_NODES)
    (hnum : (db.node me.dindex me.nindex).num_endpoints ≤ MCAPI_MAX_ENDPOINTS) (port_id : ℕ) :
    (∃ status, mcapi_endpoint_create db me port_id = some (db, status)) ∨
    (∃ i, mcapi_endpoint_create db me port_id = some (created db me port_id i, MCAPI_SUCCESS) ∧
      (db.node me.dindex me.nindex).num_endpoints < MCAPI_MAX_ENDPOINTS ∧
      (db.entry (me.dindex, me.nindex, i)).state.valid = false) := by
  unfold mcapi_endpoint_create
  by_cases hex : mcapi_trans_endpoint_exists db me port_id = true
  · exact .inl ⟨_, if_pos hex⟩
  · rw [if_neg hex]
    by_cases hfull : (db.node me.dindex me.nindex).num_endpoints = MCAPI_MAX_ENDPOINTS
    · exact .inl ⟨_, if_pos hfull⟩
    · have hlt := lt_of_le_of_ne hnum hfull
      rw [if_neg hfull, mcapi_trans_endpoint_create, if_pos hlt]
      cases hf : (List.range MCAPI_MAX_ENDPOINTS).find?
          (fun i => !((db.node me.dindex me.nindex).endpoints i).state.valid) with
      | none => exact .inl ⟨_, rfl⟩
      | some i =>
        right
        obtain ⟨hfree, hi, -⟩ := List.find?_range_eq_some.mp hf
        have henc := mcapi_trans_encode_handle_of_inRange ⟨hd, hn, List.mem_range.mp hi⟩
        have hinvalid : ((db.node me.dindex me.nindex).endpoints i).state.valid = false := by
          simpa using hfree
        refine ⟨i, ?_, hlt, hinvalid⟩
        simp only [henc, Option.map_some, Option.isSome_some, if_true]
        rfl

/-- The entries after a connect. -/
theorem entry_connect (db : mcapi_database) (type : channel_type) (w : queue_state) (sp rp q : Place) :
    (connectEnd (connectEnd db sp type w) rp type w).entry q =
      if q = sp ∨ q = rp then connectedEntry (db.entry q) type w else db.entry q := by
  rw [entry_connectEnd]
  by_cases hr : q = rp
  · subst hr
    rw [if_pos rfl, if_pos (Or.inr rfl : q = sp ∨ q = q), entry_connectEnd]
    by_cases hs : q = sp
    · subst hs
      rw [if_pos rfl]
      rfl
    · rw [if_neg hs]
  · rw [if_neg hr, entry_connectEnd]
    by_cases hs : q = sp
    · subst hs
      rw [if_pos rfl, if_pos (Or.inl rfl : q = q ∨ q = rp)]
    · rw [if_neg hs, if_neg (by simp [hs, hr])]

end

/-! ## The invariant is preserved -/

section

variable {s s' : ChannelState} {free : Resources} {outcome : Outcome}

theorem ChannelInv.created (hs : ChannelInv s) {me : Whoami} {port_num i : ℕ}
    (hnum : (s.db.node me.dindex me.nindex).num_endpoints < MCAPI_MAX_ENDPOINTS)
    (hi : (s.db.entry (me.dindex, me.nindex, i)).state.valid = false) :
    ChannelInv { s with db := created s.db me port_num i } where
  linked l hl dir := by
    have hne : l.place dir ≠ (me.dindex, me.nindex, i) := by
      intro heq
      have hvalid := (hs.linked l hl dir).valid
      rw [heq, hi] at hvalid
      cases hvalid
    show LinkedTo ((MxApi.created s.db me port_num i).entry _) l
    rw [entry_created, if_neg hne]
    exact hs.linked l hl dir
  owner p hp := by
    change ((MxApi.created s.db me port_num i).entry p).state.connected = true at hp
    rw [entry_created] at hp
    split at hp
    · exact hs.owner p hp
    · exact hs.owner p hp
  unconnected p hp := by
    change ((MxApi.created s.db me port_num i).entry p).state.connected = false at hp
    show ((MxApi.created s.db me port_num i).entry p).recv_queue.channel_type = _ ∧
      ((MxApi.created s.db me port_num i).entry p).recv_queue.state = _
    rw [entry_created] at hp ⊢
    split at hp
    · rename_i heq
      rw [if_pos heq]
      exact ⟨rfl, rfl⟩
    · rename_i hne
      rw [if_neg hne]
      exact hs.unconnected p hp
  empty p hp := by
    change ((MxApi.created s.db me port_num i).entry p).state.valid = false at hp
    show ((MxApi.created s.db me port_num i).entry p).recv_queue.pending = []
    rw [entry_created] at hp ⊢
    split at hp
    · cases hp
    · rename_i hne
      rw [if_neg hne]
      exact hs.empty p hp
  num_le d n := by
    show ((MxApi.created s.db me port_num i).node d n).num_endpoints ≤ _
    by_cases h : d = me.dindex ∧ n = me.nindex
    · obtain ⟨rfl, rfl⟩ := h
      rw [created_num hnum]
      exact hnum
    · unfold MxApi.created
      rw [mcapi_database.setNode_of_ne _ h]
      exact hs.num_le d n
  opens := hs.opens
  receives := hs.receives

theorem ChannelInv.connect (hs : ChannelInv s) {kind : ChannelKind}
    {send_endpoint receive_endpoint : ℕ} {sp rp : Place}
    (h : Connectable s.db send_endpoint receive_endpoint sp rp) :
    ChannelInv { s with
      db := connectEnd (connectEnd s.db sp kind.type ⟨send_endpoint, receive_endpoint⟩) rp kind.type
        ⟨send_endpoint, receive_endpoint⟩
      links := s.links ++ [⟨kind, sp, rp, false, false⟩] } := by
  obtain ⟨hsend, hrecv, hends⟩ := h
  have hentry := fun q =>
    entry_connect s.db kind.type ⟨send_endpoint, receive_endpoint⟩ sp rp q
  refine ⟨fun l hl dir => ?_, fun p hp => ?_, fun p hp => ?_, fun p hp => ?_, fun d n => ?_,
    hs.opens, hs.receives⟩
  · rcases List.mem_append.mp hl with hl | hl
    · -- an old channel keeps its ends, which were connected before
      have hlinked := hs.linked l hl dir
      have hne : ¬ (l.place dir = sp ∨ l.place dir = rp) := by
        intro heq
        have hconn := (hends _ heq).2
        rw [hlinked.connected] at hconn
        cases hconn
      show LinkedTo ((connectEnd (connectEnd s.db sp _ _) rp _ _).entry _) l
      rw [hentry, if_neg hne]
      exact hlinked
    · obtain rfl := List.mem_singleton.mp hl
      have hend : Link.place ⟨kind, sp, rp, false, false⟩ dir = sp ∨
          Link.place ⟨kind, sp, rp, false, false⟩ dir = rp := by
        cases dir with
        | send => exact .inl rfl
        | recv => exact .inr rfl
      show LinkedTo ((connectEnd (connectEnd s.db sp _ _) rp _ _).entry _) _
      rw [hentry, if_pos hend]
      refine ⟨(hends _ hend).1, rfl, rfl, fun dir' => ?_⟩
      cases dir' with
      | send => exact hsend
      | recv => exact hrecv
  · change ((connectEnd (connectEnd s.db sp _ _) rp _ _).entry p).state.connected = true at hp
    rw [hentry] at hp
    by_cases heq : p = sp ∨ p = rp
    · refine ⟨⟨kind, sp, rp, false, false⟩, List.mem_append_right _ (List.mem_singleton_self _), ?_⟩
      rcases heq with rfl | rfl
      · exact ⟨.send, rfl⟩
      · exact ⟨.recv, rfl⟩
    · rw [if_neg heq] at hp
      obtain ⟨l, hl, hdir⟩ := hs.owner p hp
      exact ⟨l, List.mem_append_left _ hl, hdir⟩
  · change ((connectEnd (connectEnd s.db sp _ _) rp _ _).entry p).state.connected = false at hp
    show ((connectEnd (connectEnd s.db sp _ _) rp _ _).entry p).recv_queue.channel_type = _ ∧
      ((connectEnd (connectEnd s.db sp _ _) rp _ _).entry p).recv_queue.state = _
    rw [hentry] at hp ⊢
    by_cases heq : p = sp ∨ p = rp
    · rw [if_pos heq] at hp
      cases hp
    · rw [if_neg heq] at hp ⊢
      exact hs.unconnected p hp
  · change ((connectEnd (connectEnd s.db sp _ _) rp _ _).entry p).state.valid = false at hp
    show ((connectEnd (connectEnd s.db sp _ _) rp _ _).entry p).recv_queue.pending = []
    rw [hentry] at hp ⊢
    by_cases heq : p = sp ∨ p = rp
    · rw [if_pos heq] at hp ⊢
      exact hs.empty p hp
    · rw [if_neg heq] at hp ⊢
      exact hs.empty p hp
  · show ((connectEnd (connectEnd s.db sp _ _) rp _ _).node d n).num_endpoints ≤ _
    rw [num_connectEnd, num_connectEnd]
    exact hs.num_le d n

/-- Opening or closing an endpoint leaves the wiring. -/
theorem setState_opened_wiring (db : mcapi_database) (p q : Place) (opened : Bool) :
    SameWiring (db.entry q)
      ((db.setState p { (db.entry p).state with opened := opened }).entry q) := by
  rw [entry_setState]
  by_cases h : q = p
  · subst h
    rw [if_pos rfl]
    exact ⟨rfl, rfl, rfl, rfl⟩
  · rw [if_neg h]
    exact .rfl

theorem setState_pending (db : mcapi_database) (p q : Place) (w : endpoint_state) :
    ((db.setState p w).entry q).recv_queue.pending = (db.entry q).recv_queue.pending := by
  rw [entry_setState]
  by_cases h : q = p
  · subst h
    rw [if_pos rfl]
  · rw [if_neg h]

/-- The flag `open` is set or cleared, and nothing else is recorded than that. -/
theorem ChannelInv.setOpened (hs : ChannelInv s) (p : Place) (opened : Bool) {links : List Link}
    (hlinks : SameLinks s.links links) {opens : List PendingOpen}
    (hopens : ∀ o ∈ opens, ∃ p, mcapi_trans_decode_handle o.endpoint = some p) :
    ChannelInv { s with
      db := s.db.setState p { (s.db.entry p).state with opened := opened }
      links := links
      opens := opens } := by
  refine hs.keep hlinks (fun q => ?_) (fun q hq => ?_) (fun d n => ?_) hopens hs.receives
  · exact setState_opened_wiring s.db p q opened
  · show ((s.db.setState p _).entry q).recv_queue.pending = []
    rw [setState_pending]
    exact hs.empty q hq
  · exact num_setEntry ..

/-- A call that went on to the queue of a valid endpoint. -/
theorem ChannelInv.queued (hs : ChannelInv s) {rp : Place} {db' : mcapi_database}
    (h : Queued s.db rp db' outcome) (hvalid : (s.db.entry rp).state.valid = true)
    {receives : List ℕ}
    (hreceives : ∀ h ∈ receives, ∃ p, mcapi_trans_decode_handle h = some p) :
    ChannelInv { s with db := db', receives := receives } := by
  refine hs.keep .rfl h.wiring (fun q hq => ?_) h.num hs.opens hreceives
  have hne : q ≠ rp := by
    rintro rfl
    rw [hvalid] at hq
    cases hq
  show (db'.entry q).recv_queue.pending = []
  rw [h.elsewhere hne]
  exact hs.empty q hq

/-! ## What is recorded -/

/-- The two calls that look at a request. -/
def ChannelCall.isTest : ChannelCall → Bool
  | test_open _ | test_recv _ => true
  | _ => false

theorem call_eq (s : ChannelState) (free : Resources) {c : ChannelCall} (hc : c.isTest = false) :
    s.call c free
      = (c.perform s.db free).map fun r => (({ s with db := r.1 }).note c r.2, r.2) := by
  cases c with
  | test_open | test_recv => cases hc
  | _ => rfl

/-- Nothing is recorded of an error that the call returns. -/
theorem note_of_error {c : ChannelCall} {status : CallStatus} {request : RequestResult}
    (h : status ≠ MCAPI_SUCCESS) : s.note c (.returned status request) = s := by
  unfold ChannelState.note
  split
  · rename_i heq
    exact absurd (Outcome.returned.inj heq).1 h
  · rename_i heq
    exact absurd (Outcome.returned.inj heq).1 h
  · rename_i heq
    exact absurd (Outcome.returned.inj heq).1 h
  · rename_i heq
    exact absurd (Outcome.returned.inj heq).1 h
  · rfl

/-- Of a call that sends or receives, only a receive that waits is recorded. -/
theorem note_of_side (s : ChannelState) (outcome : Outcome) {c : ChannelCall} {kind : ChannelKind} {dir : Direction} {handle : ℕ}
    (hside : c.side = some (kind, dir, handle)) :
    s.note c outcome = s ∨
      (s.note c outcome = { s with receives := s.receives ++ [handle] } ∧
        outcome = .returned MCAPI_SUCCESS .pending) := by
  unfold ChannelState.note
  split
  · cases hside
  · cases hside
  · cases hside
  · obtain ⟨rfl, rfl, rfl⟩ := by simpa [ChannelCall.side] using hside
    exact .inr ⟨rfl, rfl⟩
  · exact .inl rfl

/-- A rejected call leaves everything. -/
theorem call_of_rejected {c : ChannelCall} (hc : c.isTest = false)
    (h : Rejected s.db (c.perform s.db free)) :
    ∃ status request, s.call c free = some (s, .returned status request) ∧
      status ≠ MCAPI_SUCCESS := by
  obtain ⟨status, request, heq, hne, -⟩ := h
  refine ⟨status, request, ?_, hne⟩
  rw [call_eq s free hc, heq, Option.map_some, note_of_error hne]

/-- A call that sends or receives and is refused leaves everything. -/
theorem call_of_refused {c : ChannelCall} {kind : ChannelKind} {dir : Direction} {handle : ℕ}
    (hside : c.side = some (kind, dir, handle)) (h : Refused s.db (c.perform s.db free)) :
    ∃ outcome, s.call c free = some (s, outcome) ∧ outcome.reportsError = true := by
  have hc : c.isTest = false := by
    cases c with
    | test_open | test_recv => cases hside
    | _ => rfl
  obtain ⟨status, request, heq, herror, hreq⟩ := h
  refine ⟨_, ?_, herror⟩
  rw [call_eq s free hc, heq, Option.map_some]
  rcases note_of_side { s with db := s.db } _ hside with hnote | ⟨-, heq⟩
  · rw [hnote]
  · simp only [Outcome.returned.injEq] at heq
    exact absurd heq.2 hreq

/-! ## The queue a call works on -/

/-- What is known of a call that sends or receives when it is not refused: its
handle belongs to an end of a channel of its kind, and its target is a valid
endpoint. -/
structure Engaged (s : ChannelState) (kind : ChannelKind) (dir : Direction) (p target : Place)
    (l : Link) : Prop where
  mem : l ∈ s.links
  kind : l.kind = kind
  linked : LinkedTo (s.db.entry p) l
  target_valid : (s.db.entry target).state.valid = true
  /-- if the endpoint is the end that the call is for, the target is the receive
  end -/
  target_recv : l.place dir = p → target = l.recv

theorem ChannelInv.engaged (hs : ChannelInv s) {kind : ChannelKind} (dir : Direction)
    {p rp : Place} (htype : (s.db.entry p).recv_queue.channel_type = kind.type)
    (hrp : mcapi_trans_decode_handle (s.db.entry p).recv_queue.state.recv_endpt = some rp) :
    ∃ l, Engaged s kind dir p (dir.target p rp) l := by
  obtain ⟨l, hl, hkind, -, hlinked⟩ := hs.typed htype
  obtain rfl : l.recv = rp := Option.some.inj ((hlinked.handle .recv).symm.trans hrp)
  refine ⟨l, hl, hkind, hlinked, ?_, fun hplace => ?_⟩
  · cases dir with
    | send => exact (hs.linked l hl .recv).valid
    | recv => exact hlinked.valid
  · cases dir with
    | send => rfl
    | recv => exact hplace.symm

/-- A call that sends or receives either fails an assertion, or is refused, or
goes on to the queue of its target. -/
theorem side_call_cases (hs : ChannelInv s) (free : Resources) {c : ChannelCall} {kind : ChannelKind}
    {dir : Direction} {handle : ℕ} (hside : c.side = some (kind, dir, handle)) :
    (mcapi_trans_decode_handle handle = none ∧ c.asserts = true ∧ s.call c free = none) ∨
    ((mcapi_trans_decode_handle handle = none → c.asserts = false) ∧
      ¬ c.engages s.db free ∧
      ∃ outcome, s.call c free = some (s, outcome) ∧ outcome.reportsError = true) ∨
    (c.engages s.db free ∧ ∃ p target l db' outcome receives,
      mcapi_trans_decode_handle handle = some p ∧ Engaged s kind dir p target l ∧
      Queued s.db target db' outcome ∧
      (∀ h ∈ receives, ∃ p, mcapi_trans_decode_handle h = some p) ∧
      s.call c free = some ({ s with db := db', receives := receives }, outcome)) := by
  have hc : c.isTest = false := by
    cases c with
    | test_open | test_recv => cases hside
    | _ => rfl
  cases hdec : mcapi_trans_decode_handle handle with
  | none =>
    have hperform : if c.asserts then c.perform s.db free = none
        else Refused s.db (c.perform s.db free) := perform_not_decoded hside hdec
    by_cases ha : c.asserts = true
    · left
      rw [if_pos ha] at hperform
      exact ⟨rfl, ha, by rw [call_eq s free hc, hperform, Option.map_none]⟩
    · right; left
      rw [if_neg ha] at hperform
      refine ⟨fun _ => Bool.eq_false_iff.mpr ha, fun heng => ?_, call_of_refused hside hperform⟩
      have hv : validChannelHandle s.db kind.type handle = true := by
        cases c with
        | pktchan_send_i | pktchan_send | pktchan_recv_i | pktchan_recv | sclchan_send =>
          obtain ⟨rfl, rfl, rfl⟩ := by simpa [ChannelCall.side] using hside
          exact heng.1
        | sclchan_recv =>
          obtain ⟨rfl, rfl, rfl⟩ := by simpa [ChannelCall.side] using hside
          exact heng
        | _ => cases hside
      unfold validChannelHandle at hv
      rw [hdec] at hv
      cases hv
  | some p =>
    right
    obtain ⟨rp, hrp⟩ := hs.recv_endpt p
    have hhandled : Handled s.db (dir.target p rp) (c.engages s.db free) (c.perform s.db free) :=
      perform_handled hside hdec hrp
    by_cases heng : c.engages s.db free
    · right
      obtain ⟨l, hl⟩ := hs.engaged dir (engages_type hside hdec heng) hrp
      obtain ⟨db', outcome, heq, hqueued⟩ := hhandled.queued heng
      have hcall := call_eq s free hc
      rw [heq, Option.map_some] at hcall
      rcases note_of_side { s with db := db' } outcome hside
        with hnote | ⟨hnote, -⟩
      · rw [hnote] at hcall
        exact ⟨heng, p, _, l, db', outcome, s.receives, rfl, hl, hqueued, hs.receives, hcall⟩
      · rw [hnote] at hcall
        refine ⟨heng, p, _, l, db', outcome, s.receives ++ [handle], rfl, hl, hqueued, ?_, hcall⟩
        intro h hmem
        rcases List.mem_append.mp hmem with hmem | hmem
        · exact hs.receives h hmem
        · rw [List.mem_singleton.mp hmem]
          exact ⟨p, hdec⟩
    · left
      exact ⟨(by nofun), heng, call_of_refused hside (hhandled.refused heng)⟩

/-! ## The other calls -/

theorem call_create_cases (hs : ChannelInv s) (free : Resources) (d : Fin MCA_MAX_DOMAINS) (n : Fin MCA_MAX_NODES)
    (port_id : ℕ) :
    (∃ status, s.call (.create d n port_id) free = some (s, .returned status .none)) ∨
    (∃ me i, (s.db.node me.dindex me.nindex).num_endpoints < MCAPI_MAX_ENDPOINTS ∧
      (s.db.entry (me.dindex, me.nindex, i)).state.valid = false ∧
      s.call (.create d n port_id) free =
        some ({ s with db := created s.db me port_id i }, .returned MCAPI_SUCCESS .none)) := by
  have hcall := call_eq s free (c := .create d n port_id) rfl
  rcases mcapi_endpoint_create_some s.db ⟨_, n, _, d⟩ d.isLt n.isLt (hs.num_le d n) port_id
    with ⟨status, hcreate⟩ | ⟨i, hcreate, hnum, hi⟩
  · left
    refine ⟨status, ?_⟩
    rw [hcall, ChannelCall.perform]
    rw [hcreate]
    rfl
  · right
    refine ⟨_, i, hnum, hi, ?_⟩
    rw [hcall, ChannelCall.perform]
    rw [hcreate]
    rfl

/-- A rejected call leaves everything. -/
theorem perform_connect (db : mcapi_database) (kind : ChannelKind)
    (send_endpoint receive_endpoint : ℕ) :
    (ChannelCall.connect_i kind send_endpoint receive_endpoint).perform db free
      = connect_i db kind send_endpoint receive_endpoint free := by
  cases kind <;> rfl

theorem perform_open (db : mcapi_database) (kind : ChannelKind) (dir : Direction) (endpoint : ℕ) :
    (ChannelCall.open_i kind dir endpoint).perform db free
      = open_i db kind dir endpoint free := by
  cases kind <;> cases dir <;> rfl

theorem perform_close (db : mcapi_database) (kind : ChannelKind) (dir : Direction) (handle : ℕ) :
    (ChannelCall.close_i kind dir handle).perform db free = close_i db kind handle free := by
  cases kind <;> cases dir <;> rfl

theorem call_connect_cases (s : ChannelState) (free : Resources) (kind : ChannelKind) (send_endpoint receive_endpoint : ℕ) :
    (∃ status request, s.call (.connect_i kind send_endpoint receive_endpoint) free
      = some (s, .returned status request) ∧ status ≠ MCAPI_SUCCESS) ∨
    (∃ sp rp, Connectable s.db send_endpoint receive_endpoint sp rp ∧
      s.call (.connect_i kind send_endpoint receive_endpoint) free =
        some ({ s with
          db := connectEnd (connectEnd s.db sp kind.type ⟨send_endpoint, receive_endpoint⟩) rp
            kind.type ⟨send_endpoint, receive_endpoint⟩
          links := s.links ++ [⟨kind, sp, rp, false, false⟩] },
          .returned MCAPI_SUCCESS (.completed MCAPI_SUCCESS))) := by
  rcases connect_i_cases s.db free kind send_endpoint receive_endpoint
    with hrej | ⟨sp, rp, hends, heq⟩
  · left
    apply call_of_rejected rfl
    rw [perform_connect]
    exact hrej
  · right
    refine ⟨sp, rp, hends, ?_⟩
    rw [call_eq s free rfl, perform_connect, heq, Option.map_some]
    simp only [ChannelState.note, hends.1, hends.2.1]

theorem call_open_rejected {kind : ChannelKind} {dir : Direction} {endpoint : ℕ}
    (h : ∀ p, ¬ OpenAccepted s.db free kind dir endpoint p) :
    ∃ status request, s.call (.open_i kind dir endpoint) free
      = some (s, .returned status request) ∧ status ≠ MCAPI_SUCCESS := by
  apply call_of_rejected rfl
  rw [perform_open]
  exact open_i_rejected h

/-- The state after an accepted open. -/
def opened (s : ChannelState) (kind : ChannelKind) (dir : Direction) (endpoint : ℕ) (p : Place) :
    ChannelState :=
  { s with
    db := mcapi_trans_open_channel s.db p
    links := s.links.map (·.noteOpen p)
    opens := if (s.db.entry p).recv_queue.channel_type = kind.type then s.opens
      else s.opens ++ [⟨kind, dir, endpoint⟩] }

theorem call_open_accepted {kind : ChannelKind} {dir : Direction} {endpoint : ℕ} {p : Place}
    (h : OpenAccepted s.db free kind dir endpoint p) :
    s.call (.open_i kind dir endpoint) free =
      some (opened s kind dir endpoint p, .returned MCAPI_SUCCESS
        (if (s.db.entry p).recv_queue.channel_type = kind.type then .completed MCAPI_SUCCESS
          else .pending)) := by
  rw [call_eq s free rfl, perform_open, open_i_accepted h, Option.map_some]
  unfold opened
  by_cases htype : (s.db.entry p).recv_queue.channel_type = kind.type
  · rw [if_pos htype, if_pos htype]
    simp only [ChannelState.note, h.decode, reduceCtorEq, if_false]
  · rw [if_neg htype, if_neg htype]
    simp only [ChannelState.note, h.decode, if_true]

theorem call_close_cases (s : ChannelState) (free : Resources) (kind : ChannelKind) (dir : Direction) (handle : ℕ) :
    (∃ status request, s.call (.close_i kind dir handle) free
      = some (s, .returned status request) ∧ status ≠ MCAPI_SUCCESS) ∨
    (∃ p, mcapi_trans_decode_handle handle = some p ∧
      s.call (.close_i kind dir handle) free =
        some ({ s with
          db := mcapi_trans_close_channel s.db p
          links := s.links.map (·.noteClose dir p) },
          .returned MCAPI_SUCCESS (.completed MCAPI_SUCCESS))) := by
  rcases close_i_cases s.db free kind handle with hrej | ⟨p, hdec, -, heq⟩
  · left
    apply call_of_rejected rfl
    rw [perform_close]
    exact hrej
  · right
    refine ⟨p, hdec, ?_⟩
    rw [call_eq s free rfl, perform_close, heq, Option.map_some]
    simp only [ChannelState.note, hdec]

/-- A test of an open request that does not wait is told so; one that waits is
completed as soon as its endpoint is connected. -/
theorem testOpen_cases (hs : ChannelInv s) (i : ℕ) :
    (s.opens[i]? = none ∧ s.testOpen i = some (s, .returned MCAPI_ERR_REQUEST_INVALID .none)) ∨
    (∃ request p, s.opens[i]? = some request ∧
      mcapi_trans_decode_handle request.endpoint = some p ∧
      s.testOpen i =
        if (s.db.entry p).state.connected then
          some ({ s with opens := s.opens.eraseIdx i },
            .returned MCAPI_SUCCESS (.completed MCAPI_SUCCESS))
        else some (s, .returned MCAPI_SUCCESS .pending)) := by
  unfold ChannelState.testOpen
  cases hi : s.opens[i]? with
  | none => exact .inl ⟨rfl, rfl⟩
  | some request =>
    right
    obtain ⟨p, hp⟩ := hs.opens request (List.mem_of_getElem? hi)
    refine ⟨request, p, rfl, hp, ?_⟩
    simp only [hp, Option.bind_eq_bind, Option.bind_some]

/-- A test of a receive request changes nothing, or takes a message. -/
theorem testRecv_cases (hs : ChannelInv s) (free : Resources) (i : ℕ) :
    (∃ status request, s.testRecv i free = some (s, .returned status request)) ∨
    (∃ p db' outcome, Queued s.db p db' outcome ∧ (s.db.entry p).state.valid = true ∧
      s.testRecv i free =
        some ({ s with db := db', receives := s.receives.eraseIdx i }, outcome)) := by
  unfold ChannelState.testRecv
  cases hi : s.receives[i]? with
  | none => exact .inl ⟨_, _, rfl⟩
  | some receive_handle =>
    obtain ⟨p, hp⟩ := hs.receives receive_handle (List.mem_of_getElem? hi)
    unfold mcapi_trans_recv
    simp only [hp, Option.bind_eq_bind, Option.bind_some]
    cases hpending : (s.db.entry p).recv_queue.pending with
    | nil => exact .inl ⟨_, _, rfl⟩
    | cons message pending =>
      dsimp only
      by_cases hturn : free.turn = true
      · right
        have hvalid : (s.db.entry p).state.valid = true := by
          by_contra hno
          have hnil := hs.empty p (Bool.eq_false_iff.mpr hno)
          rw [hpending] at hnil
          cases hnil
        exact ⟨p, _, _, .taken message pending MCAPI_SUCCESS hpending, hvalid, if_pos hturn⟩
      · exact .inl ⟨_, _, if_neg hturn⟩

/-! ## Every call preserves the invariant -/

theorem ChannelInv.opened (hs : ChannelInv s) {kind : ChannelKind} {dir : Direction}
    {endpoint : ℕ} {p : Place} (hdec : mcapi_trans_decode_handle endpoint = some p) :
    ChannelInv (opened s kind dir endpoint p) := by
  unfold Channel.opened
  apply hs.setOpened p true (.noteOpen s.links p)
  intro o ho
  split at ho
  · exact hs.opens o ho
  · rcases List.mem_append.mp ho with ho | ho
    · exact hs.opens o ho
    · rw [List.mem_singleton.mp ho]
      exact ⟨p, hdec⟩

theorem call_inv (hs : ChannelInv s) {c : ChannelCall}
    (h : s.call c free = some (s', outcome)) : ChannelInv s' := by
  by_cases hside : ∃ kind dir handle, c.side = some (kind, dir, handle)
  · obtain ⟨kind, dir, handle, hside⟩ := hside
    rcases side_call_cases hs free hside with ⟨-, -, heq⟩ | ⟨-, -, out, heq, -⟩ |
      ⟨-, p, target, l, db', out, receives, -, hl, hqueued, hreceives, heq⟩
    · rw [heq] at h
      cases h
    · obtain ⟨rfl, -⟩ := Prod.mk.inj (Option.some.inj (heq.symm.trans h))
      exact hs
    · obtain ⟨rfl, -⟩ := Prod.mk.inj (Option.some.inj (heq.symm.trans h))
      exact hs.queued hqueued hl.target_valid hreceives
  · cases c with
    | create d n port_id =>
      rcases call_create_cases hs free d n port_id with ⟨status, heq⟩ | ⟨me, i, hnum, hi, heq⟩
      · obtain ⟨rfl, -⟩ := Prod.mk.inj (Option.some.inj (heq.symm.trans h))
        exact hs
      · obtain ⟨rfl, -⟩ := Prod.mk.inj (Option.some.inj (heq.symm.trans h))
        exact hs.created hnum hi
    | connect_i kind send_endpoint receive_endpoint =>
      rcases call_connect_cases s free kind send_endpoint receive_endpoint
        with ⟨status, request, heq, -⟩ | ⟨sp, rp, hends, heq⟩
      · obtain ⟨rfl, -⟩ := Prod.mk.inj (Option.some.inj (heq.symm.trans h))
        exact hs
      · obtain ⟨rfl, -⟩ := Prod.mk.inj (Option.some.inj (heq.symm.trans h))
        exact hs.connect hends
    | open_i kind dir endpoint =>
      by_cases hacc : ∃ p, OpenAccepted s.db free kind dir endpoint p
      · obtain ⟨p, hp⟩ := hacc
        obtain ⟨rfl, -⟩ := Prod.mk.inj (Option.some.inj ((call_open_accepted hp).symm.trans h))
        exact hs.opened hp.decode
      · obtain ⟨status, request, heq, -⟩ :=
          call_open_rejected (not_exists.mp hacc)
        obtain ⟨rfl, -⟩ := Prod.mk.inj (Option.some.inj (heq.symm.trans h))
        exact hs
    | close_i kind dir handle =>
      rcases call_close_cases s free kind dir handle
        with ⟨status, request, heq, -⟩ | ⟨p, -, heq⟩
      · obtain ⟨rfl, -⟩ := Prod.mk.inj (Option.some.inj (heq.symm.trans h))
        exact hs
      · obtain ⟨rfl, -⟩ := Prod.mk.inj (Option.some.inj (heq.symm.trans h))
        exact hs.setOpened p false (.noteClose s.links dir p) hs.opens
    | test_open i =>
      change s.testOpen i = _ at h
      rcases testOpen_cases hs i with ⟨-, heq⟩ | ⟨request, p, -, -, heq⟩
      · obtain ⟨rfl, -⟩ := Prod.mk.inj (Option.some.inj (heq.symm.trans h))
        exact hs
      · rw [heq] at h
        split at h
        · obtain ⟨rfl, -⟩ := Prod.mk.inj (Option.some.inj h)
          exact hs.keep .rfl (fun _ => .rfl) hs.empty (fun _ _ => rfl)
            (fun o ho => hs.opens o (List.mem_of_mem_eraseIdx ho)) hs.receives
        · obtain ⟨rfl, -⟩ := Prod.mk.inj (Option.some.inj h)
          exact hs
    | test_recv i =>
      change s.testRecv i free = _ at h
      rcases testRecv_cases hs free i with ⟨status, request, heq⟩ |
        ⟨p, db', out, hqueued, hvalid, heq⟩
      · obtain ⟨rfl, -⟩ := Prod.mk.inj (Option.some.inj (heq.symm.trans h))
        exact hs
      · obtain ⟨rfl, -⟩ := Prod.mk.inj (Option.some.inj (heq.symm.trans h))
        exact hs.queued hqueued hvalid
          fun h hmem => hs.receives h (List.mem_of_mem_eraseIdx hmem)
    | _ => exact absurd ⟨_, _, _, rfl⟩ hside

end

/-- Every state reached satisfies the invariant. -/
theorem reached_inv {db : mcapi_database} (h : Unused db) {calls : List (ChannelCall × Resources)}
    {p : ChannelState × List Outcome} (hp : answers channelStep (.init db) calls = some p) :
    ChannelInv p.1 :=
  answers_invariant (fun _ _ _ _ hs hstep => call_inv hs hstep) hp (ChannelInv.init h)

/-! ## A node with two endpoints -/

/-- A call that finds everything it needs. -/
def ample : Resources := ⟨true, true, true, true⟩

theorem oneNode_unused : Unused oneNode := by
  intro d n
  unfold oneNode mcapi_database.node mcapi_database.endpoint mcapi_database.node
  by_cases hd : d = 0
  · by_cases hn : n = 0
    · simp [hd, hn]
    · simp [hd, hn, mcapi_node_entry.zero]
  · simp [hd, mcapi_node_entry.zero]

/-- Two endpoints of the node, with the handles 0 and 1. -/
def twoEndpoints : List (ChannelCall × Resources) :=
  [(.create ⟨0, by decide⟩ ⟨0, by decide⟩ 10, ample),
    (.create ⟨0, by decide⟩ ⟨0, by decide⟩ 11, ample)]

end MxApi.Channel
