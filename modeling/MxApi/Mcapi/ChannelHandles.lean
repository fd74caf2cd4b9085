/-
Channel handles and what is checked of them: which kind of channel, which of its
ends, and whether that end is open.

A channel handle, a handle of the other end and an endpoint are the same number.
The calls that send or receive compare the channel type only, so they also take
the handle of the other end, of an end that is not open, and a handle with
something in its top byte; the non-blocking ones assert that the handle is
decoded before they look at the error found. An open of an endpoint that is not
connected waits, and its test asks only whether the endpoint is connected by
then. So each call treats handles as it should exactly in the states that
[`CallCond`] describes.
-/
import MxApi.Mcapi.ChannelStep

set_option autoImplicit false

namespace MxApi.Channel

open Lib channel_type CallStatus

/-! ## What is expected of a call -/

section

variable (s s' : ChannelState) (outcome : Outcome)

/-- `handle` is the handle of the `dir` end of a connected channel of this kind,
and that end is open. -/
def IsEnd (kind : ChannelKind) (dir : Direction) (handle : ℕ) : Prop :=
  ∃ l ∈ s.links, l.kind = kind ∧
    mcapi_trans_encode_handle (l.place dir).1 (l.place dir).2.1 (l.place dir).2.2 = some handle ∧
    (s.db.entry (l.place dir)).state.opened = true

/-- A call that sends or receives changes only the queue of the channel's receive
end if the handle is the open end the call is for; otherwise an error is reported
and no queue changes. -/
def HandleOk (kind : ChannelKind) (dir : Direction) (handle : ℕ) : Prop :=
  (IsEnd s kind dir handle → ∀ l ∈ s.links,
    mcapi_trans_encode_handle (l.place dir).1 (l.place dir).2.1 (l.place dir).2.2 = some handle →
    ∀ q, q ≠ l.recv →
      (s'.db.entry q).recv_queue.pending = (s.db.entry q).recv_queue.pending) ∧
  (¬ IsEnd s kind dir handle → outcome.reportsError = true ∧ Undisturbed s.db s'.db)

/-- The endpoint is the `dir` end of a connected channel of this kind. -/
def IsEndpoint (kind : ChannelKind) (dir : Direction) (endpoint : ℕ) : Prop :=
  ∃ l ∈ s.links, l.kind = kind ∧ mcapi_trans_decode_handle endpoint = some (l.place dir)

/-- The endpoint is an end of some connected channel. -/
def IsConnected (endpoint : ℕ) : Prop :=
  ∃ l ∈ s.links, ∃ dir, mcapi_trans_decode_handle endpoint = some (l.place dir)

/-- An open reports an error for what is not a valid endpoint and for a connected
endpoint of the wrong kind or direction; no queue changes. -/
def OpenOk (kind : ChannelKind) (dir : Direction) (endpoint : ℕ) : Prop :=
  (mcapi_trans_valid_endpoint s.db endpoint = false → outcome.reportsError = true) ∧
  (IsConnected s endpoint → ¬ IsEndpoint s kind dir endpoint → outcome.reportsError = true) ∧
  Undisturbed s.db s'.db

/-- The test of an open request reports `MCAPI_SUCCESS` only for the right kind
and direction. -/
def TestOk (i : ℕ) : Prop :=
  (∀ request, s.opens[i]? = some request →
    outcome = .returned MCAPI_SUCCESS (.completed MCAPI_SUCCESS) →
    IsEndpoint s request.kind request.dir request.endpoint) ∧
  Undisturbed s.db s'.db

end

/-- The call returns or waits, no assertion ends the process, and it treats its
handle as it should. -/
def CallOk (s : ChannelState) (o : ChannelCall × Resources) : Prop :=
  ∃ s' outcome, channelStep s o = some (s', outcome) ∧
    match o.1 with
    | .create .. | .connect_i .. | .close_i .. => Undisturbed s.db s'.db
    | .open_i kind dir endpoint => OpenOk s s' outcome kind dir endpoint
    | .pktchan_send_i handle _ | .pktchan_send handle _ =>
      HandleOk s s' outcome .pktchan .send handle
    | .sclchan_send _ handle _ => HandleOk s s' outcome .sclchan .send handle
    | .pktchan_recv_i handle | .pktchan_recv handle =>
      HandleOk s s' outcome .pktchan .recv handle
    | .sclchan_recv _ handle => HandleOk s s' outcome .sclchan .recv handle
    | .test_open i => TestOk s s' outcome i
    | .test_recv _ => True

/-! ## When a call meets it -/

def Direction.opposite : Direction → Direction
  | send => recv
  | recv => send

/-- The endpoint's queue state word names the endpoint itself as the `dir` end. -/
def Named (db : mcapi_database) (dir : Direction) (p : Place) : Prop :=
  mcapi_trans_decode_handle (dir.handle (db.entry p).recv_queue.state) = some p

/-- A handle of the endpoint at `p` is the one to use for the `dir` end: nothing
is in its top byte, the endpoint is named as that end, and it is open. -/
def Usable (db : mcapi_database) (dir : Direction) (handle : ℕ) (p : Place) : Prop :=
  handle < 2 ^ 24 ∧ Named db dir p ∧ (db.entry p).state.opened = true

/-- The states in which a call treats its handle as it should. -/
def CallCond (s : ChannelState) (o : ChannelCall × Resources) : Prop :=
  match o.1 with
  | .create .. | .connect_i .. | .close_i .. | .test_recv _ => True
  -- the branch that completes the open at once is not taken for the other end
  | .open_i kind dir endpoint => ∀ p, mcapi_trans_decode_handle endpoint = some p →
      mcapi_trans_valid_endpoint s.db endpoint = true → o.2.request = true →
      (s.db.entry p).recv_queue.channel_type = kind.type →
      Named s.db dir p ∨ dir.opposite.handle (s.db.entry p).recv_queue.state = endpoint
  -- the request is not one for another kind or the other end
  | .test_open i => ∀ request p, s.opens[i]? = some request →
      mcapi_trans_decode_handle request.endpoint = some p →
      (s.db.entry p).state.connected = true →
      (s.db.entry p).recv_queue.channel_type = request.kind.type ∧ Named s.db request.dir p
  -- the assertion holds, and a call that is not refused was given the right handle
  | c => ∀ kind dir handle, c.side = some (kind, dir, handle) →
      (c.asserts = true → mcapi_trans_decode_handle handle ≠ none) ∧
      (c.engages s.db o.2 → ∀ p, mcapi_trans_decode_handle handle = some p →
        Usable s.db dir handle p)

/-! ## The recorded channels and the words of the endpoints -/

section

variable {s s' : ChannelState} {free : Resources} {outcome : Outcome} {kind : ChannelKind}
  {dir : Direction} {handle : ℕ} {p : Place}

/-- An endpoint of a channel is its `dir` end exactly if it is named as that. -/
theorem named_iff {l : Link} (hlinked : LinkedTo (s.db.entry p) l) :
    Named s.db dir p ↔ l.place dir = p := by
  unfold Named
  rw [hlinked.handle dir, Option.some.injEq]

theorem isEnd_iff (dir : Direction) (hs : ChannelInv s) (hdec : mcapi_trans_decode_handle handle = some p)
    {l : Link} (hl : l ∈ s.links) (hkind : l.kind = kind) (hlinked : LinkedTo (s.db.entry p) l) :
    IsEnd s kind dir handle ↔ Usable s.db dir handle p := by
  constructor
  · rintro ⟨l', hl', -, henc, hopen⟩
    have hplace : l'.place dir = p :=
      Option.some.inj ((mcapi_trans_decode_encode henc).symm.trans hdec)
    rw [hplace] at henc hopen
    have hlinked' := hs.linked l' hl' dir
    rw [hplace] at hlinked'
    exact ⟨(encode_of_decode hdec).mp henc, (named_iff hlinked').mpr hplace, hopen⟩
  · rintro ⟨hlt, hnamed, hopen⟩
    have hplace := (named_iff hlinked).mp hnamed
    refine ⟨l, hl, hkind, ?_, ?_⟩
    · rw [hplace]
      exact (encode_of_decode hdec).mpr hlt
    · rw [hplace]
      exact hopen

/-- The handle of an end of a channel is decoded, and the endpoint's type is the
channel's. -/
theorem IsEnd.decode (hs : ChannelInv s) (h : IsEnd s kind dir handle) :
    ∃ p, mcapi_trans_decode_handle handle = some p ∧
      (s.db.entry p).recv_queue.channel_type = kind.type := by
  obtain ⟨l, hl, hkind, henc, -⟩ := h
  refine ⟨_, mcapi_trans_decode_encode henc, ?_⟩
  rw [(hs.linked l hl dir).type, hkind]

theorem Undisturbed.rfl {db : mcapi_database} : Undisturbed db db := fun _ => Eq.refl _

/-- A call that changes nothing and reports an error treats every handle as it
should. -/
theorem HandleOk.of_refused (herror : outcome.reportsError = true) :
    HandleOk s s outcome kind dir handle :=
  ⟨fun _ _ _ _ _ _ => rfl, fun _ => ⟨herror, .rfl⟩⟩

/-- A call that went on to the queue of its target treats its handle as it should
exactly if it is the end the call is for. -/
theorem handleOk_iff_of_queued (hs : ChannelInv s) (s' : ChannelState)
    (hdec : mcapi_trans_decode_handle handle = some p) {target : Place} {l : Link}
    (hl : Engaged s kind dir p target l) {db' : mcapi_database}
    (hqueued : Queued s.db target db' outcome) (hdb : s'.db = db') :
    HandleOk s s' outcome kind dir handle ↔ Usable s.db dir handle p := by
  have hiff := isEnd_iff dir hs hdec hl.mem hl.kind hl.linked
  subst hdb
  constructor
  · intro hok
    by_contra hno
    obtain ⟨herror, hsame⟩ := hok.2 fun hend => hno (hiff.mp hend)
    exact hqueued.not_refused herror hsame
  · intro husable
    refine ⟨fun _ l' hl' henc q hq => ?_, fun hno => absurd (hiff.mpr husable) hno⟩
    -- the channel is unique, so the target is its receive end
    have hplace : l'.place dir = p :=
      Option.some.inj ((mcapi_trans_decode_encode henc).symm.trans hdec)
    have hlinked' := hs.linked l' hl' dir
    rw [hplace] at hlinked'
    have hsame := hl.linked.unique hlinked'
    have htarget := hl.target_recv ((hsame.2 dir).trans hplace)
    apply hqueued.elsewhere
    rw [htarget]
    intro heq
    exact hq (heq.trans (hsame.2 .recv))

/-! ## One call -/

/-- The calls that send or receive. -/
theorem side_ok_iff (hs : ChannelInv s) {c : ChannelCall}
    (hside : c.side = some (kind, dir, handle)) :
    (∃ s' outcome, s.call c free = some (s', outcome) ∧ HandleOk s s' outcome kind dir handle) ↔
      (c.asserts = true → mcapi_trans_decode_handle handle ≠ none) ∧
      (c.engages s.db free → ∀ p, mcapi_trans_decode_handle handle = some p →
        Usable s.db dir handle p) := by
  rcases side_call_cases hs free hside with ⟨hdec, ha, heq⟩ | ⟨ha, hno, out, heq, herror⟩ |
    ⟨heng, p, target, l, db', out, receives, hdec, hl, hqueued, -, heq⟩
  · rw [heq]
    refine iff_of_false ?_ fun h => h.1 ha hdec
    rintro ⟨s', out, h, -⟩
    cases h
  · rw [heq]
    refine iff_of_true ⟨s, out, rfl, .of_refused herror⟩ ⟨fun ht hdec => ?_, fun h => absurd h hno⟩
    rw [ha hdec] at ht
    cases ht
  · have hiff := handleOk_iff_of_queued hs { s with db := db', receives := receives } hdec hl
      hqueued rfl
    rw [heq]
    constructor
    · rintro ⟨s', out', h, hok⟩
      obtain ⟨rfl, rfl⟩ := Prod.mk.inj (Option.some.inj h)
      refine ⟨fun _ hnone => ?_, fun _ p' hp' => ?_⟩
      · rw [hdec] at hnone
        cases hnone
      · obtain rfl := Option.some.inj (hdec.symm.trans hp')
        exact hiff.mp hok
    · rintro ⟨-, husable⟩
      exact ⟨_, _, rfl, hiff.mpr (husable heng p hdec)⟩

/-- The check of the direction compares the handle stored for the other end. -/
theorem endpoint_eq (db : mcapi_database) (dir : Direction)
    (hdec : mcapi_trans_decode_handle handle = some p) :
    dir.endpoint db handle =
      some (!((db.entry p).state.connected &&
        dir.opposite.handle (db.entry p).recv_queue.state == handle)) := by
  cases dir with
  | send =>
    show mcapi_trans_send_endpoint db handle = _
    unfold mcapi_trans_send_endpoint
    rw [hdec]
    rfl
  | recv =>
    show mcapi_trans_recv_endpoint db handle = _
    unfold mcapi_trans_recv_endpoint
    rw [hdec]
    rfl

/-- Where an endpoint is connected, being the right one is a matter of its
words. -/
theorem isEndpoint_iff (kind : ChannelKind) (dir : Direction) (hs : ChannelInv s) (hdec : mcapi_trans_decode_handle handle = some p)
    (hconn : (s.db.entry p).state.connected = true) :
    IsEndpoint s kind dir handle ↔
      (s.db.entry p).recv_queue.channel_type = kind.type ∧ Named s.db dir p := by
  constructor
  · rintro ⟨l, hl, hkind, hplace⟩
    obtain rfl : p = l.place dir := Option.some.inj (hdec.symm.trans hplace)
    have hlinked := hs.linked l hl dir
    exact ⟨by rw [hlinked.type, hkind], (named_iff hlinked).mpr rfl⟩
  · rintro ⟨htype, hnamed⟩
    obtain ⟨l, hl, hkind, -, hlinked⟩ := hs.typed htype
    refine ⟨l, hl, hkind, ?_⟩
    rw [hdec, (named_iff hlinked).mp hnamed]

theorem isConnected_iff (hs : ChannelInv s) (hdec : mcapi_trans_decode_handle handle = some p) :
    IsConnected s handle ↔ (s.db.entry p).state.connected = true := by
  constructor
  · rintro ⟨l, hl, dir, hplace⟩
    obtain rfl : p = l.place dir := Option.some.inj (hdec.symm.trans hplace)
    exact (hs.linked l hl dir).connected
  · intro hconn
    obtain ⟨l, hl, dir, hplace⟩ := hs.owner p hconn
    exact ⟨l, hl, dir, by rw [hdec, hplace]⟩

theorem open_ok_iff (hs : ChannelInv s) :
    CallOk s (.open_i kind dir handle, free) ↔ CallCond s (.open_i kind dir handle, free) := by
  by_cases hacc : ∃ p, OpenAccepted s.db free kind dir handle p
  · obtain ⟨p, hp⟩ := hacc
    have hcall := call_open_accepted hp
    have hpossible := hp.possible
    rw [endpoint_eq s.db dir hp.decode, Option.some.injEq, Bool.not_eq_true'] at hpossible
    -- an accepted open is right unless the endpoint has the type but is the other end
    have hright : (IsConnected s handle → IsEndpoint s kind dir handle) ↔
        ((s.db.entry p).recv_queue.channel_type = kind.type → Named s.db dir p) := by
      rw [isConnected_iff hs hp.decode]
      constructor
      · intro h htype
        obtain ⟨l, hl, -, ⟨dir', hplace⟩, hlinked⟩ := hs.typed htype
        exact ((isEndpoint_iff kind dir hs hp.decode hlinked.connected).mp (h hlinked.connected)).2
      · intro h hconn
        rw [isEndpoint_iff kind dir hs hp.decode hconn]
        obtain ⟨l, hl, dir', hplace⟩ := hs.owner p hconn
        have hlinked := hs.linked l hl dir'
        rw [hplace] at hlinked
        have htype : (s.db.entry p).recv_queue.channel_type = kind.type := by
          apply kind.type_cases _ _ hp.type
          rw [hlinked.type]
          exact l.kind.type_ne_no
        exact ⟨htype, h htype⟩
    constructor
    · rintro ⟨s', outcome, heq, -, hwrong, -⟩ p' hp' - - htype
      obtain ⟨rfl, rfl⟩ := Prod.mk.inj (Option.some.inj (hcall.symm.trans heq))
      obtain rfl := Option.some.inj (hp.decode.symm.trans hp')
      refine .inl (hright.mp (fun hconn => ?_) htype)
      by_contra hno
      have herror := hwrong hconn hno
      rw [if_pos htype] at herror
      cases herror
    · intro hcond
      refine ⟨_, _, hcall, fun hv => ?_, fun hconn hno => ?_, fun q => ?_⟩
      · rw [hp.valid] at hv
        cases hv
      · refine absurd (hright.mpr (fun htype => ?_) hconn) hno
        rcases hcond p hp.decode hp.valid hp.request htype with hnamed | hother
        · exact hnamed
        · rw [(isConnected_iff hs hp.decode).mp hconn, hother, beq_self_eq_true] at hpossible
          cases hpossible
      · exact setState_pending s.db p q _
  · have hno := not_exists.mp hacc
    obtain ⟨status, request, heq, hne⟩ := call_open_rejected hno
    have herror : (Outcome.returned status request).reportsError = true := reportsError_of_ne hne
    refine iff_of_true ⟨s, _, heq, fun _ => herror, fun _ _ => herror, .rfl⟩ ?_
    intro p hdec hv hreq htype
    -- it was the direction that spoke against it
    right
    by_contra hother
    apply hno p
    refine ⟨hreq, hdec, hv, ?_, ?_⟩
    · rw [htype]
      exact kind.type_ne_other
    · rw [endpoint_eq s.db dir hdec, beq_eq_false_iff_ne.mpr hother, Bool.and_false, Bool.not_false]

theorem testOpen_ok_iff (hs : ChannelInv s) (i : ℕ) :
    CallOk s (.test_open i, free) ↔ CallCond s (.test_open i, free) := by
  rcases testOpen_cases hs i with ⟨hnone, heq⟩ | ⟨request, p, hsome, hdec, heq⟩
  · refine iff_of_true ⟨s, _, heq, fun request hrequest => ?_, .rfl⟩ fun request p hrequest => ?_
    · rw [hnone] at hrequest
      cases hrequest
    · rw [hnone] at hrequest
      cases hrequest
  · by_cases hconn : (s.db.entry p).state.connected = true
    · rw [if_pos hconn] at heq
      have hiff := isEndpoint_iff request.kind request.dir hs hdec hconn
      constructor
      · rintro ⟨s', outcome, h, hok, -⟩ request' p' hrequest hp' -
        obtain ⟨rfl, rfl⟩ := Prod.mk.inj (Option.some.inj (heq.symm.trans h))
        obtain rfl := Option.some.inj (hsome.symm.trans hrequest)
        obtain rfl := Option.some.inj (hdec.symm.trans hp')
        exact hiff.mp (hok request hsome rfl)
      · intro hcond
        refine ⟨_, _, heq, fun request' hrequest _ => ?_, .rfl⟩
        obtain rfl := Option.some.inj (hsome.symm.trans hrequest)
        exact hiff.mpr (hcond request p hsome hdec hconn)
    · rw [if_neg hconn] at heq
      refine iff_of_true ⟨_, _, heq, fun request' _ h => ?_, .rfl⟩ fun request' p' hr hp' hc => ?_
      · cases h
      · obtain rfl := Option.some.inj (hsome.symm.trans hr)
        obtain rfl := Option.some.inj (hdec.symm.trans hp')
        exact absurd hc hconn

theorem create_ok (hs : ChannelInv s) (d : Fin MCA_MAX_DOMAINS) (n : Fin MCA_MAX_NODES)
    (port_id : ℕ) : CallOk s (.create d n port_id, free) := by
  rcases call_create_cases hs free d n port_id with ⟨status, heq⟩ | ⟨me, i, -, hi, heq⟩
  · exact ⟨s, _, heq, .rfl⟩
  · refine ⟨_, _, heq, fun q => ?_⟩
    show ((created s.db me port_id i).entry q).recv_queue.pending = _
    rw [entry_created]
    by_cases hq : q = (me.dindex, me.nindex, i)
    · -- nothing was pending in the unused entry
      rw [if_pos hq, hq]
      exact (hs.empty _ hi).symm
    · rw [if_neg hq]

theorem connect_ok (s : ChannelState) (kind : ChannelKind) (send_endpoint receive_endpoint : ℕ) :
    CallOk s (.connect_i kind send_endpoint receive_endpoint, free) := by
  rcases call_connect_cases s free kind send_endpoint receive_endpoint
    with ⟨status, request, heq, -⟩ | ⟨sp, rp, -, heq⟩
  · exact ⟨s, _, heq, .rfl⟩
  · refine ⟨_, _, heq, fun q => ?_⟩
    show ((connectEnd (connectEnd s.db sp _ _) rp _ _).entry q).recv_queue.pending = _
    rw [entry_connect]
    by_cases hq : q = sp ∨ q = rp
    · rw [if_pos hq]
      rfl
    · rw [if_neg hq]

theorem close_ok (s : ChannelState) (kind : ChannelKind) (dir : Direction) (handle : ℕ) :
    CallOk s (.close_i kind dir handle, free) := by
  rcases call_close_cases s free kind dir handle
    with ⟨status, request, heq, -⟩ | ⟨p, -, heq⟩
  · exact ⟨s, _, heq, .rfl⟩
  · exact ⟨_, _, heq, fun q => setState_pending s.db p q _⟩

theorem testRecv_ok (hs : ChannelInv s) (i : ℕ) : CallOk s (.test_recv i, free) := by
  rcases testRecv_cases hs free i with ⟨status, request, heq⟩ | ⟨p, db', out, -, -, heq⟩
  · exact ⟨_, _, heq, trivial⟩
  · exact ⟨_, _, heq, trivial⟩

/-- In a state that satisfies the invariant the conditions are exact. -/
theorem call_ok_iff (hs : ChannelInv s) (o : ChannelCall × Resources) :
    CallOk s o ↔ CallCond s o := by
  obtain ⟨c, free⟩ := o
  cases c with
  | create d n port_id => exact iff_of_true (create_ok hs d n port_id) trivial
  | connect_i kind send_endpoint receive_endpoint =>
    exact iff_of_true (connect_ok s kind send_endpoint receive_endpoint) trivial
  | close_i kind dir handle => exact iff_of_true (close_ok s kind dir handle) trivial
  | test_recv i => exact iff_of_true (testRecv_ok hs i) trivial
  | open_i => exact open_ok_iff hs
  | test_open i => exact testOpen_ok_iff hs i
  | _ =>
    refine (side_ok_iff hs rfl).trans ⟨fun h kind dir handle hside => ?_, fun h => h _ _ _ rfl⟩
    obtain ⟨rfl, rfl, rfl⟩ := by simpa [ChannelCall.side] using hside
    exact h

end

/-! ## Runs -/

/-- **Channel handles.** In every state that calls reach from a database without
endpoints, the calls of a sequence treat their handles as they should exactly if
each of them is made in a state as `CallCond` describes it. -/
theorem channel_handles_iff {db : mcapi_database} (hdb : Unused db)
    (calls : List (ChannelCall × Resources)) (p : ChannelState × List Outcome)
    (hp : answers channelStep (.init db) calls = some p) (more : List (ChannelCall × Resources)) :
    AllSteps channelStep CallOk p.1 more ↔ AllSteps channelStep CallCond p.1 more :=
  allSteps_iff (fun _ _ _ _ hs _ hstep => call_inv hs hstep) (fun _ o hs => call_ok_iff hs o)
    more p.1 (reached_inv hdb hp)

/-! ## Runs on two endpoints -/

/-- The two endpoints are connected and opened, and a packet is sent. -/
theorem channel_handles_iff_send :
    ∃ p, answers channelStep (.init oneNode) twoEndpoints = some p ∧
      (AllSteps channelStep CallOk p.1
          [(.connect_i .pktchan 0 1, ample), (.open_i .pktchan .send 0, ample),
            (.pktchan_send 0 [7], ample)] ↔
        AllSteps channelStep CallCond p.1
          [(.connect_i .pktchan 0 1, ample), (.open_i .pktchan .send 0, ample),
            (.pktchan_send 0 [7], ample)]) := by
  obtain ⟨p, hp⟩ := Option.isSome_iff_exists.mp
    (by decide : (answers channelStep (.init oneNode) twoEndpoints).isSome = true)
  exact ⟨p, hp, channel_handles_iff oneNode_unused _ p hp _⟩

/-- A packet is sent on an end that was not opened; the process ends at a send
to a number that is no handle; and an endpoint opened to send, and connected as
the receive end after that, is reported to be open. -/
theorem channel_handles_mistaken :
    (∃ p, answers channelStep (.init oneNode)
        (twoEndpoints ++ [(.connect_i .pktchan 0 1, ample)]) = some p ∧
      ¬ CallOk p.1 (.pktchan_send 0 [7], ample)) ∧
    ¬ CallOk (.init oneNode) (.pktchan_send_i 0xff [7], ample) ∧
    (∃ p, answers channelStep (.init oneNode) (twoEndpoints ++
        [(.open_i .pktchan .send 1, ample), (.connect_i .pktchan 0 1, ample)]) = some p ∧
      ¬ CallOk p.1 (.test_open 0, ample)) := by
  refine ⟨?_, ?_, ?_⟩
  · obtain ⟨p, hp, hcheck⟩ := (Option.any_eq_true _ _).mp
      (by decide : (answers channelStep (.init oneNode)
          (twoEndpoints ++ [(.connect_i .pktchan 0 1, ample)])).any (fun p =>
        mcapi_trans_valid_pktchan_send_handle p.1.db 0 &&
          !(p.1.db.entry (0, 0, 0)).state.opened) = true)
    obtain ⟨hvalid, hopened⟩ := Bool.and_eq_true_iff.mp hcheck
    refine ⟨p, hp, fun hok => ?_⟩
    have hcond := (call_ok_iff (reached_inv oneNode_unused hp) _).mp hok
    have husable := (hcond _ _ _ rfl).2 ⟨hvalid, by decide, fun _ => rfl⟩ (0, 0, 0) rfl
    rw [husable.2.2] at hopened
    cases hopened
  · rintro ⟨s', outcome, hstep, -⟩
    cases hstep
  · obtain ⟨p, hp, hcheck⟩ := (Option.any_eq_true _ _).mp
      (by decide : (answers channelStep (.init oneNode) (twoEndpoints ++
          [(.open_i .pktchan .send 1, ample), (.connect_i .pktchan 0 1, ample)])).any (fun p =>
        p.1.opens[0]? = some ⟨.pktchan, .send, 1⟩ && (p.1.db.entry (0, 0, 1)).state.connected &&
          (p.1.db.entry (0, 0, 1)).recv_queue.state.send_endpt == 0) = true)
    obtain ⟨hrest, hsend⟩ := Bool.and_eq_true_iff.mp hcheck
    obtain ⟨hopens, hconn⟩ := Bool.and_eq_true_iff.mp hrest
    refine ⟨p, hp, fun hok => ?_⟩
    have hcond := (call_ok_iff (reached_inv oneNode_unused hp) _).mp hok
    have hnamed := (hcond _ (0, 0, 1) (of_decide_eq_true hopens) rfl hconn).2
    have hword : (p.1.db.entry (0, 0, 1)).recv_queue.state.send_endpt = 0 := beq_iff_eq.mp hsend
    change mcapi_trans_decode_handle (p.1.db.entry (0, 0, 1)).recv_queue.state.send_endpt = _
      at hnamed
    rw [hword] at hnamed
    exact absurd hnamed (by decide)

end MxApi.Channel
