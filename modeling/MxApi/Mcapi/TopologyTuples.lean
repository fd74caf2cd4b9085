/-
Whether a topology connects the endpoints that it names.

Both sides of a channel are handled under a triple: the local endpoint is created by the
calling node, the other is asked for with a request. The request of a channel whose
direction is sending names the tuple of its destination. That of a receiving one names the
destination as well, where it has to name the source; and a channel that is not the node's
own has the direction 0, which is sending, so that where its source is used by a channel of
the node an endpoint of the other node's port is created here. The topology is connected as
it says exactly where neither of the two makes a difference ([`tuples_right_iff`]).
-/
import MxApi.Mcapi.TopologyRun

set_option autoImplicit false

namespace MxApi.Topology

open Lib Attributes channel_type CallStatus mcapi_buffer_type mcapi_direction_t
  mcapi_chan_state_t RequestType

/-! ## What is expected -/

/-- The endpoint at a side of a channel. -/
def mcapi_config_t.side (config : mcapi_config_t) (i : ℕ) : Side → ℕ
  | .from_ep => (config.chan i).from_ep
  | .to_ep => (config.chan i).to_ep

/-- The triples under which endpoints were created and asked for are those of the channels'
tuples, and what was connected and opened was obtained under these. -/
structure Right (config : mcapi_config_t) (s : Frame) : Prop where
  named : ∀ x ∈ s.named, x.data = config.data (config.side x.chan x.side)
  joined : ∀ x ∈ s.joined,
    (x.send_endpoint, config.data (config.chan x.chan).from_ep) ∈ s.obtained ∧
    (x.receive_endpoint, config.data (config.chan x.chan).to_ep) ∈ s.obtained
  opened : ∀ x ∈ s.opened, (x.2, config.data (config.local x.1)) ∈ s.obtained

/-- The local endpoint of channel `i`, if one is created, is the calling node's, and a
receiving channel that asks for its source has a source with the tuple of its destination. -/
structure TuplesFit (me : Whoami) (config : mcapi_config_t) (i : ℕ) : Prop where
  creates : config.creates i = true →
    (config.data (config.local i)).domain = me.domain_id ∧
    (config.data (config.local i)).node = me.node_num
  asks : (config.chan i).direction = MCAPI_RECV_DIRECTION → config.asks i = true →
    config.data (config.chan i).from_ep = config.data (config.chan i).to_ep

instance (me : Whoami) (config : mcapi_config_t) (i : ℕ) : Decidable (TuplesFit me config i) :=
  decidable_of_iff
    ((config.creates i = true → (config.data (config.local i)).domain = me.domain_id ∧
        (config.data (config.local i)).node = me.node_num) ∧
      ((config.chan i).direction = MCAPI_RECV_DIRECTION → config.asks i = true →
        config.data (config.chan i).from_ep = config.data (config.chan i).to_ep))
    ⟨fun h => ⟨h.1, h.2⟩, fun h => ⟨h.1, h.2⟩⟩

section

variable {E : Surroundings} {me : Whoami} {timeout fuel : ℕ} {config : mcapi_config_t}
  {db : mcapi_database} {attributes : Place → Entries} {free : ℕ} {s : Frame} {i : ℕ}

/-! ## The triples of a channel -/

theorem mcapi_config_t.side_remote : config.side i (config.remoteSide i) = config.remote i := by
  unfold mcapi_config_t.remoteSide mcapi_config_t.remote
  cases (config.chan i).direction <;> rfl

theorem mcapi_config_t.side_local : config.side i (config.localSide i) = config.local i := by
  unfold mcapi_config_t.localSide mcapi_config_t.local
  cases (config.chan i).direction <;> rfl

theorem createdTuple_eq_iff : config.createdTuple me i = config.data (config.local i) ↔
    (config.data (config.local i)).domain = me.domain_id ∧
    (config.data (config.local i)).node = me.node_num := by
  unfold mcapi_config_t.createdTuple
  constructor
  · intro h
    rw [← h]
    exact ⟨rfl, rfl⟩
  · rintro ⟨hdomain, hnode⟩
    rw [← hdomain, ← hnode]

/-- A sending channel asks for the right endpoint, a receiving one if it makes no
difference. -/
theorem requestTuple_eq_iff : config.requestTuple i = config.data (config.remote i) ↔
    ((config.chan i).direction = MCAPI_RECV_DIRECTION →
      config.data (config.chan i).from_ep = config.data (config.chan i).to_ep) := by
  unfold mcapi_config_t.requestTuple mcapi_config_t.remote
  cases (config.chan i).direction with
  | MCAPI_SEND_DIRECTION => simp
  | MCAPI_RECV_DIRECTION =>
    constructor
    · intro h _
      exact h.symm
    · intro h
      exact (h rfl).symm

theorem TuplesFit.known (h : ∀ i, i < config.nchans → TuplesFit me config i) :
    Known me config (fun k t => t = config.data k) where
  creates i hi hc := createdTuple_eq_iff.mpr ((h i hi).creates hc)
  asks i hi ha := requestTuple_eq_iff.mpr fun hd => (h i hi).asks hd ha

/-! ## The result -/

theorem Joining.handle_mem {k hd : ℕ} (h : HandleOf (fun k t => t = config.data k) s k hd) :
    (hd, config.data k) ∈ s.obtained := by
  obtain ⟨t, rfl, hmem⟩ := h
  exact hmem

/-- **A topology is connected as it says** exactly if every created endpoint is the calling
node's and every receiving channel names its source. -/
theorem tuples_right_iff (hfresh : Fresh config)
    (hrun : mcapi_trans_connect E me timeout fuel config (Frame.start db attributes config free) =
      some s) :
    Right config s ↔ ∀ i, i < config.nchans → TuplesFit me config i := by
  constructor
  · intro hright i hi
    -- every channel has left what it named, since all requests were made
    obtain ⟨-, s₂, -, -, -, hdone, hn, hjoining⟩ := connect_some (W := fun _ _ => True)
      ⟨fun _ _ _ => trivial, fun _ _ _ => trivial⟩ hfresh hrun
    constructor
    · intro hc
      have hmem := (hdone.created i hi hc).1
      rw [← hjoining.named] at hmem
      have hdata := hright.named _ hmem
      dsimp only [mcapi_config_t.localNamed] at hdata
      rw [mcapi_config_t.side_local] at hdata
      exact createdTuple_eq_iff.mp hdata
    · intro hdir ha
      have hmem := (hdone.all_done hn hi ha).1
      rw [← hjoining.named] at hmem
      have hdata := hright.named _ hmem
      dsimp only [mcapi_config_t.remoteNamed] at hdata
      rw [mcapi_config_t.side_remote] at hdata
      exact requestTuple_eq_iff.mp hdata hdir
  · intro hfit
    have hknown := TuplesFit.known hfit
    obtain ⟨-, s₂, -, -, -, hdone, -, hjoining⟩ := connect_some hknown hfresh hrun
    refine ⟨fun x hx => ?_, fun x hx => ?_, fun x hx => ?_⟩
    · rw [hjoining.named] at hx
      obtain ⟨i, hi, ⟨hc, rfl⟩ | ⟨-, ha, rfl⟩⟩ := hdone.named x hx
      · dsimp only [mcapi_config_t.localNamed]
        rw [mcapi_config_t.side_local]
        exact hknown.creates i hi hc
      · dsimp only [mcapi_config_t.remoteNamed]
        rw [mcapi_config_t.side_remote]
        exact hknown.asks i hi ha
    · have hjoined := hjoining.joined x hx
      exact ⟨Joining.handle_mem hjoined.send, Joining.handle_mem hjoined.receive⟩
    · exact Joining.handle_mem (hjoining.opened x hx)

end

/-! ## One channel between two nodes -/

/-- A valid endpoint with a port, the end of a packet channel. -/
def pairEndpoint (port : ℕ) : endpoint_entry :=
  ⟨false, ⟨port, true, true, true⟩, 0, ⟨MCAPI_PKT_CHAN, ⟨0, 0⟩, []⟩⟩

/-- A node of the domain 1 with one endpoint, or with none yet. -/
def pairNode (node_num port count : ℕ) : mcapi_node_entry :=
  ⟨⟨node_num, true, true, false⟩, count,
    fun e => if e < count then pairEndpoint port else .zero, 0⟩

/-- Node 1 with `count` endpoints of port 10, node 2 with an endpoint of port 20. -/
def pairDatabase (count : ℕ) : mcapi_database :=
  ⟨fun d => if d = 0 then
      ⟨2, ⟨1, true, true⟩,
        fun n => if n = 0 then pairNode 1 10 count else if n = 1 then pairNode 2 20 1 else .zero⟩
    else ⟨0, ⟨0, false, false⟩, fun _ => .zero⟩⟩

/-- Both endpoints are there whenever they are looked for. -/
def pairSurroundings : Surroundings where
  lookups _ _ := pairDatabase 1
  attributes _ _ := fun a => ⟨true, a, if a = MCAPI_ENDP_ATTR_NUM_SEND_BUFFERS then 66 else 0⟩
  channels _ _ := pairDatabase 1

/-- Node 1 with the endpoint 0, and node 2 with the endpoint 1. -/
def pairEndpoints (k : ℕ) : mcapi_endpoint_cfg_t :=
  { valid := false, endpoint := 2 ^ 32 - 1, name := [], initialized := true, index := k + 1,
    tuple := k }

/-- The channel leads from endpoint `from_ep` to endpoint `to_ep`. -/
def pairConfig (direction : mcapi_direction_t) (from_ep to_ep : ℕ) : mcapi_config_t where
  nep := 2
  nchans := 1
  tuple k := if k = 0 then ⟨true, 0, ⟨1, 1, 10⟩⟩ else ⟨false, 1, ⟨1, 2, 20⟩⟩
  endpoint := pairEndpoints
  chan _ :=
    { valid := false, state := MCAPI_INVALID_STATE, request := none, handle := 0, name := []
      type := MCAPI_PKT_CHAN, buffer_type := MCAPI_ENDP_ATTR_FIFO_BUFFER, buffer_length := 66
      index := 1, parent := none, direction := direction, from_ep := from_ep, to_ep := to_ep }
  link _ := ⟨[], 0, 0, 0⟩

/-- Node 1 connects the channel. -/
def pairConnect (direction : mcapi_direction_t) (from_ep to_ep : ℕ) : Option Frame :=
  mcapi_trans_connect pairSurroundings ⟨1, 0, 1, 0⟩ 10 10 (pairConfig direction from_ep to_ep)
    (Frame.start (pairDatabase 0) (fun _ => .zero) (pairConfig direction from_ep to_ep) 1023)

theorem pair_fresh (direction : mcapi_direction_t) (from_ep to_ep : ℕ) :
    Fresh (pairConfig direction from_ep to_ep) :=
  ⟨fun _ => rfl, fun _ => rfl, fun _ => rfl⟩

/-- The sending node joins the two configured endpoints. -/
theorem sender_tuples_right : ∃ s, pairConnect MCAPI_SEND_DIRECTION 0 1 = some s ∧
    Right (pairConfig MCAPI_SEND_DIRECTION 0 1) s := by
  have hrun : (pairConnect MCAPI_SEND_DIRECTION 0 1).isSome = true := by decide +kernel
  obtain ⟨s, hs⟩ := Option.isSome_iff_exists.mp hrun
  refine ⟨s, hs, (tuples_right_iff (pair_fresh _ _ _) hs).mpr ?_⟩
  intro i hi
  obtain rfl : i = 0 := Nat.lt_one_iff.mp hi
  decide +kernel

/-- The receiving node asks for its own endpoint, and connects it with itself. -/
theorem receiver_tuples_crossed : ∃ s, pairConnect MCAPI_RECV_DIRECTION 1 0 = some s ∧
    s.rc = true ∧ s.joined = [⟨0, 0, 0⟩] ∧ ¬ Right (pairConfig MCAPI_RECV_DIRECTION 1 0) s := by
  have hrun : (pairConnect MCAPI_RECV_DIRECTION 1 0).map
      (fun s => (s.rc, s.joined, s.named)) =
      some (true, [⟨0, 0, 0⟩], [⟨0, .from_ep, ⟨1, 1, 10⟩⟩, ⟨0, .to_ep, ⟨1, 1, 10⟩⟩]) := by
    decide +kernel
  obtain ⟨s, hs, hfields⟩ := Option.map_eq_some_iff.mp hrun
  obtain ⟨hrc, hjoined, hnamed⟩ : s.rc = true ∧ s.joined = [⟨0, 0, 0⟩] ∧
      s.named = [⟨0, .from_ep, ⟨1, 1, 10⟩⟩, ⟨0, .to_ep, ⟨1, 1, 10⟩⟩] := by
    simpa only [Prod.mk.injEq] using hfields
  refine ⟨s, hs, hrc, hjoined, fun hright => ?_⟩
  have hdata := hright.named ⟨0, .from_ep, ⟨1, 1, 10⟩⟩ (by rw [hnamed]; exact List.mem_cons_self)
  exact absurd hdata (by decide +kernel)

end MxApi.Topology
