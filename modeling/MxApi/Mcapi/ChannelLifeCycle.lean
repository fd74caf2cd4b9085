/-
The life cycle of a channel: connected, opened at both ends, closed at both
ends.

The documentation of the close calls says that a channel is disconnected when
its second side is closed, and that what is pending is discarded when the
receive side is closed. The calls only clear the flag `open` of their endpoint.
What a connect wrote is not written by any other call ([`ChannelInv`]), so in
every state that is reached, both ends of every channel are still connected, and
the property holds exactly as long as no channel has been closed at both ends.
-/
import MxApi.Mcapi.ChannelStep

set_option autoImplicit false

namespace MxApi.Channel

open Lib channel_type CallStatus

/-! ## What is expected of a closed channel -/

/-- Both sides were closed and have not been opened again. -/
def Link.closed (l : Link) : Prop := l.sendClosed = true ∧ l.recvClosed = true

instance (l : Link) : Decidable l.closed := by
  unfold Link.closed; exact inferInstance

/-- The entry of an endpoint as it was created. -/
def freshEntry (v : endpoint_entry) : endpoint_entry :=
  { v with
    recv_queue := .zero
    state := { v.state with opened := false, connected := false } }

/-- The database with both ends of the channel as they were created. -/
def freshened (db : mcapi_database) (l : Link) : mcapi_database :=
  let db := db.setEntry l.send (freshEntry (db.entry l.send))
  db.setEntry l.recv (freshEntry (db.entry l.recv))

/-- Both ends of the channel are free again. -/
structure Released (db : mcapi_database) (l : Link) : Prop where
  unconnected : ∀ dir, (db.entry (l.place dir)).state.connected = false
  closed : ∀ dir, (db.entry (l.place dir)).state.opened = false
  no_type : ∀ dir, (db.entry (l.place dir)).recv_queue.channel_type = MCAPI_NO_CHAN
  no_packets : ∀ dir, (db.entry (l.place dir)).recv_queue.pending = []
  /-- Every connect is answered as if they had just been created. -/
  reconnect : ∀ kind send_endpoint receive_endpoint free,
    (connect_i db kind send_endpoint receive_endpoint free).map (·.2) =
      (connect_i (freshened db l) kind send_endpoint receive_endpoint free).map (·.2)

/-- The ends of every channel closed at both sides are free again. -/
def LifeCycleOk (s : ChannelState) : Prop := ∀ l ∈ s.links, l.closed → Released s.db l

/-! ## What is left of a channel -/

section

variable {s : ChannelState} {l : Link}

/-- Neither end of a channel is ever free again. -/
theorem not_released (hs : ChannelInv s) (hl : l ∈ s.links) : ¬ Released s.db l := by
  intro hfree
  have hconn := hfree.unconnected .send
  rw [(hs.linked l hl .send).connected] at hconn
  cases hconn

end

/-! ## Runs -/

/-- **The life cycle of channels.** In every state that calls reach from a
database without endpoints, the ends of the channels closed at both sides are
free again exactly if there is no such channel. -/
theorem channel_life_cycle_iff {db : mcapi_database} (hdb : Unused db)
    (calls : List (ChannelCall × Resources)) (p : ChannelState × List Outcome)
    (hp : answers channelStep (.init db) calls = some p) :
    LifeCycleOk p.1 ↔ ∀ l ∈ p.1.links, ¬ l.closed := by
  have hs := reached_inv hdb hp
  constructor
  · intro hok l hl hclosed
    exact not_released hs hl (hok l hl hclosed)
  · intro hno l hl hclosed
    exact absurd hclosed (hno l hl)

/-- Two endpoints are connected and opened, a packet is sent, and both sides are
closed. -/
def openAndClose : List (ChannelCall × Resources) :=
  twoEndpoints ++
    [(.connect_i .pktchan 0 1, ample), (.open_i .pktchan .send 0, ample),
      (.open_i .pktchan .recv 1, ample), (.pktchan_send 0 [7], ample),
      (.close_i .pktchan .recv 1, ample), (.close_i .pktchan .send 0, ample)]

theorem channel_life_cycle_iff_close :
    ∃ p, answers channelStep (.init oneNode) openAndClose = some p ∧
      (LifeCycleOk p.1 ↔ ∀ l ∈ p.1.links, ¬ l.closed) := by
  obtain ⟨p, hp⟩ := Option.isSome_iff_exists.mp
    (by decide : (answers channelStep (.init oneNode) openAndClose).isSome = true)
  exact ⟨p, hp, channel_life_cycle_iff oneNode_unused _ p hp⟩

/-- After that both ends are connected as before, the packet is pending, and a
connect is refused. -/
theorem channel_stays_connected :
    ∃ p, answers channelStep (.init oneNode) openAndClose = some p ∧ ¬ LifeCycleOk p.1 ∧
      (p.1.db.entry (0, 0, 1)).recv_queue.pending ≠ [] ∧
      (connect_i p.1.db .sclchan 0 1 ample).map (·.2) =
        some (.returned MCAPI_ERR_CHAN_CONNECTED (.completed MCAPI_ERR_CHAN_CONNECTED)) := by
  obtain ⟨p, hp, hcheck⟩ := (Option.any_eq_true _ _).mp
    (by decide : (answers channelStep (.init oneNode) openAndClose).any (fun p =>
      p.1.links.any (fun l => decide l.closed) &&
        decide ((p.1.db.entry (0, 0, 1)).recv_queue.pending ≠ []) &&
        decide ((connect_i p.1.db .sclchan 0 1 ample).map (·.2) =
          some (.returned MCAPI_ERR_CHAN_CONNECTED (.completed MCAPI_ERR_CHAN_CONNECTED)))) = true)
  obtain ⟨hrest, hconnect⟩ := Bool.and_eq_true_iff.mp hcheck
  obtain ⟨hclosed, hpending⟩ := Bool.and_eq_true_iff.mp hrest
  obtain ⟨l, hl, hlclosed⟩ := List.any_eq_true.mp hclosed
  refine ⟨p, hp, fun hok => ?_, of_decide_eq_true hpending, of_decide_eq_true hconnect⟩
  exact not_released (reached_inv oneNode_unused hp) hl (hok l hl (of_decide_eq_true hlclosed))

end MxApi.Channel
