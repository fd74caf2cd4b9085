/-
What holds of the endpoints in every state that the channel calls reach: which
of them are connected, and what the words of the two ends of a channel hold.

Only creating an endpoint and connecting two of them change the wiring of the
endpoints, that is, all of their entries but the flag `open` and the pending
messages. So an invariant of the wiring is preserved by the other calls once
and for all ([`ChannelInv.keep`]).
-/
import MxApi.Mcapi.Channel

set_option autoImplicit false

namespace MxApi.Channel

open Lib channel_type CallStatus

/-! ## Handles and channel types -/

/-- A handle is the one its endpoint is encoded to if its top byte is zero. -/
theorem encode_of_decode {handle : ℕ} {p : Place}
    (h : mcapi_trans_decode_handle handle = some p) :
    mcapi_trans_encode_handle p.1 p.2.1 p.2.2 = some handle ↔ handle < 2 ^ 24 := by
  have hr := mcapi_trans_decode_inRange h
  rw [mcapi_trans_decode_handle_eq] at h
  split at h
  · obtain rfl := Option.some.inj h
    rw [mcapi_trans_encode_handle_of_inRange hr, Option.some.injEq]
    show 65536 * (handle / 65536 % 256) + 256 * (handle / 256 % 256) + handle % 256 = handle ↔ _
    constructor <;> intro hlt <;> omega
  · cases h

theorem ChannelKind.type_ne_no (kind : ChannelKind) : kind.type ≠ MCAPI_NO_CHAN := by
  cases kind <;> decide

theorem ChannelKind.type_ne_other (kind : ChannelKind) : kind.type ≠ kind.other.type := by
  cases kind <;> decide

theorem ChannelKind.type_inj {kind kind' : ChannelKind} (h : kind.type = kind'.type) :
    kind = kind' := by
  cases kind <;> cases kind' <;> first | rfl | cases h

theorem ChannelKind.type_cases (kind : ChannelKind) (type : channel_type)
    (hno : type ≠ MCAPI_NO_CHAN) (hother : type ≠ kind.other.type) : type = kind.type := by
  cases kind <;> cases type <;> first | rfl | exact absurd rfl hno | exact absurd rfl hother

/-! ## Entries -/

section

variable (db : mcapi_database) (p q : Place)

theorem entry_setState (w : endpoint_state) :
    (db.setState p w).entry q = if q = p then { db.entry p with state := w } else db.entry q :=
  db.entry_setEntry p q _

theorem entry_setPending (pending : List Message) :
    (setPending db p pending).entry q =
      if q = p then
        { db.entry p with recv_queue := { (db.entry p).recv_queue with pending := pending } }
      else db.entry q :=
  db.entry_setEntry p q _

/-- What a connect leaves in one entry. -/
def connectedEntry (v : endpoint_entry) (type : channel_type) (w : queue_state) : endpoint_entry :=
  { v with
    state := { v.state with connected := true }
    recv_queue := { v.recv_queue with channel_type := type, state := w } }

theorem entry_connectEnd (type : channel_type) (w : queue_state) :
    (connectEnd db p type w).entry q =
      if q = p then connectedEntry (db.entry p) type w else db.entry q := by
  unfold connectEnd
  simp only [mcapi_database.setType, mcapi_database.setQueueState, entry_setState,
    mcapi_database.entry_setEntry, if_pos]
  by_cases h : q = p
  · subst h
    simp only [if_pos]
    rfl
  · simp only [if_neg h]

/-- The number of endpoints of the nodes, which only creating one changes. -/
theorem num_setEntry (v : endpoint_entry) (d n : ℕ) :
    ((db.setEntry p v).node d n).num_endpoints = (db.node d n).num_endpoints := by
  unfold mcapi_database.setEntry mcapi_database.setEndpoint
  by_cases h : d = p.1 ∧ n = p.2.1
  · obtain ⟨rfl, rfl⟩ := h
    rw [mcapi_database.setNode_self]
  · rw [mcapi_database.setNode_of_ne _ h]

theorem num_connectEnd (type : channel_type) (w : queue_state) (d n : ℕ) :
    ((connectEnd db p type w).node d n).num_endpoints = (db.node d n).num_endpoints := by
  unfold connectEnd mcapi_database.setState mcapi_database.setQueueState mcapi_database.setType
  simp only [num_setEntry]

end

/-! ## The invariant -/

/-- The handle a queue's state word holds of one end. -/
def Direction.handle : Direction → queue_state → ℕ
  | send => queue_state.send_endpt
  | recv => queue_state.recv_endpt

/-- The entry is that of an end of the channel. -/
structure LinkedTo (v : endpoint_entry) (l : Link) : Prop where
  valid : v.state.valid = true
  connected : v.state.connected = true
  type : v.recv_queue.channel_type = l.kind.type
  handle : ∀ dir : Direction,
    mcapi_trans_decode_handle (dir.handle v.recv_queue.state) = some (l.place dir)

/-- What a call other than a create or a connect leaves as it is. -/
structure SameWiring (v w : endpoint_entry) : Prop where
  valid : w.state.valid = v.state.valid
  connected : w.state.connected = v.state.connected
  type : w.recv_queue.channel_type = v.recv_queue.channel_type
  state : w.recv_queue.state = v.recv_queue.state

theorem SameWiring.rfl {v : endpoint_entry} : SameWiring v v := ⟨Eq.refl _, Eq.refl _, Eq.refl _,
  Eq.refl _⟩

theorem LinkedTo.keep {v w : endpoint_entry} {l : Link} (h : LinkedTo v l)
    (hw : SameWiring v w) : LinkedTo w l where
  valid := hw.valid.trans h.valid
  connected := hw.connected.trans h.connected
  type := hw.type.trans h.type
  handle dir := by rw [hw.state]; exact h.handle dir

structure ChannelInv (s : ChannelState) : Prop where
  /-- Both ends of a channel know it. -/
  linked : ∀ l ∈ s.links, ∀ dir, LinkedTo (s.db.entry (l.place dir)) l
  /-- A connected endpoint is an end of a channel. -/
  owner : ∀ p, (s.db.entry p).state.connected = true → ∃ l ∈ s.links, ∃ dir, l.place dir = p
  /-- An endpoint that is not connected has no type, and its words are zero. -/
  unconnected : ∀ p, (s.db.entry p).state.connected = false →
    (s.db.entry p).recv_queue.channel_type = MCAPI_NO_CHAN ∧
      (s.db.entry p).recv_queue.state = ⟨0, 0⟩
  /-- Nothing is pending where there is no endpoint. -/
  empty : ∀ p, (s.db.entry p).state.valid = false → (s.db.entry p).recv_queue.pending = []
  num_le : ∀ d n, (s.db.node d n).num_endpoints ≤ MCAPI_MAX_ENDPOINTS
  opens : ∀ o ∈ s.opens, ∃ p, mcapi_trans_decode_handle o.endpoint = some p
  receives : ∀ h ∈ s.receives, ∃ p, mcapi_trans_decode_handle h = some p

theorem ChannelInv.init {db : mcapi_database} (h : Unused db) : ChannelInv (.init db) where
  linked := nofun
  owner p hp := by
    have hz : db.entry p = .zero := (h p.1 p.2.1).2 p.2.2
    simp only [ChannelState.init, hz, endpoint_entry.zero] at hp
    cases hp
  unconnected p _ := by
    have hz : db.entry p = .zero := (h p.1 p.2.1).2 p.2.2
    simp only [ChannelState.init, hz, endpoint_entry.zero, recv_queue.zero, and_self]
  empty p _ := by
    have hz : db.entry p = .zero := (h p.1 p.2.1).2 p.2.2
    simp only [ChannelState.init, hz, endpoint_entry.zero, recv_queue.zero]
  num_le d n := by
    rw [ChannelState.init, (h d n).1]
    exact Nat.zero_le _
  opens := nofun
  receives := nofun

section

variable {s s' : ChannelState}

/-- The links with their sides closed or opened are the same channels. -/
def SameLinks (ls ls' : List Link) : Prop :=
  ∃ f : Link → Link, ls' = ls.map f ∧
    ∀ l, (f l).kind = l.kind ∧ ∀ dir, (f l).place dir = l.place dir

theorem SameLinks.rfl {ls : List Link} : SameLinks ls ls :=
  ⟨id, (List.map_id ls).symm, fun _ => ⟨Eq.refl _, fun _ => Eq.refl _⟩⟩

theorem SameLinks.noteOpen (ls : List Link) (p : Place) :
    SameLinks ls (ls.map (·.noteOpen p)) :=
  ⟨_, Eq.refl _, fun _ => ⟨Eq.refl _, fun dir => by cases dir <;> exact Eq.refl _⟩⟩

theorem SameLinks.noteClose (ls : List Link) (dir : Direction) (p : Place) :
    SameLinks ls (ls.map (·.noteClose dir p)) :=
  ⟨_, Eq.refl _, fun _ => ⟨Eq.refl _, fun dir => by cases dir <;> exact Eq.refl _⟩⟩

/-- Calls that leave the wiring as it is preserve the invariant. -/
theorem ChannelInv.keep (hs : ChannelInv s)
    (hlinks : SameLinks s.links s'.links)
    (hwiring : ∀ p, SameWiring (s.db.entry p) (s'.db.entry p))
    (hempty : ∀ p, (s.db.entry p).state.valid = false →
      (s'.db.entry p).recv_queue.pending = [])
    (hnum : ∀ d n, (s'.db.node d n).num_endpoints = (s.db.node d n).num_endpoints)
    (hopens : ∀ o ∈ s'.opens, ∃ p, mcapi_trans_decode_handle o.endpoint = some p)
    (hreceives : ∀ h ∈ s'.receives, ∃ p, mcapi_trans_decode_handle h = some p) :
    ChannelInv s' where
  linked l hl dir := by
    obtain ⟨f, hf, hsame⟩ := hlinks
    rw [hf] at hl
    obtain ⟨l₀, hl₀, rfl⟩ := List.mem_map.mp hl
    rw [(hsame l₀).2 dir]
    have h₀ := (hs.linked l₀ hl₀ dir).keep (hwiring _)
    exact ⟨h₀.valid, h₀.connected, by rw [(hsame l₀).1]; exact h₀.type,
      fun dir' => by rw [(hsame l₀).2 dir']; exact h₀.handle dir'⟩
  owner p hp := by
    obtain ⟨f, hf, hsame⟩ := hlinks
    rw [(hwiring p).connected] at hp
    obtain ⟨l, hl, dir, hplace⟩ := hs.owner p hp
    refine ⟨f l, ?_, dir, ((hsame l).2 dir).trans hplace⟩
    rw [hf]
    exact List.mem_map_of_mem hl
  unconnected p hp := by
    rw [(hwiring p).connected] at hp
    rw [(hwiring p).type, (hwiring p).state]
    exact hs.unconnected p hp
  empty p hp := by
    rw [(hwiring p).valid] at hp
    exact hempty p hp
  num_le d n := by
    rw [hnum]
    exact hs.num_le d n
  opens := hopens
  receives := hreceives

/-- An endpoint with a channel type is an end of a channel of that kind. -/
theorem ChannelInv.typed (hs : ChannelInv s) {p : Place} {kind : ChannelKind}
    (h : (s.db.entry p).recv_queue.channel_type = kind.type) :
    ∃ l ∈ s.links, l.kind = kind ∧ (∃ dir, l.place dir = p) ∧ LinkedTo (s.db.entry p) l := by
  have hconn : (s.db.entry p).state.connected = true := by
    by_contra hno
    have hun := (hs.unconnected p (Bool.eq_false_iff.mpr hno)).1
    rw [h] at hun
    exact kind.type_ne_no hun
  obtain ⟨l, hl, dir, rfl⟩ := hs.owner p hconn
  have hlinked := hs.linked l hl dir
  have hkind : l.kind = kind := ChannelKind.type_inj (hlinked.type.symm.trans h)
  exact ⟨l, hl, hkind, ⟨dir, rfl⟩, hlinked⟩

/-- Two channels that an endpoint is linked to have the same kind and the same
ends. -/
theorem LinkedTo.unique {v : endpoint_entry} {l l' : Link} (h : LinkedTo v l)
    (h' : LinkedTo v l') : l.kind = l'.kind ∧ ∀ dir, l.place dir = l'.place dir := by
  refine ⟨ChannelKind.type_inj (h.type.symm.trans h'.type), fun dir => ?_⟩
  have hd := h.handle dir
  rw [h'.handle dir] at hd
  exact (Option.some.inj hd).symm

/-- The receive endpoint that a send goes to is always decoded. -/
theorem ChannelInv.recv_endpt (hs : ChannelInv s) (p : Place) :
    ∃ rp, mcapi_trans_decode_handle (s.db.entry p).recv_queue.state.recv_endpt = some rp := by
  by_cases h : (s.db.entry p).state.connected = true
  · obtain ⟨l, hl, dir, rfl⟩ := hs.owner p h
    exact ⟨_, (hs.linked l hl dir).handle .recv⟩
  · rw [(hs.unconnected p (Bool.eq_false_iff.mpr h)).2]
    exact ⟨(0, 0, 0), by decide⟩

end

end MxApi.Channel
