/-
Releasing packets (`mcapi_trans_pktchan_free` of `Fragments/transport_sm_pktchan_abb.c`,
`mcapi_trans_free_buffer` of `transport_sm_abb.c`, and `mcapi_pktchan_release` of
`mcapi_abb.c`) while others send and receive.

Any number of endpoints share the pool of buffers. On each of them any number of clients
send and receive, on FIFO buffers and on state buffers, and any number of threads release
packets, all in atomic steps. The pointer of a packet is the index of its buffer.

A release looks at the marker. `MAGIC_NUM` makes it give the buffer back to the pool, by an
exchange of whatever it reads then; with any other marker it tries to give the buffer back
to the entry that `parent` points to, and reports success in any case. Nothing else is
checked. Recorded beside the memory are the packets that receivers hold, and for each
release that returned the memory before its last step.
-/
import MxApi.Mcapi.FifoInvariant
import MxApi.Mcapi.StateExchange

set_option autoImplicit false

namespace MxApi.PacketRelease

open Lib channel_type mcapi_buffer_state mcapi_status_t

/-! ## Memory -/

/-- The queues of the endpoints and the pool. `home i` is the endpoint whose entry
`parent` of buffer `i` points to, and `held` are the packets that were handed out and not
yet released. -/
structure Memory (ε : Type) where
  queues : ε → queue
  buffers : ℕ → buffer_entry
  home : ℕ → ε
  held : ℕ → Bool

namespace Memory

variable {ε : Type} [DecidableEq ε] (mem : Memory ε)

/-- What the clients of endpoint `e` share. -/
def shared (e : ε) : Shared := ⟨mem.queues e, mem.buffers⟩

def setShared (e : ε) (sh : Shared) : Memory ε :=
  { mem with queues := Function.update mem.queues e sh.q, buffers := sh.buffers }

/-- A client of endpoint `e` sets `parent` of the buffer, if there is one. -/
def setHome (e : ε) (i : Option ℕ) : Memory ε :=
  match i with
  | some i => { mem with home := Function.update mem.home i e }
  | none => mem

/-- A packet is handed out. -/
def hand (d : Option Delivery) : Memory ε :=
  match d with
  | some ⟨_, .packet i⟩ => { mem with held := Function.update mem.held i true }
  | _ => mem

/-- A packet was released with success. -/
def drop (i : ℕ) : Memory ε := { mem with held := Function.update mem.held i false }

end Memory

/-! ## `mcapi_trans_pktchan_free` -/

/-- Where a release stands. -/
inductive FreePc (ε : Type)
  | idle
  /-- `mrapi_atomic_read` of the marker -/
  | readMarker (i : ℕ)
  /-- `mcapi_trans_free_buffer` reads the marker -/
  | freeRead (i : ℕ)
  /-- `mcapi_trans_free_buffer` exchanges the marker that it read for `0` -/
  | freeCas (i oldnum : ℕ)
  /-- `parent` is read -/
  | readParent (i : ℕ)
  /-- the exchange `BUFFER_RECEIVED` to `BUFFER_ALLOCATED` on the entry -/
  | casEntry (i : ℕ) (e : ε) (qindex : ℕ)

section

variable {ε : Type} [DecidableEq ε]

/-- One atomic step of a release: the memory it leaves, where it stands then, and the
buffer and the result if it returns. -/
def freeProgram (mem : Memory ε) : FreePc ε → Memory ε × FreePc ε × Option (ℕ × Bool)
  | .idle => (mem, .idle, none)
  | .readMarker i =>
    if (mem.buffers i).magic_num = MAGIC_NUM then (mem, .freeRead i, none)
    else (mem, .readParent i, none)
  | .freeRead i => (mem, .freeCas i (mem.buffers i).magic_num, none)
  | .freeCas i oldnum =>
    if (mem.buffers i).magic_num = oldnum then
      ({ mem with
          buffers := Function.update mem.buffers i { mem.buffers i with magic_num := 0 } },
        .idle, some (i, true))
    -- didn't find the buffer
    else (mem, .idle, some (i, false))
  | .readParent i =>
    match (mem.buffers i).parent with
    | some qindex => (mem, .casEntry i (mem.home i) qindex, none)
    | none => (mem, .idle, some (i, true))
  | .casEntry i e qindex =>
    -- the exchange may fail
    (mem.setShared e ((mem.shared e).casState qindex BUFFER_RECEIVED BUFFER_ALLOCATED).2, .idle,
      some (i, true))

/-- The buffer that a release is about. -/
def FreePc.releases : FreePc ε → Option ℕ
  | .idle => none
  | .readMarker i | .freeRead i | .freeCas i _ | .readParent i | .casEntry i _ _ => some i

/-- A release that returned: where it stood before its last step, the memory before and
after it, and its result. -/
structure Released (ε : Type) where
  last : FreePc ε
  before : Memory ε
  after : Memory ε
  index : ℕ
  rc : Bool

end

/-! ## The clients together -/

/-- The memory, where all clients stand, and the releases that returned. Senders and
receivers are numbered for each endpoint. -/
structure Packets (ε κ : Type) where
  mem : Memory ε
  spc : ε × κ → SendPc
  rpc : ε × κ → RecvPc
  wpc : ε × κ → WritePc
  dpc : ε × κ → ReadPc
  fpc : κ → FreePc ε
  released : List (Released ε)

inductive PacketLabel (ε κ : Type)
  /-- `mcapi_trans_send` is called -/
  | send (x : ε × κ) (m : Msg)
  /-- `mcapi_trans_recv` is called -/
  | recv (x : ε × κ) (f : RecvArgs)
  /-- `mcapi_trans_send_state` is called -/
  | sendState (x : ε × κ) (m : Msg)
  /-- `mcapi_trans_recv_state` is called -/
  | recvState (x : ε × κ) (f : RecvArgs)
  /-- `mcapi_trans_pktchan_free` is called, on any packet -/
  | release (y : κ) (i : ℕ)
  /-- the next atomic step of a client -/
  | stepSend (x : ε × κ)
  | stepRecv (x : ε × κ)
  | stepWrite (x : ε × κ)
  | stepRead (x : ε × κ)
  | stepRelease (y : κ)

/-- The buffer whose `parent` the next step sets. -/
def sendSets : SendPc → Option ℕ
  | .setParent f => some f.i
  | _ => none

def recvSets : RecvPc → Option ℕ
  | .setParent _ _ index => some index
  | _ => none

def writeSets : WritePc → Option ℕ
  | .setParent _ _ i => some i
  | _ => none

def readSets : ReadPc → Option ℕ
  | .setParent _ _ _ index => some index
  | _ => none

section System

variable {ε κ : Type} [DecidableEq ε] [DecidableEq κ]

/-- `K` is the attribute `MCAPI_ENDP_ATTR_NUM_SEND_BUFFERS`. -/
def packetStep (K : ε → ℕ) (s : Packets ε κ) : PacketLabel ε κ → Option (Packets ε κ)
  | .send x m =>
    if (s.spc x).isIdle then some { s with spc := Function.update s.spc x (.tailAck m) } else none
  | .recv x f =>
    if (s.rpc x).isIdle then some { s with rpc := Function.update s.rpc x (.headUpdate f) }
    else none
  | .sendState x m =>
    if (s.wpc x).isIdle then some { s with wpc := Function.update s.wpc x (.incCounter m) }
    else none
  | .recvState x f =>
    if (s.dpc x).isIdle then
      some { s with dpc := Function.update s.dpc x (.readCounter f ⟨0, 0⟩) }
    else none
  | .release y i =>
    match s.fpc y with
    | .idle => some { s with fpc := Function.update s.fpc y (.readMarker i) }
    | _ => none
  | .stepSend x =>
    let next := sendProgram (s.mem.shared x.1) (s.spc x)
    some { s with
      mem := (s.mem.setShared x.1 next.1).setHome x.1 (sendSets (s.spc x))
      spc := Function.update s.spc x next.2.1 }
  | .stepRecv x =>
    let next := recvProgram (s.mem.shared x.1) (s.rpc x)
    some { s with
      mem := ((s.mem.setShared x.1 next.1).setHome x.1 (recvSets (s.rpc x))).hand
        (next.2.2.map Prod.snd)
      rpc := Function.update s.rpc x next.2.1 }
  | .stepWrite x =>
    let next := writeProgram (K x.1) (s.mem.shared x.1) (s.wpc x)
    some { s with
      mem := (s.mem.setShared x.1 next.1).setHome x.1 (writeSets (s.wpc x))
      wpc := Function.update s.wpc x next.2.1 }
  | .stepRead x =>
    let next := readProgram (K x.1) 0 (s.mem.shared x.1) (s.dpc x)
    some { s with
      mem := ((s.mem.setShared x.1 next.1).setHome x.1 (readSets (s.dpc x))).hand
        (next.2.2.map Receipt.delivery)
      dpc := Function.update s.dpc x next.2.1 }
  | .stepRelease y =>
    let next := freeProgram s.mem (s.fpc y)
    some { s with
      mem := match next.2.2 with
        | some (i, true) => next.1.drop i
        | _ => next.1
      fpc := Function.update s.fpc y next.2.1
      released := s.released ++
        (next.2.2.map fun t => ⟨s.fpc y, s.mem, next.1, t.1, t.2⟩).toList }

/-- Fresh endpoints for messages, packets and scalars, with an arbitrary pool; nothing is
held. -/
def Packets.init (κ : Type) (ct : ε → channel_type) (pool : ℕ → buffer_entry) (home : ℕ → ε) :
    Packets ε κ :=
  ⟨⟨fun e => queue.zero (ct e), pool, home, fun _ => false⟩, fun _ => .idle, fun _ => .idle,
    fun _ => .idle, fun _ => .idle, fun _ => .idle, []⟩

/-! ## What a release is to do -/

/-- The buffer of the packet is free: it is back in the pool, or its entry may be written
again with it. -/
inductive Freed (before after : Memory ε) (i : ℕ) : Prop
  | pool (marked : (before.buffers i).magic_num = MAGIC_NUM)
      (free : (after.buffers i).magic_num = 0)
  | entry (e : ε) (qindex : ℕ) (marked : (before.buffers i).magic_num = RESERVED_NUM)
      (received : EntryIs BUFFER_RECEIVED (validIndex i) ((before.queues e).elements qindex))
      (allocated : EntryIs BUFFER_ALLOCATED (validIndex i) ((after.queues e).elements qindex))

/-- A release that returned is right: it reports success exactly for a packet that is held,
whose buffer it has freed then, and it changes the marker of no other buffer. -/
structure Released.Right (r : Released ε) : Prop where
  success_iff : r.rc = true ↔ r.before.held r.index = true
  freed : r.rc = true → Freed r.before r.after r.index
  marker : ∀ i, (r.after.buffers i).magic_num ≠ (r.before.buffers i).magic_num →
    r.before.held i = true

/-- The last step finds the packet as its receiver has it: held and marked `MAGIC_NUM`, or
held, marked `RESERVED_NUM` and in an entry that is marked as received. Or another thread has
changed the marker since the release read it, and the packet is not held. -/
def FreePc.Finds (mem : Memory ε) : FreePc ε → Prop
  | .freeCas i oldnum =>
    if (mem.buffers i).magic_num = oldnum then mem.held i = true ∧ oldnum = MAGIC_NUM
    else mem.held i = false
  | .casEntry i e qindex =>
    mem.held i = true ∧ (mem.buffers i).magic_num = RESERVED_NUM ∧
      EntryIs BUFFER_RECEIVED (validIndex i) ((mem.queues e).elements qindex)
  -- a buffer that was never in an entry is not given back
  | .readParent _ => False
  | .idle | .readMarker _ | .freeRead _ => True

def Released.Finds (r : Released ε) : Prop := r.last.Finds r.before

/-! ## When it is -/

/-- What was recorded is what the last step has done. -/
def Released.Recorded (r : Released ε) : Prop :=
  freeProgram r.before r.last = (r.after, .idle, some (r.index, r.rc))

omit [DecidableEq κ] in
/-- A release that returns has no step left. -/
theorem freeProgram_returns {mem : Memory ε} {p : FreePc ε} {t : ℕ × Bool}
    (h : (freeProgram mem p).2.2 = some t) : (freeProgram mem p).2.1 = .idle := by
  cases p with
  | idle | freeRead => cases h
  | readMarker i =>
    simp only [freeProgram] at h
    split at h <;> cases h
  | freeCas i oldnum =>
    simp only [freeProgram]
    split <;> rfl
  | readParent i =>
    simp only [freeProgram] at h ⊢
    split at h
    · cases h
    · rfl
  | casEntry => rfl

theorem packetStep_recorded {K : ε → ℕ} {s s' : Packets ε κ} {a : PacketLabel ε κ}
    (h : ∀ r ∈ s.released, r.Recorded) (hmove : packetStep K s a = some s') :
    ∀ r ∈ s'.released, r.Recorded := by
  cases a with
  | stepRelease y =>
    simp only [packetStep, Option.some.injEq] at hmove
    subst hmove
    intro r hr
    rcases List.mem_append.mp hr with hold | hnew
    · exact h r hold
    · simp only [Option.mem_toList, Option.map_eq_some_iff] at hnew
      obtain ⟨t, ht, rfl⟩ := hnew
      have hidle := freeProgram_returns ht
      rw [Released.Recorded, ← ht, ← hidle]
  | release y i =>
    simp only [packetStep] at hmove
    split at hmove
    · obtain rfl := Option.some.inj hmove
      exact h
    · cases hmove
  | send | recv | sendState | recvState =>
    simp only [packetStep, Option.ite_none_right_eq_some, Option.some.injEq] at hmove
    obtain ⟨-, rfl⟩ := hmove
    exact h
  | stepSend | stepRecv | stepWrite | stepRead =>
    simp only [packetStep, Option.some.injEq] at hmove
    subst hmove
    exact h

theorem casState_buffers (sh : Shared) (j : ℕ) (old new : mcapi_buffer_state) :
    (sh.casState j old new).2.buffers = sh.buffers := by
  unfold Shared.casState
  split <;> rfl

omit [DecidableEq κ] in
/-- An exchange on an entry leaves all others alone. -/
theorem casEntry_of_ne {mem : Memory ε} {e e' : ε} {j j' : ℕ} {old new : mcapi_buffer_state}
    (h : ¬ (e' = e ∧ j' = j)) :
    ((mem.setShared e ((mem.shared e).casState j old new).2).queues e').elements j' =
      (mem.queues e').elements j' := by
  unfold Memory.setShared
  by_cases he : e' = e
  · have hj : j' ≠ j := fun hj => h ⟨he, hj⟩
    subst he
    simp only [Function.update_self]
    unfold Shared.casState
    split
    · exact Shared.setElement_of_ne _ hj _
    · rfl
  · simp only [Function.update_of_ne he]

omit [DecidableEq κ] in
/-- An exchange that finds the entry as received makes it allocated, with the same buffer. -/
theorem casEntry_self {mem : Memory ε} {e : ε} {j b : ℕ}
    (h : EntryIs BUFFER_RECEIVED b ((mem.queues e).elements j)) :
    EntryIs BUFFER_ALLOCATED b
      (((mem.setShared e
        ((mem.shared e).casState j BUFFER_RECEIVED BUFFER_ALLOCATED).2).queues e).elements j) := by
  have hstate : (((mem.shared e).q).elements j).state = BUFFER_RECEIVED := h.1
  unfold Memory.setShared Shared.casState
  simp only [Function.update_self, if_pos hstate, Shared.setElement_self]
  exact ⟨rfl, h.2⟩

omit [DecidableEq κ] in
/-- The exchange of the marker. -/
theorem Released.right_iff_of_cas {r : Released ε} {i oldnum : ℕ} (h : r.Recorded)
    (hlast : r.last = .freeCas i oldnum) : r.Right ↔ r.Finds := by
  rw [Recorded, hlast] at h
  rw [Finds, hlast, FreePc.Finds]
  simp only [freeProgram] at h ⊢
  split at h
  · rename_i hmarker
    simp only [Prod.mk.injEq, Option.some.injEq, true_and] at h
    obtain ⟨hafter, hindex, hrc⟩ := h
    rw [if_pos hmarker]
    have hfree : (r.after.buffers i).magic_num = 0 := by
      rw [← hafter]
      simp only [Function.update_self]
    constructor
    · intro hright
      have hheld := hright.success_iff.mp hrc.symm
      rw [← hindex] at hheld
      refine ⟨hheld, ?_⟩
      have hfreed := hright.freed hrc.symm
      rw [← hindex] at hfreed
      rcases hfreed with ⟨hmagic, -⟩ | ⟨e, qindex, -, hreceived, hallocated⟩
      · exact hmarker.symm.trans hmagic
      · -- no entry was changed
        rw [← hafter] at hallocated
        exact absurd (hreceived.1.symm.trans hallocated.1) nofun
    · rintro ⟨hheld, hmagic⟩
      refine ⟨?_, fun _ => ?_, fun j hj => ?_⟩
      · rw [← hindex, ← hrc]
        exact iff_of_true rfl hheld
      · rw [← hindex]
        exact .pool (hmarker.trans hmagic) hfree
      · by_cases hji : j = i
        · rw [hji]
          exact hheld
        · rw [← hafter] at hj
          simp only [Function.update_of_ne hji, ne_eq, not_true_eq_false] at hj
  · rename_i hmarker
    simp only [Prod.mk.injEq, Option.some.injEq, true_and] at h
    obtain ⟨hafter, hindex, hrc⟩ := h
    rw [if_neg hmarker]
    constructor
    · intro hright
      rw [hindex, ← Bool.not_eq_true, ← hright.success_iff, ← hrc]
      exact Bool.false_ne_true
    · intro hheld
      refine ⟨?_, fun hrc' => ?_, fun j hj => ?_⟩
      · rw [← hindex, hheld, ← hrc]
      · exact absurd (hrc.trans hrc') Bool.false_ne_true
      · rw [← hafter] at hj
        exact absurd rfl hj

omit [DecidableEq κ] in
/-- The exchange on the entry. -/
theorem Released.right_iff_of_entry {r : Released ε} {i qindex : ℕ} {e : ε} (h : r.Recorded)
    (hlast : r.last = .casEntry i e qindex) : r.Right ↔ r.Finds := by
  rw [Recorded, hlast] at h
  rw [Finds, hlast, FreePc.Finds]
  simp only [freeProgram, Prod.mk.injEq, Option.some.injEq, true_and] at h ⊢
  obtain ⟨hafter, hindex, hrc⟩ := h
  have hbuffers : r.after.buffers = r.before.buffers := by
    rw [← hafter]
    exact casState_buffers ..
  constructor
  · intro hright
    have hheld := hright.success_iff.mp hrc.symm
    rw [← hindex] at hheld
    refine ⟨hheld, ?_⟩
    have hfreed := hright.freed hrc.symm
    rw [← hindex] at hfreed
    rcases hfreed with ⟨hmagic, hzero⟩ | ⟨e', qindex', hreserved, hreceived, hallocated⟩
    · rw [hbuffers, hmagic] at hzero
      exact absurd hzero MAGIC_NUM_ne_zero
    · -- the one entry that was changed is that of the exchange
      by_cases hsame : e' = e ∧ qindex' = qindex
      · rw [hsame.1, hsame.2] at hreceived
        exact ⟨hreserved, hreceived⟩
      · rw [← hafter, casEntry_of_ne hsame] at hallocated
        exact absurd (hreceived.1.symm.trans hallocated.1) nofun
  · rintro ⟨hheld, hreserved, hreceived⟩
    refine ⟨?_, fun _ => ?_, fun j hj => ?_⟩
    · rw [← hindex, ← hrc]
      exact iff_of_true rfl hheld
    · rw [← hindex]
      refine .entry e qindex hreserved hreceived ?_
      rw [← hafter]
      exact casEntry_self hreceived
    · rw [hbuffers] at hj
      exact absurd rfl hj

omit [DecidableEq κ] in
theorem Released.right_iff {r : Released ε} (h : r.Recorded) : r.Right ↔ r.Finds := by
  cases hlast : r.last with
  | freeCas i oldnum => exact right_iff_of_cas h hlast
  | casEntry i e qindex => exact right_iff_of_entry h hlast
  | readParent i =>
    -- success is reported, and nothing is freed
    rw [Recorded, hlast] at h
    rw [Finds, hlast, FreePc.Finds, iff_false]
    simp only [freeProgram] at h
    split at h
    · simp only [Prod.mk.injEq, reduceCtorEq, and_false] at h
    · simp only [Prod.mk.injEq, Option.some.injEq, true_and] at h
      obtain ⟨hafter, hindex, hrc⟩ := h
      intro hright
      rcases hright.freed hrc.symm with ⟨hmagic, hzero⟩ | ⟨e, qindex, -, hreceived, hallocated⟩
      · rw [← hafter, hmagic] at hzero
        exact absurd hzero MAGIC_NUM_ne_zero
      · rw [← hafter] at hallocated
        exact absurd (hreceived.1.symm.trans hallocated.1) nofun
  | idle | freeRead =>
    rw [Recorded, hlast] at h
    simp only [freeProgram, Prod.mk.injEq, reduceCtorEq, and_false] at h
  | readMarker i =>
    rw [Recorded, hlast] at h
    simp only [freeProgram] at h
    split at h <;> simp only [Prod.mk.injEq, reduceCtorEq, and_false] at h

/-- **The releases of a run are right if and only if each finds the packet as its receiver
has it**, whatever the other threads do. -/
theorem releases_right_iff {K : ε → ℕ} {ct : ε → channel_type} {pool : ℕ → buffer_entry}
    {home : ℕ → ε} {s : Packets ε κ}
    (hrun : Run (packetStep K) (fun _ _ _ => True) (Packets.init κ ct pool home) s) :
    (∀ r ∈ s.released, r.Right) ↔ ∀ r ∈ s.released, r.Finds := by
  have hrecorded : ∀ r ∈ s.released, r.Recorded :=
    hrun.invariant (I := fun s => ∀ r ∈ s.released, r.Recorded)
      (fun _ _ _ h hmove _ => packetStep_recorded h hmove) nofun
  exact forall₂_congr fun r hr => Released.right_iff (hrecorded r hr)

end System

/-! ## Two runs -/

/-- A send of a packet of one byte, up to its end. -/
def sendPacket : List (PacketLabel Unit Unit) :=
  .send ((), ()) ⟨fun _ => 7, 1, 0, one_le_max_msg_size⟩ :: List.replicate 16 (.stepSend ((), ()))

/-- A whole receive. -/
def recvPacket : List (PacketLabel Unit Unit) :=
  .recv ((), ()) ⟨1024, false⟩ :: List.replicate 16 (.stepRecv ((), ()))

/-- A whole release of the packet in buffer `0`. -/
def releasePacket : List (PacketLabel Unit Unit) :=
  .release () 0 :: List.replicate 3 (.stepRelease ())

/-- A packet is received, and released. -/
theorem received_packet_released : ∃ s : Packets Unit Unit,
    s.released.map Released.rc = [true] ∧ ∀ r ∈ s.released, r.Right := by
  have hexec : (exec (packetStep fun _ => 1) (fun _ _ _ => true)
      (Packets.init Unit (fun _ => MCAPI_PKT_CHAN) (fun _ => .zero) fun _ => ())
      (sendPacket ++ recvPacket ++ releasePacket)).any
      (fun s => decide (s.released.map Released.rc = [true]) && s.released.all fun r =>
        match r.last with
        | .freeCas i oldnum => r.before.held i && decide (oldnum = MAGIC_NUM) &&
          decide ((r.before.buffers i).magic_num = oldnum)
        | _ => false) = true := by
    decide +kernel
  obtain ⟨s, hrun, hs⟩ := exec_run_of_any hexec
  rw [Bool.and_eq_true, decide_eq_true_eq] at hs
  obtain ⟨hrc, hall⟩ := hs
  refine ⟨s, hrc, (releases_right_iff (hrun.mono fun _ _ _ _ => trivial)).mpr fun r hr => ?_⟩
  have hfinds := List.all_eq_true.mp hall r hr
  rw [Released.Finds]
  cases hlast : r.last with
  | freeCas i oldnum =>
    simp only [hlast, Bool.and_eq_true, decide_eq_true_eq] at hfinds
    rw [FreePc.Finds, if_pos hfinds.2]
    exact hfinds.1
  | _ =>
    rw [hlast] at hfinds
    cases hfinds

/-- A packet that is still in the queue is released: success is reported, and the packet is
lost. -/
theorem queued_packet_released : ¬ ∀ (K : Unit → ℕ) (ct : Unit → channel_type)
    (pool : ℕ → buffer_entry) (home : ℕ → Unit) (s : Packets Unit Unit),
    Run (packetStep K) (fun _ _ _ => True) (Packets.init Unit ct pool home) s →
      ∀ r ∈ s.released, r.Right := by
  intro hall
  have hexec : (exec (packetStep fun _ => 1) (fun _ _ _ => true)
      (Packets.init Unit (fun _ => MCAPI_PKT_CHAN) (fun _ => .zero) fun _ => ())
      (sendPacket ++ releasePacket)).any
      (fun s => s.released.any fun r => r.rc && !r.before.held r.index &&
        decide (((r.before.queues ()).elements 0).buff_index = validIndex r.index)) = true := by
    decide +kernel
  obtain ⟨s, hrun, hs⟩ := exec_run_of_any hexec
  obtain ⟨r, hr, hdone⟩ := List.any_eq_true.mp hs
  simp only [Bool.and_eq_true, Bool.not_eq_true'] at hdone
  obtain ⟨⟨hrc, hheld⟩, -⟩ := hdone
  have hright := hall _ _ _ _ s (hrun.mono fun _ _ _ _ => trivial) r hr
  rw [hright.success_iff.mp hrc] at hheld
  cases hheld

end MxApi.PacketRelease
