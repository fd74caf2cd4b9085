/-
Releases of packets by callers that keep to what the calls are for: a packet is released by
one thread at a time, and only while a receiver holds it.

Then every release is right, as long as no send has taken the entry of a packet from state
buffers away between the release's look at the marker and its exchange on the entry, and no
message is received from the buffer of a packet that is held. This rests on how markers
change: the sends and receives of other packets never change `MAGIC_NUM`.
-/
import MxApi.Mcapi.PacketRelease

set_option autoImplicit false

namespace MxApi.PacketRelease

open Lib channel_type mcapi_buffer_state mcapi_status_t

/-! ## How markers change -/

section Markers

variable {sh : Shared} {i : ℕ}

/-- Buffer `i` is in use and may be given back to the pool. -/
def Marked (buffers : ℕ → buffer_entry) (i : ℕ) : Prop := (buffers i).magic_num = MAGIC_NUM

/-- A write that keeps the marker of the buffer. -/
theorem Marked.setBuffer {j : ℕ} {b : buffer_entry} (h : Marked sh.buffers i)
    (hb : b.magic_num = (sh.buffers j).magic_num) : Marked (sh.setBuffer j b).buffers i := by
  unfold Marked at h ⊢
  by_cases hij : i = j
  · rw [hij, Shared.setBuffer_self, hb, ← hij, h]
  · rw [Shared.setBuffer_of_ne _ hij, h]

/-- An exchange of another marker, or one for `MAGIC_NUM`. -/
theorem Marked.casMagic {j oldnum newnum : ℕ} (h : Marked sh.buffers i)
    (hnum : oldnum ≠ MAGIC_NUM ∨ j ≠ i) : Marked (sh.casMagic j oldnum newnum).2.buffers i := by
  unfold Marked at h ⊢
  unfold Shared.casMagic
  split
  · rename_i hold
    have hij : i ≠ j := by
      rintro rfl
      rcases hnum with hnum | hnum
      · exact hnum (hold.symm.trans h)
      · exact hnum rfl
    rw [Shared.setBuffer_of_ne _ hij, h]
  · exact h

theorem Marked.casState {j : ℕ} {old new : mcapi_buffer_state} (h : Marked sh.buffers i) :
    Marked (sh.casState j old new).2.buffers i := by
  rw [casState_buffers]
  exact h

/-- The sends to FIFO buffers mark free buffers only. -/
theorem Marked.sendProgram (h : Marked sh.buffers i) (p : SendPc) :
    Marked (MxApi.sendProgram sh p).1.buffers i := by
  cases p with
  | idle | tailAck | readBuffIndex | failed | unreserve | setBuffIndex => exact h
  | tailUpdate =>
    simp only [MxApi.sendProgram]
    split <;> exact h
  | checkBuffIndex | pushUpdate | pushCas | pushInc =>
    simp only [MxApi.sendProgram]
    split <;> exact h
  | pushAck =>
    simp only [MxApi.sendProgram]
    split <;> exact h
  | casReserve | casAllocated =>
    simp only [MxApi.sendProgram]
    split <;> exact h.casState
  | allocBuffer =>
    simp only [MxApi.sendProgram]
    split
    · split <;> exact h.casMagic (.inl MAGIC_NUM_ne_zero.symm)
    · exact h
  | setParent | setSize => exact h.setBuffer rfl
  | copy =>
    simp only [MxApi.sendProgram]
    split
    · exact h.setBuffer rfl
    · split
      · exact h.setBuffer rfl
      · exact h

/-- The receives from FIFO buffers free the buffers of their own messages. -/
theorem Marked.recvProgram (h : Marked sh.buffers i) {p : RecvPc}
    (hp : ∀ f qindex d, p ≠ .freeBuffer f qindex i d) :
    Marked (MxApi.recvProgram sh p).1.buffers i := by
  cases p with
  | idle | headUpdate | readState | recvBuffIndex | readSize | clearReserved | clearBuffIndex
  | setFree | popInc | failed => exact h
  | headAck =>
    simp only [MxApi.recvProgram]
    split <;> exact h
  | readBuffIndex | popAck | popCas =>
    simp only [MxApi.recvProgram]
    split <;> exact h
  | popUpdate =>
    simp only [MxApi.recvProgram]
    split <;> exact h
  | casReceived =>
    simp only [MxApi.recvProgram]
    split <;> exact h.casState
  | setParent => exact h.setBuffer rfl
  | copy =>
    simp only [MxApi.recvProgram]
    split
    · exact h
    · exact h
    · split <;> exact h
  | freeBuffer f qindex index d =>
    have hne : index ≠ i := by
      rintro rfl
      exact hp f qindex d rfl
    simp only [MxApi.recvProgram]
    split <;> exact h.casMagic (.inr hne)

/-- The sends to state buffers mark free buffers, and those of packets they leave to their
receivers. -/
theorem Marked.writeProgram (h : Marked sh.buffers i) (K : ℕ) (p : WritePc) :
    Marked (MxApi.writeProgram K sh p).1.buffers i := by
  cases p with
  | idle | incCounter | readState | readBuffIndex | reserve | setFree | clearBuffIndex
  | setBuffIndex | failed => exact h
  | casMarker =>
    have hne : RESERVED_NUM ≠ MAGIC_NUM := by decide
    simp only [MxApi.writeProgram]
    split <;> exact h.casMagic (.inl hne)
  | allocBuffer =>
    simp only [MxApi.writeProgram]
    split
    · split <;> exact h.casMagic (.inl MAGIC_NUM_ne_zero.symm)
    · exact h
  | giveUp | rereadState | casCounter =>
    simp only [MxApi.writeProgram]
    split <;> exact h
  | setParent | setSize => exact h.setBuffer rfl
  | copy =>
    simp only [MxApi.writeProgram]
    split
    · exact h.setBuffer rfl
    · split
      · exact h.setBuffer rfl
      · exact h
  | casAllocated =>
    simp only [MxApi.writeProgram]
    split <;> exact h.casState

/-- The program points of a receive from state buffers. -/
def receiving : ReadPc → Bool
  | .freeMarker _ | .freeRead _ | .freeCas .. | .freeParent _ | .freeEntry .. => false
  | _ => true

/-- A receive from state buffers leaves all markers alone. -/
theorem Marked.readProgram (h : Marked sh.buffers i) (K now : ℕ) {p : ReadPc}
    (hp : receiving p = true) : Marked (MxApi.readProgram K now sh p).1.buffers i := by
  cases p with
  | idle | readCounter | readState | recvBuffIndex | readSize | failed => exact h
  | readBuffIndex =>
    simp only [MxApi.readProgram]
    split
    · exact h
    · split <;> exact h
  | casReceived =>
    simp only [MxApi.readProgram]
    split <;> exact h
  | setParent => exact h.setBuffer rfl
  | copy =>
    simp only [MxApi.readProgram]
    split
    · exact h
    · exact h
    · split <;> exact h
  | confirm =>
    simp only [MxApi.readProgram]
    split <;> exact h
  | freeMarker | freeRead | freeCas | freeParent | freeEntry => cases hp

theorem receiving_readProgram (K now : ℕ) (sh : Shared) {p : ReadPc} (hp : receiving p = true) :
    receiving (MxApi.readProgram K now sh p).2.1 = true := by
  cases p with
  | idle | readCounter | readState | recvBuffIndex | setParent | readSize | failed => rfl
  | readBuffIndex =>
    simp only [MxApi.readProgram]
    split
    · rfl
    · split <;> rfl
  | casReceived =>
    simp only [MxApi.readProgram]
    split <;> rfl
  | copy =>
    simp only [MxApi.readProgram]
    split
    · rfl
    · rfl
    · split <;> rfl
  | confirm =>
    simp only [MxApi.readProgram]
    split <;> rfl
  | freeMarker | freeRead | freeCas | freeParent | freeEntry => cases hp

end Markers

section System

variable {ε κ : Type} [DecidableEq ε] [DecidableEq κ]

/-! ## The discipline -/

/-- What is asked of the steps: a release is called for a packet that a receiver holds and
that no other thread is releasing; one that found another marker than `MAGIC_NUM` finds the
packet in its entry; and no message is received from the buffer of a packet that is held. -/
def Disciplined (s : Packets ε κ) : PacketLabel ε κ → Prop
  | .release _ i => s.mem.held i = true ∧ ∀ y, (s.fpc y).releases ≠ some i
  | .stepRelease y =>
    match s.fpc y with
    | .readParent i => (s.mem.buffers i).parent ≠ none
    | .casEntry i e qindex => (s.mem.buffers i).magic_num = RESERVED_NUM ∧
      EntryIs BUFFER_RECEIVED (validIndex i) ((s.mem.queues e).elements qindex)
    | _ => True
  | .stepRecv x => ∀ f qindex i d, s.rpc x = .freeBuffer f qindex i d → s.mem.held i = false
  | _ => True

/-- The invariant: the releases under way are for packets that are held, one for each, and
those that have found `MAGIC_NUM` find it still. -/
structure Sound (s : Packets ε κ) : Prop where
  receiving : ∀ x, receiving (s.dpc x) = true
  held : ∀ y i, (s.fpc y).releases = some i → s.mem.held i = true
  alone : ∀ y y' i, (s.fpc y).releases = some i → (s.fpc y').releases = some i → y = y'
  marked : ∀ y i, s.fpc y = .freeRead i → Marked s.mem.buffers i
  read : ∀ y i oldnum, s.fpc y = .freeCas i oldnum → oldnum = MAGIC_NUM ∧ Marked s.mem.buffers i
  finds : ∀ r ∈ s.released, r.Finds

omit [DecidableEq ε] [DecidableEq κ] in
theorem Sound.init (ct : ε → channel_type) (pool : ℕ → buffer_entry) (home : ℕ → ε) :
    Sound (Packets.init κ ct pool home) where
  receiving := fun _ => rfl
  held := fun _ _ h => nomatch h
  alone := fun _ _ _ h => nomatch h
  marked := fun _ _ h => nomatch h
  read := fun _ _ _ h => nomatch h
  finds := fun _ h => nomatch h

omit [DecidableEq κ] [DecidableEq ε] in
/-- A step of a sender or a receiver, which keeps what is held and the markers of that. -/
theorem Sound.others {s s' : Packets ε κ} (h : Sound s) (hfpc : s'.fpc = s.fpc)
    (hreleased : s'.released = s.released)
    (hreceiving : ∀ x, PacketRelease.receiving (s'.dpc x) = true)
    (hheld : ∀ i, s.mem.held i = true → s'.mem.held i = true)
    (hmarked : ∀ i, s.mem.held i = true → Marked s.mem.buffers i → Marked s'.mem.buffers i) :
    Sound s' where
  receiving := hreceiving
  held := by
    intro y i hy
    rw [hfpc] at hy
    exact hheld i (h.held y i hy)
  alone := by
    rw [hfpc]
    exact h.alone
  marked := by
    intro y i hy
    rw [hfpc] at hy
    exact hmarked i (h.held y i (by rw [hy]; rfl)) (h.marked y i hy)
  read := by
    intro y i oldnum hy
    rw [hfpc] at hy
    obtain ⟨hold, hmark⟩ := h.read y i oldnum hy
    exact ⟨hold, hmarked i (h.held y i (by rw [hy]; rfl)) hmark⟩
  finds := by
    rw [hreleased]
    exact h.finds

omit [DecidableEq ε] [DecidableEq κ] in
@[simp] theorem Memory.setHome_buffers (mem : Memory ε) (e : ε) (i : Option ℕ) :
    (mem.setHome e i).buffers = mem.buffers := by
  cases i <;> rfl

omit [DecidableEq ε] [DecidableEq κ] in
@[simp] theorem Memory.setHome_held (mem : Memory ε) (e : ε) (i : Option ℕ) :
    (mem.setHome e i).held = mem.held := by
  cases i <;> rfl

omit [DecidableEq κ] [DecidableEq ε] in
@[simp] theorem Memory.hand_buffers (mem : Memory ε) (d : Option Delivery) :
    (mem.hand d).buffers = mem.buffers := by
  rcases d with _ | ⟨_, _ | _⟩ <;> rfl

omit [DecidableEq κ] [DecidableEq ε] in
/-- Handing out a packet takes none away. -/
theorem Memory.hand_held {mem : Memory ε} {i : ℕ} (d : Option Delivery)
    (h : mem.held i = true) : (mem.hand d).held i = true := by
  unfold Memory.hand
  split
  · rename_i j
    by_cases hij : i = j
    · rw [hij]
      exact Function.update_self ..
    · exact (Function.update_of_ne hij ..).trans h
  · exact h

omit [DecidableEq ε] in
/-- A release goes on, in the same memory. -/
theorem Sound.moves {s : Packets ε κ} {y : κ} {p : FreePc ε} (h : Sound s)
    (hreleases : p.releases = (s.fpc y).releases)
    (hmarked : ∀ i, p = .freeRead i → Marked s.mem.buffers i)
    (hread : ∀ i oldnum, p = .freeCas i oldnum → oldnum = MAGIC_NUM ∧ Marked s.mem.buffers i) :
    Sound { s with fpc := Function.update s.fpc y p } := by
  have hsame : ∀ z, (Function.update s.fpc y p z).releases = (s.fpc z).releases := by
    intro z
    by_cases hz : z = y
    · rw [hz, Function.update_self, hreleases]
    · rw [Function.update_of_ne hz]
  refine ⟨h.receiving, fun z i hz => ?_, fun z z' i hz hz' => ?_, fun z i hz => ?_,
    fun z i oldnum hz => ?_, h.finds⟩
  · exact h.held z i ((hsame z).symm.trans hz)
  · exact h.alone z z' i ((hsame z).symm.trans hz) ((hsame z').symm.trans hz')
  · by_cases hzy : z = y
    · simp only [hzy, Function.update_self] at hz
      exact hmarked i hz
    · simp only [Function.update_of_ne hzy] at hz
      exact h.marked z i hz
  · by_cases hzy : z = y
    · simp only [hzy, Function.update_self] at hz
      exact hread i oldnum hz
    · simp only [Function.update_of_ne hzy] at hz
      exact h.read z i oldnum hz

omit [DecidableEq ε] in
/-- A release returns: it was the only one for its buffer, and the markers of the others are
as they were. -/
theorem Sound.returns {s s' : Packets ε κ} {y : κ} {i : ℕ} {r : Released ε} (h : Sound s)
    (hreleases : (s.fpc y).releases = some i) (hdpc : s'.dpc = s.dpc)
    (hfpc : s'.fpc = Function.update s.fpc y .idle)
    (hheld : s'.mem.held = Function.update s.mem.held i false)
    (hmarked : ∀ j, j ≠ i → Marked s.mem.buffers j → Marked s'.mem.buffers j)
    (hreleased : s'.released = s.released ++ [r]) (hr : r.Finds) : Sound s' := by
  have hother : ∀ z j, (s'.fpc z).releases = some j → (s.fpc z).releases = some j ∧ j ≠ i := by
    intro z j hz
    rw [hfpc] at hz
    by_cases hzy : z = y
    · rw [hzy, Function.update_self] at hz
      cases hz
    · rw [Function.update_of_ne hzy] at hz
      refine ⟨hz, ?_⟩
      rintro rfl
      exact hzy (h.alone z y j hz hreleases)
  have hsame : ∀ z p, s'.fpc z = p → p ≠ .idle → s.fpc z = p := by
    intro z p hz hp
    rw [hfpc] at hz
    by_cases hzy : z = y
    · rw [hzy, Function.update_self] at hz
      exact absurd hz.symm hp
    · exact (Function.update_of_ne hzy ..).symm.trans hz
  refine ⟨by rw [hdpc]; exact h.receiving, fun z j hz => ?_, fun z z' j hz hz' => ?_,
    fun z j hz => ?_, fun z j oldnum hz => ?_, fun r' hr' => ?_⟩
  · obtain ⟨hz, hne⟩ := hother z j hz
    rw [hheld, Function.update_of_ne hne]
    exact h.held z j hz
  · exact h.alone z z' j (hother z j hz).1 (hother z' j hz').1
  · exact hmarked j (hother z j (by rw [hz]; rfl)).2 (h.marked z j (hsame z _ hz nofun))
  · obtain ⟨hold, hmark⟩ := h.read z j oldnum (hsame z _ hz nofun)
    exact ⟨hold, hmarked j (hother z j (by rw [hz]; rfl)).2 hmark⟩
  · rw [hreleased, List.mem_append, List.mem_singleton] at hr'
    rcases hr' with hr' | rfl
    · exact h.finds r' hr'
    · exact hr

omit [DecidableEq ε] in
/-- A release is called. -/
theorem Sound.begins {s : Packets ε κ} {y : κ} {i : ℕ} (h : Sound s)
    (hheld : s.mem.held i = true) (halone : ∀ z, (s.fpc z).releases ≠ some i) :
    Sound { s with fpc := Function.update s.fpc y (.readMarker i) } := by
  have hother : ∀ z, z ≠ y → Function.update s.fpc y (.readMarker i) z = s.fpc z :=
    fun z hz => Function.update_of_ne hz ..
  have hself : Function.update s.fpc y (.readMarker i) y = .readMarker i :=
    Function.update_self ..
  refine ⟨h.receiving, fun z j hz => ?_, fun z z' j hz hz' => ?_, fun z j hz => ?_,
    fun z j oldnum hz => ?_, h.finds⟩
  · by_cases hzy : z = y
    · simp only [hzy, hself] at hz
      cases hz
      exact hheld
    · simp only [hother z hzy] at hz
      exact h.held z j hz
  · -- nobody else releases the packet
    by_cases hzy : z = y <;> by_cases hzy' : z' = y
    · rw [hzy, hzy']
    · simp only [hzy, hself] at hz
      simp only [hother z' hzy'] at hz'
      cases hz
      exact absurd hz' (halone z')
    · simp only [hzy', hself] at hz'
      simp only [hother z hzy] at hz
      cases hz'
      exact absurd hz (halone z)
    · simp only [hother z hzy] at hz
      simp only [hother z' hzy'] at hz'
      exact h.alone z z' j hz hz'
  · by_cases hzy : z = y
    · simp only [hzy, hself] at hz
      cases hz
    · simp only [hother z hzy] at hz
      exact h.marked z j hz
  · by_cases hzy : z = y
    · simp only [hzy, hself] at hz
      cases hz
    · simp only [hother z hzy] at hz
      exact h.read z j oldnum hz

/-- The steps of a release. -/
theorem Sound.stepRelease {K : ε → ℕ} {s s' : Packets ε κ} {y : κ} (h : Sound s)
    (hguard : Disciplined s (.stepRelease y)) (hmove : packetStep K s (.stepRelease y) = some s') :
    Sound s' := by
  simp only [packetStep, Option.some.injEq] at hmove
  subst hmove
  cases hpc : s.fpc y with
  | idle =>
    simp only [freeProgram, Option.map_none, Option.toList_none, List.append_nil]
    exact h.moves (by rw [hpc]) (by simp) (by simp)
  | readMarker i =>
    by_cases hmagic : (s.mem.buffers i).magic_num = MAGIC_NUM
    · simp only [freeProgram, if_pos hmagic, Option.map_none, Option.toList_none, List.append_nil]
      refine h.moves (by rw [hpc]; rfl) (fun j hj => ?_) (by simp)
      cases hj
      exact hmagic
    · simp only [freeProgram, if_neg hmagic, Option.map_none, Option.toList_none, List.append_nil]
      exact h.moves (by rw [hpc]; rfl) (by simp) (by simp)
  | freeRead i =>
    simp only [freeProgram, Option.map_none, Option.toList_none, List.append_nil]
    refine h.moves (by rw [hpc]; rfl) (by simp) (fun j oldnum hj => ?_)
    cases hj
    exact ⟨h.marked y i hpc, h.marked y i hpc⟩
  | freeCas i oldnum =>
    have hheld := h.held y i (by rw [hpc]; rfl)
    obtain ⟨hold, hmagic⟩ := h.read y i oldnum hpc
    have hmarker : (s.mem.buffers i).magic_num = oldnum := hmagic.trans hold.symm
    simp only [freeProgram, if_pos hmarker, Option.map_some, Option.toList_some]
    refine h.returns (i := i) (by rw [hpc]; rfl) rfl rfl rfl (fun j hj hmark => ?_) rfl ?_
    · exact (congrArg buffer_entry.magic_num (Function.update_of_ne hj ..)).trans hmark
    · rw [Released.Finds, FreePc.Finds, if_pos hmarker]
      exact ⟨hheld, hold⟩
  | readParent i =>
    simp only [Disciplined, hpc] at hguard
    obtain ⟨qindex, hparent⟩ := Option.ne_none_iff_exists'.mp hguard
    simp only [freeProgram, hparent, Option.map_none, Option.toList_none, List.append_nil]
    exact h.moves (by rw [hpc]; rfl) (by simp) (by simp)
  | casEntry i e qindex =>
    have hheld := h.held y i (by rw [hpc]; rfl)
    simp only [Disciplined, hpc] at hguard
    simp only [freeProgram, Option.map_some, Option.toList_some]
    refine h.returns (i := i) (by rw [hpc]; rfl) rfl rfl rfl (fun j _ hmark => ?_) rfl ?_
    · exact Marked.casState hmark
    · rw [Released.Finds, FreePc.Finds]
      exact ⟨hheld, hguard⟩

/-- One disciplined step. -/
theorem Sound.step {K : ε → ℕ} {s s' : Packets ε κ} {a : PacketLabel ε κ} (h : Sound s)
    (hmove : packetStep K s a = some s') (hguard : Disciplined s a) : Sound s' := by
  cases a with
  | stepRelease y => exact h.stepRelease hguard hmove
  | release y i =>
    obtain ⟨hheld, halone⟩ := hguard
    simp only [packetStep] at hmove
    split at hmove
    · rename_i hidle
      obtain rfl := Option.some.inj hmove
      exact h.begins hheld halone
    · cases hmove
  | send x m =>
    simp only [packetStep, Option.ite_none_right_eq_some, Option.some.injEq] at hmove
    obtain ⟨-, rfl⟩ := hmove
    exact h.others rfl rfl h.receiving (fun _ hi => hi) (fun _ _ hi => hi)
  | recv x f =>
    simp only [packetStep, Option.ite_none_right_eq_some, Option.some.injEq] at hmove
    obtain ⟨-, rfl⟩ := hmove
    exact h.others rfl rfl h.receiving (fun _ hi => hi) (fun _ _ hi => hi)
  | sendState x m =>
    simp only [packetStep, Option.ite_none_right_eq_some, Option.some.injEq] at hmove
    obtain ⟨-, rfl⟩ := hmove
    exact h.others rfl rfl h.receiving (fun _ hi => hi) (fun _ _ hi => hi)
  | recvState x f =>
    simp only [packetStep, Option.ite_none_right_eq_some, Option.some.injEq] at hmove
    obtain ⟨-, rfl⟩ := hmove
    refine h.others rfl rfl (fun z => ?_) (fun _ hi => hi) (fun _ _ hi => hi)
    by_cases hz : z = x
    · simp only [hz, Function.update_self, PacketRelease.receiving]
    · simp only [Function.update_of_ne hz, h.receiving]
  | stepSend x =>
    simp only [packetStep, Option.some.injEq] at hmove
    subst hmove
    refine h.others rfl rfl h.receiving (fun i hi => ?_) (fun i _ hmark => ?_)
    · rw [Memory.setHome_held]
      exact hi
    · rw [Memory.setHome_buffers]
      have hmark : Marked (s.mem.shared x.1).buffers i := hmark
      exact hmark.sendProgram _
  | stepRecv x =>
    simp only [packetStep, Option.some.injEq] at hmove
    subst hmove
    refine h.others rfl rfl h.receiving (fun i hi => ?_) (fun i hheld hmark => ?_)
    · refine Memory.hand_held _ ?_
      rw [Memory.setHome_held]
      exact hi
    · rw [Memory.hand_buffers, Memory.setHome_buffers]
      have hmark : Marked (s.mem.shared x.1).buffers i := hmark
      refine hmark.recvProgram (fun f qindex d hp => ?_)
      rw [hguard f qindex i d hp] at hheld
      cases hheld
  | stepWrite x =>
    simp only [packetStep, Option.some.injEq] at hmove
    subst hmove
    refine h.others rfl rfl h.receiving (fun i hi => ?_) (fun i _ hmark => ?_)
    · rw [Memory.setHome_held]
      exact hi
    · rw [Memory.setHome_buffers]
      have hmark : Marked (s.mem.shared x.1).buffers i := hmark
      exact hmark.writeProgram _ _
  | stepRead x =>
    simp only [packetStep, Option.some.injEq] at hmove
    subst hmove
    refine h.others rfl rfl (fun z => ?_) (fun i hi => ?_) (fun i _ hmark => ?_)
    · by_cases hz : z = x
      · simp only [hz, Function.update_self]
        exact receiving_readProgram _ _ _ (h.receiving x)
      · simp only [Function.update_of_ne hz, h.receiving]
    · refine Memory.hand_held _ ?_
      rw [Memory.setHome_held]
      exact hi
    · rw [Memory.hand_buffers, Memory.setHome_buffers]
      have hmark : Marked (s.mem.shared x.1).buffers i := hmark
      exact hmark.readProgram _ _ (h.receiving x)

/-- Where the callers keep to the discipline, every release is right. -/
theorem releases_right {K : ε → ℕ} {ct : ε → channel_type} {pool : ℕ → buffer_entry}
    {home : ℕ → ε} {s : Packets ε κ}
    (hrun : Run (packetStep K) (fun s a _ => Disciplined s a) (Packets.init κ ct pool home) s) :
    ∀ r ∈ s.released, r.Right := by
  have hsound : Sound s := hrun.invariant (I := Sound)
    (fun _ _ _ h hmove hguard => h.step hmove hguard) (Sound.init ct pool home)
  have hrecorded : ∀ r ∈ s.released, r.Recorded :=
    hrun.invariant (I := fun s => ∀ r ∈ s.released, r.Recorded)
      (fun _ _ _ h hmove _ => packetStep_recorded h hmove) nofun
  exact fun r hr => (Released.right_iff (hrecorded r hr)).mpr (hsound.finds r hr)

end System

end MxApi.PacketRelease
