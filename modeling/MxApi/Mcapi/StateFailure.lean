/-
A send to state buffers that finds no buffer.

By then the counter has been stepped and the entry is the sender's, so the send ends
as one that succeeds does: the counter is stepped again, with the entry left empty. A
receive then reads that entry and finds no message. What it would have delivered before
is still in its entry, where it does not look any more. So a failed send changes nothing
for the receiver exactly if there was nothing to receive before it
([`failed_send_invisible_iff`]). Where the counter wraps and the entries do not close up,
the receive reads another entry than the one just written, and what counts is what is in
that one.
-/
import MxApi.Lib.RingSlot
import MxApi.Mcapi.Transfers

set_option autoImplicit false

namespace MxApi.Transfers

open Lib channel_type mcapi_buffer_state mcapi_status_t

/-- The shared memory of an endpoint with state buffers while no send is in progress:
the counter is even. -/
structure StateEndpoint where
  K : ℕ
  sh : Shared
  uc_lt : sh.q.update_counter < 2 ^ 32
  even : sh.q.update_counter % 2 = 0

/-! ## What a receive delivers -/

/-- What the caller of `mcapi_trans_recv_state` gets; `none` where the call does not
return, `some none` where it returns `FALSE`. -/
def delivered (K : ℕ) (sh : Shared) (buffer_size : ℕ) : Option (Option (ℕ × Payload)) :=
  (mcapi_trans_recv_state K sh buffer_size).map fun p => p.2.map (contents p.1)

/-- What an entry has for a receive. -/
def shown (K : ℕ) (sh : Shared) (qindex buffer_size : ℕ) : Option (Option (ℕ × Payload)) :=
  let buf := sh.q.elements qindex
  let index := bufferIndex buf.buff_index
  if entryOk K qindex then
    if buf.buff_index = 0 then some none
    else if sh.q.channel_type = MCAPI_PKT_CHAN ∧
        (buf.state = BUFFER_FREE ∨ buf.state = BUFFER_RESERVED) then none
    else
      some (some (contents sh (handOut sh.q.channel_type (sh.buffers index) index buffer_size)))
  else none

section Contents

variable {sh sh' : Shared} {K qindex buffer_size : ℕ}

/-- The two buffers hold the same message. -/
structure SameMessage (b b' : buffer_entry) : Prop where
  size : b'.size = b.size
  scalar : b'.scalar = b.scalar
  buff : b'.buff = b.buff

theorem SameMessage.refl (b : buffer_entry) : SameMessage b b := ⟨rfl, rfl, rfl⟩

/-- Setting a buffer to one with the same message leaves all messages. -/
theorem setBuffer_sameMessage {i : ℕ} {b : buffer_entry} (h : SameMessage (sh.buffers i) b)
    (j : ℕ) : SameMessage (sh.buffers j) ((sh.setBuffer i b).buffers j) := by
  by_cases hj : j = i
  · subst hj
    rw [Shared.setBuffer_self]
    exact h
  · rw [Shared.setBuffer_of_ne _ hj]
    exact .refl _

/-- What is handed out, and what is behind it, depends on the messages only. -/
theorem contents_congr {i j : ℕ} {ct : channel_type}
    (hbuf : ∀ i, SameMessage (sh.buffers i) (sh'.buffers i)) :
    contents sh' (handOut ct (sh'.buffers i) j buffer_size) =
      contents sh (handOut ct (sh.buffers i) j buffer_size) := by
  obtain ⟨hsize, hscalar, hbuff⟩ := hbuf i
  cases ct with
  | MCAPI_NO_CHAN => simp only [contents, handOut, hsize, hbuff]
  | MCAPI_SCL_CHAN => simp only [contents, handOut, hsize, hscalar]
  | MCAPI_PKT_CHAN => simp only [contents, handOut, hsize, (hbuf j).buff]

/-- A memory in which the entry and the messages are the same shows the same. -/
theorem shown_congr (hct : sh'.q.channel_type = sh.q.channel_type)
    (hentry : sh'.q.elements qindex = sh.q.elements qindex)
    (hbuf : ∀ i, SameMessage (sh.buffers i) (sh'.buffers i)) :
    shown K sh' qindex buffer_size = shown K sh qindex buffer_size := by
  simp only [shown, hct, hentry, contents_congr hbuf]

/-- What `mcapi_trans_recv_state_` hands out is what the entry shows. -/
theorem contents_recv (sh : Shared) (qindex buffer_size : ℕ) :
    contents (mcapi_trans_recv_state_ sh buffer_size qindex).1
        (mcapi_trans_recv_state_ sh buffer_size qindex).2 =
      contents sh (handOut sh.q.channel_type
        (sh.buffers (bufferIndex (sh.q.elements qindex).buff_index))
        (bufferIndex (sh.q.elements qindex).buff_index) buffer_size) := by
  apply contents_congr
  apply setBuffer_sameMessage
  exact ⟨rfl, rfl, rfl⟩

/-- Marking the entry as received changes nothing about what it shows. -/
theorem markReceived_contents {sh' : Shared} (h : markReceived sh qindex = some sh') :
    sh'.buffers = sh.buffers ∧ sh'.q.channel_type = sh.q.channel_type ∧
      sh'.q.update_counter = sh.q.update_counter ∧
      (sh'.q.elements qindex).buff_index = (sh.q.elements qindex).buff_index := by
  unfold markReceived at h
  dsimp only at h
  split at h
  · split at h
    · obtain rfl := Option.some.inj h
      exact ⟨rfl, rfl, rfl, by rw [Shared.setElement_self]⟩
    · obtain rfl := Option.some.inj h
      exact ⟨rfl, rfl, rfl, rfl⟩
    · cases h
    · cases h
  · obtain rfl := Option.some.inj h
    exact ⟨rfl, rfl, rfl, rfl⟩

/-- An entry is not marked exactly if it is a packet that is being written. -/
theorem markReceived_eq_none : markReceived sh qindex = none ↔
    sh.q.channel_type = MCAPI_PKT_CHAN ∧ ((sh.q.elements qindex).state = BUFFER_FREE ∨
      (sh.q.elements qindex).state = BUFFER_RESERVED) := by
  unfold markReceived
  dsimp only
  split
  · rename_i hct
    split
    · rename_i hstate
      simp [hstate]
    · rename_i hstate
      simp [hstate]
    · rename_i hstate
      simp [hct, hstate]
    · rename_i hstate
      simp [hct, hstate]
  · rename_i hct
    simp [hct]

/-- **What a receive delivers** while no send is in progress is what its entry shows. -/
theorem delivered_eq (heven : sh.q.update_counter % 2 = 0)
    (hlt : sh.q.update_counter < 2 ^ 32) (buffer_size : ℕ) :
    delivered K sh buffer_size = shown K sh (readSlot K sh.q.update_counter) buffer_size := by
  have hzero : subU32 sh.q.update_counter (sh.q.update_counter / 2 * 2) = 0 := by
    rw [subU32_of_le hlt (by omega)]
    omega
  unfold delivered mcapi_trans_recv_state shown
  dsimp only
  split
  · split
    · rfl
    · cases hmark : markReceived sh (readSlot K sh.q.update_counter) with
      | none =>
        rw [if_pos (markReceived_eq_none.mp hmark)]
        rfl
      | some sh' =>
        rw [if_neg (fun hc => by rw [markReceived_eq_none.mpr hc] at hmark; cases hmark)]
        obtain ⟨hbuf, hct, huc, hindex⟩ := markReceived_contents hmark
        have hcounter : ∀ n q, (mcapi_trans_recv_state_ sh' n q).1.q.update_counter =
            sh.q.update_counter := fun _ _ => huc
        have hsame : ∀ i, SameMessage (sh.buffers i) (sh'.buffers i) := by
          intro i
          rw [hbuf]
          exact .refl _
        dsimp only
        rw [hcounter, hzero, if_pos (Nat.zero_le _), Option.map_some, Option.map_some,
          contents_recv, hct, hindex, contents_congr hsame]
  · rfl

end Contents

/-! ## The send -/

section Send

variable {sh sh' : Shared} {K : ℕ} {m : Msg}

/-- The marker of a packet is no part of its message. -/
theorem releaseMarker_some {buf : buffer_descriptor} (h : releaseMarker sh buf = some sh') :
    sh'.q = sh.q ∧ ∀ i, SameMessage (sh.buffers i) (sh'.buffers i) := by
  unfold releaseMarker Shared.casMagic at h
  dsimp only at h
  split at h
  · split at h
    · split at h
      · obtain rfl := Option.some.inj h
        refine ⟨rfl, ?_⟩
        apply setBuffer_sameMessage
        exact ⟨rfl, rfl, rfl⟩
      · cases h
    · simp at h
  · obtain rfl := Option.some.inj h
    exact ⟨rfl, fun _ => .refl _⟩

/-- **A failed send**: the counter has gone on by two, the entry is empty, and the other
entries and the messages are as they were. -/
theorem send_state_failed (h : mcapi_trans_send_state K sh m = some (sh', false)) :
    let qindex := writeSlot K (u32 (sh.q.update_counter + 1))
    entryOk K qindex = true ∧ sh'.q.update_counter = u32 (sh.q.update_counter + 2) ∧
      sh'.q.channel_type = sh.q.channel_type ∧ (sh'.q.elements qindex).buff_index = 0 ∧
      (∀ j, j ≠ qindex → sh'.q.elements j = sh.q.elements j) ∧
      ∀ i, SameMessage (sh.buffers i) (sh'.buffers i) := by
  intro qindex
  unfold mcapi_trans_send_state at h
  dsimp only at h
  split at h
  · rename_i hentry
    refine ⟨hentry, ?_⟩
    split at h
    · -- a send that reuses the buffer succeeds
      simp [finishSend] at h
    · split at h
      · cases h
      · rename_i sh₁ hmarker
        obtain ⟨hq, hbuf⟩ := releaseMarker_some hmarker
        split at h
        · obtain rfl := congrArg Prod.fst (Option.some.inj h)
          refine ⟨u32_succ _, ?_, ?_, ?_, hbuf⟩
          · simp [Shared.setUpdateCounter, hq]
          · have hself := Shared.setElement_self sh₁ qindex
              { sh₁.q.elements qindex with state := BUFFER_FREE, buff_index := 0 }
            exact congrArg buffer_descriptor.buff_index hself
          · intro j hj
            have hcleared : sh₁.q.elements j = sh.q.elements j := by
              rw [hq]
              exact Function.update_of_ne hj _ _
            exact (Function.update_of_ne hj _ _).trans hcleared
        · simp [finishSend] at h
  · cases h

/-- Between two sends a receive reads the entry of the last one, unless the counter has
wrapped and the entries do not close up. -/
theorem readSlot_after {c : ℕ} (heven : c % 2 = 0) (hlt : c < 2 ^ 32)
    (hclose : c + 2 < 2 ^ 32 ∨ K ∣ 2 ^ 31) :
    readSlot K (u32 (c + 2)) = writeSlot K (u32 (c + 1)) := by
  have hodd : u32 (c + 1) / 2 = c / 2 := by
    rw [u32_of_lt (by omega)]
    omega
  rcases Nat.lt_or_ge (c + 2) (2 ^ 32) with hnear | hwrap
  · have hhalf : subU32 (u32 (c + 2) / 2) 1 = c / 2 := by
      rw [u32_of_lt hnear, subU32_of_le (by omega) (by omega)]
      omega
    rw [readSlot, writeSlot, hhalf, hodd]
  · -- the subtraction wraps, and both are the last entry
    have hdvd : K ∣ 2 ^ 31 := by
      rcases hclose with hnear | hdvd
      · omega
      · exact hdvd
    have hc : c = 2 ^ 32 - 2 := by omega
    have hhalf : subU32 (u32 (c + 2) / 2) 1 = 2 ^ 32 - 1 := by
      rw [hc]
      decide
    rw [readSlot, writeSlot, hhalf, hodd, hc]
    exact (slot_last (Dvd.dvd.mul_right hdvd 2) (by norm_num)).trans
      (slot_last hdvd (by norm_num)).symm

end Send

/-! ## What the receiver sees of it -/

/-- There is nothing to receive before the send. Where the receive after the send does not
read the entry of the send: what it reads there is what there was to receive before. -/
def StateEndpoint.Unseen (s : StateEndpoint) (buffer_size : ℕ) : Prop :=
  let counter := s.sh.q.update_counter
  let before := readSlot s.K counter
  let after := readSlot s.K (u32 (counter + 2))
  if after = writeSlot s.K (u32 (counter + 1)) then
    entryOk s.K before = true ∧ (s.sh.q.elements before).buff_index = 0
  else shown s.K s.sh after buffer_size = shown s.K s.sh before buffer_size

/-- Away from the place where the counter wraps all depends on the entry that was read
before. -/
theorem StateEndpoint.unseen_iff (s : StateEndpoint) {buffer_size : ℕ}
    (hclose : s.sh.q.update_counter + 2 < 2 ^ 32 ∨ s.K ∣ 2 ^ 31) :
    s.Unseen buffer_size ↔ entryOk s.K (readSlot s.K s.sh.q.update_counter) = true ∧
      (s.sh.q.elements (readSlot s.K s.sh.q.update_counter)).buff_index = 0 := by
  rw [Unseen, if_pos (readSlot_after s.even s.uc_lt hclose)]

/-- An entry shows nothing exactly if it has no buffer. -/
theorem shown_eq_none {sh : Shared} {K qindex buffer_size : ℕ} :
    shown K sh qindex buffer_size = some none ↔
      entryOk K qindex = true ∧ (sh.q.elements qindex).buff_index = 0 := by
  unfold shown
  dsimp only
  split
  · rename_i hentry
    split
    · rename_i hzero
      exact iff_of_true rfl ⟨hentry, hzero⟩
    · rename_i hne
      split
      · exact iff_of_false nofun (fun hc => hne hc.2)
      · exact iff_of_false nofun (fun hc => hne hc.2)
  · rename_i hentry
    exact iff_of_false nofun (fun hc => hentry hc.1)

/-- **A send that finds no buffer** leaves what a receive delivers as it was exactly if
there was nothing to receive. -/
theorem failed_send_invisible_iff (s : StateEndpoint) (m : Msg) (sh' : Shared)
    (hsend : mcapi_trans_send_state s.K s.sh m = some (sh', false)) (buffer_size : ℕ) :
    delivered s.K sh' buffer_size = delivered s.K s.sh buffer_size ↔ s.Unseen buffer_size := by
  obtain ⟨hentry, huc, hct, hcleared, hothers, hbuf⟩ := send_state_failed hsend
  have heven := s.even
  have hafter : delivered s.K sh' buffer_size =
      shown s.K sh' (readSlot s.K (u32 (s.sh.q.update_counter + 2))) buffer_size := by
    rw [delivered_eq, huc]
    · rw [huc]
      simp only [u32]
      omega
    · rw [huc]
      exact u32_lt _
  rw [hafter, delivered_eq heven s.uc_lt, StateEndpoint.Unseen]
  split
  · rename_i hsame
    rw [hsame, shown_eq_none.mpr ⟨hentry, hcleared⟩, eq_comm]
    exact shown_eq_none
  · rename_i hne
    rw [shown_congr hct (hothers _ hne) hbuf]

/-- A message of one byte. -/
def shortMsg (b : UInt8) : Msg := ⟨fun _ => b, 1, 0, one_le_max_msg_size⟩

/-- Two entries that hold nothing yet, and the buffers of the pool that are free. -/
def emptyEndpoint (free : ℕ → Bool) : StateEndpoint where
  K := 2
  sh := ⟨.zero MCAPI_NO_CHAN, fun i => { buffer_entry.zero with
    magic_num := if free i then 0 else MAGIC_NUM }⟩
  uc_lt := Nat.two_pow_pos 32
  even := rfl

/-- The first send of all fails, and there is nothing to receive before and after it. -/
theorem failed_send_invisible_first : ∃ sh',
    mcapi_trans_send_state 2 (emptyEndpoint fun _ => false).sh (shortMsg 7) = some (sh', false) ∧
      delivered 2 sh' 8 = delivered 2 (emptyEndpoint fun _ => false).sh 8 := by
  have hfails : (mcapi_trans_send_state 2 (emptyEndpoint fun _ => false).sh (shortMsg 7)).map
      Prod.snd = some false := by
    decide +kernel
  obtain ⟨⟨sh', ok⟩, hsend, rfl⟩ := Option.map_eq_some_iff.mp hfails
  refine ⟨sh', hsend, ?_⟩
  apply (failed_send_invisible_iff (emptyEndpoint fun _ => false) (shortMsg 7) sh' hsend 8).mpr
  have hdvd : 2 ∣ 2 ^ 31 := ⟨2 ^ 30, by norm_num⟩
  apply ((emptyEndpoint fun _ => false).unseen_iff (Or.inr hdvd)).mpr
  exact ⟨by decide +kernel, rfl⟩

/-- A message is sent, and a second send finds no buffer. A receive would have delivered
the first message before it, and finds nothing after it. -/
theorem failed_send_hides_message : ¬ ∀ (s : StateEndpoint) (m : Msg) (sh' : Shared)
    (buffer_size : ℕ), mcapi_trans_send_state s.K s.sh m = some (sh', false) →
      delivered s.K sh' buffer_size = delivered s.K s.sh buffer_size := by
  intro hall
  have hrun : ((mcapi_trans_send_state 2 (emptyEndpoint fun i => i == 0).sh (shortMsg 7)).bind
      fun p => (mcapi_trans_send_state 2 p.1 (shortMsg 9)).map fun p' => (p.1, p')).any
        (fun p => decide (p.1.q.update_counter = 2 ∧ p.2.2 = false ∧
          delivered 2 p.1 8 = some (some (1, .message [7])) ∧
          delivered 2 p.2.1 8 = some none)) = true := by
    decide +kernel
  obtain ⟨⟨sh, sh', ok⟩, hboth, hdone⟩ := (Option.any_eq_true _ _).mp hrun
  obtain ⟨huc, rfl, hbefore, hafter⟩ := of_decide_eq_true hdone
  obtain ⟨⟨sh₁, ok⟩, -, hsecond⟩ := Option.bind_eq_some_iff.mp hboth
  obtain ⟨p, hsend, hpair⟩ := Option.map_eq_some_iff.mp hsecond
  obtain ⟨hsh, rfl⟩ := Prod.mk.inj hpair
  rw [hsh] at hsend
  dsimp only at huc hbefore hafter
  have hsame := hall ⟨2, sh, by omega, by omega⟩ (shortMsg 9) sh' 8 hsend
  rw [hbefore, hafter] at hsame
  cases hsame

end MxApi.Transfers
