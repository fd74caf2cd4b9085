/-
The readers of a state message endpoint: what one knows survives the steps of
the others, and each of its own steps keeps it.

A reader writes nothing but the `parent` of a buffer, which no send looks at.
-/
import MxApi.Mcapi.StateWriter

set_option autoImplicit false

namespace MxApi

open Lib channel_type mcapi_buffer_state mcapi_status_t

section Reader

variable {ct : channel_type} {K : ℕ} {w : Option WritePc} {sh sh' : Shared} {calls : List Msg}
  {results : List Bool} {g : Moment} {c : ℕ}

/-! ## The writer does not look at `parent` -/

/-- The two buffers differ in `parent` at most. -/
structure SameContent (b b' : buffer_entry) : Prop where
  magic_num : b'.magic_num = b.magic_num
  size : b'.size = b.size
  scalar : b'.scalar = b.scalar
  buff : b'.buff = b.buff

theorem Shared.setParent_sameContent (sh : Shared) (i : ℕ) (q : Option ℕ) (i' : ℕ) :
    SameContent (sh.buffers i')
      ((sh.setBuffer i { sh.buffers i with parent := q }).buffers i') := by
  by_cases hi : i' = i
  · rw [hi, Shared.setBuffer_self]
    exact ⟨rfl, rfl, rfl, rfl⟩
  · rw [Shared.setBuffer_of_ne _ hi]
    exact ⟨rfl, rfl, rfl, rfl⟩

theorem SameContent.hasContent {b b' : buffer_entry} {m : Msg} (h : SameContent b b')
    (hb : HasContent ct m b) : HasContent ct m b' := by
  unfold HasContent at hb ⊢
  rwa [h.scalar, h.buff]

theorem SameContent.written {b b' : buffer_entry} {m : Msg} (h : SameContent b b')
    (hb : Written ct m b) : Written ct m b' :=
  ⟨h.size.trans hb.size, h.hasContent hb.content⟩

/-- What a send knows after a change of a `parent`. -/
theorem WritePc.Ok.sameContent {n : ℕ} {m : Msg} {p : WritePc} (h : p.Ok ct K n m sh)
    (hq : sh'.q = sh.q) (hbuf : ∀ i, SameContent (sh.buffers i) (sh'.buffers i)) :
    p.Ok ct K n m sh' := by
  cases p with
  | readState | readBuffIndex => exact h
  | reserve | allocBuffer | setFree | clearBuffIndex | giveUp | setParent =>
    simp only [WritePc.Ok, hq] at h ⊢
    exact h
  | setBuffIndex m' c i =>
    simp only [WritePc.Ok, hq, (hbuf i).magic_num] at h ⊢
    exact h
  | copy m' c i k =>
    simp only [WritePc.Ok, hq, (hbuf i).buff] at h ⊢
    exact h
  | setSize m' c i =>
    simp only [WritePc.Ok, hq] at h ⊢
    exact ⟨h.1, (hbuf i).hasContent h.2⟩
  | rereadState m' c i | casCounter m' c i =>
    simp only [WritePc.Ok, hq] at h ⊢
    exact ⟨h.1, (hbuf i).written h.2⟩
  | casAllocated m' c i old =>
    simp only [WritePc.Ok, hq] at h ⊢
    exact ⟨h.1, (hbuf i).written h.2.1, h.2.2⟩
  | casMarker | idle | incCounter | failed => exact h.elim

/-- A reader's step keeps what the writers know. -/
theorem StateCore.sameContent (h : StateCore ct K w sh calls results) (hq : sh'.q = sh.q)
    (hbuf : ∀ i, SameContent (sh.buffers i) (sh'.buffers i)) :
    StateCore ct K w sh' calls results where
  channel := by
    rw [hq]
    exact h.channel
  length := h.length
  uc := by
    rw [hq]
    exact h.uc
  index := by
    rw [hq]
    intro j hj
    obtain ⟨i, hi, hmagic⟩ := h.index j hj
    exact ⟨i, hi, by rwa [(hbuf i).magic_num]⟩
  exclusive := by
    rw [hq]
    exact h.exclusive
  given := by
    rw [hq]
    exact h.given
  ended := by
    intro n m b hm hb hlatest
    have hleaves := h.ended n m b hm hb hlatest
    unfold Leaves at hleaves ⊢
    rw [hq]
    cases b with
    | false => exact hleaves
    | true =>
      simp only [if_true] at hleaves ⊢
      obtain ⟨i, hi, hwritten⟩ := hleaves
      exact ⟨i, hi, (hbuf i).written hwritten⟩
  writer := by
    intro p hp
    obtain ⟨m, hm, hok⟩ := h.writer p hp
    exact ⟨m, hm, hok.sameContent hq hbuf⟩

/-! ## What a reader knows survives the sends -/

theorem Seen.mono (h : Seen calls results g c) (calls' : List Msg) (results' : List Bool) :
    Seen (calls ++ calls') (results ++ results') g c where
  value := h.value
  began := h.began
  seen := by
    have := h.seen
    simp only [List.length_append]
    omega

theorem getElem?_append_of_some {α : Type*} {l : List α} {n : ℕ} {x : α} (h : l[n]? = some x)
    (l' : List α) : (l ++ l')[n]? = some x := by
  rw [List.getElem?_append_left (List.getElem?_eq_some_iff.mp h).1, h]

/-- A reading survives if what it knows of its message does. -/
theorem Reading.mono {P P' : Msg → Prop} (h : Reading K calls results g c P)
    (calls' : List Msg) (results' : List Bool)
    (hP : Undisturbed K g.seen (calls ++ calls').length → g.seen / 2 - 1 < results.length →
      ∀ m, P m → P' m) :
    Reading K (calls ++ calls') (results ++ results') g c P' where
  toSeen := h.toSeen.mono calls' results'
  given := by
    obtain ⟨n, hn, hslot⟩ := h.given
    exact ⟨n, by simp only [List.length_append]; omega, hslot⟩
  message := by
    intro hu
    obtain ⟨m, hm, hresult, hPm⟩ := h.message (hu.mono (by simp))
    exact ⟨m, getElem?_append_of_some hm calls', getElem?_append_of_some hresult results',
      hP hu (List.getElem?_eq_some_iff.mp hresult).1 m hPm⟩

/-- **What a reader knows survives** every step that leaves the entries alone
that the latest sends have ended in. -/
theorem ReadPc.Ok.mono {p : ReadPc} {el el' : ℕ → buffer_descriptor}
    (h : p.Ok ct K calls results el) (calls' : List Msg) (results' : List Bool)
    (hel : ∀ n, n < results.length → Latest K (calls ++ calls').length n →
      el' (stateSlot K n) = el (stateSlot K n)) :
    p.Ok ct K (calls ++ calls') (results ++ results') el' := by
  -- the entry of an undisturbed reading keeps its buffer
  have hbuffer : ∀ {g : Moment} {c index : ℕ}, c = u32 g.seen →
      Undisturbed K g.seen (calls ++ calls').length → g.seen / 2 - 1 < results.length →
      HasBuffer (el (readSlot K c)) index → HasBuffer (el' (readSlot K c)) index := by
    rintro g c index rfl hu hn hb
    rw [hu.slot] at hb ⊢
    rwa [hel _ hn hu.latest]
  cases p with
  | idle => trivial
  | readCounter f g =>
    have hbegan : g.began ≤ results.length := h
    simp only [ReadPc.Ok, List.length_append]
    omega
  | readState | readBuffIndex => exact Seen.mono h calls' results'
  | recvBuffIndex => exact Reading.mono h calls' results' fun _ _ _ hm => hm
  | setParent f g c index | readSize f g c index =>
    exact Reading.mono h calls' results' fun hu hn _ hb => hbuffer h.value hu hn hb
  | copy f g c index size data =>
    exact Reading.mono h calls' results' fun hu hn _ hm =>
      ⟨hbuffer h.value hu hn hm.1, hm.2⟩
  | confirm => exact ⟨Reading.mono h.1 calls' results' fun _ _ _ hm => hm, h.2⟩
  | casReceived | freeMarker | freeRead | freeCas | freeParent | freeEntry | failed =>
    exact h.elim

/-! ## A reader's own steps -/

/-- An undisturbed reader's entry shows the result of the send it was given to. -/
theorem StateCore.leaves (h : StateCore ct K w sh calls results) (hseen : Seen calls results g c)
    (hu : Undisturbed K g.seen calls.length) :
    ∃ m b, calls[g.seen / 2 - 1]? = some m ∧ results[g.seen / 2 - 1]? = some b ∧
      Leaves ct m b sh (readSlot K c) := by
  have htwo := hu.two_le
  have hle := hseen.seen
  have hlength := h.length
  have hw : writing w ≤ 1 := writing_le_one w
  have hm : g.seen / 2 - 1 < calls.length := by omega
  have hb : g.seen / 2 - 1 < results.length := by omega
  refine ⟨calls[g.seen / 2 - 1], results[g.seen / 2 - 1], List.getElem?_eq_getElem hm,
    List.getElem?_eq_getElem hb, ?_⟩
  rw [hseen.value, hu.slot]
  exact h.ended _ _ _ (List.getElem?_eq_getElem hm) (List.getElem?_eq_getElem hb) hu.latest

/-- If there is a buffer in it, that holds the send's message. -/
theorem StateCore.holds (h : StateCore ct K w sh calls results) (hseen : Seen calls results g c)
    (hu : Undisturbed K g.seen calls.length)
    (hne : (sh.q.elements (readSlot K c)).buff_index ≠ 0) :
    ∃ m i, calls[g.seen / 2 - 1]? = some m ∧ results[g.seen / 2 - 1]? = some true ∧
      HasBuffer (sh.q.elements (readSlot K c)) i ∧ Written ct m (sh.buffers i) := by
  obtain ⟨m, b, hm, hb, hleaves⟩ := h.leaves hseen hu
  unfold Leaves at hleaves
  cases b with
  | false => exact absurd hleaves hne
  | true =>
    obtain ⟨i, hi, hwritten⟩ := hleaves
    exact ⟨m, i, hm, hb, hi, hwritten⟩

/-- A reading in progress, sharpened by what its entry shows. -/
theorem StateCore.reading {P P' : Msg → Prop} (h : StateCore ct K w sh calls results)
    (hr : Reading K calls results g c P)
    (hP : ∀ m i, HasBuffer (sh.q.elements (readSlot K c)) i → Written ct m (sh.buffers i) →
      P m → P' m) :
    Reading K calls results g c P' where
  toSeen := hr.toSeen
  given := hr.given
  message := by
    intro hu
    obtain ⟨m, hm, hresult, hPm⟩ := hr.message hu
    obtain ⟨m', b, hm', hb, hleaves⟩ := h.leaves hr.toSeen hu
    rw [hm] at hm'
    cases hm'
    rw [hresult] at hb
    cases hb
    obtain ⟨i, hi, hwritten⟩ := hleaves
    exact ⟨m, hm, hresult, hP m i hi hwritten hPm⟩

/-- What a step of a reader does: it leaves the queue and the contents of the
buffers alone, keeps what the reader knows, and hands out no packet. -/
structure Reads (ct : channel_type) (K : ℕ) (calls : List Msg) (results : List Bool)
    (sh : Shared) (next : Shared × ReadPc × Option Receipt) : Prop where
  queue : next.1.q = sh.q
  content : ∀ i, SameContent (sh.buffers i) (next.1.buffers i)
  ok : next.2.1.Ok ct K calls results sh.q.elements
  unpacked : ∀ r, next.2.2 = some r → ∀ i, r.delivery.payload ≠ .packet i

/-- A step that only reads, and does not complete the receive. -/
theorem Reads.local {p' : ReadPc} (h : p'.Ok ct K calls results sh.q.elements) :
    Reads ct K calls results sh (sh, p', none) :=
  ⟨rfl, fun _ => ⟨rfl, rfl, rfl, rfl⟩, h, nofun⟩

theorem read_readCounter {f : RecvArgs} (h : StateCore ct K w sh calls results)
    (hok : (ReadPc.readCounter f g).Ok ct K calls results sh.q.elements) :
    Reads ct K calls results sh
      (readProgram K (calls.length + results.length) sh (.readCounter f g)) := by
  have hbegan : g.began ≤ results.length := hok
  have hlength := h.length
  refine .local ⟨h.uc, ?_, Nat.le_refl _⟩
  change g.began ≤ (calls.length + results.length) / 2
  omega

/-- A reader that finds a buffer in its entry goes on to read it. -/
theorem read_readBuffIndex {f : RecvArgs} {now : ℕ} (hct : ct ≠ MCAPI_PKT_CHAN)
    (h : StateCore ct K w sh calls results)
    (hok : (ReadPc.readBuffIndex f g c).Ok ct K calls results sh.q.elements) :
    Reads ct K calls results sh (readProgram K now sh (.readBuffIndex f g c)) := by
  have hseen : Seen calls results g c := hok
  have hchannel : sh.q.channel_type ≠ MCAPI_PKT_CHAN := by rwa [h.channel]
  unfold readProgram
  by_cases hzero : (sh.q.elements (readSlot K c)).buff_index = 0
  · simp only [if_pos hzero]
    have hidle : ReadPc.idle.Ok ct K calls results sh.q.elements := trivial
    exact .local hidle
  · simp only [if_neg hzero, if_neg hchannel]
    refine .local ⟨hseen, h.given _ hzero, fun hu => ?_⟩
    obtain ⟨m, i, hm, hresult, -⟩ := h.holds hseen hu hzero
    exact ⟨m, hm, hresult, trivial⟩

theorem read_recvBuffIndex {f : RecvArgs} {now : ℕ} (h : StateCore ct K w sh calls results)
    (hok : (ReadPc.recvBuffIndex f g c).Ok ct K calls results sh.q.elements) :
    Reads ct K calls results sh (readProgram K now sh (.recvBuffIndex f g c)) := by
  refine .local (h.reading hok fun m i hi _ _ => ?_)
  rw [hi.2, bufferIndex_validIndex hi.1]
  exact hi

theorem read_setParent {f : RecvArgs} {now index : ℕ}
    (hok : (ReadPc.setParent f g c index).Ok ct K calls results sh.q.elements) :
    Reads ct K calls results sh (readProgram K now sh (.setParent f g c index)) :=
  ⟨rfl, sh.setParent_sameContent index _, hok, nofun⟩

theorem read_readSize {f : RecvArgs} {now index : ℕ} (h : StateCore ct K w sh calls results)
    (hok : (ReadPc.readSize f g c index).Ok ct K calls results sh.q.elements) :
    Reads ct K calls results sh (readProgram K now sh (.readSize f g c index)) := by
  refine .local (h.reading hok fun m i hi hwritten hindex => ?_)
  cases hi.unique hindex
  exact ⟨hi, hwritten.size, rfl, Nat.zero_le _⟩

/-- One step of copying out: the scalar at once, or one more byte of the message. -/
theorem read_copy {f : RecvArgs} {now index size : ℕ} {data : List UInt8}
    (hct : ct ≠ MCAPI_PKT_CHAN) (h : StateCore ct K w sh calls results)
    (hok : (ReadPc.copy f g c index size data).Ok ct K calls results sh.q.elements) :
    Reads ct K calls results sh (readProgram K now sh (.copy f g c index size data)) := by
  unfold readProgram
  rw [h.channel]
  cases hchannel : ct with
  | MCAPI_PKT_CHAN => exact absurd hchannel hct
  | MCAPI_SCL_CHAN =>
    subst hchannel
    refine .local ⟨h.reading hok ?_, nofun⟩
    rintro m i hi hwritten ⟨hindex, hsize, -, -⟩
    cases hi.unique hindex
    have hscalar : (sh.buffers index).scalar = m.scalar := hwritten.content
    rw [hscalar, hsize]
    rfl
  | MCAPI_NO_CHAN =>
    subst hchannel
    by_cases hlt : data.length < min size f.buffer_size
    · simp only [if_pos hlt]
      refine .local (h.reading hok ?_)
      rintro m i hi hwritten ⟨hindex, hsize, hdata, -⟩
      cases hi.unique hindex
      have hcontent : ∀ k < m.buffer_size, (sh.buffers index).buff k = m.buffer k :=
        hwritten.content
      refine ⟨hi, hsize, ?_, ?_⟩
      · rw [hcontent data.length (by omega), List.length_append, List.length_singleton,
          List.range_succ, List.map_append, ← hdata]
        rfl
      · simp only [List.length_append, List.length_singleton]
        omega
    · simp only [if_neg hlt]
      refine .local ⟨h.reading hok ?_, nofun⟩
      rintro m i hi hwritten ⟨-, hsize, hdata, hle⟩
      have hall : data.length = min m.buffer_size f.buffer_size := by omega
      rw [stateDelivery, ← hall, ← hdata, hsize]

/-- The confirming read: the receive returns, or starts over. -/
theorem read_confirm {f : RecvArgs} {now index : ℕ} {d : Delivery}
    (h : StateCore ct K w sh calls results)
    (hok : (ReadPc.confirm f g c index d).Ok ct K calls results sh.q.elements) :
    Reads ct K calls results sh (readProgram K now sh (.confirm f g c index d)) := by
  unfold readProgram
  by_cases htest : subU32 sh.q.update_counter (c / 2 * 2) ≤ 2 * K - 2
  · simp only [if_pos htest]
    refine ⟨rfl, fun _ => ⟨rfl, rfl, rfl, rfl⟩, trivial, ?_⟩
    rintro r ⟨⟩
    exact hok.2
  · simp only [if_neg htest]
    refine .local ?_
    have hbegan := hok.1.began
    have hseen := hok.1.seen
    have hlength := h.length
    have hw : writing w ≤ 1 := writing_le_one w
    change g.began ≤ results.length
    omega

/-- **A step of a reader.** -/
theorem StateCore.read {p : ReadPc} (hct : ct ≠ MCAPI_PKT_CHAN)
    (h : StateCore ct K w sh calls results) (hok : p.Ok ct K calls results sh.q.elements) :
    Reads ct K calls results sh (readProgram K (calls.length + results.length) sh p) := by
  cases p with
  | idle => exact .local hok
  | readCounter => exact read_readCounter h hok
  | readState => exact .local hok
  | readBuffIndex => exact read_readBuffIndex hct h hok
  | recvBuffIndex => exact read_recvBuffIndex h hok
  | setParent => exact read_setParent hok
  | readSize => exact read_readSize h hok
  | copy => exact read_copy hct h hok
  | confirm => exact read_confirm h hok
  | casReceived | freeMarker | freeRead | freeCas | freeParent | freeEntry | failed =>
    exact hok.elim

end Reader

end MxApi
