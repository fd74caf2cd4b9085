/-
The steps of the send in progress: each keeps the invariant, no assert of
`mcapi_trans_send_state` fails, and no entry but the send's own is written.
-/
import MxApi.Mcapi.StateInvariant

set_option autoImplicit false

namespace MxApi

open Lib channel_type mcapi_buffer_state mcapi_status_t

section Writer

variable {ct : channel_type} {K : ℕ} {p p' : WritePc} {sh sh' : Shared} {calls : List Msg}
  {results : List Bool}

/-! ## What the send in progress may write -/

/-- What a send has left depends on its entry and on the buffer there. -/
theorem Leaves.congr {m : Msg} {result : Bool} {q : ℕ} (h : Leaves ct m result sh q)
    (hel : sh'.q.elements q = sh.q.elements q)
    (hbuf : ∀ i, HasBuffer (sh.q.elements q) i → sh'.buffers i = sh.buffers i) :
    Leaves ct m result sh' q := by
  unfold Leaves at h ⊢
  rw [hel]
  cases result with
  | false => exact h
  | true =>
    simp only [if_true] at h ⊢
    obtain ⟨i, hi, hwritten⟩ := h
    exact ⟨i, hi, by rwa [hbuf i hi]⟩

/-- The buffer of an entry is in use, and no other entry has it. -/
theorem StateCore.own {w : Option WritePc} (h : StateCore ct K w sh calls results) {q : ℕ}
    (hq : (sh.q.elements q).buff_index ≠ 0) :
    ∃ i, HasBuffer (sh.q.elements q) i ∧ (sh.buffers i).magic_num ≠ 0 ∧
      ∀ j, j ≠ q → ¬ HasBuffer (sh.q.elements j) i := by
  obtain ⟨i, hi, hmagic⟩ := h.index q hq
  exact ⟨i, hi, hmagic, fun j hj hji => hj (h.exclusive j q i hji hi)⟩

/-- A send that has ended wrote another entry than the one in progress, if no
later one has been given its entry. -/
theorem StateCore.slot_ne (h : StateCore ct K (some p) sh calls results) {n : ℕ}
    (hn : n < results.length) (hlatest : Latest K calls.length n) :
    stateSlot K n ≠ stateSlot K results.length := by
  have hlength : calls.length = results.length + 1 := h.length
  exact (hlatest results.length hn (by omega)).symm

/-- **The frame of the send in progress.** It may write its entry, and any buffer
that no other entry has. -/
theorem StateCore.write (h : StateCore ct K (some p) sh calls results)
    (hchannel : sh'.q.channel_type = sh.q.channel_type)
    (huc : sh'.q.update_counter = sh.q.update_counter)
    (hel : ∀ j, j ≠ stateSlot K results.length → sh'.q.elements j = sh.q.elements j)
    (hbuf : ∀ j i, j ≠ stateSlot K results.length → HasBuffer (sh.q.elements j) i →
      sh'.buffers i = sh.buffers i)
    (hown : (sh'.q.elements (stateSlot K results.length)).buff_index ≠ 0 →
      ∃ i, HasBuffer (sh'.q.elements (stateSlot K results.length)) i ∧
        (sh'.buffers i).magic_num ≠ 0 ∧
        ∀ j, j ≠ stateSlot K results.length → ¬ HasBuffer (sh.q.elements j) i)
    (hok : ∀ m, p.Ok ct K results.length m sh → p'.Ok ct K results.length m sh') :
    StateCore ct K (some p') sh' calls results where
  channel := hchannel.trans h.channel
  length := h.length
  uc := huc.trans h.uc
  index := by
    intro j hj
    by_cases hjq : j = stateSlot K results.length
    · rw [hjq] at hj ⊢
      obtain ⟨i, hi, hmagic, -⟩ := hown hj
      exact ⟨i, hi, hmagic⟩
    · rw [hel j hjq] at hj ⊢
      obtain ⟨i, hi, hmagic⟩ := h.index j hj
      exact ⟨i, hi, by rwa [hbuf j i hjq hi]⟩
  exclusive := by
    -- the buffer of the own entry is nobody else's
    have hother : ∀ j i, HasBuffer (sh'.q.elements (stateSlot K results.length)) i →
        HasBuffer (sh'.q.elements j) i → j = stateSlot K results.length := by
      intro j i hi hj
      by_contra hjq
      obtain ⟨i', hi', -, hnot⟩ := hown hi.ne_zero
      rw [hel j hjq, hi.unique hi'] at hj
      exact hnot j hjq hj
    intro j j' i hj hj'
    by_cases hjq : j = stateSlot K results.length
    · rw [hjq] at hj ⊢
      exact (hother j' i hj hj').symm
    · by_cases hjq' : j' = stateSlot K results.length
      · rw [hjq'] at hj' ⊢
        exact hother j i hj' hj
      · rw [hel j hjq] at hj
        rw [hel j' hjq'] at hj'
        exact h.exclusive j j' i hj hj'
  given := by
    have hlength : calls.length = results.length + 1 := h.length
    intro j hj
    by_cases hjq : j = stateSlot K results.length
    · exact ⟨results.length, by omega, hjq.symm⟩
    · rw [hel j hjq] at hj
      exact h.given j hj
  ended := by
    intro n m b hm hb hlatest
    have hne := h.slot_ne (List.getElem?_eq_some_iff.mp hb).1 hlatest
    exact (h.ended n m b hm hb hlatest).congr (hel _ hne) (hbuf _ · hne)
  writer := by
    intro p'' hp''
    cases hp''
    obtain ⟨m, hm, hpok⟩ := h.writer p rfl
    exact ⟨m, hm, hok m hpok⟩

/-- A step that writes nothing. -/
theorem StateCore.write_local (h : StateCore ct K (some p) sh calls results)
    (hok : ∀ m, p.Ok ct K results.length m sh → p'.Ok ct K results.length m sh) :
    StateCore ct K (some p') sh calls results :=
  h.write rfl rfl (fun _ _ => rfl) (fun _ _ _ _ => rfl) h.own hok

/-- A step that writes the entry. -/
theorem StateCore.write_entry (h : StateCore ct K (some p) sh calls results)
    {d : buffer_descriptor}
    (hown : d.buff_index ≠ 0 → ∃ i, HasBuffer d i ∧ (sh.buffers i).magic_num ≠ 0 ∧
      ∀ j, j ≠ stateSlot K results.length → ¬ HasBuffer (sh.q.elements j) i)
    (hok : ∀ m, p.Ok ct K results.length m sh →
      p'.Ok ct K results.length m (sh.setElement (stateSlot K results.length) d)) :
    StateCore ct K (some p') (sh.setElement (stateSlot K results.length) d) calls results := by
  refine h.write rfl rfl (fun j hj => sh.setElement_of_ne hj d) (fun _ _ _ _ => rfl) ?_ hok
  rw [Shared.setElement_self]
  exact hown

/-- A step that writes the entry's state. -/
theorem StateCore.write_state (h : StateCore ct K (some p) sh calls results)
    {d : buffer_descriptor}
    (hd : d.buff_index = (sh.q.elements (stateSlot K results.length)).buff_index)
    (hok : ∀ m, p.Ok ct K results.length m sh →
      p'.Ok ct K results.length m (sh.setElement (stateSlot K results.length) d)) :
    StateCore ct K (some p') (sh.setElement (stateSlot K results.length) d) calls results := by
  refine h.write_entry ?_ hok
  intro hne
  rw [hd] at hne
  obtain ⟨i, hi, hrest⟩ := h.own hne
  exact ⟨i, ⟨hi.1, hd.trans hi.2⟩, hrest⟩

/-- A step that writes the entry's buffer. -/
theorem StateCore.write_buffer (h : StateCore ct K (some p) sh calls results) {i : ℕ}
    {b : buffer_entry} (hi : HasBuffer (sh.q.elements (stateSlot K results.length)) i)
    (hmagic : b.magic_num = (sh.buffers i).magic_num)
    (hok : ∀ m, p.Ok ct K results.length m sh →
      p'.Ok ct K results.length m (sh.setBuffer i b)) :
    StateCore ct K (some p') (sh.setBuffer i b) calls results := by
  refine h.write rfl rfl (fun _ _ => rfl) ?_ ?_ hok
  · intro j i' hj hi'
    refine sh.setBuffer_of_ne ?_ b
    rintro rfl
    exact hj (h.exclusive j _ _ hi' hi)
  · intro hne
    obtain ⟨i', hi', hmarked, hnot⟩ := h.own hne
    cases hi.unique hi'
    exact ⟨i, hi, by rwa [Shared.setBuffer_self, hmagic], hnot⟩

/-! ## A send starts and ends -/

/-- **A send starts** while no other is in progress. -/
theorem StateCore.start (h : StateCore ct K none sh calls results) (m : Msg) :
    StateCore ct K (some (.readState m (u32 (sh.q.update_counter + 1))))
      (sh.setUpdateCounter (u32 (sh.q.update_counter + 1))) (calls ++ [m]) results where
  channel := h.channel
  length := by
    have hlength : calls.length = results.length := h.length
    simp [hlength, writing]
  uc := by
    have hsum : (calls ++ [m]).length + results.length = calls.length + results.length + 1 := by
      simp only [List.length_append, List.length_singleton]
      omega
    rw [hsum]
    change u32 (sh.q.update_counter + 1) = _
    rw [h.uc, u32_succ]
  index := h.index
  exclusive := h.exclusive
  given := by
    intro j hj
    obtain ⟨n, hn, hslot⟩ := h.given j hj
    exact ⟨n, by simp only [List.length_append, List.length_singleton]; omega, hslot⟩
  ended := by
    intro n m' b hm hb hlatest
    have hlength : calls.length = results.length := h.length
    have hn : n < results.length := (List.getElem?_eq_some_iff.mp hb).1
    rw [List.getElem?_append_left (by omega)] at hm
    refine (h.ended n m' b hm hb (hlatest.mono ?_)).congr rfl fun _ _ => rfl
    simp only [List.length_append]
    omega
  writer := by
    have hlength : calls.length = results.length := h.length
    intro p hp
    cases hp
    refine ⟨m, by rw [← hlength]; simp, rfl, ?_⟩
    rw [h.uc, hlength, u32_succ, Nat.two_mul]

/-- The counter of the send in progress. -/
theorem StateCore.counter_eq (h : StateCore ct K (some p) sh calls results) :
    sh.q.update_counter = u32 (2 * results.length + 1) := by
  have hlength : calls.length = results.length + 1 := h.length
  have hsum : calls.length + results.length = 2 * results.length + 1 := by omega
  rw [h.uc, hsum]

/-- **A send ends** with the result that its entry shows. -/
theorem StateCore.finish (h : StateCore ct K (some p) sh calls results) {counter : ℕ} {b : Bool}
    (hcounter : counter = u32 (2 * results.length + 1))
    (hleaves : ∀ m, p.Ok ct K results.length m sh → Leaves ct m b sh (stateSlot K results.length)) :
    StateCore ct K none (sh.setUpdateCounter (u32 (counter + 1))) calls (results ++ [b]) where
  channel := h.channel
  length := by
    have hlength : calls.length = results.length + 1 := h.length
    simp [hlength, writing]
  uc := by
    have hlength : calls.length = results.length + 1 := h.length
    have hsum : calls.length + (results ++ [b]).length = 2 * results.length + 1 + 1 := by
      simp only [List.length_append, List.length_singleton]
      omega
    rw [hsum, hcounter, u32_succ]
    rfl
  index := h.index
  exclusive := h.exclusive
  given := h.given
  ended := by
    intro n m b' hm hb hlatest
    by_cases hn : n < results.length
    · rw [List.getElem?_append_left hn] at hb
      exact (h.ended n m b' hm hb hlatest).congr rfl fun _ _ => rfl
    · have hlast : n = results.length := by
        have := (List.getElem?_eq_some_iff.mp hb).1
        simp only [List.length_append, List.length_singleton] at this
        omega
      subst hlast
      obtain ⟨m', hm', hok⟩ := h.writer p rfl
      rw [hm'] at hm
      cases hm
      rw [List.getElem?_concat_length] at hb
      cases hb
      exact (hleaves m hok).congr rfl fun _ _ => rfl
  writer := nofun

/-! ## The program points of a send -/

/-- What a step of the send in progress does: it writes no other entry, and the
send goes on, or ends and returns a result. -/
structure Writes (ct : channel_type) (K : ℕ) (calls : List Msg) (results : List Bool)
    (sh : Shared) (next : Shared × WritePc × Option Bool) : Prop where
  others : ∀ j, j ≠ stateSlot K results.length → next.1.q.elements j = sh.q.elements j
  move : (next.2.2 = none ∧ next.2.1.inside = true ∧
      StateCore ct K (some next.2.1) next.1 calls results) ∨
    ∃ b, next.2.2 = some b ∧ next.2.1 = .idle ∧ StateCore ct K none next.1 calls (results ++ [b])

/-- A step that leaves the entries alone. -/
theorem Writes.stay (hinside : p'.inside = true) (hel : sh'.q.elements = sh.q.elements)
    (h : StateCore ct K (some p') sh' calls results) :
    Writes ct K calls results sh (sh', p', none) :=
  ⟨fun _ _ => by rw [hel], .inl ⟨rfl, hinside, h⟩⟩

/-- A step that writes the entry. -/
theorem Writes.entry (hinside : p'.inside = true) {d : buffer_descriptor}
    (h : StateCore ct K (some p') (sh.setElement (stateSlot K results.length) d) calls results) :
    Writes ct K calls results sh (sh.setElement (stateSlot K results.length) d, p', none) :=
  ⟨fun _ hj => sh.setElement_of_ne hj d, .inl ⟨rfl, hinside, h⟩⟩

/-- The send in progress and what it knows. -/
theorem StateCore.ok (h : StateCore ct K (some p) sh calls results) :
    ∃ m, p.Ok ct K results.length m sh := by
  obtain ⟨m, -, hok⟩ := h.writer p rfl
  exact ⟨m, hok⟩

theorem write_readState {m : Msg} {c : ℕ}
    (h : StateCore ct K (some (.readState m c)) sh calls results) :
    Writes ct K calls results sh (writeProgram K sh (.readState m c)) :=
  .stay rfl rfl (h.write_local fun _ hok => hok)

theorem write_readBuffIndex {m : Msg} {c : ℕ} {old : mcapi_buffer_state}
    (h : StateCore ct K (some (.readBuffIndex m c old)) sh calls results) :
    Writes ct K calls results sh (writeProgram K sh (.readBuffIndex m c old)) := by
  refine .stay rfl rfl (h.write_local fun m' hok => ⟨hok, ?_⟩)
  rw [hok.2, writeSlot_u32]

/-- Reserving the entry: a send that finds a buffer there uses it again, whatever
the entry's state was. -/
theorem write_reserve {m : Msg} {c b : ℕ} {old : mcapi_buffer_state}
    (hct : ct ≠ MCAPI_PKT_CHAN)
    (h : StateCore ct K (some (.reserve m c old b)) sh calls results) :
    Writes ct K calls results sh (writeProgram K sh (.reserve m c old b)) := by
  obtain ⟨m', ⟨rfl, rfl⟩, hb⟩ := h.ok
  have hchannel : sh.q.channel_type ≠ MCAPI_PKT_CHAN := by rwa [h.channel]
  unfold writeProgram
  simp only [writeSlot_u32]
  by_cases hzero : b = 0
  · have hafter : afterReserve sh.q.channel_type m (u32 (2 * results.length + 1)) old b
        = .allocBuffer m (u32 (2 * results.length + 1)) 0 := by
      simp [afterReserve, hzero]
    rw [hafter]
    refine .entry rfl (h.write_state rfl ?_)
    rintro m'' ⟨hsend, -⟩
    refine ⟨hsend, ?_⟩
    rw [Shared.setElement_self]
    exact ⟨rfl, hb.symm.trans hzero⟩
  · have hafter : afterReserve sh.q.channel_type m (u32 (2 * results.length + 1)) old b
        = .setParent m (u32 (2 * results.length + 1)) (bufferIndex b) := by
      simp [afterReserve, hzero, hchannel]
    rw [hafter]
    refine .entry rfl (h.write_state rfl ?_)
    rintro m'' ⟨hsend, -⟩
    obtain ⟨i, ⟨hi, hindex⟩, -⟩ := h.own (hb ▸ hzero)
    rw [← hb] at hindex
    refine ⟨hsend, ?_⟩
    rw [hindex, bufferIndex_validIndex hi, Shared.setElement_self]
    exact ⟨hi, rfl, hb.symm.trans hindex⟩

/-- Trying a buffer: one that is free is in no entry. -/
theorem write_allocBuffer {m : Msg} {c i : ℕ}
    (h : StateCore ct K (some (.allocBuffer m c i)) sh calls results) :
    Writes ct K calls results sh (writeProgram K sh (.allocBuffer m c i)) := by
  unfold writeProgram Shared.casMagic
  by_cases hi : i < MCAPI_MAX_BUFFERS
  · by_cases hfree : (sh.buffers i).magic_num = 0
    · simp only [if_pos hi, if_pos hfree, if_true]
      have hnone : ∀ j, ¬ HasBuffer (sh.q.elements j) i := by
        intro j hj
        obtain ⟨i', hi', hmagic⟩ := h.index j hj.ne_zero
        rw [← hj.unique hi'] at hmagic
        exact hmagic hfree
      refine .stay rfl rfl (h.write rfl rfl (fun _ _ => rfl) ?_ ?_ ?_)
      · intro j i' _ hi'
        refine sh.setBuffer_of_ne ?_ _
        rintro rfl
        exact hnone j hi'
      · intro hne
        obtain ⟨m', -, hentry⟩ := h.ok
        exact absurd hentry.2 hne
      · rintro m' ⟨hsend, hentry⟩
        refine ⟨hsend, hentry, hi, ?_, hnone⟩
        rw [Shared.setBuffer_self]
        exact RESERVED_NUM_ne_zero
    · simp only [if_pos hi, if_neg hfree]
      exact .stay rfl rfl (h.write_local fun _ hok => hok)
  · simp only [if_neg hi]
    exact .stay rfl rfl (h.write_local fun _ hok => hok)

theorem write_setFree {m : Msg} {c : ℕ}
    (h : StateCore ct K (some (.setFree m c)) sh calls results) :
    Writes ct K calls results sh (writeProgram K sh (.setFree m c)) := by
  obtain ⟨m', ⟨rfl, rfl⟩, hentry⟩ := h.ok
  unfold writeProgram
  simp only [writeSlot_u32]
  refine .entry rfl (h.write_state rfl ?_)
  rintro m'' ⟨hsend, -⟩
  refine ⟨hsend, ?_⟩
  rw [Shared.setElement_self]
  exact hentry.2

theorem write_clearBuffIndex {m : Msg} {c : ℕ}
    (h : StateCore ct K (some (.clearBuffIndex m c)) sh calls results) :
    Writes ct K calls results sh (writeProgram K sh (.clearBuffIndex m c)) := by
  obtain ⟨m', ⟨rfl, rfl⟩, -⟩ := h.ok
  unfold writeProgram
  simp only [writeSlot_u32]
  refine .entry rfl (h.write_entry (absurd rfl) ?_)
  rintro m'' ⟨hsend, -⟩
  refine ⟨hsend, ?_⟩
  rw [Shared.setElement_self]

/-- The entry gets the new buffer. -/
theorem write_setBuffIndex {m : Msg} {c i : ℕ}
    (h : StateCore ct K (some (.setBuffIndex m c i)) sh calls results) :
    Writes ct K calls results sh (writeProgram K sh (.setBuffIndex m c i)) := by
  obtain ⟨m', ⟨rfl, rfl⟩, hentry, hi, hmagic, hnone⟩ := h.ok
  unfold writeProgram
  simp only [writeSlot_u32]
  refine .entry rfl (h.write_entry ?_ ?_)
  · intro _
    exact ⟨i, ⟨hi, rfl⟩, hmagic, fun j _ => hnone j⟩
  · rintro m'' ⟨hsend, -⟩
    refine ⟨hsend, hi, ?_⟩
    rw [Shared.setElement_self]
    exact ⟨hentry.1, rfl⟩

theorem write_setParent {m : Msg} {c i : ℕ}
    (h : StateCore ct K (some (.setParent m c i)) sh calls results) :
    Writes ct K calls results sh (writeProgram K sh (.setParent m c i)) := by
  obtain ⟨m', -, hi, hentry⟩ := h.ok
  exact .stay rfl rfl (h.write_buffer ⟨hi, hentry.2⟩ rfl fun _ hok => ⟨hok, nofun⟩)

/-- One step of the copy: the scalar at once, or one more byte. -/
theorem write_copy {m : Msg} {c i k : ℕ}
    (h : StateCore ct K (some (.copy m c i k)) sh calls results) :
    Writes ct K calls results sh (writeProgram K sh (.copy m c i k)) := by
  obtain ⟨m', ⟨⟨rfl, -⟩, hi, hentry⟩, hcopied⟩ := h.ok
  unfold writeProgram
  simp only [h.channel]
  by_cases hscl : ct = MCAPI_SCL_CHAN
  · rw [if_pos hscl]
    refine .stay rfl rfl (h.write_buffer ⟨hi, hentry.2⟩ rfl ?_)
    rintro m'' ⟨⟨⟨rfl, hc⟩, hrest⟩, -⟩
    refine ⟨⟨⟨rfl, hc⟩, hrest⟩, ?_⟩
    rw [HasContent, if_pos hscl, Shared.setBuffer_self]
  · rw [if_neg hscl]
    by_cases hk : k < m.buffer_size
    · rw [if_pos hk]
      refine .stay rfl rfl (h.write_buffer ⟨hi, hentry.2⟩ rfl ?_)
      rintro m'' ⟨⟨⟨rfl, hc⟩, hrest⟩, -⟩
      refine ⟨⟨⟨rfl, hc⟩, hrest⟩, fun _ j hj => ?_⟩
      rw [Shared.setBuffer_self]
      change Function.update (sh.buffers i).buff k (m.buffer k) j = m.buffer j
      by_cases hjk : j = k
      · rw [hjk, Function.update_self]
      · rw [Function.update_of_ne hjk]
        exact hcopied hscl j (by omega)
    · rw [if_neg hk]
      refine .stay rfl rfl (h.write_local ?_)
      rintro m'' ⟨⟨⟨rfl, hc⟩, hrest⟩, -⟩
      refine ⟨⟨⟨rfl, hc⟩, hrest⟩, ?_⟩
      rw [HasContent, if_neg hscl]
      exact fun j hj => hcopied hscl j (by omega)

theorem write_setSize {m : Msg} {c i : ℕ}
    (h : StateCore ct K (some (.setSize m c i)) sh calls results) :
    Writes ct K calls results sh (writeProgram K sh (.setSize m c i)) := by
  obtain ⟨m', ⟨⟨rfl, -⟩, hi, hentry⟩, -⟩ := h.ok
  refine .stay rfl rfl (h.write_buffer ⟨hi, hentry.2⟩ rfl ?_)
  rintro m'' ⟨⟨⟨rfl, hc⟩, hrest⟩, hcontent⟩
  refine ⟨⟨⟨rfl, hc⟩, hrest⟩, ?_⟩
  rw [Shared.setBuffer_self]
  exact ⟨rfl, hcontent⟩

/-- Nobody but the writer changes the state of the entry it has reserved. -/
theorem write_rereadState {m : Msg} {c i : ℕ}
    (h : StateCore ct K (some (.rereadState m c i)) sh calls results) :
    Writes ct K calls results sh (writeProgram K sh (.rereadState m c i)) := by
  obtain ⟨m', ⟨⟨rfl, rfl⟩, hi, hentry⟩, -⟩ := h.ok
  unfold writeProgram
  simp only [writeSlot_u32, hentry.1]
  rw [if_pos (by decide)]
  exact .stay rfl rfl (h.write_local fun _ hok => ⟨hok.1, hok.2, rfl⟩)

theorem write_casAllocated {m : Msg} {c i : ℕ} {old : mcapi_buffer_state}
    (h : StateCore ct K (some (.casAllocated m c i old)) sh calls results) :
    Writes ct K calls results sh (writeProgram K sh (.casAllocated m c i old)) := by
  obtain ⟨m', ⟨⟨rfl, rfl⟩, hi, hentry⟩, -, rfl⟩ := h.ok
  unfold writeProgram Shared.casState
  simp only [writeSlot_u32, hentry.1, if_true]
  refine .entry rfl (h.write_state rfl ?_)
  rintro m'' ⟨⟨hsend, -, -⟩, hwritten, -⟩
  refine ⟨⟨hsend, hi, ?_⟩, hwritten⟩
  rw [Shared.setElement_self]
  exact ⟨rfl, hentry.2⟩

/-- The last exchange finds the counter as the first increment left it. -/
theorem write_casCounter {m : Msg} {c i : ℕ}
    (h : StateCore ct K (some (.casCounter m c i)) sh calls results) :
    Writes ct K calls results sh (writeProgram K sh (.casCounter m c i)) := by
  obtain ⟨m', ⟨⟨rfl, rfl⟩, hi, hentry⟩, -⟩ := h.ok
  unfold writeProgram
  simp only [if_pos h.counter_eq]
  refine ⟨fun _ _ => rfl, .inr ⟨true, rfl, rfl, h.finish rfl ?_⟩⟩
  rintro m'' ⟨⟨-, hi, hentry⟩, hwritten⟩
  rw [Leaves, if_pos rfl]
  exact ⟨i, ⟨hi, hentry.2⟩, hwritten⟩

theorem write_giveUp {m : Msg} {c : ℕ}
    (h : StateCore ct K (some (.giveUp m c)) sh calls results) :
    Writes ct K calls results sh (writeProgram K sh (.giveUp m c)) := by
  obtain ⟨m', ⟨rfl, rfl⟩, -⟩ := h.ok
  unfold writeProgram
  simp only [if_pos h.counter_eq]
  refine ⟨fun _ _ => rfl, .inr ⟨false, rfl, rfl, h.finish rfl ?_⟩⟩
  rintro m'' ⟨-, hzero⟩
  rw [Leaves, if_neg Bool.false_ne_true]
  exact hzero

/-- **A step of the send in progress.** -/
theorem StateCore.step (hct : ct ≠ MCAPI_PKT_CHAN) (h : StateCore ct K (some p) sh calls results) :
    Writes ct K calls results sh (writeProgram K sh p) := by
  cases p with
  | readState => exact write_readState h
  | readBuffIndex => exact write_readBuffIndex h
  | reserve => exact write_reserve hct h
  | allocBuffer => exact write_allocBuffer h
  | setFree => exact write_setFree h
  | clearBuffIndex => exact write_clearBuffIndex h
  | giveUp => exact write_giveUp h
  | setBuffIndex => exact write_setBuffIndex h
  | setParent => exact write_setParent h
  | copy => exact write_copy h
  | setSize => exact write_setSize h
  | rereadState => exact write_rereadState h
  | casAllocated => exact write_casAllocated h
  | casCounter => exact write_casCounter h
  | idle | incCounter | casMarker | failed =>
    obtain ⟨m, hok⟩ := h.ok
    exact hok.elim

end Writer

end MxApi
