/-
What a send reports, and what it has done.

A send puts its message into exactly one entry of the receiver's queue, or fails. On FIFO
buffers a send that fails leaves the queue and the pool alone, and every call says what
happened. On state buffers a send that finds no buffer has taken the entry's message away
and stepped the counter, and the calls for messages and packets overwrite its status with
`MCAPI_SUCCESS` ([`send_truthful_iff`]).
-/
import MxApi.Mcapi.Calls
import MxApi.Mcapi.StateFailure

set_option autoImplicit false

namespace MxApi.Calls

open Lib Transfers channel_type mcapi_buffer_state mcapi_status_t mcapi_request_state
  mcapi_request_type mcapi_buffer_type

/-! ## What a transfer does -/

/-- The entry that the next send is given. -/
def nextEntry (bt : mcapi_buffer_type) (K : ℕ) (q : queue) : ℕ :=
  match bt with
  | MCAPI_ENDP_ATTR_FIFO_BUFFER => (mcapi_trans_queue_tail q).1
  | MCAPI_ENDP_ATTR_STATE_BUFFER => writeSlot K (u32 (q.update_counter + 1))

/-- The message and its size are in the buffer. -/
structure Carries (ct : channel_type) (m : Msg) (b : buffer_entry) : Prop where
  size : b.size = m.buffer_size
  content : if ct = MCAPI_SCL_CHAN then b.scalar = m.scalar
    else ∀ k < m.buffer_size, b.buff k = m.buffer k

/-- The message was stored once: it is in the entry next in turn, the counter is stepped
over that entry, and nothing else of the queue and of the buffers was written. -/
def Stored (bt : mcapi_buffer_type) (K : ℕ) (sh : Shared) (m : Msg) (sh' : Shared) : Prop :=
  ∃ i, (sh'.q.elements (nextEntry bt K sh.q)).state = BUFFER_ALLOCATED ∧
    (sh'.q.elements (nextEntry bt K sh.q)).buff_index ≠ 0 ∧
    bufferIndex (sh'.q.elements (nextEntry bt K sh.q)).buff_index = i ∧
    Carries sh.q.channel_type m (sh'.buffers i) ∧
    sh'.q.update_counter = u32 (u32 (sh.q.update_counter + 1) + 1) ∧
    sh'.q.ack_counter = sh.q.ack_counter ∧
    (∀ j, j ≠ nextEntry bt K sh.q → sh'.q.elements j = sh.q.elements j) ∧
    ∀ k, k ≠ i → SameMessage (sh.buffers k) (sh'.buffers k)

/-- Nothing is in progress on the queue: the entry next in turn is one that a send may
write. -/
def Ready (bt : mcapi_buffer_type) (K : ℕ) (sh : Shared) : Prop :=
  match bt with
  | MCAPI_ENDP_ATTR_FIFO_BUFFER =>
    sh.q.update_counter % 2 = 0 ∧ sh.q.update_counter < 2 ^ 32 ∧
      ((mcapi_trans_queue_tail sh.q).2 = MCAPI_ERR_QUEUE_FULL ∨
        (mcapi_trans_queue_tail sh.q).2 = MCAPI_SUCCESS ∧
          (sh.q.elements (mcapi_trans_queue_tail sh.q).1).state = BUFFER_FREE ∧
          (sh.q.elements (mcapi_trans_queue_tail sh.q).1).buff_index = 0)
  | MCAPI_ENDP_ATTR_STATE_BUFFER =>
    sh.q.update_counter < 2 ^ 32 ∧
      entryOk K (writeSlot K (u32 (sh.q.update_counter + 1))) = true ∧
      ∀ buf, buf = sh.q.elements (writeSlot K (u32 (sh.q.update_counter + 1))) →
        sh.q.channel_type = MCAPI_PKT_CHAN → buf.buff_index ≠ 0 → buf.state = BUFFER_RECEIVED →
          (sh.buffers (bufferIndex buf.buff_index)).magic_num = RESERVED_NUM

/-- A buffer of the pool is free. -/
def HasBufferFree (sh : Shared) : Prop := ∃ i < MCAPI_MAX_BUFFERS, (sh.buffers i).magic_num = 0

/-- A send to state buffers has a buffer: that of its entry, or one of the pool. -/
def HasRoom (K : ℕ) (sh : Shared) : Prop :=
  reusable sh.q.channel_type (sh.q.elements (writeSlot K (u32 (sh.q.update_counter + 1)))) = true ∨
    HasBufferFree sh

section Transfer

variable {K qindex i : ℕ} {sh sh' : Shared} {m : Msg} {bt : mcapi_buffer_type}

theorem carries_fill (ct : channel_type) (m : Msg) (qindex : ℕ) (b : buffer_entry) :
    Carries ct m (fill ct m qindex b) := by
  unfold fill
  by_cases hct : ct = MCAPI_SCL_CHAN
  · rw [if_pos hct]
    exact ⟨rfl, by rw [if_pos hct]⟩
  · rw [if_neg hct]
    refine ⟨rfl, ?_⟩
    rw [if_neg hct]
    intro k hk
    exact if_pos hk

theorem alloc_buffer_some {buffers buffers' : ℕ → buffer_entry} {magic_num : ℕ}
    (h : mcapi_trans_alloc_buffer buffers magic_num = some (i, buffers')) :
    i < MCAPI_MAX_BUFFERS ∧ (buffers i).magic_num = 0 ∧
      buffers' = Function.update buffers i { buffers i with magic_num := magic_num } := by
  obtain ⟨i', hi', heq⟩ := Option.map_eq_some_iff.mp h
  obtain ⟨rfl, rfl⟩ := Prod.mk.inj heq
  obtain ⟨hlt, hfree⟩ := search_some hi'
  exact ⟨hlt, of_decide_eq_true hfree, rfl⟩

theorem alloc_buffer_none {buffers : ℕ → buffer_entry} {magic_num : ℕ} :
    mcapi_trans_alloc_buffer buffers magic_num = none ↔
      ∀ i < MCAPI_MAX_BUFFERS, (buffers i).magic_num ≠ 0 := by
  rw [mcapi_trans_alloc_buffer, Option.map_eq_none_iff, search_eq_none]
  simp only [decide_eq_false_iff_not, ne_eq]

theorem setElement_eq_self : sh.setElement qindex (sh.q.elements qindex) = sh := by
  simp [Shared.setElement]

theorem setElement_setElement (d d' : buffer_descriptor) :
    (sh.setElement qindex d).setElement qindex d' = sh.setElement qindex d' := by
  simp [Shared.setElement]

/-! ### FIFO buffers -/

/-- The counter is stepped by a push to the tail. -/
theorem push_of_tail {q : queue} (heven : q.update_counter % 2 = 0)
    (htail : mcapi_trans_queue_tail q = (qindex, MCAPI_SUCCESS)) :
    mcapi_trans_push_queue q =
      some (.ok qindex, { q with update_counter := u32 (u32 (q.update_counter + 1) + 1) }) := by
  have hodd : ¬ q.update_counter % 2 ≠ 0 := by omega
  obtain ⟨hslot, hstatus⟩ := Prod.mk.inj htail
  simp only [mcapi_trans_push_queue, if_neg hodd, hstatus, hslot]

/-- The message in entry `qindex` and buffer `i`. -/
def placed (sh : Shared) (m : Msg) (qindex i magic_num : ℕ) : Shared :=
  let b := { sh.buffers i with magic_num := magic_num }
  (⟨sh.q, Function.update sh.buffers i (fill sh.q.channel_type m qindex b)⟩ : Shared).setElement
    qindex { sh.q.elements qindex with buff_index := validIndex i, state := BUFFER_ALLOCATED }

/-- The queue and the pool after a send to entry `qindex` and buffer `i`. -/
def sentTo (sh : Shared) (m : Msg) (qindex i : ℕ) : Shared :=
  { placed sh m qindex i MAGIC_NUM with
    q := { (placed sh m qindex i MAGIC_NUM).q with
      update_counter := u32 (u32 (sh.q.update_counter + 1) + 1) } }

@[simp] theorem sentTo_element : (sentTo sh m qindex i).q.elements qindex =
    { sh.q.elements qindex with buff_index := validIndex i, state := BUFFER_ALLOCATED } :=
  Shared.setElement_self ..

theorem sentTo_element_of_ne {j : ℕ} (h : j ≠ qindex) :
    (sentTo sh m qindex i).q.elements j = sh.q.elements j := Function.update_of_ne h _ _

@[simp] theorem sentTo_buffer : (sentTo sh m qindex i).buffers i =
    fill sh.q.channel_type m qindex { sh.buffers i with magic_num := MAGIC_NUM } :=
  Function.update_self ..

theorem sentTo_buffer_of_ne {k : ℕ} (h : k ≠ i) :
    (sentTo sh m qindex i).buffers k = sh.buffers k := Function.update_of_ne h _ _

/-- What becomes of the message depends on whether a buffer is free. -/
theorem send_of_tail (heven : sh.q.update_counter % 2 = 0)
    (hq : mcapi_trans_queue_tail sh.q = (qindex, MCAPI_SUCCESS))
    (hstate : (sh.q.elements qindex).state = BUFFER_FREE)
    (hindex : (sh.q.elements qindex).buff_index = 0) (m : Msg) :
    mcapi_trans_send sh m =
      match mcapi_trans_alloc_buffer sh.buffers MAGIC_NUM with
      | none => some (sh, false)
      | some (i, _) => some (sentTo sh m qindex i, true) := by
  unfold mcapi_trans_send
  simp only [hq]
  rw [if_pos ⟨hindex, hstate⟩]
  cases halloc : mcapi_trans_alloc_buffer sh.buffers MAGIC_NUM with
  | none =>
    -- the entry is given back
    dsimp only
    rw [setElement_setElement, Shared.setElement_self]
    dsimp only
    rw [← hstate, setElement_eq_self]
  | some a =>
    obtain ⟨i, buffers⟩ := a
    obtain ⟨-, -, rfl⟩ := alloc_buffer_some halloc
    dsimp only
    rw [Function.update_self, Function.update_idem]
    have hpush : mcapi_trans_push_queue (placed sh m qindex i MAGIC_NUM).q =
        some (.ok qindex, { (placed sh m qindex i MAGIC_NUM).q with
          update_counter := u32 (u32 (sh.q.update_counter + 1) + 1) }) :=
      push_of_tail heven hq
    unfold placed at hpush
    dsimp only at hpush
    rw [hpush]
    exact if_pos rfl

/-- **A send to FIFO buffers** stores its message or changes nothing. -/
theorem send_cases (h : Ready MCAPI_ENDP_ATTR_FIFO_BUFFER K sh) (m : Msg) :
    (∃ sh', mcapi_trans_send sh m = some (sh', true) ∧
      Stored MCAPI_ENDP_ATTR_FIFO_BUFFER K sh m sh') ∨
    mcapi_trans_send sh m = some (sh, false) := by
  obtain ⟨heven, -, hfull | ⟨htail, hstate, hindex⟩⟩ := h
  · right
    unfold mcapi_trans_send
    generalize mcapi_trans_queue_tail sh.q = tail at hfull
    obtain ⟨qindex, status⟩ := tail
    obtain rfl := hfull
    rfl
  · obtain ⟨qindex, hq⟩ : ∃ qindex, mcapi_trans_queue_tail sh.q = (qindex, MCAPI_SUCCESS) :=
      ⟨_, Prod.ext rfl htail⟩
    rw [hq] at hstate hindex
    dsimp only at hstate hindex
    rw [send_of_tail heven hq hstate hindex m]
    cases halloc : mcapi_trans_alloc_buffer sh.buffers MAGIC_NUM with
    | none => exact .inr rfl
    | some a =>
      left
      obtain ⟨i, buffers⟩ := a
      obtain ⟨hi, -, -⟩ := alloc_buffer_some halloc
      have hentry : nextEntry MCAPI_ENDP_ATTR_FIFO_BUFFER K sh.q = qindex := congrArg Prod.fst hq
      refine ⟨_, rfl, ?_⟩
      unfold Stored
      rw [hentry]
      refine ⟨i, ?_, ?_, ?_, ?_, rfl, rfl, ?_, ?_⟩
      · rw [sentTo_element]
      · rw [sentTo_element]
        exact validIndex_ne_zero hi
      · rw [sentTo_element, bufferIndex_validIndex hi]
      · rw [sentTo_buffer]
        exact carries_fill ..
      · intro j hj
        exact sentTo_element_of_ne hj
      · intro k hk
        rw [sentTo_buffer_of_ne hk]
        exact .refl _

/-! ### State buffers -/

/-- A send that has its buffer stores the message. -/
theorem stored_finishSend {sh₁ : Shared} (hct : sh₁.q.channel_type = sh.q.channel_type)
    (hac : sh₁.q.ack_counter = sh.q.ack_counter)
    (hq : nextEntry MCAPI_ENDP_ATTR_STATE_BUFFER K sh.q = qindex)
    (hindex : (sh₁.q.elements qindex).buff_index ≠ 0)
    (hi : bufferIndex (sh₁.q.elements qindex).buff_index = i)
    (hkeep : ∀ j, j ≠ qindex → sh₁.q.elements j = sh.q.elements j)
    (hbuf : ∀ k, k ≠ i → SameMessage (sh.buffers k) (sh₁.buffers k)) :
    Stored MCAPI_ENDP_ATTR_STATE_BUFFER K sh m
      (finishSend sh₁ m (u32 (sh.q.update_counter + 1)) qindex i).1 := by
  have hself : (finishSend sh₁ m (u32 (sh.q.update_counter + 1)) qindex i).1.q.elements qindex =
      { sh₁.q.elements qindex with state := BUFFER_ALLOCATED } := Shared.setElement_self ..
  unfold Stored
  rw [hq, hself]
  refine ⟨i, rfl, hindex, hi, ?_, rfl, hac, ?_, ?_⟩
  · rw [← hct]
    simp only [finishSend, Shared.setUpdateCounter, Shared.setElement, Shared.setBuffer_self]
    exact carries_fill ..
  · intro j hj
    exact (Function.update_of_ne hj _ _).trans (hkeep j hj)
  · intro k hk
    have hother : (finishSend sh₁ m (u32 (sh.q.update_counter + 1)) qindex i).1.buffers k =
        sh₁.buffers k := Function.update_of_ne hk _ _
    rw [hother]
    exact hbuf k hk

/-- The marker of a packet that was received is that of a buffer that is written again. -/
theorem releaseMarker_of_ready (sh : Shared) (buf : buffer_descriptor)
    (h : sh.q.channel_type = MCAPI_PKT_CHAN → buf.buff_index ≠ 0 → buf.state = BUFFER_RECEIVED →
      (sh.buffers (bufferIndex buf.buff_index)).magic_num = RESERVED_NUM) :
    ∃ sh', releaseMarker sh buf = some sh' ∧
      ∀ i, (sh'.buffers i).magic_num = 0 ↔ (sh.buffers i).magic_num = 0 := by
  unfold releaseMarker
  split
  · rename_i hpkt
    have hmarker := h hpkt.1 hpkt.2.1 hpkt.2.2
    refine ⟨sh.setBuffer (bufferIndex buf.buff_index)
      { sh.buffers (bufferIndex buf.buff_index) with magic_num := MAGIC_NUM }, ?_, ?_⟩
    · simp only [Shared.casMagic, if_pos hmarker, if_true]
    · intro i
      by_cases hi : i = bufferIndex buf.buff_index
      · have hne : MAGIC_NUM ≠ 0 ∧ RESERVED_NUM ≠ 0 := by decide
        rw [hi, Shared.setBuffer_self, hmarker]
        exact iff_of_false hne.1 hne.2
      · rw [Shared.setBuffer_of_ne _ hi]
  · exact ⟨sh, rfl, fun _ => Iff.rfl⟩

/-- **A send to state buffers** stores its message if it has a buffer. If not, it has
stepped the counter and emptied its entry. -/
theorem send_state_cases (h : Ready MCAPI_ENDP_ATTR_STATE_BUFFER K sh) (m : Msg) :
    (HasRoom K sh ∧ ∃ sh', mcapi_trans_send_state K sh m = some (sh', true) ∧
      Stored MCAPI_ENDP_ATTR_STATE_BUFFER K sh m sh') ∨
    (¬ HasRoom K sh ∧ ∃ sh', mcapi_trans_send_state K sh m = some (sh', false) ∧
      ¬ Stored MCAPI_ENDP_ATTR_STATE_BUFFER K sh m sh' ∧ sh' ≠ sh) := by
  obtain ⟨huc, hentry, hmarker⟩ := h
  have hq : nextEntry MCAPI_ENDP_ATTR_STATE_BUFFER K sh.q =
      writeSlot K (u32 (sh.q.update_counter + 1)) := rfl
  unfold HasRoom
  generalize hslot : writeSlot K (u32 (sh.q.update_counter + 1)) = qindex at hentry hmarker hq ⊢
  have hmarker := hmarker _ rfl
  -- the memory once the entry is reserved
  generalize hsh₁ : (sh.setUpdateCounter (u32 (sh.q.update_counter + 1))).setElement qindex
    { sh.q.elements qindex with state := BUFFER_RESERVED } = sh₁
  have hbuffers : sh₁.buffers = sh.buffers := by
    rw [← hsh₁]
    rfl
  have hct : sh₁.q.channel_type = sh.q.channel_type := by
    rw [← hsh₁]
    rfl
  have hac : sh₁.q.ack_counter = sh.q.ack_counter := by
    rw [← hsh₁]
    rfl
  have hself : sh₁.q.elements qindex =
      { sh.q.elements qindex with state := BUFFER_RESERVED } := by
    rw [← hsh₁, Shared.setElement_self]
  have hkeep : ∀ j, j ≠ qindex → sh₁.q.elements j = sh.q.elements j := by
    intro j hj
    rw [← hsh₁]
    exact Function.update_of_ne hj _ _
  by_cases hreuse : reusable sh.q.channel_type (sh.q.elements qindex) = true
  · left
    refine ⟨.inl hreuse, ?_⟩
    have hindex : (sh.q.elements qindex).buff_index ≠ 0 := by
      rw [reusable, Bool.and_eq_true, decide_eq_true_eq] at hreuse
      exact hreuse.1
    refine ⟨_, ?_, stored_finishSend hct hac hq (by rw [hself]; exact hindex) rfl hkeep ?_⟩
    · unfold mcapi_trans_send_state
      simp only [hslot, hentry, if_true, hsh₁, hct, hreuse, hself]
      rfl
    · intro k _
      rw [hbuffers]
      exact .refl _
  · obtain ⟨sh₂, hrelease, hmagic⟩ := releaseMarker_of_ready sh₁ (sh.q.elements qindex)
      (by rw [hct, hbuffers]; exact hmarker)
    obtain ⟨hq₂, hsame⟩ := releaseMarker_some hrelease
    rw [hbuffers] at hsame hmagic
    cases halloc : mcapi_trans_alloc_buffer sh₂.buffers RESERVED_NUM with
    | none =>
      right
      have hsend : mcapi_trans_send_state K sh m =
          some ((sh₂.setElement qindex
            { sh₂.q.elements qindex with state := BUFFER_FREE, buff_index := 0 }).setUpdateCounter
            (u32 (u32 (sh.q.update_counter + 1) + 1)), false) := by
        unfold mcapi_trans_send_state
        simp only [hslot, hentry, if_true, hsh₁, hct, if_neg hreuse, hrelease, halloc]
      refine ⟨?_, _, hsend, ?_, ?_⟩
      · rintro (hr | ⟨i, hi, hfree⟩)
        · exact hreuse hr
        · exact alloc_buffer_none.mp halloc i hi ((hmagic i).mpr hfree)
      · -- the entry is empty
        rintro ⟨i, -, hne, -⟩
        rw [hq] at hne
        apply hne
        simp [Shared.setUpdateCounter]
      · intro heq
        have hcounter := congrArg (fun s : Shared => s.q.update_counter) heq
        simp only [Shared.setUpdateCounter, u32] at hcounter
        omega
    | some a =>
      left
      obtain ⟨i, buffers⟩ := a
      obtain ⟨hi, hfree, rfl⟩ := alloc_buffer_some halloc
      refine ⟨.inr ⟨i, hi, (hmagic i).mp hfree⟩, ?_⟩
      generalize hsh₃ : (⟨sh₂.q, Function.update sh₂.buffers i
        { sh₂.buffers i with magic_num := RESERVED_NUM }⟩ : Shared).setElement qindex
          { sh₂.q.elements qindex with buff_index := validIndex i } = sh₃
      have hindex : (sh₃.q.elements qindex).buff_index = validIndex i := by
        rw [← hsh₃, Shared.setElement_self]
      refine ⟨(finishSend sh₃ m (u32 (sh.q.update_counter + 1)) qindex i).1, ?_,
        stored_finishSend ?_ ?_ hq ?_ ?_ ?_ ?_⟩
      · unfold mcapi_trans_send_state
        simp only [hslot, hentry, if_true, hsh₁, hct, if_neg hreuse, hrelease, halloc, hsh₃]
        rfl
      · rw [← hct, ← hq₂, ← hsh₃]
        rfl
      · rw [← hac, ← hq₂, ← hsh₃]
        rfl
      · rw [hindex]
        exact validIndex_ne_zero hi
      · rw [hindex, bufferIndex_validIndex hi]
      · intro j hj
        rw [← hkeep j hj, ← hq₂, ← hsh₃, Shared.setElement_of_ne _ hj]
      · intro k hk
        have hother : sh₃.buffers k = sh₂.buffers k := by
          rw [← hsh₃]
          exact Function.update_of_ne hk _ _
        rw [hother]
        exact hsame k

/-- A message that was stored has moved the counter. -/
theorem not_stored_self : ¬ Stored bt K sh m sh := by
  rintro ⟨i, -, -, -, -, hcounter, -⟩
  unfold u32 at hcounter
  omega

end Transfer

/-! ## The calls -/

/-- A call has set up request `r`, completed with the status. -/
structure SetUp (c : Called) (r : ℕ) (status : Status) : Prop where
  lt : r < MCAPI_MAX_REQUESTS
  request : c.request = requestHandle r
  ok : c.status = .MCAPI_SUCCESS
  state : (c.world.requests r).state = REQUEST_COMPLETED
  mine : (c.world.requests r).mine = true
  stored : (c.world.requests r).status = status

/-- The types and the numbers of buffers of the two ends, and what is sent between them. -/
structure Ends (w : World) (se p : Place) (bt : mcapi_buffer_type) (K : ℕ) (sh : Shared) :
    Prop where
  buffer_type : (w.endpoints se).buffer_type = bt
  num_send_buffers : (w.endpoints p).num_send_buffers = K
  shared : w.shared p = sh

section Calls

variable {w : World} {se p : Place} {bt : mcapi_buffer_type} {K rand handle request : ℕ}
  {sh : Shared} {m : Msg} {c : Called} {status : Status}

/-- The request of a send is completed when it is set up. -/
theorem setup_completed {w' : World} {r : ℕ} (p : Place) (handle size : ℕ)
    (type : mcapi_request_type) (sh' : Shared) (status : Status)
    (hr : mcapi_trans_reserve_request w rand = some (w', r)) :
    ∃ c : Called, (setup_request (w'.setShared p sh') r handle status true size type).map
        (fun w => (⟨w, requestHandle r, .MCAPI_SUCCESS, none⟩ : Called)) = some c ∧
      SetUp c r status ∧ c.world.shared p = sh' := by
  obtain ⟨hlt, -, rfl⟩ := reserve_request_some hr
  refine ⟨_, rfl, ⟨hlt, rfl, rfl, ?_, ?_, ?_⟩, ?_⟩
  · simp
  · simp
  · simp
  · simp

/-- A send on FIFO buffers says in its request what became of the message. -/
theorem send_i_fifo (rand handle request : ℕ) (m : Msg)
    (h : Ends w se p MCAPI_ENDP_ATTR_FIFO_BUFFER K sh)
    (hready : Ready MCAPI_ENDP_ATTR_FIFO_BUFFER K sh) :
    (¬ w.HasFree ∧ send_i w rand se (some p) handle m request .MCAPI_SUCCESS =
      some ⟨w, request, .MCAPI_ERR_REQUEST_LIMIT, none⟩) ∨
    w.HasFree ∧ ∃ c r, send_i w rand se (some p) handle m request .MCAPI_SUCCESS = some c ∧
      (SetUp c r .MCAPI_SUCCESS ∧
        Stored MCAPI_ENDP_ATTR_FIFO_BUFFER K sh m (c.world.shared p) ∨
      SetUp c r .MCAPI_ERR_MEM_LIMIT ∧ c.world.shared p = sh) := by
  unfold send_i
  simp only [h.buffer_type]
  cases hr : mcapi_trans_reserve_request w rand with
  | none => exact .inl ⟨reserve_request_none.mp hr, rfl⟩
  | some a =>
    obtain ⟨w', r⟩ := a
    right
    have hfree : w.HasFree := by
      by_contra hnone
      rw [reserve_request_none.mpr hnone] at hr
      cases hr
    have hshared : w'.shared p = sh := by
      obtain ⟨-, -, rfl⟩ := reserve_request_some hr
      exact h.shared
    refine ⟨hfree, ?_⟩
    simp only [if_true, hshared]
    rcases send_cases hready m with ⟨sh', hsend, hstored⟩ | hsend
    · obtain ⟨c, hc, hsetup, hsh⟩ := setup_completed p handle m.buffer_size .SEND sh'
        .MCAPI_SUCCESS hr
      refine ⟨c, r, ?_, .inl ⟨hsetup, by rw [hsh]; exact hstored⟩⟩
      simp only [hsend, if_true]
      exact hc
    · obtain ⟨c, hc, hsetup, hsh⟩ := setup_completed p handle m.buffer_size .SEND sh
        .MCAPI_ERR_MEM_LIMIT hr
      refine ⟨c, r, ?_, .inr ⟨hsetup, hsh⟩⟩
      simp only [hsend, Bool.false_eq_true, if_false]
      exact hc

/-- After a round that found no request, the next one that finds one sets it up without
sending. -/
theorem send_i_retry (h : Ends w se p MCAPI_ENDP_ATTR_FIFO_BUFFER K sh)
    (hc : send_i w rand se (some p) handle m request .MCAPI_ERR_REQUEST_LIMIT = some c)
    (hlimit : c.status ≠ .MCAPI_ERR_REQUEST_LIMIT) :
    ∃ r, SetUp c r .MCAPI_ERR_REQUEST_LIMIT ∧ c.world.shared p = sh := by
  unfold send_i at hc
  simp only [h.buffer_type] at hc
  cases hr : mcapi_trans_reserve_request w rand with
  | none =>
    rw [hr] at hc
    obtain rfl := Option.some.inj hc
    exact absurd rfl hlimit
  | some a =>
    obtain ⟨w', r⟩ := a
    have hshared : w'.shared p = sh := by
      obtain ⟨-, -, rfl⟩ := reserve_request_some hr
      exact h.shared
    obtain ⟨c', hc', hsetup, hsh⟩ := setup_completed p handle m.buffer_size .SEND sh
      .MCAPI_ERR_REQUEST_LIMIT hr
    simp only [hr, reduceCtorEq, if_false] at hc
    rw [← hshared, World.setShared_shared, hc] at hc'
    obtain rfl := Option.some.inj hc'
    exact ⟨r, hsetup, hsh⟩

/-- A send on state buffers reports success, whatever became of the message. -/
theorem send_i_state (rand handle request : ℕ) (m : Msg)
    (h : Ends w se p MCAPI_ENDP_ATTR_STATE_BUFFER K sh)
    (hready : Ready MCAPI_ENDP_ATTR_STATE_BUFFER K sh) :
    ∃ c, send_i w rand se (some p) handle m request .MCAPI_SUCCESS = some c ∧
      c.request = 0 ∧ c.status = .MCAPI_SUCCESS ∧
      (HasRoom K sh ∧ Stored MCAPI_ENDP_ATTR_STATE_BUFFER K sh m (c.world.shared p) ∨
        ¬ HasRoom K sh ∧ ¬ Stored MCAPI_ENDP_ATTR_STATE_BUFFER K sh m (c.world.shared p)) := by
  unfold send_i
  simp only [h.buffer_type, if_true, h.num_send_buffers, h.shared]
  rcases send_state_cases hready m with
    ⟨hroom, sh', hsend, hstored⟩ | ⟨hroom, sh', hsend, hstored, -⟩
  · refine ⟨⟨w.setShared p sh', 0, .MCAPI_SUCCESS, none⟩, by simp only [hsend], rfl, rfl, ?_⟩
    rw [World.shared_setShared]
    exact .inl ⟨hroom, hstored⟩
  · refine ⟨⟨w.setShared p sh', 0, .MCAPI_SUCCESS, none⟩, by simp only [hsend], rfl, rfl, ?_⟩
    rw [World.shared_setShared]
    exact .inr ⟨hroom, hstored⟩

end Calls

/-! ## What a call reports -/

inductive SendCall
  | msg_send_i (send_endpoint receive_endpoint : ℕ)
  | msg_send (send_endpoint receive_endpoint : ℕ)
  | pktchan_send_i (send_handle : ℕ)
  | pktchan_send (send_handle : ℕ)
  | sclchan_send (send_handle : ℕ)

/-- Success is reported by a non-blocking call: at once if there is no request, and by the
test of its request otherwise. -/
def Called.success (c : Called) : Bool :=
  decide (c.status = .MCAPI_SUCCESS) && (decide (c.request = 0) ||
    (mcapi_trans_test_i c.world c.request).any fun t =>
      t.rc && decide (t.status = some .MCAPI_SUCCESS))

/-- The world after the call, and whether it reports success. -/
def SendCall.perform (env : Env) (rand : ℕ → ℕ) (fuel : ℕ) (w : World) (m : Msg) :
    SendCall → Option (World × Bool)
  | .msg_send_i send_endpoint receive_endpoint =>
    (mcapi_trans_msg_send_i w (rand 0) send_endpoint receive_endpoint m 0 .MCAPI_SUCCESS).map
      fun c => (c.world, c.success)
  | .msg_send send_endpoint receive_endpoint =>
    (mcapi_trans_msg_send env rand fuel w send_endpoint receive_endpoint m).map
      fun x => (x.world, x.rc)
  | .pktchan_send_i send_handle =>
    (mcapi_trans_pktchan_send_i w (rand 0) send_handle m 0 .MCAPI_SUCCESS).map
      fun c => (c.world, c.success)
  | .pktchan_send send_handle =>
    (mcapi_trans_pktchan_send env rand fuel w send_handle m).map fun x => (x.world, x.rc)
  | .sclchan_send send_handle => mcapi_trans_sclchan_send w send_handle m

def SendCall.isBlocking : SendCall → Bool
  | .msg_send .. | .pktchan_send _ => true
  | _ => false

/-- The arguments are valid: the call sends from endpoint `se` to endpoint `p`. -/
def SendCall.Between (w : World) (se p : Place) : SendCall → Prop
  | .msg_send_i send_endpoint receive_endpoint | .msg_send send_endpoint receive_endpoint =>
    mcapi_trans_decode_handle send_endpoint = some se ∧
      mcapi_trans_decode_handle receive_endpoint = some p ∧
      (w.endpoints se).recv_queue.channel_type = MCAPI_NO_CHAN ∧
      (w.endpoints p).recv_queue.channel_type = MCAPI_NO_CHAN
  | .pktchan_send_i send_handle | .pktchan_send send_handle =>
    mcapi_trans_decode_handle send_handle = some se ∧
      mcapi_trans_decode_handle (w.endpoints se).recv_endpt = some p ∧
      (w.endpoints p).recv_queue.channel_type = MCAPI_PKT_CHAN
  | .sclchan_send send_handle =>
    mcapi_trans_decode_handle send_handle = some se ∧
      mcapi_trans_decode_handle (w.endpoints se).recv_endpt = some p ∧
      (w.endpoints p).recv_queue.channel_type = MCAPI_SCL_CHAN

/-- Other threads use requests of their own, and leave the endpoints and the pool alone. -/
structure Env.OnlyRequests (env : Env) : Prop extends env.Respects where
  endpoints : ∀ n w, (env n w).endpoints = w.endpoints
  buffers : ∀ n w, (env n w).buffers = w.buffers

/-- The call returns, a blocking one if its first round finds a request. It reports success
if and only if the message was stored, and if it does not, the receiver's queue and the
pool are as they were. -/
structure Truthful (w : World) (se p : Place) (m : Msg) (call : SendCall) : Prop where
  returns : ∀ env : Env, env.OnlyRequests → ∀ rand fuel, 0 < fuel →
    (call.isBlocking = true → (env 0 w).HasFree) → ∃ x, call.perform env rand fuel w m = some x
  success_iff : ∀ env : Env, env.OnlyRequests → ∀ rand fuel w' ok,
    call.perform env rand fuel w m = some (w', ok) →
      (ok = true ↔ Stored (w.endpoints se).buffer_type (w.endpoints p).num_send_buffers
        (w.shared p) m (w'.shared p))
  unchanged : ∀ env : Env, env.OnlyRequests → ∀ rand fuel w',
    call.perform env rand fuel w m = some (w', false) → w'.shared p = w.shared p

section Reports

variable {w : World} {se p : Place} {m : Msg} {env : Env} {c : Called} {r n fuel : ℕ}
  {status : Status}

theorem Env.OnlyRequests.shared (henv : env.OnlyRequests) (n : ℕ) (w : World) (p : Place) :
    (env n w).shared p = w.shared p := by
  rw [World.shared, World.shared, henv.endpoints, henv.buffers]

theorem SetUp.success (h : SetUp c r status) : c.success = decide (status = .MCAPI_SUCCESS) := by
  have htest := test_completed h.lt h.state
  have hne : requestHandle r ≠ 0 := Messages.requestHandle_ne_zero h.lt
  unfold Called.success
  rw [h.ok, h.request, htest, h.stored]
  simp [hne]

/-- Once the request of a blocking send is set up, the wait finds it completed. -/
theorem blocking_of_setUp {call : ℕ → World → ℕ → Status → Option Called}
    {deliveries : List Delivery} (henv : env.Respects) (h : SetUp c r status)
    (hattempts : attempts env call (fuel + 1) 0 w 0 .MCAPI_SUCCESS [] = some (c, n, deliveries)) :
    ∃ x, blocking env call (fuel + 1) w = some x ∧ x.rc = decide (status = .MCAPI_SUCCESS) ∧
      ∀ p, x.world.shared p = (env n c.world).shared p := by
  have hne : requestHandle r ≠ 0 := Messages.requestHandle_ne_zero h.lt
  have hdecode : ¬ mcapi_trans_decode_request_handle (requestHandle r) = none := by
    rw [decode_requestHandle h.lt]
    nofun
  obtain ⟨t, hpolls, hstatus, hshared⟩ : ∃ t,
      polls env (fuel + 1) n c.world (requestHandle r) deliveries = some (t, deliveries) ∧
        t.status = some status ∧ ∀ p, t.world.shared p = (env n c.world).shared p :=
    ⟨_, polls_completed fuel n deliveries henv h.lt h.state h.mine, congrArg some h.stored,
      fun _ => rfl⟩
  refine ⟨⟨t.world, decide (t.status.getD c.status = .MCAPI_SUCCESS), t.status.getD c.status,
    t.size, deliveries⟩, ?_, ?_, hshared⟩
  · unfold blocking
    simp only [hattempts, h.request, if_neg hne, if_neg hdecode, hpolls, Option.map_some]
  · rw [hstatus, Option.getD_some]

end Reports

section Blocking

variable {w : World} {se p : Place} {m : Msg} {env : Env} {K handle fuel : ℕ} {rand : ℕ → ℕ}
  {bt : mcapi_buffer_type} {sh : Shared} {call : ℕ → World → ℕ → Status → Option Called}

/-- The call of a blocking send, on the endpoints of `w`. -/
def Sends (call : ℕ → World → ℕ → Status → Option Called) (w : World) (rand : ℕ → ℕ)
    (se p : Place) (handle : ℕ) (m : Msg) : Prop :=
  ∀ n w' request status, w'.endpoints = w.endpoints →
    call n w' request status = send_i w' (rand n) se (some p) handle m request status

theorem Ends.congr {w' : World} (h : Ends w se p bt K sh) (hend : w'.endpoints = w.endpoints)
    (hbuf : w'.buffers = w.buffers) : Ends w' se p bt K sh where
  buffer_type := by rw [hend, h.buffer_type]
  num_send_buffers := by rw [hend, h.num_send_buffers]
  shared := by rw [← h.shared, World.shared, World.shared, hend, hbuf]

/-- A round that finds no request leaves the endpoints and the pool alone. -/
theorem send_i_limit {rand request : ℕ} {re : Option Place} {status : Status} {c : Called}
    (h : send_i w rand se re handle m request status = some c)
    (hlimit : c.status = .MCAPI_ERR_REQUEST_LIMIT) :
    c.world.endpoints = w.endpoints ∧ c.world.buffers = w.buffers := by
  -- every other way out of the call sets the status to success
  have hsuccess : ∀ {o : Option World} {x y : ℕ},
      o.map (fun w => (⟨w, x, .MCAPI_SUCCESS, none⟩ : Called)) = some c → False := by
    intro o x y ho
    obtain ⟨w', -, rfl⟩ := Option.map_eq_some_iff.mp ho
    cases hlimit
  unfold send_i at h
  split at h
  · split at h
    · obtain rfl := Option.some.inj h
      exact ⟨rfl, rfl⟩
    · split at h
      · split at h
        · cases h
        · split at h
          · cases h
          · exact (hsuccess (y := 0) h).elim
      · exact (hsuccess (y := 0) h).elim
  · split at h
    · split at h
      · cases h
      · split at h
        · cases h
        · obtain rfl := Option.some.inj h
          cases hlimit
    · obtain rfl := Option.some.inj h
      cases hlimit

/-- **A blocking send on FIFO buffers** that returns says what became of the message. -/
theorem blocking_send_fifo (henv : env.OnlyRequests)
    (hends : Ends w se p MCAPI_ENDP_ATTR_FIFO_BUFFER K sh)
    (hready : Ready MCAPI_ENDP_ATTR_FIFO_BUFFER K sh) (hcall : Sends call w rand se p handle m)
    {x : Returned} (hx : blocking env call fuel w = some x) :
    x.rc = true ∧ Stored MCAPI_ENDP_ATTR_FIFO_BUFFER K sh m (x.world.shared p) ∨
      x.rc = false ∧ x.world.shared p = sh := by
  cases fuel with
  | zero => cases hx
  | succ fuel =>
    cases hattempts : attempts env call (fuel + 1) 0 w 0 .MCAPI_SUCCESS [] with
    | none =>
      rw [blocking, hattempts] at hx
      cases hx
    | some a =>
      obtain ⟨c, n, deliveries⟩ := a
      obtain ⟨k, w₁, request₁, status₁, -, ⟨hend, hbuf⟩, hc, hlimit, -, hfirst⟩ :=
        attempts_spec (I := fun w' _ => w'.endpoints = w.endpoints ∧ w'.buffers = w.buffers)
          (fun n w' request status c _ ⟨hend, hbuf⟩ hc hlimit => by
            have hend' := (henv.endpoints n w').trans hend
            rw [hcall n _ request status hend'] at hc
            obtain ⟨h₁, h₂⟩ := send_i_limit hc hlimit
            exact ⟨h₁.trans hend', h₂.trans ((henv.buffers n w').trans hbuf)⟩)
          ⟨rfl, rfl⟩ hattempts
      have hend' := (henv.endpoints k w₁).trans hend
      have hends' := hends.congr hend' ((henv.buffers k w₁).trans hbuf)
      rw [hcall k _ request₁ status₁ hend'] at hc
      -- how the request was set up
      obtain ⟨r, status, hsetup, hshared⟩ : ∃ r status, SetUp c r status ∧
          (status = .MCAPI_SUCCESS ∧
            Stored MCAPI_ENDP_ATTR_FIFO_BUFFER K sh m (c.world.shared p) ∨
          status ≠ .MCAPI_SUCCESS ∧ c.world.shared p = sh) := by
        rcases hfirst with ⟨-, -, rfl⟩ | rfl
        · rcases send_i_fifo (rand k) handle request₁ m hends' hready with
            ⟨-, hnone⟩ | ⟨-, c', r, hc', hcases⟩
          · rw [hnone] at hc
            obtain rfl := Option.some.inj hc
            exact absurd rfl hlimit
          · rw [hc'] at hc
            obtain rfl := Option.some.inj hc
            rcases hcases with ⟨hsetup, hstored⟩ | ⟨hsetup, hsh⟩
            · exact ⟨r, _, hsetup, .inl ⟨rfl, hstored⟩⟩
            · exact ⟨r, _, hsetup, .inr ⟨nofun, hsh⟩⟩
        · obtain ⟨r, hsetup, hsh⟩ := send_i_retry hends' hc hlimit
          exact ⟨r, _, hsetup, .inr ⟨nofun, hsh⟩⟩
      obtain ⟨x', hx', hrc, hworld⟩ := blocking_of_setUp henv.toRespects hsetup hattempts
      rw [hx] at hx'
      obtain rfl := Option.some.inj hx'
      rw [hrc, hworld, henv.shared]
      rcases hshared with ⟨hok, hstored⟩ | ⟨hok, hsh⟩
      · exact .inl ⟨decide_eq_true hok, hstored⟩
      · exact .inr ⟨decide_eq_false hok, hsh⟩

/-- It returns if its first round finds a request. -/
theorem blocking_send_returns (henv : env.OnlyRequests)
    (hends : Ends w se p MCAPI_ENDP_ATTR_FIFO_BUFFER K sh)
    (hready : Ready MCAPI_ENDP_ATTR_FIFO_BUFFER K sh) (hcall : Sends call w rand se p handle m)
    (hfree : (env 0 w).HasFree) : ∃ x, blocking env call (fuel + 1) w = some x := by
  have hends' := hends.congr (henv.endpoints 0 w) (henv.buffers 0 w)
  obtain ⟨c, r, status, hc, hsetup⟩ : ∃ c r status,
      call 0 (env 0 w) 0 .MCAPI_SUCCESS = some c ∧ SetUp c r status := by
    rw [hcall 0 _ _ _ (henv.endpoints 0 w)]
    rcases send_i_fifo (rand 0) handle 0 m hends' hready with
      ⟨hnone, -⟩ | ⟨-, c, r, hc, ⟨hsetup, -⟩ | ⟨hsetup, -⟩⟩
    · exact absurd hfree hnone
    · exact ⟨c, r, _, hc, hsetup⟩
    · exact ⟨c, r, _, hc, hsetup⟩
  have hattempts := attempts_first fuel [] hc (by rw [hsetup.ok]; nofun)
  obtain ⟨x, hx, -⟩ := blocking_of_setUp henv.toRespects hsetup hattempts
  exact ⟨x, hx⟩

/-- **A blocking send on state buffers** returns `TRUE`, whatever became of the message. -/
theorem blocking_send_state (fuel : ℕ) (henv : env.OnlyRequests)
    (hends : Ends w se p MCAPI_ENDP_ATTR_STATE_BUFFER K sh)
    (hready : Ready MCAPI_ENDP_ATTR_STATE_BUFFER K sh) (hcall : Sends call w rand se p handle m) :
    ∃ x, blocking env call (fuel + 1) w = some x ∧ x.rc = true ∧
      (HasRoom K sh ∧ Stored MCAPI_ENDP_ATTR_STATE_BUFFER K sh m (x.world.shared p) ∨
        ¬ HasRoom K sh ∧ ¬ Stored MCAPI_ENDP_ATTR_STATE_BUFFER K sh m (x.world.shared p)) := by
  have hends' := hends.congr (henv.endpoints 0 w) (henv.buffers 0 w)
  obtain ⟨c, hc, hrequest, hstatus, hcases⟩ := send_i_state (rand 0) handle 0 m
    hends' hready
  have hc' : call 0 (env 0 w) 0 .MCAPI_SUCCESS = some c := by
    rw [hcall 0 _ _ _ (henv.endpoints 0 w), hc]
  have hattempts := attempts_first fuel [] hc' (by rw [hstatus]; nofun)
  refine ⟨⟨c.world, true, c.status, none, [] ++ c.delivery.toList⟩, ?_, rfl, hcases⟩
  unfold blocking
  simp only [hattempts, hrequest, if_true, hstatus, decide_true]

end Blocking

/-! ## All sends -/

section Perform

variable {w : World} {se p : Place} {m : Msg} {env : Env} {fuel : ℕ} {rand : ℕ → ℕ}
  {call : SendCall}

theorem msg_send_sends {send_endpoint receive_endpoint : ℕ}
    (h : (SendCall.msg_send_i send_endpoint receive_endpoint).Between w se p) (rand : ℕ → ℕ)
    (m : Msg) :
    Sends (fun n w request status => mcapi_trans_msg_send_i w (rand n) send_endpoint
      receive_endpoint m request status) w rand se p receive_endpoint m := by
  obtain ⟨hse, hp, hct, hct'⟩ := h
  intro n w' request status hend
  have hno : noChannel w' se (some p) = some p := by
    unfold noChannel
    rw [hend, Option.filter_some, hct, hct']
    rfl
  simp only [mcapi_trans_msg_send_i, hse, hp, hno]

theorem pktchan_send_sends {send_handle : ℕ}
    (h : (SendCall.pktchan_send_i send_handle).Between w se p) (rand : ℕ → ℕ) (m : Msg) :
    Sends (fun n w request status => mcapi_trans_pktchan_send_i w (rand n) send_handle m request
      status) w rand se p send_handle m := by
  obtain ⟨hse, hp, -⟩ := h
  intro n w' request status hend
  simp only [mcapi_trans_pktchan_send_i, hse, hend, hp]

/-- Success is reported if and only if the message was stored, and otherwise nothing was
changed. -/
def Fair (bt : mcapi_buffer_type) (K : ℕ) (sh : Shared) (m : Msg) (ok : Bool) (sh' : Shared) :
    Prop :=
  (ok = true ↔ Stored bt K sh m sh') ∧ (ok = false → sh' = sh)

variable {bt : mcapi_buffer_type} {K handle : ℕ} {sh : Shared}

theorem fair_of_cases {ok : Bool} {sh' : Shared}
    (h : ok = true ∧ Stored bt K sh m sh' ∨ ok = false ∧ sh' = sh) : Fair bt K sh m ok sh' := by
  rcases h with ⟨rfl, hstored⟩ | ⟨rfl, rfl⟩
  · exact ⟨iff_of_true rfl hstored, nofun⟩
  · exact ⟨iff_of_false nofun not_stored_self, fun _ => rfl⟩

/-- On state buffers a call that reports success is fair if it had a buffer. -/
theorem fair_state_iff {sh' : Shared}
    (h : HasRoom K sh ∧ Stored bt K sh m sh' ∨ ¬ HasRoom K sh ∧ ¬ Stored bt K sh m sh') :
    Fair bt K sh m true sh' ↔ HasRoom K sh := by
  rcases h with ⟨hroom, hstored⟩ | ⟨hroom, hstored⟩
  · exact iff_of_true (fair_of_cases (.inl ⟨rfl, hstored⟩)) hroom
  · exact iff_of_false (fun hfair => hstored (hfair.1.mp rfl)) hroom

/-- A non-blocking send of a message or a packet. -/
theorem send_i_outcome (rand handle : ℕ) (m : Msg) (hends : Ends w se p bt K sh)
    (hready : Ready bt K sh) :
    ∃ c, send_i w rand se (some p) handle m 0 .MCAPI_SUCCESS = some c ∧
      (Fair bt K sh m c.success (c.world.shared p) ↔
        bt = MCAPI_ENDP_ATTR_FIFO_BUFFER ∨ HasRoom K sh) := by
  cases bt with
  | MCAPI_ENDP_ATTR_FIFO_BUFFER =>
    rcases send_i_fifo rand handle 0 m hends hready with
      ⟨-, hc⟩ | ⟨-, c, r, hc, ⟨hsetup, hstored⟩ | ⟨hsetup, hsh⟩⟩
    · refine ⟨_, hc, iff_of_true (fair_of_cases (.inr ⟨rfl, hends.shared⟩)) (.inl rfl)⟩
    · exact ⟨c, hc, iff_of_true (fair_of_cases (.inl ⟨hsetup.success, hstored⟩)) (.inl rfl)⟩
    · exact ⟨c, hc, iff_of_true (fair_of_cases (.inr ⟨hsetup.success, hsh⟩)) (.inl rfl)⟩
  | MCAPI_ENDP_ATTR_STATE_BUFFER =>
    obtain ⟨c, hc, hrequest, hstatus, hcases⟩ := send_i_state rand handle 0 m hends hready
    refine ⟨c, hc, ?_⟩
    have hok : c.success = true := by
      unfold Called.success
      rw [hstatus, hrequest]
      rfl
    rw [hok, fair_state_iff hcases]
    exact ⟨.inr, fun h => h.resolve_left nofun⟩

/-- A blocking one. -/
theorem blocking_outcome (fuel : ℕ) {call : ℕ → World → ℕ → Status → Option Called}
    (henv : env.OnlyRequests) (hends : Ends w se p bt K sh) (hready : Ready bt K sh)
    (hcall : Sends call w rand se p handle m) :
    (∀ x, blocking env call fuel w = some x → (Fair bt K sh m x.rc (x.world.shared p) ↔
      bt = MCAPI_ENDP_ATTR_FIFO_BUFFER ∨ HasRoom K sh)) ∧
    (0 < fuel → (bt = MCAPI_ENDP_ATTR_FIFO_BUFFER → (env 0 w).HasFree) →
      ∃ x, blocking env call fuel w = some x) := by
  cases bt with
  | MCAPI_ENDP_ATTR_FIFO_BUFFER =>
    refine ⟨?_, ?_⟩
    · intro x hx
      exact iff_of_true (fair_of_cases (blocking_send_fifo henv hends hready hcall hx)) (.inl rfl)
    · intro hfuel hfree
      obtain ⟨fuel, rfl⟩ := Nat.exists_eq_succ_of_ne_zero hfuel.ne'
      exact blocking_send_returns henv hends hready hcall (hfree rfl)
  | MCAPI_ENDP_ATTR_STATE_BUFFER =>
    cases fuel with
    | zero => exact ⟨nofun, nofun⟩
    | succ fuel =>
      obtain ⟨x, hx, hrc, hcases⟩ := blocking_send_state fuel henv hends hready hcall
      refine ⟨?_, fun _ _ => ⟨x, hx⟩⟩
      intro x' hx'
      rw [hx] at hx'
      obtain rfl := Option.some.inj hx'
      rw [hrc, fair_state_iff hcases]
      exact ⟨.inr, fun h => h.resolve_left nofun⟩

/-- A send of a scalar. -/
theorem sclchan_send_outcome {send_handle : ℕ} (m : Msg)
    (hargs : (SendCall.sclchan_send send_handle).Between w se p) (hends : Ends w se p bt K sh)
    (hready : Ready bt K sh) :
    ∃ x, mcapi_trans_sclchan_send w send_handle m = some x ∧
      (Fair bt K sh m x.2 (x.1.shared p) ↔
        bt = MCAPI_ENDP_ATTR_FIFO_BUFFER ∨ HasRoom K sh) := by
  obtain ⟨hse, hp, -⟩ := hargs
  cases bt with
  | MCAPI_ENDP_ATTR_FIFO_BUFFER =>
    rcases send_cases hready m with ⟨sh', hsend, hstored⟩ | hsend
    · refine ⟨(w.setShared p sh', true), ?_,
        iff_of_true (fair_of_cases (.inl ⟨rfl, ?_⟩)) (.inl rfl)⟩
      · simp only [mcapi_trans_sclchan_send, hse, hp, hends.buffer_type, hends.shared, hsend,
          Option.map_some]
      · rw [World.shared_setShared]
        exact hstored
    · refine ⟨(w.setShared p sh, false), ?_,
        iff_of_true (fair_of_cases (.inr ⟨rfl, ?_⟩)) (.inl rfl)⟩
      · simp only [mcapi_trans_sclchan_send, hse, hp, hends.buffer_type, hends.shared, hsend,
          Option.map_some]
      · rw [World.shared_setShared]
  | MCAPI_ENDP_ATTR_STATE_BUFFER =>
    rcases send_state_cases hready m with ⟨hroom, sh', hsend, hstored⟩ | ⟨hroom, sh', hsend, -, hne⟩
    · refine ⟨(w.setShared p sh', true), ?_,
        iff_of_true (fair_of_cases (.inl ⟨rfl, ?_⟩)) (.inr hroom)⟩
      · simp only [mcapi_trans_sclchan_send, hse, hp, hends.buffer_type, hends.num_send_buffers,
          hends.shared, hsend, Option.map_some]
      · rw [World.shared_setShared]
        exact hstored
    · refine ⟨(w.setShared p sh', false), ?_, iff_of_false ?_ ?_⟩
      · simp only [mcapi_trans_sclchan_send, hse, hp, hends.buffer_type, hends.num_send_buffers,
          hends.shared, hsend, Option.map_some]
      · -- FALSE is reported, but the entry was emptied
        rw [World.shared_setShared]
        exact fun hfair => hne (hfair.2 rfl)
      · rintro (h | h)
        · cases h
        · exact hroom h

/-- **One call**: whether its outcome is fair, and that it returns. -/
theorem perform_outcome (hargs : call.Between w se p) (hends : Ends w se p bt K sh)
    (hready : Ready bt K sh) (henv : env.OnlyRequests) (rand : ℕ → ℕ) (fuel : ℕ) (m : Msg) :
    (∀ w' ok, call.perform env rand fuel w m = some (w', ok) →
      (Fair bt K sh m ok (w'.shared p) ↔ bt = MCAPI_ENDP_ATTR_FIFO_BUFFER ∨ HasRoom K sh)) ∧
    (0 < fuel → (call.isBlocking = true → bt = MCAPI_ENDP_ATTR_FIFO_BUFFER → (env 0 w).HasFree) →
      ∃ x, call.perform env rand fuel w m = some x) := by
  -- a call that is known to return, and what it returns
  have hone : ∀ {x : World × Bool}, call.perform env rand fuel w m = some x →
      (Fair bt K sh m x.2 (x.1.shared p) ↔ bt = MCAPI_ENDP_ATTR_FIFO_BUFFER ∨ HasRoom K sh) →
      (∀ w' ok, call.perform env rand fuel w m = some (w', ok) →
        (Fair bt K sh m ok (w'.shared p) ↔ bt = MCAPI_ENDP_ATTR_FIFO_BUFFER ∨ HasRoom K sh)) ∧
      (0 < fuel →
        (call.isBlocking = true → bt = MCAPI_ENDP_ATTR_FIFO_BUFFER → (env 0 w).HasFree) →
        ∃ x, call.perform env rand fuel w m = some x) := by
    intro x hx hfair
    refine ⟨?_, fun _ _ => ⟨x, hx⟩⟩
    intro w' ok h
    rw [hx] at h
    obtain rfl := Option.some.inj h
    exact hfair
  -- a call that loops
  have hloop : ∀ {f : ℕ → World → ℕ → Status → Option Called} {handle : ℕ},
      Sends f w rand se p handle m → call.isBlocking = true →
      call.perform env rand fuel w m = (blocking env f fuel w).map (fun x => (x.world, x.rc)) →
      (∀ w' ok, call.perform env rand fuel w m = some (w', ok) →
        (Fair bt K sh m ok (w'.shared p) ↔ bt = MCAPI_ENDP_ATTR_FIFO_BUFFER ∨ HasRoom K sh)) ∧
      (0 < fuel →
        (call.isBlocking = true → bt = MCAPI_ENDP_ATTR_FIFO_BUFFER → (env 0 w).HasFree) →
        ∃ x, call.perform env rand fuel w m = some x) := by
    intro f handle hf hblocking hperform
    obtain ⟨hall, hret⟩ := blocking_outcome fuel henv hends hready hf
    rw [hperform]
    refine ⟨?_, ?_⟩
    · intro w' ok h
      obtain ⟨x, hx, heq⟩ := Option.map_eq_some_iff.mp h
      obtain ⟨rfl, rfl⟩ := Prod.mk.inj heq
      exact hall x hx
    · intro hfuel hfree
      obtain ⟨x, hx⟩ := hret hfuel (hfree hblocking)
      exact ⟨(x.world, x.rc), by rw [hx]; rfl⟩
  cases call with
  | msg_send_i send_endpoint receive_endpoint =>
    obtain ⟨c, hc, hfair⟩ := send_i_outcome (rand 0) receive_endpoint m hends hready
    have hcall := msg_send_sends hargs rand m 0 w 0 .MCAPI_SUCCESS rfl
    exact hone (congrArg (Option.map fun c : Called => (c.world, c.success)) (hcall.trans hc)) hfair
  | pktchan_send_i send_handle =>
    obtain ⟨c, hc, hfair⟩ := send_i_outcome (rand 0) send_handle m hends hready
    have hcall := pktchan_send_sends hargs rand m 0 w 0 .MCAPI_SUCCESS rfl
    exact hone (congrArg (Option.map fun c : Called => (c.world, c.success)) (hcall.trans hc)) hfair
  | msg_send send_endpoint receive_endpoint => exact hloop (msg_send_sends hargs rand m) rfl rfl
  | pktchan_send send_handle => exact hloop (pktchan_send_sends hargs rand m) rfl rfl
  | sclchan_send send_handle =>
    obtain ⟨x, hx, hfair⟩ := sclchan_send_outcome m hargs hends hready
    exact hone hx hfair

/-- **A send is reported truthfully** exactly if it is one on FIFO buffers, or on state
buffers and has a buffer to write. -/
theorem send_truthful_iff (m : Msg) (hargs : call.Between w se p)
    (hready : Ready (w.endpoints se).buffer_type (w.endpoints p).num_send_buffers (w.shared p)) :
    Truthful w se p m call ↔
      (w.endpoints se).buffer_type = MCAPI_ENDP_ATTR_FIFO_BUFFER ∨
        HasRoom (w.endpoints p).num_send_buffers (w.shared p) := by
  have houtcome := fun env (henv : Env.OnlyRequests env) =>
    perform_outcome hargs ⟨rfl, rfl, rfl⟩ hready henv
  constructor
  · intro h
    by_contra hnot
    -- no other thread does anything, and the call returns
    have hquiet : Env.OnlyRequests fun _ w => w :=
      { kept := fun _ _ _ _ => rfl
        not_mine := fun _ _ _ hmine => hmine
        endpoints := fun _ _ => rfl
        buffers := fun _ _ => rfl }
    obtain ⟨hall, hret⟩ := houtcome _ hquiet (fun _ => 0) 1 m
    obtain ⟨⟨w', ok⟩, hx⟩ := hret Nat.one_pos (fun _ hfifo => absurd (.inl hfifo) hnot)
    apply hnot
    apply (hall w' ok hx).mp
    refine ⟨h.success_iff _ hquiet _ _ w' ok hx, ?_⟩
    rintro rfl
    exact h.unchanged _ hquiet _ _ w' hx
  · intro hcond
    refine ⟨?_, ?_, ?_⟩
    · intro env henv rand fuel hfuel hfree
      exact (houtcome env henv rand fuel m).2 hfuel fun hblocking _ => hfree hblocking
    · intro env henv rand fuel w' ok hx
      exact (((houtcome env henv rand fuel m).1 w' ok hx).mpr hcond).1
    · intro env henv rand fuel w' hx
      exact (((houtcome env henv rand fuel m).1 w' false hx).mpr hcond).2 rfl

end Perform

/-- Endpoints that have one state buffer, and the marker of all buffers of the pool. -/
def stateWorld (magic_num : ℕ) : World where
  domains := fun _ => true
  nodes := fun _ _ => true
  endpoints := fun _ => ⟨true, MCAPI_ENDP_ATTR_STATE_BUFFER, 1, 0, .zero MCAPI_NO_CHAN⟩
  buffers := fun _ => { buffer_entry.zero with magic_num := magic_num }
  requests := fun _ => ⟨REQUEST_FREE, SEND, 0, 0, .MCAPI_SUCCESS, -1, false⟩

theorem ready_stateWorld (magic_num : ℕ) (se p : Place) :
    Ready ((stateWorld magic_num).endpoints se).buffer_type
      ((stateWorld magic_num).endpoints p).num_send_buffers ((stateWorld magic_num).shared p) := by
  refine ⟨Nat.two_pow_pos 32, ?_, ?_⟩
  · exact show entryOk 1 (writeSlot 1 (u32 (0 + 1))) = true by decide
  · rintro buf rfl hpkt
    cases hpkt

theorem send_truthful_free_pool :
    Truthful (stateWorld 0) (0, 0, 0) (0, 0, 1) (shortMsg 7) (.msg_send_i 0 1) := by
  have hargs : (SendCall.msg_send_i 0 1).Between (stateWorld 0) (0, 0, 0) (0, 0, 1) :=
    ⟨rfl, rfl, rfl, rfl⟩
  exact (send_truthful_iff (shortMsg 7) hargs (ready_stateWorld 0 _ _)).mpr
    (.inr (.inr ⟨0, by decide, rfl⟩))

/-- The pool is used up, and a message is sent. Success is reported, and the entry that it
should be in is empty. -/
theorem send_reports_lost_message : ¬ ∀ (w : World) (se p : Place) (m : Msg) (call : SendCall),
    call.Between w se p →
    Ready (w.endpoints se).buffer_type (w.endpoints p).num_send_buffers (w.shared p) →
      Truthful w se p m call := by
  intro hall
  have htruthful := hall (stateWorld MAGIC_NUM) (0, 0, 0) (0, 0, 1) (shortMsg 7) (.msg_send_i 0 1)
    ⟨rfl, rfl, rfl, rfl⟩ (ready_stateWorld _ _ _)
  have hquiet : Env.OnlyRequests fun _ w => w :=
    ⟨⟨fun _ _ _ _ => rfl, fun _ _ _ hmine => hmine⟩, fun _ _ => rfl, fun _ _ => rfl⟩
  have hrun : ((SendCall.msg_send_i 0 1).perform (fun _ w => w) (fun _ => 0) 1
      (stateWorld MAGIC_NUM) (shortMsg 7)).any (fun x => x.2 &&
        decide (((x.1.shared (0, 0, 1)).q.elements 0).buff_index = 0)) = true := by
    decide +kernel
  obtain ⟨⟨w', ok⟩, hx, hdone⟩ := (Option.any_eq_true _ _).mp hrun
  rw [Bool.and_eq_true, decide_eq_true_eq] at hdone
  obtain ⟨rfl, hempty⟩ := hdone
  obtain ⟨i, -, hne, -⟩ := (htruthful.success_iff _ hquiet _ _ w' true hx).mp rfl
  exact hne hempty

end MxApi.Calls
