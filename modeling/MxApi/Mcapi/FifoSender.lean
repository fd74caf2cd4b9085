/-
The steps of the sender that has a queue entry: each keeps the invariant, and no
assert of `mcapi_trans_send` or `push_queue` fails.
-/
import MxApi.Mcapi.FifoInvariant

set_option autoImplicit false

namespace MxApi

open Lib channel_type mcapi_buffer_state mcapi_status_t

/-! ## Moving the sender through the invariant -/

section Sender

variable {ct : channel_type} {p p' : SendPc} {w : Option SendPc} {r : Option RecvPc}
  {sh sh' : Shared} {sent : List SendFrame} {a : ℕ}

/-- The sender's entry after a step that writes no other entry. -/
theorem CoreInv.entries_sender (h : CoreInv ct (some p) r sh sent a) {q : ℕ}
    {P P' : buffer_descriptor → Prop} {el' : ℕ → buffer_descriptor} (hp : p.entry = some (q, P))
    (hp' : p'.entry = some (q, P')) (hmem : ∀ j, j ≠ q → el' j = sh.q.elements j)
    (hP' : P' (el' q)) :
    Covers (EntryIs BUFFER_FREE 0) (entryClaim (some p') r sent a) el' := by
  have hq : entryClaim (some p) r sent a .sender = some (q, P) := hp
  refine h.entries.change .sender q (fun o _ ho => h.entries.excl ho hq) ?_ ?_ hmem ?_ ?_
  · intro j P₁ hj
    rw [hq] at hj
    cases hj
    rfl
  · intro o ho
    cases o with
    | sender => exact absurd rfl ho
    | elem n => rfl
    | receiver => rfl
  · intro j P₁ hj
    rw [show entryClaim (some p') r sent a .sender = some (q, P') from hp'] at hj
    cases hj
    exact ⟨rfl, hP'⟩
  · intro hnone
    rw [show entryClaim (some p') r sent a .sender = some (q, P') from hp'] at hnone
    cases hnone

/-- The sender's entry when a step writes no entry. -/
theorem CoreInv.entries_keep (h : CoreInv ct (some p) r sh sent a) {x}
    (hp : p.entry = some x) (hp' : p'.entry = some x) :
    Covers (EntryIs BUFFER_FREE 0) (entryClaim (some p') r sent a) sh.q.elements :=
  h.entries_sender hp hp' (fun _ _ => rfl)
    (h.entries.content (show entryClaim (some p) r sent a .sender = some x from hp))

/-- The buffer the sender has, or takes, after a step that writes no other one. -/
theorem CoreInv.bufs_sender (h : CoreInv ct w r sh sent a) {i : ℕ} {P' : buffer_entry → Prop}
    {bufs' : ℕ → buffer_entry}
    (hmine : ∀ o P, bufClaim ct w r sent a o = some (i, P) → o = .sender)
    (hp' : p'.buf ct = some (i, P')) (hmem : ∀ j, j ≠ i → bufs' j = sh.buffers j)
    (hP' : P' (bufs' i)) : Claims (bufClaim ct (some p') r sent a) bufs' := by
  refine h.bufs.change .sender i hmine ?_ hmem ?_
  · intro o ho
    cases o with
    | sender => exact absurd rfl ho
    | elem n => rfl
    | receiver => rfl
  · intro j P₁ hj
    rw [show bufClaim ct (some p') r sent a .sender = some (i, P') from hp'] at hj
    cases hj
    exact ⟨rfl, hP'⟩

/-- What the sender's buffer is known to contain, and that it is nobody else's. -/
theorem CoreInv.buf_of (h : CoreInv ct (some p) r sh sent a) {i : ℕ} {P : buffer_entry → Prop}
    (hp : p.buf ct = some (i, P)) :
    P (sh.buffers i) ∧ ∀ o P', bufClaim ct (some p) r sent a o = some (i, P') → o = .sender := by
  have hi : bufClaim ct (some p) r sent a .sender = some (i, P) := hp
  exact ⟨h.bufs.content hi, fun o _ ho => h.bufs.excl ho hi⟩

/-- A sender that moves on without a buffer leaves the other parties' alone. -/
theorem CoreInv.bufs_none (h : CoreInv ct w r sh sent a) {w' : Option SendPc}
    (hw : w.bind (SendPc.buf ct) = none) (hw' : w'.bind (SendPc.buf ct) = none) :
    Claims (bufClaim ct w' r sent a) sh.buffers := by
  have hsame : bufClaim ct w' r sent a = bufClaim ct w r sent a := by
    funext o
    cases o with
    | sender => exact hw'.trans hw.symm
    | elem n => rfl
    | receiver => rfl
  rw [hsame]
  exact h.bufs

/-- The invariant where the sender stands at a new program point inside. -/
theorem CoreInv.sender_to (h : CoreInv ct (some p) r sh sent a)
    (hchannel : sh'.q.channel_type = sh.q.channel_type)
    (hac : sh'.q.ack_counter = sh.q.ack_counter)
    (huc : sh'.q.update_counter = u32 (2 * sent.length + pushing (some p')))
    (hok : p'.Ok sent.length)
    (hentries : Covers (EntryIs BUFFER_FREE 0) (entryClaim (some p') r sent a) sh'.q.elements)
    (hbufs : Claims (bufClaim ct (some p') r sent a) sh'.buffers) :
    CoreInv ct (some p') r sh' sent a where
  channel := hchannel.trans h.channel
  le := h.le
  bound := h.bound
  uc := huc
  ac := hac.trans h.ac
  sender := by
    intro p'' hp''
    cases hp''
    exact ⟨hok, (h.sender p rfl).2⟩
  reader := h.reader
  entries := hentries
  bufs := hbufs
  index := h.index

/-- A step that copies, or that fills in the buffer in another way: it leaves the
queue and the other buffers alone. -/
theorem CoreInv.sender_fill (h : CoreInv ct (some p) r sh sent a) {i : ℕ} {b : buffer_entry}
    {x} {P P' : buffer_entry → Prop} (hp : p.entry = some x) (hp' : p'.entry = some x)
    (hpush : pushing (some p') = pushing (some p)) (hok : p'.Ok sent.length)
    (hb : p.buf ct = some (i, P)) (hb' : p'.buf ct = some (i, P'))
    (hP' : P (sh.buffers i) → P' b) :
    CoreInv ct (some p') r (sh.setBuffer i b) sent a := by
  obtain ⟨hP, hmine⟩ := h.buf_of hb
  refine h.sender_to rfl rfl ?_ hok (h.entries_keep hp hp') ?_
  · rw [hpush]
    exact h.uc
  · refine h.bufs_sender hmine hb' (fun j hj => sh.setBuffer_of_ne hj b) ?_
    rw [Shared.setBuffer_self]
    exact hP' hP

/-- A step that writes the sender's entry only. -/
theorem CoreInv.sender_entry (h : CoreInv ct (some p) r sh sent a) {q i : ℕ}
    {d : buffer_descriptor} {P P' : buffer_descriptor → Prop} {B B' : buffer_entry → Prop}
    (hp : p.entry = some (q, P)) (hp' : p'.entry = some (q, P'))
    (hpush : pushing (some p') = pushing (some p)) (hok : p'.Ok sent.length)
    (hb : p.buf ct = some (i, B)) (hb' : p'.buf ct = some (i, B'))
    (hB : B (sh.buffers i) → B' (sh.buffers i)) (hP' : P (sh.q.elements q) → P' d) :
    CoreInv ct (some p') r (sh.setElement q d) sent a := by
  obtain ⟨hcontent, hmine⟩ := h.buf_of hb
  have hP : P (sh.q.elements q) :=
    h.entries.content (show entryClaim (some p) r sent a .sender = some (q, P) from hp)
  refine h.sender_to rfl rfl ?_ hok ?_ ?_
  · rw [hpush]
    exact h.uc
  · refine h.entries_sender hp hp' (fun j hj => sh.setElement_of_ne hj d) ?_
    rw [Shared.setElement_self]
    exact hP' hP
  · exact h.bufs_sender hmine hb' (fun _ _ => rfl) (hB hcontent)

/-- A step that writes nothing. -/
theorem CoreInv.sender_local (h : CoreInv ct (some p) r sh sent a) {x}
    (hp : p.entry = some x) (hp' : p'.entry = some x)
    (hpush : pushing (some p') = pushing (some p)) (hok : p'.Ok sent.length)
    (hbufs : Claims (bufClaim ct (some p') r sent a) sh.buffers) :
    CoreInv ct (some p') r sh sent a := by
  refine h.sender_to rfl rfl ?_ hok (h.entries_keep hp hp') hbufs
  rw [hpush]
  exact h.uc

/-- A step that writes nothing and keeps what is known of the buffer. -/
theorem CoreInv.sender_read (h : CoreInv ct (some p) r sh sent a) {x} {i : ℕ}
    {P P' : buffer_entry → Prop} (hp : p.entry = some x) (hp' : p'.entry = some x)
    (hpush : pushing (some p') = pushing (some p)) (hok : p'.Ok sent.length)
    (hb : p.buf ct = some (i, P)) (hb' : p'.buf ct = some (i, P'))
    (hP' : P (sh.buffers i) → P' (sh.buffers i)) : CoreInv ct (some p') r sh sent a := by
  obtain ⟨hP, hmine⟩ := h.buf_of hb
  exact h.sender_local hp hp' hpush hok (h.bufs_sender hmine hb' (fun _ _ => rfl) (hP' hP))

/-- A sender that has an entry has the one the next push takes. -/
theorem SendPc.Ok.entry_eq {u : ℕ} (h : p.Ok u) : ∃ P, p.entry = some (ringSlot u, P) := by
  cases p with
  | allocBuffer | unreserve => exact ⟨_, by rw [SendPc.entry, h]⟩
  | setParent | copy | setSize | setBuffIndex | casAllocated | pushUpdate =>
    exact ⟨_, by rw [SendPc.entry, h.1]⟩
  | pushAck | pushCas | pushInc => exact ⟨_, by rw [SendPc.entry, h.1.1]⟩
  | idle | tailAck | tailUpdate | readBuffIndex | checkBuffIndex | casReserve | failed =>
    exact h.elim

/-! ## Taking an entry, giving it back, handing it to the message -/

/-- A sender that exchanges a free entry acquires it. -/
theorem CoreInv.reserve (h : CoreInv ct none r sh sent a) (m : Msg) {q : ℕ}
    (hq : q = ringSlot sent.length)
    (hroom : 2 * sent.length + 2 ≤ 2 * a + popping r + 2 * MCAPI_MAX_QUEUE_ENTRIES)
    (hfree : (sh.q.elements q).state = BUFFER_FREE) :
    CoreInv ct (some (.allocBuffer m q 0)) r
      (sh.setElement q { sh.q.elements q with state := BUFFER_RESERVED }) sent a := by
  have hnone : ∀ o P, entryClaim none r sent a o ≠ some (q, P) :=
    h.entries.unclaimed fun o P ho hP => entryClaim_state ho hP hfree
  have hzero := (h.entries.rest q hnone).2
  exact {
    channel := h.channel
    le := h.le
    bound := h.bound
    uc := h.uc
    ac := h.ac
    sender := by
      intro p hp
      cases hp
      exact ⟨hq, hroom⟩
    reader := h.reader
    entries := by
      refine h.entries.change .sender q (fun o P ho => absurd ho (hnone o P)) nofun ?_
        (fun j hj => sh.setElement_of_ne hj _) ?_ nofun
      · intro o ho
        cases o with
        | sender => exact absurd rfl ho
        | elem n => rfl
        | receiver => rfl
      · intro j P hj
        cases hj
        exact ⟨rfl, by rw [Shared.setElement_self]; exact ⟨rfl, hzero⟩⟩
    bufs := h.bufs_none rfl rfl
    index := h.index }

/-- A sender that found no buffer gives its entry back. -/
theorem CoreInv.unreserve {m : Msg} {q : ℕ} (h : CoreInv ct (some (.unreserve m q)) r sh sent a) :
    CoreInv ct none r (sh.setElement q { sh.q.elements q with state := BUFFER_FREE }) sent a := by
  have hq : entryClaim (some (.unreserve m q)) r sent a .sender
      = some (q, EntryIs BUFFER_RESERVED 0) := rfl
  have hzero := (h.entries.content hq).2
  exact {
    channel := h.channel
    le := h.le
    bound := h.bound
    uc := h.uc
    ac := h.ac
    sender := nofun
    reader := h.reader
    entries := by
      refine h.entries.change .sender q (fun o _ ho => h.entries.excl ho hq) ?_ ?_
        (fun j hj => sh.setElement_of_ne hj _) nofun ?_
      · intro j P hj
        cases hj
        rfl
      · intro o ho
        cases o with
        | sender => exact absurd rfl ho
        | elem n => rfl
        | receiver => rfl
      · intro _
        rw [Shared.setElement_self]
        exact ⟨rfl, hzero⟩
    bufs := h.bufs_none rfl rfl
    index := h.index }

theorem getElem?_concat_of_ne {α : Type*} (l : List α) (x : α) {n : ℕ} (hn : n ≠ l.length) :
    (l ++ [x])[n]? = l[n]? := by
  by_cases h : n < l.length
  · exact List.getElem?_append_left h
  · rw [List.getElem?_eq_none (by simp; omega), List.getElem?_eq_none (by omega)]

/-- The receiver's message, and with it what the receiver claims, is not touched
by another send. -/
theorem CoreInv.reader_concat (h : CoreInv ct w r sh sent a) (f : SendFrame) (hr : r ≠ none) :
    (sent ++ [f])[a]? = sent[a]? := by
  obtain ⟨p, rfl⟩ := Option.ne_none_iff_exists'.mp hr
  obtain ⟨e, he, -⟩ := h.reader p rfl
  have hlt : a < sent.length := (List.getElem?_eq_some_iff.mp he).1
  exact getElem?_concat_of_ne sent f (by omega)

/-- A receiver at work has a message. -/
theorem CoreInv.busy_le (h : CoreInv ct w r sh sent a) : a + busy r ≤ sent.length := by
  cases r with
  | none => exact h.le
  | some p =>
    obtain ⟨e, he, -⟩ := h.reader p rfl
    have hlt : a < sent.length := (List.getElem?_eq_some_iff.mp he).1
    simp only [busy]
    omega

/-- **A push completes.** The sender hands its entry and its buffer to the
message. -/
theorem CoreInv.push {f : SendFrame} {UC : ℕ} (h : CoreInv ct (some (.pushInc f UC)) r sh sent a) :
    CoreInv ct none r (sh.setUpdateCounter (u32 (sh.q.update_counter + 1))) (sent ++ [f]) a := by
  obtain ⟨⟨⟨hq, hi⟩, -⟩, hroom⟩ := h.sender _ rfl
  have hbusy := h.busy_le
  have hlen : (sent ++ [f]).length = sent.length + 1 := by simp
  have hlast : (sent ++ [f])[sent.length]? = some f := by simp
  have hpop := popping_le_busy r
  have hone := busy_le_one r
  exact {
    channel := h.channel
    le := by
      rw [hlen]
      exact h.le.trans (Nat.le_succ _)
    bound := by
      rw [hlen]
      omega
    uc := by
      rw [hlen]
      have huc : sh.q.update_counter = u32 (2 * sent.length + 1) := h.uc
      change u32 (sh.q.update_counter + 1) = u32 (2 * (sent.length + 1))
      rw [huc, u32_succ]
      rfl
    ac := h.ac
    sender := nofun
    reader := by
      intro p hp
      obtain ⟨e, he, hok⟩ := h.reader p hp
      exact ⟨e, by rw [h.reader_concat f (by rw [hp]; nofun), he], hok⟩
    entries := by
      refine h.entries.pass (o := .sender) (t := .elem sent.length)
        (Q := EntryIs BUFFER_ALLOCATED (validIndex f.i)) rfl ?_ rfl ?_ ?_ (fun _ _ => rfl) ?_
      · simp [entryClaim]
      · simp only [entryClaim, if_pos hbusy, hlast, Option.map_some, hq]
      · intro o ho ho'
        cases o with
        | sender => exact absurd rfl ho
        | elem n =>
          have hn : n ≠ sent.length := fun he => ho' (by rw [he])
          simp only [entryClaim, getElem?_concat_of_ne sent f hn]
        | receiver =>
          cases r with
          | none => rfl
          | some p => simp only [entryClaim, h.reader_concat f nofun]
      · exact h.entries.content (o := .sender) rfl
    bufs := by
      refine h.bufs.pass (o := .sender) (t := .elem sent.length) (Q := Carries ct f.msg)
        rfl rfl ?_ ?_ (fun _ _ => rfl) ?_
      · simp only [bufClaim, if_pos (Or.inl hbusy), hlast, Option.map_some]
      · intro o ho ho'
        cases o with
        | sender => exact absurd rfl ho
        | elem n =>
          have hn : n ≠ sent.length := fun he => ho' (by rw [he])
          simp only [bufClaim, getElem?_concat_of_ne sent f hn]
        | receiver =>
          cases r with
          | none => rfl
          | some p => simp only [bufClaim, h.reader_concat f nofun]
      · exact h.bufs.content (o := .sender) rfl
    index := by
      intro e he
      rcases List.mem_append.mp he with he | he
      · exact h.index e he
      · rw [List.mem_singleton.mp he]
        exact hi }

/-! ## One step -/

/-- What a step of the sender with an entry may come to: it goes on, gives the
entry back, or completes its send. -/
inductive SenderNext (ct : channel_type) (r : Option RecvPc) (sent : List SendFrame) (a : ℕ) :
    Shared × SendPc × Option SendFrame → Prop
  | stays {sh : Shared} {p : SendPc} (inv : CoreInv ct (some p) r sh sent a) :
      SenderNext ct r sent a (sh, p, none)
  | leaves {sh : Shared} (inv : CoreInv ct none r sh sent a) :
      SenderNext ct r sent a (sh, .idle, none)
  | returns {sh : Shared} {f : SendFrame} (inv : CoreInv ct none r sh (sent ++ [f]) a) :
      SenderNext ct r sent a (sh, .idle, some f)

/-- The search for a buffer. -/
theorem CoreInv.alloc_step {m : Msg} {q i : ℕ}
    (h : CoreInv ct (some (.allocBuffer m q i)) r sh sent a) :
    SenderNext ct r sent a (sendProgram sh (.allocBuffer m q i)) := by
  have hq : q = ringSlot sent.length := (h.sender _ rfl).1
  simp only [sendProgram]
  by_cases hi : i < MCAPI_MAX_BUFFERS
  · rw [if_pos hi, Shared.casMagic]
    by_cases hfree : (sh.buffers i).magic_num = 0
    · rw [if_pos hfree, if_pos rfl]
      -- every claimed buffer is marked, so a free one is nobody's
      have hnone : ∀ o P, bufClaim ct (some (.allocBuffer m q i)) r sent a o ≠ some (i, P) :=
        h.bufs.unclaimed fun o P ho hP =>
          MAGIC_NUM_ne_zero ((bufClaim_marked ho hP).symm.trans hfree)
      refine .stays (h.sender_to rfl rfl h.uc ⟨hq, hi⟩ (h.entries_keep rfl rfl)
        (h.bufs_sender (fun o P ho => absurd ho (hnone o P)) rfl
          (fun j hj => sh.setBuffer_of_ne hj _) ?_))
      rw [Shared.setBuffer_self]
    · rw [if_neg hfree]
      exact .stays (h.sender_local rfl rfl rfl hq (h.bufs_none rfl rfl))
  · rw [if_neg hi]
    exact .stays (h.sender_local rfl rfl rfl hq (h.bufs_none rfl rfl))

/-- The copy of the message into the buffer. -/
theorem CoreInv.copy_step {f : SendFrame} {k : ℕ}
    (h : CoreInv ct (some (.copy f k)) r sh sent a) :
    SenderNext ct r sent a (sendProgram sh (.copy f k)) := by
  have hok := (h.sender _ rfl).1
  simp only [sendProgram, h.channel]
  by_cases hscl : ct = MCAPI_SCL_CHAN
  · rw [if_pos hscl]
    refine .stays (h.sender_fill rfl rfl rfl hok rfl rfl ?_)
    intro hP
    exact ⟨hP.1, by rw [HasContent, if_pos hscl]⟩
  · rw [if_neg hscl]
    by_cases hk : k < f.msg.buffer_size
    · rw [if_pos hk]
      refine .stays (h.sender_fill rfl rfl rfl hok rfl rfl ?_)
      rintro ⟨hmarked, hbytes⟩
      refine ⟨hmarked, fun _ n hn => ?_⟩
      by_cases hnk : n = k
      · rw [hnk]
        exact Function.update_self ..
      · exact (Function.update_of_ne hnk ..).trans (hbytes hscl n (by omega))
    · rw [if_neg hk]
      -- all bytes are copied
      refine .stays (h.sender_read rfl rfl rfl hok rfl rfl ?_)
      rintro ⟨hmarked, hbytes⟩
      refine ⟨hmarked, ?_⟩
      rw [HasContent, if_neg hscl]
      exact fun n hn => hbytes hscl n (by omega)

/-- The push, up to its last step. -/
theorem CoreInv.push_step {f : SendFrame} {c : ℕ} :
    (CoreInv ct (some (.pushUpdate f)) r sh sent a →
      SenderNext ct r sent a (sendProgram sh (.pushUpdate f))) ∧
    (CoreInv ct (some (.pushAck f c)) r sh sent a →
      SenderNext ct r sent a (sendProgram sh (.pushAck f c))) ∧
    (CoreInv ct (some (.pushCas f c)) r sh sent a →
      SenderNext ct r sent a (sendProgram sh (.pushCas f c))) := by
  refine ⟨fun h => ?_, fun h => ?_, fun h => ?_⟩
  · have huc : sh.q.update_counter = u32 (2 * sent.length) := h.uc
    simp only [sendProgram, huc, even_u32]
    exact .stays (h.sender_read rfl rfl rfl ⟨(h.sender _ rfl).1, rfl⟩ rfl rfl id)
  · obtain ⟨⟨hframe, rfl⟩, hroom⟩ := h.sender _ rfl
    -- room was made sure of at the reservation, and only grows
    have hsucc : tailStatus (u32 (2 * sent.length)) sh.q.ack_counter = MCAPI_SUCCESS := by
      have hle := h.busy_le
      have hbound := h.bound
      have hpop := popping_le_busy r
      rw [MCAPI_MAX_QUEUE_ENTRIES_eq] at hbound
      rw [h.ac, tailStatus_u32 (by omega) (by omega)]
      exact hroom
    simp only [sendProgram, lastCompleted_even, hsucc]
    exact .stays (h.sender_read rfl rfl rfl ⟨hframe, rfl⟩ rfl rfl id)
  · obtain ⟨⟨hframe, rfl⟩, -⟩ := h.sender _ rfl
    have huc : sh.q.update_counter = u32 (2 * sent.length) := h.uc
    simp only [sendProgram, huc, if_true]
    refine .stays (h.sender_to rfl rfl ?_ ⟨hframe, rfl⟩ (h.entries_keep rfl rfl) ?_)
    · change u32 (u32 (2 * sent.length) + 1) = u32 (2 * sent.length + 1)
      exact u32_succ _
    · obtain ⟨hP, hmine⟩ := h.buf_of (p := .pushCas f _) rfl
      exact h.bufs_sender hmine rfl (fun _ _ => rfl) hP

example : SendPc.idle.inside = false := by decide +kernel

/-- **The sender's step lemma.** -/
theorem CoreInv.sender_step (h : CoreInv ct (some p) r sh sent a) :
    SenderNext ct r sent a (sendProgram sh p) := by
  have hok := (h.sender p rfl).1
  cases p with
  | idle | tailAck | tailUpdate | readBuffIndex | checkBuffIndex | casReserve | failed =>
    exact hok.elim
  | allocBuffer m q i => exact h.alloc_step
  | unreserve m q => exact .leaves h.unreserve
  | setParent f =>
    refine .stays (h.sender_fill rfl rfl rfl hok rfl rfl ?_)
    exact fun hmarked => ⟨hmarked, fun _ _ hn => absurd hn (Nat.not_lt_zero _)⟩
  | copy f k => exact h.copy_step
  | setSize f =>
    refine .stays (h.sender_fill rfl rfl rfl hok rfl rfl ?_)
    exact fun hP => ⟨hP.1, rfl, hP.2⟩
  | setBuffIndex f =>
    refine .stays (h.sender_entry rfl rfl rfl hok rfl rfl id ?_)
    exact fun hP => ⟨hP.1, rfl⟩
  | casAllocated f =>
    have hentry := h.entries.content (o := .sender) rfl
    simp only [sendProgram, Shared.casState, if_pos hentry.1]
    refine .stays (h.sender_entry rfl rfl rfl hok rfl rfl id ?_)
    exact fun hP => ⟨rfl, hP.2⟩
  | pushUpdate f => exact (push_step (c := 0)).1 h
  | pushAck f UC => exact (push_step).2.1 h
  | pushCas f UC => exact (push_step).2.2 h
  | pushInc f UC =>
    have hslot : f.qindex = qindexOf (lastCompleted UC) := by
      rw [hok.2, lastCompleted_even, qindexOf_u32, hok.1.1]
    simp only [sendProgram, if_pos hslot]
    exact .returns h.push

end Sender

end MxApi
