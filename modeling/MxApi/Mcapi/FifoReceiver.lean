/-
The steps of the receiver that has taken the head of the queue: each keeps the
invariant, no assert of `mcapi_trans_recv_` or `pop_queue` fails, and what the
receive delivers is the message at the head.
-/
import MxApi.Mcapi.FifoInvariant

set_option autoImplicit false

namespace MxApi

open Lib channel_type mcapi_buffer_state mcapi_status_t

section Receiver

variable {ct : channel_type} {p p' : RecvPc} {w : Option SendPc} {sh sh' : Shared}
  {sent : List SendFrame} {a : ℕ} {e : SendFrame}

/-! ## Moving the receiver through the invariant -/

theorem entryClaim_receiver (he : sent[a]? = some e) :
    entryClaim w (some p) sent a .receiver = p.entry e := by
  simp [entryClaim, he]

theorem bufClaim_receiver (he : sent[a]? = some e) :
    bufClaim ct w (some p) sent a .receiver = p.buf ct e := by
  simp [bufClaim, he]

/-- The claims on entries after a step of the receiver that writes at most the
entry it has, and keeps it or leaves it free. -/
theorem CoreInv.entries_receiver (h : CoreInv ct w (some p) sh sent a) (he : sent[a]? = some e)
    {q : ℕ} {P : buffer_descriptor → Prop} {el' : ℕ → buffer_descriptor}
    (hp : p.entry e = some (q, P)) (hmem : ∀ j, j ≠ q → el' j = sh.q.elements j)
    (hnew : ∀ j P', p'.entry e = some (j, P') → j = q ∧ P' (el' q))
    (hfree : p'.entry e = none → EntryIs BUFFER_FREE 0 (el' q)) :
    Covers (EntryIs BUFFER_FREE 0) (entryClaim w (some p') sent a) el' := by
  have hq : entryClaim w (some p) sent a .receiver = some (q, P) :=
    (entryClaim_receiver he).trans hp
  refine h.entries.change .receiver q (fun o _ ho => h.entries.excl ho hq) ?_ ?_ hmem ?_ ?_
  · intro j P₁ hj
    rw [hq] at hj
    cases hj
    rfl
  · intro o ho
    cases o with
    | sender => rfl
    | elem n => rfl
    | receiver => exact absurd rfl ho
  · rw [entryClaim_receiver he]
    exact hnew
  · rw [entryClaim_receiver he]
    exact hfree

/-- The claims on entries when nothing about the receiver's entry changes. -/
theorem CoreInv.entries_receiver_keep (h : CoreInv ct w (some p) sh sent a)
    (he : sent[a]? = some e) (hsame : p'.entry e = p.entry e) :
    Covers (EntryIs BUFFER_FREE 0) (entryClaim w (some p') sent a) sh.q.elements := by
  have hclaim : entryClaim w (some p') sent a = entryClaim w (some p) sent a := by
    funext o
    cases o with
    | sender => rfl
    | elem n => rfl
    | receiver => rw [entryClaim_receiver he, entryClaim_receiver he, hsame]
  rw [hclaim]
  exact h.entries

/-- The claims on buffers after a step of the receiver that writes at most the
buffer it has. -/
theorem CoreInv.bufs_receiver (h : CoreInv ct w (some p) sh sent a) (he : sent[a]? = some e)
    {P : buffer_entry → Prop} {bufs' : ℕ → buffer_entry} (hp : p.buf ct e = some (e.i, P))
    (hmem : ∀ j, j ≠ e.i → bufs' j = sh.buffers j)
    (hnew : ∀ j P', p'.buf ct e = some (j, P') → j = e.i ∧ P' (bufs' e.i)) :
    Claims (bufClaim ct w (some p') sent a) bufs' := by
  have hi : bufClaim ct w (some p) sent a .receiver = some (e.i, P) :=
    (bufClaim_receiver he).trans hp
  refine h.bufs.change .receiver e.i (fun o _ ho => h.bufs.excl ho hi) ?_ hmem ?_
  · intro o ho
    cases o with
    | sender => rfl
    | elem n => rfl
    | receiver => exact absurd rfl ho
  · rw [bufClaim_receiver he]
    exact hnew

theorem CoreInv.bufs_receiver_keep (h : CoreInv ct w (some p) sh sent a)
    (he : sent[a]? = some e) (hsame : p'.buf ct e = p.buf ct e) :
    Claims (bufClaim ct w (some p') sent a) sh.buffers := by
  have hclaim : bufClaim ct w (some p') sent a = bufClaim ct w (some p) sent a := by
    funext o
    cases o with
    | sender => rfl
    | elem n => rfl
    | receiver => rw [bufClaim_receiver he, bufClaim_receiver he, hsame]
  rw [hclaim]
  exact h.bufs

/-- What the receiver's buffer contains. -/
theorem CoreInv.carries (h : CoreInv ct w (some p) sh sent a) (he : sent[a]? = some e)
    (hp : p.buf ct e = some (e.i, Carries ct e.msg)) : Carries ct e.msg (sh.buffers e.i) :=
  h.bufs.content ((bufClaim_receiver he).trans hp)

/-- What the receiver's entry contains. -/
theorem CoreInv.entry_is (h : CoreInv ct w (some p) sh sent a) (he : sent[a]? = some e)
    {q : ℕ} {P : buffer_descriptor → Prop} (hp : p.entry e = some (q, P)) :
    P (sh.q.elements q) :=
  h.entries.content ((entryClaim_receiver he).trans hp)

/-- The invariant where the receiver stands at a new program point inside. -/
theorem CoreInv.receiver_to (h : CoreInv ct w (some p) sh sent a) (he : sent[a]? = some e)
    (hchannel : sh'.q.channel_type = sh.q.channel_type)
    (huc : sh'.q.update_counter = sh.q.update_counter)
    (hac : sh'.q.ack_counter = u32 (2 * a + popping (some p')))
    (hpop : popping (some p) ≤ popping (some p')) (hok : p'.Ok ct e a)
    (hentries : Covers (EntryIs BUFFER_FREE 0) (entryClaim w (some p') sent a) sh'.q.elements)
    (hbufs : Claims (bufClaim ct w (some p') sent a) sh'.buffers) :
    CoreInv ct w (some p') sh' sent a where
  channel := hchannel.trans h.channel
  le := h.le
  bound := h.bound
  uc := huc.trans h.uc
  ac := hac
  sender := by
    intro x hx
    obtain ⟨hxok, hroom⟩ := h.sender x hx
    exact ⟨hxok, by omega⟩
  reader := by
    intro p'' hp''
    cases hp''
    exact ⟨e, he, hok⟩
  entries := hentries
  bufs := hbufs
  index := h.index

/-- A step that only reads. -/
theorem CoreInv.receiver_read (h : CoreInv ct w (some p) sh sent a) (he : sent[a]? = some e)
    (hpop : popping (some p') = popping (some p)) (hok : p'.Ok ct e a)
    (hentry : p'.entry e = p.entry e) (hbuf : p'.buf ct e = p.buf ct e) :
    CoreInv ct w (some p') sh sent a := by
  refine h.receiver_to he rfl rfl ?_ hpop.ge hok (h.entries_receiver_keep he hentry)
    (h.bufs_receiver_keep he hbuf)
  rw [hpop]
  exact h.ac

/-- A step that writes the receiver's entry. -/
theorem CoreInv.receiver_entry (h : CoreInv ct w (some p) sh sent a) (he : sent[a]? = some e)
    {q : ℕ} {d : buffer_descriptor} {P : buffer_descriptor → Prop}
    (hpop : popping (some p') = popping (some p)) (hok : p'.Ok ct e a)
    (hp : p.entry e = some (q, P)) (hbuf : p'.buf ct e = p.buf ct e)
    (hnew : ∀ j P', p'.entry e = some (j, P') → j = q ∧ P' d)
    (hfree : p'.entry e = none → EntryIs BUFFER_FREE 0 d) :
    CoreInv ct w (some p') (sh.setElement q d) sent a := by
  refine h.receiver_to he rfl rfl ?_ hpop.ge hok ?_ (h.bufs_receiver_keep he hbuf)
  · rw [hpop]
    exact h.ac
  · refine h.entries_receiver he hp (fun j hj => sh.setElement_of_ne hj d) ?_ ?_
    · rw [Shared.setElement_self]
      exact hnew
    · rw [Shared.setElement_self]
      exact hfree

/-- A step that writes the receiver's buffer. -/
theorem CoreInv.receiver_buf (h : CoreInv ct w (some p) sh sent a) (he : sent[a]? = some e)
    {b : buffer_entry} {P : buffer_entry → Prop} (hpop : popping (some p') = popping (some p))
    (hok : p'.Ok ct e a) (hentry : p'.entry e = p.entry e) (hp : p.buf ct e = some (e.i, P))
    (hnew : ∀ j P', p'.buf ct e = some (j, P') → j = e.i ∧ P' b) :
    CoreInv ct w (some p') (sh.setBuffer e.i b) sent a := by
  refine h.receiver_to he rfl rfl ?_ hpop.ge hok (h.entries_receiver_keep he hentry) ?_
  · rw [hpop]
    exact h.ac
  · refine h.bufs_receiver he hp (fun j hj => sh.setBuffer_of_ne hj b) ?_
    rw [Shared.setBuffer_self]
    exact hnew

/-! ## Taking the head, completing the receive -/

/-- A receiver that exchanges the state of the head takes the message there. -/
theorem CoreInv.take (h : CoreInv ct w none sh sent a) (f : RecvArgs) {q : ℕ}
    (hq : q = ringSlot a) (hlt : a < sent.length) :
    CoreInv ct w (some (.recvBuffIndex f q))
      (sh.setElement q { sh.q.elements q with state := BUFFER_RECEIVED }) sent a := by
  obtain ⟨e, he⟩ : ∃ e, sent[a]? = some e := ⟨_, List.getElem?_eq_getElem hlt⟩
  have helem : entryClaim w none sent a (.elem a)
      = some (q, EntryIs BUFFER_ALLOCATED (validIndex e.i)) := by
    simp [entryClaim, busy, he, hq]
  have hbuf : bufClaim ct w none sent a (.elem a) = some (e.i, Carries ct e.msg) := by
    simp [bufClaim, busy, he]
  exact {
    channel := h.channel
    le := h.le
    bound := h.bound
    uc := h.uc
    ac := h.ac
    sender := h.sender
    reader := by
      intro p hp
      cases hp
      exact ⟨e, he, hq⟩
    entries := by
      refine h.entries.pass (t := .receiver) (Q := EntryIs BUFFER_RECEIVED (validIndex e.i))
        helem rfl ?_ ?_ ?_ (fun j hj => sh.setElement_of_ne hj _) ?_
      · simp [entryClaim, busy]
      · exact entryClaim_receiver he
      · intro o ho ho'
        cases o with
        | sender => rfl
        | elem n =>
          have hn : n ≠ a := fun hna => ho (by rw [hna])
          have hiff : a + busy (some (RecvPc.recvBuffIndex f q)) ≤ n ↔ a + busy none ≤ n := by
            simp only [busy]
            omega
          simp only [entryClaim, hiff]
        | receiver => exact absurd rfl ho'
      · rw [Shared.setElement_self]
        exact ⟨rfl, (h.entries.content helem).2⟩
    bufs := by
      refine h.bufs.pass (t := .receiver) (Q := Carries ct e.msg) hbuf ?_
        (bufClaim_receiver he) ?_ (fun _ _ => rfl) (h.bufs.content hbuf)
      · simp [bufClaim, busy]
      · intro o ho ho'
        cases o with
        | sender => rfl
        | elem n =>
          have hn : n ≠ a := fun hna => ho (by rw [hna])
          have hiff : a + busy (some (RecvPc.recvBuffIndex f q)) ≤ n ↔ a + busy none ≤ n := by
            simp only [busy]
            omega
          simp only [bufClaim, hiff]
        | receiver => exact absurd rfl ho'
    index := h.index }

/-- **A pop completes.** A packet keeps its buffer, in the hands of the caller. -/
theorem CoreInv.pop {f : RecvArgs} {d : Delivery} (h : CoreInv ct w (some (.popInc f d)) sh sent a) :
    CoreInv ct w none (sh.setAckCounter (u32 (sh.q.ack_counter + 1))) sent (a + 1) := by
  obtain ⟨e, he, -⟩ := h.reader _ rfl
  have hlt : a < sent.length := (List.getElem?_eq_some_iff.mp he).1
  exact {
    channel := h.channel
    le := hlt
    bound := by
      have := h.bound
      omega
    uc := h.uc
    ac := by
      have hac : sh.q.ack_counter = u32 (2 * a + 1) := h.ac
      change u32 (sh.q.ack_counter + 1) = u32 (2 * (a + 1))
      rw [hac, u32_succ]
      rfl
    sender := by
      intro x hx
      obtain ⟨hok, hroom⟩ := h.sender x hx
      refine ⟨hok, ?_⟩
      simp only [popping] at hroom ⊢
      omega
    reader := nofun
    entries := by
      have hclaim : entryClaim w none sent (a + 1) = entryClaim w (some (.popInc f d)) sent a := by
        funext o
        cases o with
        | sender => rfl
        | elem n => rfl
        | receiver =>
          rw [entryClaim_receiver he]
          rfl
      rw [hclaim]
      exact h.entries
    bufs := by
      by_cases hpkt : ct = MCAPI_PKT_CHAN
      · have hbuf : (RecvPc.popInc f d).buf ct e = some (e.i, Carries ct e.msg) := if_pos hpkt
        refine h.bufs.pass (o := .receiver) (t := .elem a) (Q := Carries ct e.msg)
          ((bufClaim_receiver he).trans hbuf) rfl ?_ ?_ (fun _ _ => rfl) (h.carries he hbuf)
        · simp [bufClaim, hpkt, he]
        · intro o ho ho'
          cases o with
          | sender => rfl
          | elem n =>
            have hn : n ≠ a := fun hna => ho' (by rw [hna])
            have hiff : (a + 1 + busy none ≤ n ∨ ct = MCAPI_PKT_CHAN ∧ n < a + 1) ↔
                (a + busy (some (RecvPc.popInc f d)) ≤ n ∨ ct = MCAPI_PKT_CHAN ∧ n < a) := by
              simp only [busy, hpkt, true_and]
              omega
            simp only [bufClaim, hiff]
          | receiver => exact absurd rfl ho
      · have hclaim : bufClaim ct w none sent (a + 1)
            = bufClaim ct w (some (.popInc f d)) sent a := by
          funext o
          cases o with
          | sender => rfl
          | elem n => simp [bufClaim, busy, hpkt]
          | receiver =>
            rw [bufClaim_receiver he]
            exact (if_neg hpkt).symm
        rw [hclaim]
        exact h.bufs
    index := h.index }

/-! ## One step -/

/-- What a step of the receiver that has the head may come to: it goes on, or it
completes its receive with the message at the head. -/
inductive ReceiverNext (ct : channel_type) (w : Option SendPc) (sent : List SendFrame) (a : ℕ) :
    Shared × RecvPc × Option (RecvArgs × Delivery) → Prop
  | stays {sh : Shared} {p : RecvPc} (inv : CoreInv ct w (some p) sh sent a) :
      ReceiverNext ct w sent a (sh, p, none)
  | returns {sh : Shared} {f : RecvArgs} {e : SendFrame} (head : sent[a]? = some e)
      (inv : CoreInv ct w none sh sent (a + 1)) :
      ReceiverNext ct w sent a (sh, .idle, some (f, deliver ct e f.buffer_size))

theorem map_range_concat {m : Msg} {data : List UInt8}
    (hdata : data = (List.range data.length).map m.buffer) (x : UInt8)
    (hx : x = m.buffer data.length) :
    data ++ [x] = (List.range (data ++ [x]).length).map m.buffer := by
  rw [List.length_append, List.length_singleton, List.range_succ, List.map_append, ← hdata, hx]
  rfl

/-- The copy out of the buffer. -/
theorem CoreInv.copy_out {f : RecvArgs} {q index size : ℕ} {data : List UInt8}
    (h : CoreInv ct w (some (.copy f q index size data)) sh sent a) :
    ReceiverNext ct w sent a (recvProgram sh (.copy f q index size data)) := by
  obtain ⟨e, he, hq, rfl, rfl, hdata, hle⟩ := h.reader _ rfl
  have hcarries := h.carries he rfl
  simp only [recvProgram, h.channel]
  cases ct with
  | MCAPI_PKT_CHAN =>
    exact .stays (h.receiver_read he rfl ⟨hq, rfl⟩ rfl rfl)
  | MCAPI_SCL_CHAN =>
    have hscalar : (sh.buffers e.i).scalar = e.msg.scalar := hcarries.content
    rw [hscalar]
    exact .stays (h.receiver_read he rfl ⟨hq, rfl, nofun, rfl⟩ rfl rfl)
  | MCAPI_NO_CHAN =>
    have hbytes : ∀ k < e.msg.buffer_size, (sh.buffers e.i).buff k = e.msg.buffer k :=
      hcarries.content
    by_cases hlt : data.length < min e.msg.buffer_size f.buffer_size
    · simp only [if_pos hlt]
      have hnext := map_range_concat hdata _ (hbytes data.length (by omega))
      refine .stays (h.receiver_read he rfl ⟨hq, rfl, rfl, hnext, ?_⟩ rfl rfl)
      rw [List.length_append, List.length_singleton]
      omega
    · simp only [if_neg hlt]
      -- as many bytes as fit have been copied
      have hlen : data.length = min e.msg.buffer_size f.buffer_size := by omega
      rw [hlen] at hdata
      exact .stays (h.receiver_read he rfl ⟨hq, rfl, nofun, by rw [hdata]; rfl⟩ rfl rfl)

/-- The pop, up to its last step. -/
theorem CoreInv.pop_step {f : RecvArgs} {d : Delivery} {c : ℕ} :
    (CoreInv ct w (some (.popAck f d)) sh sent a →
      ReceiverNext ct w sent a (recvProgram sh (.popAck f d))) ∧
    (CoreInv ct w (some (.popUpdate f d c)) sh sent a →
      ReceiverNext ct w sent a (recvProgram sh (.popUpdate f d c))) ∧
    (CoreInv ct w (some (.popCas f d c)) sh sent a →
      ReceiverNext ct w sent a (recvProgram sh (.popCas f d c))) := by
  refine ⟨fun h => ?_, fun h => ?_, fun h => ?_⟩
  · obtain ⟨e, he, hd⟩ := h.reader _ rfl
    have hac : sh.q.ack_counter = u32 (2 * a) := h.ac
    simp only [recvProgram, hac, even_u32]
    exact .stays (h.receiver_read he rfl ⟨hd, rfl⟩ rfl rfl)
  · obtain ⟨e, he, hd, rfl⟩ := h.reader _ rfl
    have hlt : a < sent.length := (List.getElem?_eq_some_iff.mp he).1
    have hbound := h.bound
    rw [MCAPI_MAX_QUEUE_ENTRIES_eq] at hbound
    have hpush := pushing_le_one w
    -- the message at the head has been pushed
    have hsucc : headStatus sh.q.update_counter (u32 (2 * a)) = MCAPI_SUCCESS := by
      rw [h.uc, headStatus_u32 (by omega) (by omega)]
      omega
    simp only [recvProgram, lastCompleted_even, hsucc]
    exact .stays (h.receiver_read he rfl ⟨hd, rfl⟩ rfl rfl)
  · obtain ⟨e, he, hd, rfl⟩ := h.reader _ rfl
    have hac : sh.q.ack_counter = u32 (2 * a) := h.ac
    simp only [recvProgram, hac, if_true]
    refine .stays (h.receiver_to he rfl rfl ?_ (Nat.zero_le _) hd
      (h.entries_receiver_keep he rfl) (h.bufs_receiver_keep he rfl))
    change u32 (u32 (2 * a) + 1) = u32 (2 * a + 1)
    exact u32_succ _

/-- **The receiver's step lemma.** -/
theorem CoreInv.receiver_step (h : CoreInv ct w (some p) sh sent a) :
    ReceiverNext ct w sent a (recvProgram sh p) := by
  obtain ⟨e, he, hok⟩ := h.reader p rfl
  cases p with
  | idle | headUpdate | headAck | readState | readBuffIndex | casReceived | failed =>
    exact hok.elim
  | recvBuffIndex f q =>
    have hi := h.index e (List.mem_of_getElem? he)
    have hindex := (h.entry_is he rfl).2
    simp only [recvProgram, hindex, bufferIndex_validIndex hi]
    exact .stays (h.receiver_read he rfl ⟨hok, rfl⟩ rfl rfl)
  | setParent f q index =>
    obtain ⟨hq, rfl⟩ := hok
    refine .stays (h.receiver_buf he rfl ⟨hq, rfl⟩ rfl rfl ?_)
    intro j P' hj
    cases hj
    obtain ⟨hmarked, hsize, hcontent⟩ := h.carries he rfl
    exact ⟨rfl, hmarked, hsize, hcontent⟩
  | readSize f q index =>
    obtain ⟨hq, rfl⟩ := hok
    have hsize := (h.carries he rfl).size
    exact .stays (h.receiver_read he rfl ⟨hq, rfl, hsize, rfl, Nat.zero_le _⟩ rfl rfl)
  | copy f q index size data => exact h.copy_out
  | freeBuffer f q index d =>
    obtain ⟨hq, rfl, hpkt, hd⟩ := hok
    have hmarked := (h.carries he rfl).marked
    simp only [recvProgram, Shared.casMagic, if_pos hmarked]
    refine .stays (h.receiver_buf he rfl ⟨hq, hd⟩ rfl rfl ?_)
    intro j P' hj
    simp only [RecvPc.buf, if_neg hpkt, reduceCtorEq] at hj
  | clearReserved f q d =>
    refine .stays (h.receiver_entry he rfl hok rfl rfl ?_ (fun h => by cases h))
    intro j P' hj
    cases hj
    exact ⟨rfl, h.entry_is he rfl⟩
  | clearBuffIndex f q d =>
    refine .stays (h.receiver_entry he rfl hok rfl rfl ?_ (fun h => by cases h))
    intro j P' hj
    cases hj
    exact ⟨rfl, (h.entry_is he rfl).1, rfl⟩
  | setFree f q d =>
    refine .stays (h.receiver_entry he rfl hok.2 rfl rfl (fun _ _ h => by cases h) ?_)
    exact fun _ => ⟨rfl, (h.entry_is he rfl).2⟩
  | popAck f d => exact (pop_step (c := 0)).1 h
  | popUpdate f d AC => exact pop_step.2.1 h
  | popCas f d AC => exact pop_step.2.2 h
  | popInc f d =>
    simp only [recvProgram]
    rw [show d = deliver ct e f.buffer_size from hok]
    exact .returns he h.pop

end Receiver

end MxApi
