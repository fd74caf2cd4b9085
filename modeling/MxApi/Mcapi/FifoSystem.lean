/-
FIFO message exchange with any numbers of senders and receivers.

The invariant holds along every run in which a sender that reserves an entry and
a receiver that takes one act on a queue position that is still the current one
([`CheckedEntry`], [`FreshReserve`], [`FreshTake`]): these are the steps at which
a client relies on counters it read some time before. From the invariant follows
what the exchange promises ([`FifoOk`]).
-/
import Mathlib.Data.Fintype.Basic
import MxApi.Mcapi.FifoReceiver
import MxApi.Mcapi.FifoSender

set_option autoImplicit false

namespace MxApi

open Lib channel_type mcapi_buffer_state mcapi_status_t

/-! ## Steps outside -/

/-- A sender that has no entry writes nothing, unless it reserves a free one. -/
theorem send_outside {sh : Shared} {p : SendPc} (hp : p.inside = false) (hf : p ≠ .failed)
    (hcheck : ∀ m q, p = .checkBuffIndex m q → (sh.q.elements q).buff_index = 0) :
    (∃ p', sendProgram sh p = (sh, p', none) ∧ p'.inside = false ∧ p' ≠ .failed) ∨
      ∃ m q, p = .casReserve m q ∧ (sh.q.elements q).state = BUFFER_FREE := by
  cases p with
  | idle => exact .inl ⟨_, rfl, rfl, by simp⟩
  | tailAck m => exact .inl ⟨_, rfl, rfl, by simp⟩
  | tailUpdate m tempAC =>
    refine .inl ?_
    simp only [sendProgram]
    cases tailStatus (lastCompleted sh.q.update_counter) tempAC <;> exact ⟨_, rfl, rfl, by simp⟩
  | readBuffIndex m q => exact .inl ⟨_, rfl, rfl, by simp⟩
  | checkBuffIndex m q =>
    refine .inl ⟨.casReserve m q, ?_, rfl, by simp⟩
    simp only [sendProgram, if_pos (hcheck m q rfl)]
  | casReserve m q =>
    by_cases hfree : (sh.q.elements q).state = BUFFER_FREE
    · exact .inr ⟨m, q, rfl, hfree⟩
    · refine .inl ⟨.tailAck m, ?_, rfl, by simp⟩
      simp [sendProgram, Shared.casState, hfree]
  | failed => exact absurd rfl hf
  | allocBuffer | unreserve | setParent | copy | setSize | setBuffIndex | casAllocated
  | pushUpdate | pushAck | pushCas | pushInc => cases hp

theorem retry_outside (f : RecvArgs) : f.retry.inside = false ∧ f.retry ≠ .failed := by
  unfold RecvArgs.retry
  split <;> exact ⟨rfl, nofun⟩

/-- A receiver that has not taken the head writes nothing, unless it takes it. -/
theorem recv_outside {s : Shared} {p : RecvPc} (hp : p.inside = false) (hf : p ≠ .failed) :
    (∃ p', recvProgram s p = (s, p', none) ∧ p'.inside = false ∧ p' ≠ .failed) ∨
      ∃ f q, p = .casReceived f q := by
  cases p with
  | idle => exact .inl ⟨_, rfl, rfl, by simp⟩
  | headUpdate f => exact .inl ⟨_, rfl, rfl, by simp⟩
  | headAck f tempUC =>
    refine .inl ?_
    simp only [recvProgram]
    cases headStatus tempUC (lastCompleted s.q.ack_counter) with
    | MCAPI_SUCCESS => exact ⟨_, rfl, rfl, by simp⟩
    | MCAPI_ERR_QUEUE_EMPTY => exact ⟨_, rfl, retry_outside f⟩
    | MCAPI_ERR_QUEUE_EMPTY_PRODUCER_INSERTING | MCAPI_ERR_QUEUE_FULL
    | MCAPI_ERR_QUEUE_FULL_CONSUMER_READING => exact ⟨_, rfl, rfl, by simp⟩
  | readState f q => exact .inl ⟨_, rfl, rfl, by simp⟩
  | readBuffIndex f q oldbstate =>
    refine .inl ?_
    simp only [recvProgram]
    by_cases hc : oldbstate ≠ BUFFER_ALLOCATED ∨ (s.q.elements q).buff_index = 0
    · rw [if_pos hc]
      exact ⟨_, rfl, retry_outside f⟩
    · rw [if_neg hc]
      exact ⟨_, rfl, rfl, by simp⟩
  | casReceived f q => exact .inr ⟨f, q, rfl⟩
  | failed => exact absurd rfl hf
  | recvBuffIndex | setParent | readSize | copy | freeBuffer | clearReserved | clearBuffIndex
  | setFree | popAck | popUpdate | popCas | popInc => cases hp

/-! ## The queue functions under the invariant -/

section Queue

variable {ct : channel_type} {w : Option SendPc} {r : Option RecvPc} {sh : Shared}
  {sent : List SendFrame} {a : ℕ}

/-- The entry the next push takes, and whether there is room for it. -/
theorem CoreInv.queue_tail (h : CoreInv ct w r sh sent a) {q : ℕ}
    (htail : mcapi_trans_queue_tail sh.q = (q, MCAPI_SUCCESS)) :
    q = ringSlot sent.length ∧
      2 * sent.length + 2 ≤ 2 * a + popping r + 2 * MCAPI_MAX_QUEUE_ENTRIES := by
  have hbound := h.bound
  have hbusy := h.busy_le
  have hpop := popping_le_busy r
  rw [MCAPI_MAX_QUEUE_ENTRIES_eq] at hbound
  simp only [mcapi_trans_queue_tail, h.uc, h.ac, lastCompleted_u32 _ (pushing_le_one w),
    qindexOf_u32, Prod.mk.injEq] at htail
  refine ⟨htail.1.symm, ?_⟩
  exact (tailStatus_u32 (by omega) (by omega)).mp htail.2

/-- The entry of the next pop, and that there is a message in it. -/
theorem CoreInv.queue_head (h : CoreInv ct w r sh sent a) {q : ℕ}
    (hhead : mcapi_trans_queue_head sh.q = (q, MCAPI_SUCCESS)) :
    q = ringSlot a ∧ a < sent.length := by
  have hle := h.le
  have hbound := h.bound
  have hpush := pushing_le_one w
  have hpop := (popping_le_busy r).trans (busy_le_one r)
  rw [MCAPI_MAX_QUEUE_ENTRIES_eq] at hbound
  simp only [mcapi_trans_queue_head, h.uc, h.ac, lastCompleted_u32 _ hpop, qindexOf_u32,
    Prod.mk.injEq] at hhead
  refine ⟨hhead.1.symm, ?_⟩
  have := (headStatus_u32 (by omega) (by omega)).mp hhead.2
  omega

/-- While a sender has the entry of the next push, that entry is not free. -/
theorem CoreInv.no_sender (h : CoreInv ct w r sh sent a)
    (hfree : (sh.q.elements (ringSlot sent.length)).state = BUFFER_FREE) : w = none := by
  cases w with
  | none => rfl
  | some p =>
    obtain ⟨P, hP⟩ := (h.sender p rfl).1.entry_eq
    have hclaim : entryClaim (some p) r sent a .sender = some (ringSlot sent.length, P) := hP
    exact absurd hfree (entryClaim_state hclaim (h.entries.content hclaim))

/-- The head is allocated while no receiver has taken it. -/
theorem CoreInv.head_allocated (h : CoreInv ct w none sh sent a) (hlt : a < sent.length) :
    (sh.q.elements (ringSlot a)).state = BUFFER_ALLOCATED := by
  have hclaim : entryClaim w none sent a (.elem a)
      = some (ringSlot a, EntryIs BUFFER_ALLOCATED (validIndex sent[a].i)) := by
    simp [entryClaim, busy, hlt]
  exact (h.entries.content hclaim).1

end Queue

/-! ## Guards -/

section System

variable {σ ρ : Type} [DecidableEq σ] [DecidableEq ρ]

/-- The entry a sender is about to check for a buffer. -/
def SendPc.checks : SendPc → Option ℕ
  | .checkBuffIndex _ q => some q
  | _ => none

/-- The entry a sender is about to reserve. -/
def SendPc.reserves : SendPc → Option ℕ
  | .casReserve _ q => some q
  | _ => none

/-- The entry a receiver is about to take. -/
def RecvPc.takes : RecvPc → Option ℕ
  | .casReceived _ q => some q
  | _ => none

/-- A sender that checks its entry finds no buffer in it. -/
def CheckedEntry (s : Fifo σ ρ) : FifoLabel σ ρ → Prop
  | .stepSend x => ∀ q ∈ (s.spc x).checks, (s.sh.q.elements q).buff_index = 0
  | _ => True

/-- A sender that reserves a free entry reserves the one of the next push. -/
def FreshReserve (s : Fifo σ ρ) : FifoLabel σ ρ → Prop
  | .stepSend x => ∀ q ∈ (s.spc x).reserves, (s.sh.q.elements q).state = BUFFER_FREE →
      mcapi_trans_queue_tail s.sh.q = (q, MCAPI_SUCCESS)
  | _ => True

/-- A receiver that takes an entry takes the head, and no other receive that has
taken one is still to complete. -/
def FreshTake (s : Fifo σ ρ) : FifoLabel σ ρ → Prop
  | .stepRecv y => ∀ q ∈ (s.rpc y).takes,
      mcapi_trans_queue_head s.sh.q = (q, MCAPI_SUCCESS) ∧ ∀ y', (s.rpc y').inside = false
  | _ => True

instance (s : Fifo σ ρ) (l : FifoLabel σ ρ) : Decidable (CheckedEntry s l) :=
  match l with
  | .stepSend x =>
    inferInstanceAs (Decidable (∀ q ∈ (s.spc x).checks, (s.sh.q.elements q).buff_index = 0))
  | .send _ _ | .recv _ _ | .stepRecv _ => isTrue trivial

instance (s : Fifo σ ρ) (l : FifoLabel σ ρ) : Decidable (FreshReserve s l) :=
  match l with
  | .stepSend x =>
    inferInstanceAs (Decidable (∀ q ∈ (s.spc x).reserves,
      (s.sh.q.elements q).state = BUFFER_FREE →
        mcapi_trans_queue_tail s.sh.q = (q, MCAPI_SUCCESS)))
  | .send _ _ | .recv _ _ | .stepRecv _ => isTrue trivial

instance [Fintype ρ] (s : Fifo σ ρ) (l : FifoLabel σ ρ) : Decidable (FreshTake s l) :=
  match l with
  | .stepRecv y =>
    inferInstanceAs (Decidable (∀ q ∈ (s.rpc y).takes,
      mcapi_trans_queue_head s.sh.q = (q, MCAPI_SUCCESS) ∧ ∀ y', (s.rpc y').inside = false))
  | .send _ _ | .recv _ _ | .stepSend _ => isTrue trivial

/-- All clients act on current positions. -/
def FifoGuard (s : Fifo σ ρ) (l : FifoLabel σ ρ) (_ : Fifo σ ρ) : Prop :=
  CheckedEntry s l ∧ FreshReserve s l ∧ FreshTake s l

/-! ## The invariant of the system -/

/-- The frames of the completed sends. -/
def Fifo.frames (s : Fifo σ ρ) : List SendFrame := s.sent.map Sent.frame

/-- The invariant, with the sender `w` and the receiver `r` that have entries. -/
structure FifoInv (ct : channel_type) (w : Option SendPc) (r : Option RecvPc) (s : Fifo σ ρ) :
    Prop where
  core : CoreInv ct w r s.sh s.frames s.received.length
  senders : Active SendPc.inside s.spc w
  receivers : Active RecvPc.inside s.rpc r
  send_ok : ∀ x, s.spc x ≠ .failed
  recv_ok : ∀ y, s.rpc y ≠ .failed
  delivered : ∀ (n : ℕ) (v : Received ρ), s.received[n]? = some v → ∃ u, s.sent[n]? = some u ∧
    v.delivery = deliver ct u.frame v.args.buffer_size

omit [DecidableEq σ] [DecidableEq ρ] in
theorem FifoInv.init (ct : channel_type) (pool : ℕ → buffer_entry) :
    FifoInv ct none none (Fifo.init σ ρ ct pool) where
  core := {
    channel := rfl
    le := Nat.le_refl _
    bound := Nat.zero_le _
    uc := u32_zero.symm
    ac := u32_zero.symm
    sender := nofun
    reader := nofun
    entries := {
      excl := by
        intro o o' j P P' ho
        cases o <;> simp [entryClaim, Fifo.init, Fifo.frames] at ho
      content := by
        intro o j P ho
        cases o <;> simp [entryClaim, Fifo.init, Fifo.frames] at ho
      rest := fun _ _ => ⟨rfl, rfl⟩ }
    bufs := {
      excl := by
        intro o o' j P P' ho
        cases o <;> simp [bufClaim, Fifo.init, Fifo.frames] at ho
      content := by
        intro o j P ho
        cases o <;> simp [bufClaim, Fifo.init, Fifo.frames] at ho }
    index := nofun }
  senders := fun _ => rfl
  receivers := fun _ => rfl
  send_ok := fun _ => nofun
  recv_ok := fun _ => nofun
  delivered := nofun

omit [DecidableEq σ] [DecidableEq ρ] in
/-- No client has failed after one moved to a program point that is not a
failure. -/
theorem ok_update {C P : Type} [DecidableEq C] {pc : C → P} {bad : P} (h : ∀ c, pc c ≠ bad)
    {c : C} {p : P} (hp : p ≠ bad) : ∀ c', Function.update pc c p c' ≠ bad := by
  intro c'
  by_cases hc : c' = c
  · rw [hc, Function.update_self]
    exact hp
  · rw [Function.update_of_ne hc]
    exact h c'

theorem SendPc.Ok.inside {p : SendPc} {u : ℕ} (h : p.Ok u) : p.inside = true ∧ p ≠ .failed := by
  cases p <;> first | exact ⟨rfl, nofun⟩ | exact h.elim

theorem RecvPc.Ok.inside {p : RecvPc} {ct : channel_type} {e : SendFrame} {a : ℕ}
    (h : p.Ok ct e a) : p.inside = true ∧ p ≠ .failed := by
  cases p <;> first | exact ⟨rfl, nofun⟩ | exact h.elim

/-! ## The step lemma -/

variable {ct : channel_type} {w : Option SendPc} {r : Option RecvPc} {s s' : Fifo σ ρ}

/-- The step after a push's first counter step is the one that returns. -/
theorem pushing_of_next {sh sh' : Shared} {p p' : SendPc} {done : Option SendFrame}
    (hnext : sendProgram sh p = (sh', p', done)) (hdone : done = none) (hp' : p' ≠ .failed) :
    pushing (some p) = 0 := by
  cases p with
  | pushInc f UC =>
    simp only [sendProgram] at hnext
    split at hnext
    · cases hnext
      cases hdone
    · cases hnext
      exact absurd rfl hp'
  | _ => rfl

theorem popping_of_next {sh sh' : Shared} {p p' : RecvPc} {done : Option (RecvArgs × Delivery)}
    (hnext : recvProgram sh p = (sh', p', done)) (hdone : done = none) :
    popping (some p) = 0 := by
  cases p with
  | popInc f d =>
    cases hnext
    cases hdone
  | _ => rfl

omit [DecidableEq ρ] in
/-- A step of a sender, with what it leaves. The pushes do not become fewer. -/
theorem stepSend_inv (h : FifoInv ct w r s) {x : σ} (hcheck : CheckedEntry s (.stepSend x))
    (hreserve : FreshReserve s (.stepSend x)) {sh' : Shared} {p' : SendPc}
    {done : Option SendFrame} (hnext : sendProgram s.sh (s.spc x) = (sh', p', done)) :
    ∃ w', FifoInv ct w' r { s with
      sh := sh'
      spc := Function.update s.spc x p'
      sent := s.sent ++ (done.map (Sent.mk x)).toList } ∧
      2 * s.sent.length + pushing w
        ≤ 2 * (s.sent ++ (done.map (Sent.mk x)).toList).length + pushing w' := by
  by_cases hin : (s.spc x).inside = true
  · -- the sender with the entry
    have hw : w = some (s.spc x) := h.senders.of_inside hin
    have hcore := h.core
    rw [hw] at hcore
    have hsender := hcore.sender_step
    rw [hnext] at hsender
    cases hsender with
    | stays inv =>
      obtain ⟨hin', hok'⟩ := (inv.sender p' rfl).1.inside
      refine ⟨some p', ⟨?_, h.senders.stay (.inl hin) hin', h.receivers,
        ok_update h.send_ok hok', h.recv_ok, ?_⟩, ?_⟩
      · simpa [Fifo.frames] using inv
      · simpa using h.delivered
      · rw [hw, pushing_of_next hnext rfl hok']
        simp
    | leaves inv =>
      refine ⟨none, ⟨?_, h.senders.leave hin rfl, h.receivers, ok_update h.send_ok (by simp),
        h.recv_ok, ?_⟩, ?_⟩
      · simpa [Fifo.frames] using inv
      · simpa using h.delivered
      · rw [hw, pushing_of_next hnext rfl (by simp)]
        simp
    | @returns _ f inv =>
      refine ⟨none, ⟨?_, h.senders.leave hin rfl, h.receivers, ok_update h.send_ok (by simp),
        h.recv_ok, ?_⟩, ?_⟩
      · simpa [Fifo.frames] using inv
      · intro n v hv
        obtain ⟨u, hu, hd⟩ := h.delivered n v hv
        have hlt : n < s.sent.length := (List.getElem?_eq_some_iff.mp hu).1
        exact ⟨u, by rw [← hu]; exact List.getElem?_append_left hlt, hd⟩
      · have hone := pushing_le_one w
        simp only [Option.map_some, Option.toList_some, List.length_append, List.length_singleton]
        omega
  · have hin' : (s.spc x).inside = false := by simpa using hin
    rcases send_outside hin' (h.send_ok x) (fun m q hm => hcheck q (by rw [hm]; rfl)) with
      ⟨p₁, hp₁, hin₁, hok₁⟩ | ⟨m, q, hpc, hfree⟩
    · rw [hp₁] at hnext
      cases hnext
      refine ⟨w, ⟨?_, h.senders.outside hin' hin₁, h.receivers, ok_update h.send_ok hok₁,
        h.recv_ok, ?_⟩, ?_⟩
      · simpa [Fifo.frames] using h.core
      · simpa using h.delivered
      · simp
    · -- a free entry is reserved, the one of the next push
      obtain ⟨hq, hroom⟩ := h.core.queue_tail (hreserve q (by rw [hpc]; rfl) hfree)
      have hw : w = none := h.core.no_sender (hq ▸ hfree)
      have hcore := h.core
      rw [hw] at hcore
      have hres := hcore.reserve m hq hroom hfree
      simp only [hpc, sendProgram, Shared.casState, if_pos hfree, if_true] at hnext
      cases hnext
      refine ⟨_, ⟨?_, h.senders.stay (.inr hw) rfl, h.receivers, ok_update h.send_ok (by simp),
        h.recv_ok, ?_⟩, ?_⟩
      · simpa [Fifo.frames] using hres
      · simpa using h.delivered
      · simp [hw, pushing]

omit [DecidableEq σ] in
/-- A step of a receiver, with what it leaves. The pops do not become fewer. -/
theorem stepRecv_inv (h : FifoInv ct w r s) {y : ρ} (htake : FreshTake s (.stepRecv y))
    {sh' : Shared} {p' : RecvPc} {done : Option (RecvArgs × Delivery)}
    (hnext : recvProgram s.sh (s.rpc y) = (sh', p', done)) :
    ∃ r', FifoInv ct w r' { s with
      sh := sh'
      rpc := Function.update s.rpc y p'
      received := s.received ++ (done.map fun v => Received.mk y v.1 v.2).toList } ∧
      2 * s.received.length + popping r
        ≤ 2 * (s.received ++ (done.map fun v => Received.mk y v.1 v.2).toList).length
          + popping r' := by
  by_cases hin : (s.rpc y).inside = true
  · -- the receiver that has the head
    have hr : r = some (s.rpc y) := h.receivers.of_inside hin
    have hcore := h.core
    rw [hr] at hcore
    have hreceiver := hcore.receiver_step
    rw [hnext] at hreceiver
    cases hreceiver with
    | stays inv =>
      obtain ⟨e, -, hok⟩ := inv.reader p' rfl
      obtain ⟨hin', hok'⟩ := hok.inside
      refine ⟨some p', ⟨?_, h.senders, h.receivers.stay (.inl hin) hin', h.send_ok,
        ok_update h.recv_ok hok', ?_⟩, ?_⟩
      · simpa [Fifo.frames] using inv
      · simpa using h.delivered
      · rw [hr, popping_of_next hnext rfl]
        simp
    | @returns _ f e head inv =>
      refine ⟨none, ⟨?_, h.senders, h.receivers.leave hin rfl, h.send_ok,
        ok_update h.recv_ok (by simp), ?_⟩, ?_⟩
      · simpa [Fifo.frames] using inv
      · intro n v hv
        by_cases hn : n = s.received.length
        · -- the receive that completes delivers the head
          subst hn
          simp only [Option.map_some, Option.toList_some, List.getElem?_concat_length,
            Option.some.injEq] at hv
          subst hv
          rw [Fifo.frames, List.getElem?_map, Option.map_eq_some_iff] at head
          obtain ⟨u, hu, rfl⟩ := head
          exact ⟨u, hu, rfl⟩
        · refine h.delivered n v ?_
          rw [← hv]
          exact (getElem?_concat_of_ne s.received _ hn).symm
      · have hone := (popping_le_busy r).trans (busy_le_one r)
        simp only [Option.map_some, Option.toList_some, List.length_append, List.length_singleton]
        omega
  · have hin' : (s.rpc y).inside = false := by simpa using hin
    rcases recv_outside (s := s.sh) hin' (h.recv_ok y) with
      ⟨p₁, hp₁, hin₁, hok₁⟩ | ⟨f, q, hpc⟩
    · rw [hp₁] at hnext
      cases hnext
      refine ⟨r, ⟨?_, h.senders, h.receivers.outside hin' hin₁, h.send_ok,
        ok_update h.recv_ok hok₁, ?_⟩, ?_⟩
      · simpa [Fifo.frames] using h.core
      · simpa using h.delivered
      · simp
    · -- the head is taken
      obtain ⟨hhead, hnobody⟩ := htake q (by rw [hpc]; rfl)
      obtain ⟨hq, hlt⟩ := h.core.queue_head hhead
      have hr : r = none := by
        cases r with
        | none => rfl
        | some p =>
          obtain ⟨y', rfl, hin₁, -⟩ := h.receivers
          rw [hnobody y'] at hin₁
          cases hin₁
      have hcore := h.core
      rw [hr] at hcore
      have halloc := hcore.head_allocated hlt
      rw [← hq] at halloc
      have htaken := hcore.take f hq hlt
      simp only [hpc, recvProgram, Shared.casState, if_pos halloc, if_true] at hnext
      cases hnext
      refine ⟨_, ⟨?_, h.senders, h.receivers.stay (.inr hr) rfl, h.send_ok,
        ok_update h.recv_ok (by simp), ?_⟩, ?_⟩
      · simpa [Fifo.frames] using htaken
      · simpa using h.delivered
      · simp [hr, popping]

theorem isIdle_send {p : SendPc} (h : p.isIdle = true) : p = .idle := by
  cases p <;> first | rfl | cases h

theorem isIdle_recv {p : RecvPc} (h : p.isIdle = true) : p = .idle := by
  cases p <;> first | rfl | cases h

/-- **The step lemma.** -/
theorem fifoStep_inv {l : FifoLabel σ ρ} (h : FifoInv ct w r s) (hstep : fifoStep s l = some s')
    (hg : FifoGuard s l s') : ∃ w' r', FifoInv ct w' r' s' := by
  obtain ⟨hcheck, hreserve, htake⟩ := hg
  cases l with
  | send x m =>
    simp only [fifoStep, Option.ite_none_right_eq_some, Option.some.injEq] at hstep
    obtain ⟨hidle, rfl⟩ := hstep
    have hout : (s.spc x).inside = false := by rw [isIdle_send hidle]; rfl
    exact ⟨w, r, h.core, h.senders.outside hout rfl, h.receivers, ok_update h.send_ok nofun,
      h.recv_ok, h.delivered⟩
  | recv y f =>
    simp only [fifoStep, Option.ite_none_right_eq_some, Option.some.injEq] at hstep
    obtain ⟨hidle, rfl⟩ := hstep
    have hout : (s.rpc y).inside = false := by rw [isIdle_recv hidle]; rfl
    exact ⟨w, r, h.core, h.senders, h.receivers.outside hout rfl, h.send_ok,
      ok_update h.recv_ok nofun, h.delivered⟩
  | stepSend x =>
    simp only [fifoStep, Option.some.injEq] at hstep
    subst hstep
    obtain ⟨w', hinv, -⟩ := stepSend_inv h hcheck hreserve rfl
    exact ⟨w', r, hinv⟩
  | stepRecv y =>
    simp only [fifoStep, Option.some.injEq] at hstep
    subst hstep
    obtain ⟨r', hinv, -⟩ := stepRecv_inv h htake rfl
    exact ⟨w, r', hinv⟩

end System

end MxApi
