/-
The steps of the testers and of the sender on the endpoint keep the invariant: a
tester starts to receive, receives, pops the queue, and a send goes on.

The endpoint keeps the invariant of FIFO message exchange by the lemmas about
that; what is shown here is that the request keeps up with it.
-/
import MxApi.Mcapi.CheckReceiveSteps

set_option autoImplicit false

namespace MxApi.CheckReceive

open Lib channel_type mcapi_buffer_state mcapi_request_state CallStatus

/-! ## The program of the receive -/

section Program

variable {ct : channel_type} {n : ℕ}

theorem TestPc.Knows.copying {q : RecvPc} {size : ℕ} (hpops : pops q = false)
    (hs : Sized n size q) : TestPc.receive.Knows ct n REQUEST_RECEIVED size MCAPI_SUCCESS q := by
  refine ⟨fun h => ?_, fun _ _ => ⟨rfl, rfl, hs⟩⟩
  rw [hpops] at h
  cases h

/-- A receive that has stored what it is asked to does so to its end. -/
theorem recvProgram_sized {sh : Shared} {q : RecvPc} {size : ℕ} (hpops : pops q = false)
    (hs : Sized n size q) (hok : (recvProgram sh q).2.1 ≠ .failed) :
    (recvProgram sh q).2.2 = none ∧ (recvProgram sh q).2.1.inside = true ∧
      (afterReceive q (recvProgram sh q).2.1).removing = false ∧
      (afterReceive q (recvProgram sh q).2.1).Fits (recvProgram sh q).2.1 ∧
      (afterReceive q (recvProgram sh q).2.1).Knows ct n REQUEST_RECEIVED size MCAPI_SUCCESS
        (recvProgram sh q).2.1 := by
  cases q with
  | recvBuffIndex f j => exact ⟨rfl, rfl, rfl, .inl rfl, .copying rfl hs⟩
  | setParent f j i => exact ⟨rfl, rfl, rfl, .inl rfl, .copying rfl hs⟩
  | readSize f j i =>
    refine ⟨rfl, rfl, rfl, ⟨f, j, i, rfl⟩, rfl, rfl, ?_⟩
    rintro f' j' i' size' data ⟨⟩
    exact hs
  | copy f j i size' data =>
    obtain ⟨hf, rfl⟩ := hs
    simp only [recvProgram] at hok ⊢
    cases hct : sh.q.channel_type with
    | MCAPI_PKT_CHAN => exact ⟨rfl, rfl, rfl, .inl rfl, .copying rfl ⟨hf, rfl⟩⟩
    | MCAPI_SCL_CHAN => exact ⟨rfl, rfl, rfl, .inl rfl, .copying rfl ⟨hf, rfl⟩⟩
    | MCAPI_NO_CHAN =>
      by_cases hlt : data.length < min size f.buffer_size
      · simp only [if_pos hlt]
        exact ⟨trivial, rfl, rfl, .inl rfl, .copying rfl ⟨hf, rfl⟩⟩
      · simp only [if_neg hlt]
        exact ⟨trivial, rfl, rfl, .inl rfl, .copying rfl ⟨hf, rfl⟩⟩
  | freeBuffer f j i d =>
    simp only [recvProgram] at hok ⊢
    by_cases hm : (sh.casMagic i MAGIC_NUM 0).1 = true
    · simp only [if_pos hm]
      exact ⟨trivial, rfl, rfl, .inl rfl, .copying rfl hs⟩
    · simp only [if_neg hm] at hok
      exact absurd rfl hok
  | clearReserved f j d => exact ⟨rfl, rfl, rfl, .inl rfl, .copying rfl hs⟩
  | clearBuffIndex f j d => exact ⟨rfl, rfl, rfl, .inl rfl, .copying rfl hs⟩
  | setFree f j d =>
    obtain ⟨hf, hsize⟩ := hs
    exact ⟨rfl, rfl, rfl, ⟨f, d, rfl⟩, rfl, rfl, hf, f, d, rfl, hf, hsize⟩
  | popAck | popUpdate | popCas | popInc => cases hpops
  | idle | headUpdate | headAck | readState | readBuffIndex | casReceived | failed =>
    exact hs.elim

/-- A receive that pops the queue does so until it returns. -/
theorem recvProgram_pops {sh : Shared} {q : RecvPc} (hpops : pops q = true)
    (hok : (recvProgram sh q).2.1 ≠ .failed) :
    ((recvProgram sh q).2.2 = none ∧ pops (recvProgram sh q).2.1 = true ∧
        (recvProgram sh q).2.1.inside = true ∧
        afterReceive q (recvProgram sh q).2.1 = .receive) ∨
      ((recvProgram sh q).2.2.isSome = true ∧ (recvProgram sh q).2.1 = .idle ∧
        afterReceive q (recvProgram sh q).2.1 = .queryCompleted false none) := by
  cases q with
  | popAck f d =>
    refine .inl ?_
    simp only [recvProgram]
    by_cases hodd : sh.q.ack_counter % 2 ≠ 0
    · simp only [if_pos hodd]
      exact ⟨trivial, rfl, rfl, rfl⟩
    · simp only [if_neg hodd]
      exact ⟨trivial, rfl, rfl, rfl⟩
  | popUpdate f d AC =>
    refine .inl ?_
    simp only [recvProgram] at hok ⊢
    cases hs : headStatus sh.q.update_counter (lastCompleted AC) with
    | MCAPI_SUCCESS => exact ⟨rfl, rfl, rfl, rfl⟩
    | MCAPI_ERR_QUEUE_EMPTY | MCAPI_ERR_QUEUE_EMPTY_PRODUCER_INSERTING | MCAPI_ERR_QUEUE_FULL
    | MCAPI_ERR_QUEUE_FULL_CONSUMER_READING =>
      rw [hs] at hok
      exact absurd rfl hok
  | popCas f d AC =>
    refine .inl ?_
    simp only [recvProgram]
    by_cases heq : sh.q.ack_counter = AC
    · simp only [if_pos heq]
      exact ⟨trivial, rfl, rfl, rfl⟩
    · simp only [if_neg heq]
      exact ⟨trivial, rfl, rfl, rfl⟩
  | popInc f d => exact .inr ⟨rfl, rfl, rfl⟩
  | _ => cases hpops

end Program

section Endpoint

variable {τ : Type} [DecidableEq τ] {ct : channel_type} {r n a : ℕ} {w w' : Option SendPc}
  {ro ro' : Option RecvPc} {v : Option TestPc} {s : WaitSys τ} {t : τ} {p' : TestPc}

/-! ## The request when the endpoint changes -/

omit [DecidableEq τ] in
/-- A message that was sent stays the one that was sent. -/
theorem IsMessage.mono {f' : Fifo Unit τ} {l : List (Sent Unit)}
    (hsent : f'.sent = s.fifo.sent ++ l) {d : Delivery} (h : IsMessage ct n a s d) :
    IsMessage ct n a { s with fifo := f' } d := by
  obtain ⟨e, he, hd⟩ := h
  refine ⟨e, ?_, hd⟩
  have hlt : a < s.fifo.frames.length := (List.getElem?_eq_some_iff.mp he).1
  change f'.frames[a]? = some e
  rw [Fifo.frames, hsent, List.map_append]
  exact (List.getElem?_append_left hlt).trans he

omit [DecidableEq τ] in
/-- What has happened stays when only the endpoint changes. -/
theorem Progress.mono {Message Message' : Delivery → Prop} {state : mcapi_request_state}
    (f' : Fifo Unit τ) (hmessage : ∀ d, Message d → Message' d)
    (h : Progress ct n Message state s) :
    Progress ct n Message' state { s with fifo := f' } := by
  cases state with
  | REQUEST_VALID | REQUEST_RECEIVED | REQUEST_CANCELLED => exact h
  | REQUEST_COMPLETED =>
    obtain ⟨d, hd, hm, hrest⟩ := h
    exact ⟨d, hd, hmessage d hm, hrest⟩
  | REQUEST_FREE =>
    obtain ⟨hreleased, ⟨d, hd, hm, hrest⟩ | hc⟩ := h
    · exact ⟨hreleased, .inl ⟨d, hd, hmessage d hm, hrest⟩⟩
    · exact ⟨hreleased, .inr hc⟩

/-- **Tester `t` moves in the endpoint's program**, which leaves the endpoint `f'`. -/
theorem WaitInv.moves (h : WaitInv ct r n a w ro v s) {f' : Fifo Unit τ} {q' : RecvPc}
    (hinv : FifoInv ct w' ro' f') (hk : SenderKnows ro' f')
    (hrpc : f'.rpc = Function.update s.fifo.rpc t q') (hsent : f'.sent = s.fifo.sent)
    (hp : (s.tpc t).removing = false) (hp' : p'.removing = false) (hfits : p'.Fits q')
    (hknows : p'.Knows ct n (s.rq.data r).state s.size s.status q')
    (hwaiting : s.completed = none → f'.received.length = a)
    (htaken : s.completed ≠ none → f'.received.length + busy ro' = a + 1)
    (hcancelled : 0 < s.cancels → ro' = none)
    (hreceived : (s.rq.data r).state = REQUEST_RECEIVED → ro' ≠ none)
    (hfinishing : (s.rq.data r).state = REQUEST_COMPLETED → v ≠ none ∨ ro' ≠ none ∨
      ∃ t' rc st, (s.goto t p').tpc t' = .queryCompleted rc st) :
    WaitInv ct r n a w' ro' v ({ s with fifo := f' }.goto t p') where
  fifo := hinv
  knows := hk
  fits := by
    intro t'
    change (Function.update s.tpc t p' t').Fits (f'.rpc t')
    rw [hrpc]
    by_cases hne : t' = t
    · rw [hne, Function.update_self, Function.update_self]
      exact hfits
    · rw [Function.update_of_ne hne, Function.update_of_ne hne]
      exact h.fits t'
  testers := by
    intro t'
    change (Function.update s.tpc t p' t').Knows ct n (s.rq.data r).state s.size s.status
      (f'.rpc t')
    rw [hrpc]
    by_cases hne : t' = t
    · rw [hne, Function.update_self, Function.update_self]
      exact hknows
    · rw [Function.update_of_ne hne, Function.update_of_ne hne]
      exact h.testers t'
  progress := Progress.mono f'
    (fun _ hd => IsMessage.mono (hsent.trans (List.append_nil _).symm) hd) h.progress
  waiting := hwaiting
  taken := htaken
  cancelled := hcancelled
  received := hreceived
  finishing := hfinishing
  remover := h.remover.outside hp hp'
  removes := h.removes
  bit := h.bit
  rejected := h.rejected

/-! ## Starting to receive -/

/-- It starts to receive the entry it has found. -/
theorem WaitInv.startReceive (h : WaitInv ct r n a w ro v s) {qindex buff_index : ℕ}
    (hpc : s.tpc t = .readBufferState qindex buff_index) :
    WaitInv ct r n a w ro v
      ({ s with fifo := recvAt s.fifo t (.casReceived ⟨0, false⟩ qindex) }.goto t .receive) := by
  have hq : s.fifo.rpc t = .idle := by
    have hfits := h.fits t
    rw [hpc] at hfits
    exact hfits
  have hinv : FifoInv ct w ro (recvAt s.fifo t (.casReceived ⟨0, false⟩ qindex)) :=
    ⟨h.fifo.core, h.fifo.senders, h.fifo.receivers.outside (by rw [hq]; rfl) rfl,
      h.fifo.send_ok, ok_update h.fifo.recv_ok nofun, h.fifo.delivered⟩
  refine h.moves hinv h.knows rfl rfl ?_ rfl (.inr ⟨_, _, rfl⟩) ⟨nofun, nofun⟩ h.waiting
    h.taken h.cancelled h.received (h.finishing_goto ?_)
  · rw [hpc]
    rfl
  · intro rc st hquery
    rw [hpc] at hquery
    cases hquery

/-- The receive is called with other arguments before it has read anything. -/
theorem FifoInv_recvAt {f : Fifo Unit τ} {g g' : RecvArgs} {q : ℕ}
    (h : FifoInv ct w (some (.recvBuffIndex g q)) f) (ht : f.rpc t = .recvBuffIndex g q) :
    FifoInv ct w (some (.recvBuffIndex g' q)) (recvAt f t (.recvBuffIndex g' q)) where
  core := {
    channel := h.core.channel
    le := h.core.le
    bound := h.core.bound
    uc := h.core.uc
    ac := h.core.ac
    sender := h.core.sender
    reader := by
      intro p hp
      cases hp
      obtain ⟨e, he, hok⟩ := h.core.reader _ rfl
      exact ⟨e, he, hok⟩
    entries := h.core.entries
    bufs := h.core.bufs
    index := h.core.index }
  senders := h.senders
  receivers := h.receivers.stay (.inl (by rw [ht]; rfl)) rfl
  send_ok := h.send_ok
  recv_ok := ok_update h.recv_ok nofun
  delivered := h.delivered

/-- The request's size is passed to the receive. -/
theorem WaitInv.passSize (h : WaitInv ct r n a w ro v s) (hpc : s.tpc t = .passSize) :
    WaitInv ct r n a w (some (passSize s.size (s.fifo.rpc t))) v
      ({ s with fifo := recvAt s.fifo t (passSize s.size (s.fifo.rpc t)) }.goto t .receive) := by
  have hfits := h.fits t
  have hknows := h.testers t
  rw [hpc] at hfits hknows
  obtain ⟨g, q, hq⟩ := hfits
  obtain ⟨hstate, hsize, hstatus⟩ := hknows
  obtain ⟨hcompleted, hcancels, -⟩ := h.progress_of hstate
  cases h.fifo.receivers.of_inside (c := t) (by rw [hq]; rfl)
  have hfifo := h.fifo
  have hk := h.knows
  rw [hq] at hfifo hk ⊢
  refine h.moves (FifoInv_recvAt hfifo hq) hk rfl rfl ?_ rfl (.inl rfl)
    ⟨nofun, fun _ _ => ⟨hstate, hstatus, hsize⟩⟩ h.waiting (fun hne => absurd hcompleted hne) ?_
    nofun fun _ => .inr (.inl nofun)
  · rw [hpc]
    rfl
  · intro hc
    omega

/-! ## Receiving -/

/-- The step of a receive, as a step of the endpoint. -/
theorem recvStep_eq (f : Fifo Unit τ) (t : τ) :
    fifoStep f (.stepRecv t) = some (recvStep f t) := rfl

/-- A receive that has completed is the one that had the head. -/
theorem FifoInv_leave {f f' : Fifo Unit τ} {q' : RecvPc} (h : FifoInv ct w ro f)
    (h' : FifoInv ct w' ro' f') (hin : (f.rpc t).inside = true)
    (hrpc : f'.rpc = Function.update f.rpc t q') (hq' : q'.inside = false) : ro' = none := by
  have hnone := h.receivers.leave hin hq'
  rw [← hrpc] at hnone
  exact h'.receivers.eq hnone

omit [DecidableEq τ] in
/-- A request whose tester pops the queue has been completed. -/
theorem WaitInv.completed_of_pops (h : WaitInv ct r n a w ro v s)
    (hstate : (s.rq.data r).state = REQUEST_COMPLETED ∨ (s.rq.data r).state = REQUEST_FREE)
    (hro : ro ≠ none) : s.completed ≠ none ∧ s.cancels = 0 := by
  rcases hstate with hstate | hstate
  · obtain ⟨d, hd, -, -, hcancels, -⟩ := h.progress_of hstate
    rw [hd]
    exact ⟨nofun, hcancels⟩
  · obtain ⟨-, ⟨d, hd, -, hcancels, -⟩ | ⟨-, hcancels, -⟩⟩ := h.progress_of hstate
    · rw [hd]
      exact ⟨nofun, hcancels⟩
    · exact absurd (h.cancelled (by omega)) hro

/-- **A step of the receive**, taking the head only for a request that is valid. -/
theorem WaitInv.receive (h : WaitInv ct r n a w ro v s) (hpc : s.tpc t = .receive)
    (htake : FreshTake s.fifo (.stepRecv t))
    (hvalid : (s.fifo.rpc t).takes ≠ none → (s.rq.data r).state = REQUEST_VALID) :
    ∃ w' ro', WaitInv ct r n a w' ro' v (testStep r s t) := by
  obtain ⟨w', ro', hinv, hk⟩ :=
    h.knows.step h.fifo (recvStep_eq s.fifo t) ⟨trivial, trivial, htake⟩
  refine ⟨w', ro', ?_⟩
  have hfits := h.fits t
  have hknows := h.testers t
  rw [hpc] at hfits hknows
  have hout : (s.tpc t).removing = false := by
    rw [hpc]
    rfl
  have hok : (recvProgram s.fifo.sh (s.fifo.rpc t)).2.1 ≠ .failed := by
    have hne := hinv.recv_ok t
    simpa [recvStep] using hne
  have hstep : testStep r s t = { s with fifo := recvStep s.fifo t }.goto t
      (afterReceive (s.fifo.rpc t) (recvProgram s.fifo.sh (s.fifo.rpc t)).2.1) := by
    unfold testStep
    rw [hpc]
  rw [hstep]
  by_cases hin : (s.fifo.rpc t).inside = true
  · cases hp : pops (s.fifo.rpc t) with
    | false =>
      -- the message is received
      obtain ⟨hstate, hstatus, hsized⟩ := hknows.2 hin hp
      obtain ⟨hdone, hin', hp', hfits', hknows'⟩ := recvProgram_sized hp hsized hok
      obtain ⟨hcompleted, hcancels, -⟩ := h.progress_of hstate
      have hro : ro' ≠ none := by
        rw [hinv.receivers.of_inside (c := t) (by simpa [recvStep] using hin')]
        nofun
      refine h.moves hinv hk rfl rfl hout hp' hfits' ?_ ?_ (fun hne => absurd hcompleted hne) ?_
        (fun _ => hro) fun _ => .inr (.inl hro)
      · rw [hstate, hstatus]
        exact hknows'
      · intro hnone
        simp only [recvStep, hdone, Option.map_none, Option.toList_none, List.append_nil]
        exact h.waiting hnone
      · intro hc
        omega
    | true =>
      -- the queue is popped
      have hstate := hknows.1 hp
      have hreceived : (s.rq.data r).state ≠ REQUEST_RECEIVED := by
        rcases hstate with hs | hs <;> rw [hs] <;> decide
      have hro := h.fifo.receivers.of_inside hin
      obtain ⟨hcompleted, hcancels⟩ := h.completed_of_pops hstate (by rw [hro]; nofun)
      have hlength := h.taken hcompleted
      rw [hro] at hlength
      rcases recvProgram_pops hp hok with ⟨hdone, hp', hin', hafter⟩ | ⟨hdone, hidle, hafter⟩
      · have hro' := hinv.receivers.of_inside (c := t) (by simpa [recvStep] using hin')
        rw [hafter]
        refine h.moves hinv hk rfl rfl hout rfl (.inl hin') ⟨fun _ => hstate, ?_⟩
          (fun hnone => absurd hnone hcompleted) ?_ ?_ (fun hc => absurd hc hreceived)
          fun _ => .inr (.inl (by rw [hro']; nofun))
        · intro _ hpops
          rw [hp'] at hpops
          cases hpops
        · intro _
          simp only [recvStep, hdone, Option.map_none, Option.toList_none, List.append_nil, hro']
          exact hlength
        · intro hc
          omega
      · have hro' : ro' = none := FifoInv_leave h.fifo hinv hin rfl (by rw [hidle]; rfl)
        obtain ⟨x, hx⟩ := Option.isSome_iff_exists.mp hdone
        rw [hafter]
        refine h.moves hinv hk rfl rfl hout rfl hidle ⟨nofun, nofun⟩
          (fun hnone => absurd hnone hcompleted) ?_ (fun _ => hro') (fun hc => absurd hc hreceived)
          fun _ => .inr (.inr ⟨t, false, none, Function.update_self ..⟩)
        intro _
        simp only [recvStep, hx, Option.map_some, Option.toList_some, List.length_append,
          List.length_singleton, hro']
        exact hlength
  · -- the head is taken
    obtain ⟨f, j, hq⟩ : ∃ f j, s.fifo.rpc t = .casReceived f j := hfits.resolve_left hin
    have hstate := hvalid (by rw [hq]; nofun)
    obtain ⟨hsize, hcompleted, hcancels, -⟩ := h.progress_of hstate
    have hnext : (recvProgram s.fifo.sh (s.fifo.rpc t)).2 = (.recvBuffIndex f j, none) := by
      rw [hq] at hok ⊢
      simp only [recvProgram] at hok ⊢
      split
      · rfl
      · rename_i hcas
        rw [if_neg hcas] at hok
        exact absurd rfl hok
    have hro : ro' ≠ none := by
      rw [hinv.receivers.of_inside (c := t) (by simp [recvStep, hnext, RecvPc.inside])]
      nofun
    have hafter : afterReceive (s.fifo.rpc t) (recvProgram s.fifo.sh (s.fifo.rpc t)).2.1
        = .casRequest := by
      rw [hnext, hq]
      rfl
    rw [hafter]
    refine h.moves hinv hk rfl rfl hout rfl ⟨f, j, by rw [hnext]⟩ ⟨hstate, hsize⟩ ?_
      (fun hne => absurd hcompleted hne) ?_ (fun _ => hro) fun _ => .inr (.inl hro)
    · intro hnone
      simp only [recvStep, hnext, Option.map_none, Option.toList_none, List.append_nil]
      exact h.waiting hnone
    · intro hc
      omega

/-! ## Sending -/

/-- **The sender moves.** -/
theorem WaitInv.sends (h : WaitInv ct r n a w ro v s) {l : FifoLabel Unit τ} {f' : Fifo Unit τ}
    (hstep : fifoStep s.fifo l = some f') (hcheck : CheckedEntry s.fifo l)
    (htake : FreshTake s.fifo l) (hrpc : f'.rpc = s.fifo.rpc)
    (hreceived : f'.received = s.fifo.received) {sent : List (Sent Unit)}
    (hsent : f'.sent = s.fifo.sent ++ sent) :
    ∃ w', WaitInv ct r n a w' ro v { s with fifo := f' } := by
  obtain ⟨w', ro', hinv, hk⟩ :=
    h.knows.step h.fifo hstep ⟨hcheck, h.knows.reserve h.fifo, htake⟩
  have hro : ro' = ro := by
    have hreceivers := hinv.receivers
    rw [hrpc] at hreceivers
    exact hreceivers.eq h.fifo.receivers
  subst hro
  exact ⟨w', {
    fifo := hinv
    knows := hk
    fits := by
      intro t
      change (s.tpc t).Fits (f'.rpc t)
      rw [hrpc]
      exact h.fits t
    testers := by
      intro t
      change (s.tpc t).Knows ct n (s.rq.data r).state s.size s.status (f'.rpc t)
      rw [hrpc]
      exact h.testers t
    progress := Progress.mono f' (fun _ hd => IsMessage.mono hsent hd) h.progress
    waiting := by
      rw [hreceived]
      exact h.waiting
    taken := by
      rw [hreceived]
      exact h.taken
    cancelled := h.cancelled
    received := h.received
    finishing := h.finishing
    remover := h.remover
    removes := h.removes
    bit := h.bit
    rejected := h.rejected }⟩

end Endpoint

end MxApi.CheckReceive
