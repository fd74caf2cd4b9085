/-
The steps of a tester that leave the endpoint as it is keep the invariant: its
moves that change nothing shared, what it stores in the request while it
receives, and its two exchanges on the request's state.
-/
import MxApi.Mcapi.CheckReceiveInvariant

set_option autoImplicit false

namespace MxApi.CheckReceive

open Lib channel_type mcapi_buffer_state mcapi_request_state CallStatus

section Knows

variable {ct : channel_type} {n size size' : ℕ} {state state' : mcapi_request_state}
  {status status' : CallStatus} {p : TestPc} {q : RecvPc}

/-! ## What a tester outside the receive depends on -/

/-- While the request is not finished, a tester that has not got the head knows
nothing that depends on it. -/
theorem TestPc.Knows.outside (h : p.Knows ct n state size status q) (hfits : p.Fits q)
    (hq : q.inside = false) (hstate : state = REQUEST_VALID ∨ state = REQUEST_RECEIVED) :
    p.Knows ct n state' size' status' q := by
  have hopen : ¬ (state = REQUEST_CANCELLED ∨ state = REQUEST_FREE) := by
    rcases hstate with rfl | rfl <;> decide
  cases p with
  | receive =>
    rcases hfits with hin | ⟨f, j, rfl⟩
    · rw [hq] at hin
      cases hin
    · exact ⟨nofun, nofun⟩
  | casRequest | setStatus | passSize =>
    obtain ⟨f, j, rfl⟩ := hfits
    cases hq
  | storeSize =>
    obtain ⟨f, j, i, rfl⟩ := hfits
    cases hq
  | truncate | setSize | setTruncated | casCompleted =>
    obtain ⟨f, d, rfl⟩ := hfits
    cases hq
  | setCancelled => exact absurd h hopen
  | queryCompleted rc st | queryCancelled rc st =>
    exact ⟨fun hrc hst => absurd (h.1 hrc hst).1 hopen, h.2⟩
  | failed => exact hfits.elim
  | idle | readFree | readCancelled | readCompleted | readQindex | headUpdate | headAck
  | readBuffIndex | readBufferState | takeSize | takeStatus | remove => trivial

/-- What is known when the request is finished is known when it is free. -/
theorem TestPc.Knows.free (h : p.Knows ct n state size status q)
    (hstate : Finished state status) : p.Knows ct n REQUEST_FREE size status q := by
  have hreceived : state ≠ REQUEST_RECEIVED := by
    rcases hstate with rfl | ⟨rfl, -⟩ <;> decide
  have hvalid : state ≠ REQUEST_VALID := by
    rcases hstate with rfl | ⟨rfl, -⟩ <;> decide
  cases p with
  | receive => exact ⟨fun _ => .inr rfl, fun hin hp => absurd (h.2 hin hp).1 hreceived⟩
  | casRequest => exact absurd h.1 hvalid
  | setStatus | passSize | storeSize | truncate | setSize | setTruncated | casCompleted =>
    exact absurd h.1 hreceived
  | setCancelled => exact .inr rfl
  | queryCompleted rc st | queryCancelled rc st =>
    exact ⟨fun hrc hst => ⟨.inr rfl, (h.1 hrc hst).2⟩, h.2⟩
  | idle | readFree | readCancelled | readCompleted | readQindex | headUpdate | headAck
  | readBuffIndex | readBufferState | takeSize | takeStatus | remove | failed => trivial

/-- A tester that has the head while the request is valid is about to claim it. -/
theorem TestPc.Knows.claims (h : p.Knows ct n REQUEST_VALID size status q) (hfits : p.Fits q)
    (hq : q.inside = true) : p = .casRequest := by
  have hne : ¬ (REQUEST_VALID = REQUEST_COMPLETED ∨ REQUEST_VALID = REQUEST_FREE) := by decide
  cases p with
  | casRequest => rfl
  | receive =>
    cases hp : pops q with
    | true => exact absurd (h.1 hp) hne
    | false => exact absurd (h.2 hq hp).1 (by decide)
  | setStatus | passSize | storeSize | truncate | setSize | setTruncated | casCompleted =>
    exact absurd h.1 (by decide)
  | failed => exact hfits.elim
  | idle | readFree | readCancelled | setCancelled | readCompleted | readQindex | headUpdate
  | headAck | readBuffIndex | readBufferState | queryCompleted | queryCancelled | takeSize
  | takeStatus | remove =>
    cases hfits
    cases hq

/-- A tester that removes the request is outside the receive. -/
theorem TestPc.Fits.removing (hfits : p.Fits q) (hp : p.removing = true) : q = .idle := by
  cases p <;> first | exact hfits | cases hp

theorem Removes.finished {r : ℕ} {bit : Bool} (h : Removes r state size status bit p) :
    Finished state status := by
  cases p <;> first | exact h.1 | exact h.elim

end Knows

/-! ## The request's state -/

/-- The table where the state of request `r` is `state`. -/
def setState (rq : mcapi_requests) (r : ℕ) (state : mcapi_request_state) : mcapi_requests :=
  { rq with data := Function.update rq.data r { rq.data r with state := state } }

theorem setState_state (rq : mcapi_requests) (r : ℕ) (state : mcapi_request_state) :
    ((setState rq r state).data r).state = state := by
  simp [setState]

/-- An exchange that finds the state it expects. -/
theorem casState_of_eq {rq : mcapi_requests} {r : ℕ} {old new : mcapi_request_state}
    (h : (rq.data r).state = old) : rq.casState r old new = (true, setState rq r new) := by
  rw [mcapi_requests.casState, if_pos h]
  rfl

section Steps

variable {τ : Type} {ct : channel_type} {r n a : ℕ} {w : Option SendPc} {ro : Option RecvPc}
  {v : Option TestPc} {s : WaitSys τ} {t : τ} {p' : TestPc}

/-! ## What follows from the invariant -/

/-- The others are outside the receive. -/
theorem WaitInv.others (h : WaitInv ct r n a w ro v s) (ht : (s.fifo.rpc t).inside = true) :
    ∀ t', t' ≠ t → (s.fifo.rpc t').inside = false := by
  intro t' hne
  by_contra hin
  exact hne (h.fifo.receivers.unique (by simpa using hin) ht)

/-- While nothing has finished the request, nobody removes it. -/
theorem WaitInv.no_remover (h : WaitInv ct r n a w ro v s)
    (hstate : (s.rq.data r).state = REQUEST_VALID ∨ (s.rq.data r).state = REQUEST_RECEIVED) :
    v = none := by
  cases v with
  | none => rfl
  | some p =>
    rcases (h.removes p rfl).finished with hc | ⟨hc, -⟩ <;> rw [hc] at hstate <;> simp at hstate

theorem WaitInv.progress_of (h : WaitInv ct r n a w ro v s) {state : mcapi_request_state}
    (hstate : (s.rq.data r).state = state) : Progress ct n (IsMessage ct n a s) state s := by
  rw [← hstate]
  exact h.progress

theorem Progress.of_eq {Message : Delivery → Prop} {state state' : mcapi_request_state}
    (hs : state = state') (h : Progress ct n Message state' s) : Progress ct n Message state s :=
  hs ▸ h

variable [DecidableEq τ]

/-! ## Moves that change nothing shared -/

/-- A tester that does not look for a completed request, or finds none, moves:
there still is somebody to remove a completed one. -/
theorem WaitInv.finishing_goto (h : WaitInv ct r n a w ro v s)
    (hquery : ∀ rc st, s.tpc t = .queryCompleted rc st →
      (s.rq.data r).state ≠ REQUEST_COMPLETED)
    (hstate : (s.rq.data r).state = REQUEST_COMPLETED) :
    v ≠ none ∨ ro ≠ none ∨ ∃ t' rc st, (s.goto t p').tpc t' = .queryCompleted rc st := by
  rcases h.finishing hstate with hv | hro | ⟨t', rc, st, ht'⟩
  · exact .inl hv
  · exact .inr (.inl hro)
  · refine .inr (.inr ⟨t', rc, st, ?_⟩)
    have hne : t' ≠ t := by
      rintro rfl
      exact hquery rc st ht' hstate
    exact (Function.update_of_ne hne ..).trans ht'

/-- A tester moves; the request and the endpoint stay. -/
theorem WaitInv.local (h : WaitInv ct r n a w ro v s) (hp : (s.tpc t).removing = false)
    (hp' : p'.removing = false) (hfits : p'.Fits (s.fifo.rpc t))
    (hknows : p'.Knows ct n (s.rq.data r).state s.size s.status (s.fifo.rpc t))
    (hquery : ∀ rc st, s.tpc t = .queryCompleted rc st →
      (s.rq.data r).state ≠ REQUEST_COMPLETED) :
    WaitInv ct r n a w ro v (s.goto t p') where
  fifo := h.fifo
  knows := h.knows
  fits := (Function.forall_update_iff s.tpc fun t p => p.Fits (s.fifo.rpc t)).mpr
    ⟨hfits, fun t' _ => h.fits t'⟩
  testers := (Function.forall_update_iff s.tpc fun t p =>
    p.Knows ct n (s.rq.data r).state s.size s.status (s.fifo.rpc t)).mpr
    ⟨hknows, fun t' _ => h.testers t'⟩
  progress := h.progress
  waiting := h.waiting
  taken := h.taken
  cancelled := h.cancelled
  received := h.received
  finishing := h.finishing_goto hquery
  remover := h.remover.outside hp hp'
  removes := h.removes
  bit := h.bit
  rejected := h.rejected

/-- The program points of a tester that has not found its message or the end of
the request. -/
def TestPc.polling : TestPc → Bool
  | .idle | .readFree | .readCancelled | .readCompleted | .readQindex | .headUpdate _
  | .headAck .. | .readBuffIndex _ | .readBufferState .. => true
  | _ => false

/-- A tester that polls moves on outside the receive. -/
theorem WaitInv.polls (h : WaitInv ct r n a w ro v s) (hp : (s.tpc t).polling = true)
    (hp' : p'.removing = false) (hfits : p'.Fits .idle)
    (hknows : p'.Knows ct n (s.rq.data r).state s.size s.status .idle) :
    WaitInv ct r n a w ro v (s.goto t p') := by
  have hq : s.fifo.rpc t = .idle ∧ (s.tpc t).removing = false := by
    have hfits := h.fits t
    generalize s.tpc t = p at hp hfits ⊢
    cases p <;> first | exact ⟨hfits, rfl⟩ | cases hp
  refine h.local hq.2 hp' (by rw [hq.1]; exact hfits) (by rw [hq.1]; exact hknows) ?_
  intro rc st hquery
  rw [hquery] at hp
  cases hp

/-! ## The tester that has the head -/

/-- The tester that receives stores a size or a status in the request. -/
theorem WaitInv.fill (h : WaitInv ct r n a w ro v s) (ht : (s.fifo.rpc t).inside = true)
    (hp' : p'.removing = false) (hstate : (s.rq.data r).state = REQUEST_RECEIVED)
    (size : ℕ) (status : CallStatus) (hfits : p'.Fits (s.fifo.rpc t))
    (hknows : p'.Knows ct n REQUEST_RECEIVED size status (s.fifo.rpc t)) :
    WaitInv ct r n a w ro v ({ s with size := size, status := status }.goto t p') where
  fifo := h.fifo
  knows := h.knows
  fits := (Function.forall_update_iff s.tpc fun t p => p.Fits (s.fifo.rpc t)).mpr
    ⟨hfits, fun t' _ => h.fits t'⟩
  testers := (Function.forall_update_iff s.tpc fun t p =>
    p.Knows ct n (s.rq.data r).state size status (s.fifo.rpc t)).mpr
    ⟨hstate ▸ hknows, fun t' hne =>
      (h.testers t').outside (h.fits t') (h.others ht t' hne) (.inr hstate)⟩
  progress := Progress.of_eq hstate (h.progress_of hstate)
  waiting := h.waiting
  taken := h.taken
  cancelled := h.cancelled
  received := h.received
  finishing := fun hc => absurd (hstate.symm.trans hc) (by decide)
  remover := by
    have hout : (s.tpc t).removing = false := by
      by_contra hrem
      rw [(h.fits t).removing (by simpa using hrem)] at ht
      cases ht
    exact h.remover.outside hout hp'
  removes := by
    intro p hp
    rw [h.no_remover (.inr hstate)] at hp
    cases hp
  bit := h.bit
  rejected := h.rejected

/-- It resets the status. -/
theorem WaitInv.setStatus (h : WaitInv ct r n a w ro v s) (hpc : s.tpc t = .setStatus) :
    WaitInv ct r n a w ro v ({ s with status := MCAPI_SUCCESS }.goto t .passSize) := by
  have hfits := h.fits t
  have hknows := h.testers t
  rw [hpc] at hfits hknows
  obtain ⟨g, j, hq⟩ := hfits
  obtain ⟨hstate, hsize⟩ := hknows
  exact h.fill (by rw [hq]; rfl) rfl hstate s.size MCAPI_SUCCESS ⟨g, j, hq⟩ ⟨rfl, hsize, rfl⟩

/-- The size of the message is stored. -/
theorem WaitInv.storeSize (h : WaitInv ct r n a w ro v s) {m : ℕ}
    (hpc : s.tpc t = .storeSize m) :
    WaitInv ct r n a w ro v ({ s with size := m }.goto t .receive) := by
  have hfits := h.fits t
  have hknows := h.testers t
  rw [hpc] at hfits hknows
  obtain ⟨g, j, i, hq⟩ := hfits
  obtain ⟨hstate, hstatus, hg⟩ := hknows
  have hin : (s.fifo.rpc t).inside = true := by
    rw [hq]
    rfl
  refine h.fill hin rfl hstate m s.status (.inl hin) ?_
  rw [hq]
  exact ⟨nofun, fun _ _ => ⟨rfl, hstatus, hg _ _ _ _ _ hq, rfl⟩⟩

/-- The size is compared with the room there is. -/
theorem WaitInv.truncate (h : WaitInv ct r n a w ro v s) {m : ℕ}
    (hpc : s.tpc t = .truncate m) : WaitInv ct r n a w ro v (testStep r s t) := by
  have hfits := h.fits t
  have hknows := h.testers t
  rw [hpc] at hfits hknows
  obtain ⟨hstate, hstatus, rfl, g, d, hq, hg, hsize⟩ := hknows
  have hmove : ∀ p', p'.removing = false → p'.Fits (s.fifo.rpc t) →
      p'.Knows ct m (s.rq.data r).state s.size s.status (s.fifo.rpc t) →
      WaitInv ct r m a w ro v (s.goto t p') := by
    intro p' hp' hfits' hknows'
    refine h.local (by rw [hpc]; rfl) hp' hfits' hknows' ?_
    intro rc st hquery
    rw [hpc] at hquery
    cases hquery
  unfold testStep
  rw [hpc]
  simp only [h.fifo.core.channel]
  by_cases hc : ct ≠ MCAPI_PKT_CHAN ∧ s.size > m
  · rw [if_pos hc]
    exact hmove _ rfl ⟨g, d, hq⟩ ⟨hstate, rfl, g, d, hq, hg, hc.1, hsize ▸ hc.2⟩
  · rw [if_neg hc]
    refine hmove _ rfl ⟨g, d, hq⟩ ⟨hstate, g, d, hq, hg, ?_⟩
    rw [hsize] at hc
    change Report.mk s.size s.status = outcome ct m d
    rw [outcome, if_neg hc, hsize, hstatus]

/-- A message that does not fit has the size of the room. -/
theorem WaitInv.setSize (h : WaitInv ct r n a w ro v s) {m : ℕ} (hpc : s.tpc t = .setSize m) :
    WaitInv ct r n a w ro v ({ s with size := m }.goto t .setTruncated) := by
  have hknows := h.testers t
  rw [hpc] at hknows
  obtain ⟨hstate, hm, g, d, hq, hd⟩ := hknows
  exact h.fill (by rw [hq]; rfl) rfl hstate m s.status ⟨g, d, hq⟩ ⟨rfl, hm, g, d, hq, hd⟩

/-- And the status that says that it was truncated. -/
theorem WaitInv.setTruncated (h : WaitInv ct r n a w ro v s) (hpc : s.tpc t = .setTruncated) :
    WaitInv ct r n a w ro v
      ({ s with status := MCAPI_ERR_MSG_TRUNCATED }.goto t .casCompleted) := by
  have hknows := h.testers t
  rw [hpc] at hknows
  obtain ⟨hstate, hsize, g, d, hq, hg, hd⟩ := hknows
  refine h.fill (by rw [hq]; rfl) rfl hstate s.size MCAPI_ERR_MSG_TRUNCATED ⟨g, d, hq⟩
    ⟨rfl, g, d, hq, hg, ?_⟩
  change Report.mk s.size MCAPI_ERR_MSG_TRUNCATED = outcome ct n d
  rw [outcome, if_pos hd, hsize]

/-! ## The exchanges on the request -/

/-- **The tester that has the head exchanges the request's state**, which nobody
has finished. -/
theorem WaitInv.exchange (h : WaitInv ct r n a w ro v s) (hin : (s.fifo.rpc t).inside = true)
    (hopen : (s.rq.data r).state = REQUEST_VALID ∨ (s.rq.data r).state = REQUEST_RECEIVED)
    {new : mcapi_request_state} {completed : Option Delivery} (hnew : new ≠ REQUEST_FREE)
    (hp' : p'.removing = false) (hfits : p'.Fits (s.fifo.rpc t))
    (hknows : p'.Knows ct n new s.size s.status (s.fifo.rpc t))
    (hprogress : Progress ct n (IsMessage ct n a s) new { s with completed := completed })
    (hwaiting : completed = none → s.fifo.received.length = a)
    (htaken : completed ≠ none → s.fifo.received.length + busy ro = a + 1) :
    WaitInv ct r n a w ro v
      ({ s with rq := setState s.rq r new, completed := completed }.goto t p') := by
  have hro : ro = some (s.fifo.rpc t) := h.fifo.receivers.of_inside hin
  have hstate' := setState_state s.rq r new
  have hout : (s.tpc t).removing = false := by
    by_contra hrem
    rw [(h.fits t).removing (by simpa using hrem)] at hin
    cases hin
  exact {
    fifo := h.fifo
    knows := h.knows
    fits := (Function.forall_update_iff s.tpc fun t p => p.Fits (s.fifo.rpc t)).mpr
      ⟨hfits, fun t' _ => h.fits t'⟩
    testers := (Function.forall_update_iff s.tpc fun t p =>
      p.Knows ct n ((setState s.rq r new).data r).state s.size s.status (s.fifo.rpc t)).mpr
      ⟨by rw [hstate']; exact hknows, fun t' hne =>
        (h.testers t').outside (h.fits t') (h.others hin t' hne) hopen⟩
    progress := Progress.of_eq hstate' hprogress
    waiting := hwaiting
    taken := htaken
    cancelled := h.cancelled
    received := fun _ => by
      rw [hro]
      nofun
    finishing := fun _ => .inr (.inl (by
      rw [hro]
      nofun))
    remover := h.remover.outside hout hp'
    removes := by
      intro p hp
      rw [h.no_remover hopen] at hp
      cases hp
    bit := by
      intro hv
      have hset : s.rq.bit r = true := by
        refine (h.bit hv).mpr ?_
        rcases hopen with hs | hs <;> rw [hs] <;> decide
      change s.rq.bit r = true ↔ ((setState s.rq r new).data r).state ≠ REQUEST_FREE
      rw [hstate', hset]
      exact iff_of_true rfl hnew
    rejected := h.rejected }

/-- It claims the request. -/
theorem WaitInv.casRequest (h : WaitInv ct r n a w ro v s) (hpc : s.tpc t = .casRequest) :
    WaitInv ct r n a w ro v (testStep r s t) := by
  have hfits := h.fits t
  have hknows := h.testers t
  rw [hpc] at hfits hknows
  obtain ⟨g, q, hq⟩ := hfits
  obtain ⟨hstate, hsize⟩ := hknows
  have hprogress := h.progress_of hstate
  have hstep : testStep r s t =
      { s with rq := setState s.rq r REQUEST_RECEIVED }.goto t .setStatus := by
    unfold testStep
    rw [hpc]
    simp only [casState_of_eq hstate, if_true]
  rw [hstep]
  exact h.exchange (by rw [hq]; rfl) (.inl hstate) (by decide) rfl ⟨g, q, hq⟩ ⟨rfl, hsize⟩
    hprogress.2 h.waiting h.taken

/-- It completes the request with the message at the head. -/
theorem WaitInv.casCompleted (h : WaitInv ct r n a w ro v s) (hpc : s.tpc t = .casCompleted) :
    WaitInv ct r n a w ro v (testStep r s t) := by
  have hknows := h.testers t
  rw [hpc] at hknows
  obtain ⟨hstate, g, d, hq, hg, hreport⟩ := hknows
  have hin : (s.fifo.rpc t).inside = true := by
    rw [hq]
    rfl
  have hro : ro = some (s.fifo.rpc t) := h.fifo.receivers.of_inside hin
  obtain ⟨hnone, hcancels, hreleased, hreports⟩ := h.progress_of hstate
  have hlength := h.waiting hnone
  -- the message at the head is the next one
  obtain ⟨e, he, hok⟩ := h.fifo.core.reader _ hro
  rw [hq] at hok
  have hd : d = deliver ct e g.buffer_size := hok
  have hstep : testStep r s t = { s with
      rq := setState s.rq r REQUEST_COMPLETED
      completed := some d }.goto t .receive := by
    unfold testStep
    rw [hpc]
    simp only [casState_of_eq hstate, if_true, hq, popDelivery]
  rw [hstep]
  refine h.exchange hin (.inr hstate) (by decide) rfl (.inl hin) ?_ ?_ nofun ?_
  · rw [hq]
    exact ⟨fun _ => .inl rfl, nofun⟩
  · refine ⟨d, rfl, ⟨e, ?_, ?_⟩, hreport, hcancels, hreleased, hreports⟩
    · rw [← hlength]
      exact he
    · rw [hd, hg]
  · intro _
    rw [hro, hlength]
    rfl

end Steps

end MxApi.CheckReceive
