/-
The steps that end a request keep the invariant: the canceller exchanges its
state, a tester that finds it finished takes its size and its status and removes
it, and another one learns that it is gone.

From the moment a tester has found the request finished until it has freed it, it
is the only one that removes it; the request's bit is clear from its second step
on.
-/
import MxApi.Mcapi.CheckReceiveSteps

set_option autoImplicit false

namespace MxApi.CheckReceive

open Lib channel_type mcapi_buffer_state mcapi_request_state CallStatus

section Knows

variable {ct : channel_type} {n size : ℕ} {state : mcapi_request_state} {status : CallStatus}
  {p : TestPc} {q : RecvPc}

/-- A request that is cancelled or free may be given the status that says so. -/
theorem TestPc.Knows.cancelled_status (h : p.Knows ct n state size status q)
    (hstate : state = REQUEST_CANCELLED ∨ state = REQUEST_FREE) :
    p.Knows ct n state size MCAPI_ERR_REQUEST_CANCELLED q := by
  have hreceived : state ≠ REQUEST_RECEIVED := by
    rcases hstate with rfl | rfl <;> decide
  cases p with
  | receive => exact ⟨h.1, fun hin hp => absurd (h.2 hin hp).1 hreceived⟩
  | setStatus | passSize | storeSize | truncate | setSize | setTruncated | casCompleted =>
    exact absurd h.1 hreceived
  | queryCompleted rc st | queryCancelled rc st =>
    exact ⟨fun hrc hst => ⟨(h.1 hrc hst).1, rfl⟩, h.2⟩
  | casRequest | setCancelled => exact h
  | idle | readFree | readCancelled | readCompleted | readQindex | headUpdate | headAck
  | readBuffIndex | readBufferState | takeSize | takeStatus | remove | failed => trivial

theorem TestPc.fits_of_removing (hp : p.removing = true) : p.Fits .idle := by
  cases p <;> first | rfl | cases hp

theorem TestPc.knows_of_removing (hp : p.removing = true) : p.Knows ct n state size status q := by
  cases p with
  | takeSize | takeStatus | remove => trivial
  | _ => cases hp

end Knows

section Ends

variable {τ : Type} {ct : channel_type} {r n a : ℕ} {w : Option SendPc} {ro : Option RecvPc}
  {v : Option TestPc} {s : WaitSys τ} {t : τ} {p' : TestPc}

/-! ## The canceller -/

/-- The canceller moves; the request's state and its bit stay. -/
theorem WaitInv.canceller (h : WaitInv ct r n a w ro v s) {rq' : mcapi_requests}
    (hstate : (rq'.data r).state = (s.rq.data r).state) (hbit : rq'.bit r = s.rq.bit r)
    (c : CancelPc) : WaitInv ct r n a w ro v { s with rq := rq', cpc := c } where
  fifo := h.fifo
  knows := h.knows
  fits := h.fits
  testers := by
    rw [hstate]
    exact h.testers
  progress := Progress.of_eq hstate h.progress
  waiting := h.waiting
  taken := h.taken
  cancelled := h.cancelled
  received := by
    rw [hstate]
    exact h.received
  finishing := by
    rw [hstate]
    exact h.finishing
  remover := h.remover
  removes := by
    rw [hstate, hbit]
    exact h.removes
  bit := by
    rw [hstate, hbit]
    exact h.bit
  rejected := h.rejected

/-- **The canceller cancels the request**, which no tester is about to claim. -/
theorem WaitInv.cancels (h : WaitInv ct r n a w ro v s)
    (hstate : (s.rq.data r).state = REQUEST_VALID)
    (hclaims : ∀ t, s.tpc t ≠ .casRequest) (c : CancelPc) :
    WaitInv ct r n a w ro v { s with
      rq := setState s.rq r REQUEST_CANCELLED
      cancels := s.cancels + 1
      cpc := c } := by
  have hstate' := setState_state s.rq r REQUEST_CANCELLED
  obtain ⟨-, hcompleted, hcancels, hreleased, hreports⟩ := h.progress_of hstate
  -- a tester that had the head would be about to claim the request
  have houtside : ∀ t, (s.fifo.rpc t).inside = false := by
    intro t
    by_contra hin
    have hknows := h.testers t
    rw [hstate] at hknows
    exact hclaims t (hknows.claims (h.fits t) (by simpa using hin))
  have hreceivers : Active RecvPc.inside s.fifo.rpc none := houtside
  have hro : ro = none := h.fifo.receivers.eq hreceivers
  have hv : v = none := h.no_remover (.inl hstate)
  exact {
    fifo := h.fifo
    knows := h.knows
    fits := h.fits
    testers := fun t => (h.testers t).outside (h.fits t) (houtside t) (.inl hstate)
    progress := Progress.of_eq hstate' ⟨hcompleted, by simp [hcancels], hreleased, hreports⟩
    waiting := h.waiting
    taken := h.taken
    cancelled := fun _ => hro
    received := by
      intro hc
      cases hstate'.symm.trans hc
    finishing := by
      intro hc
      cases hstate'.symm.trans hc
    remover := h.remover
    removes := by
      rw [hv]
      nofun
    bit := by
      intro _
      change s.rq.bit r = true ↔ ((setState s.rq r REQUEST_CANCELLED).data r).state ≠ REQUEST_FREE
      rw [hstate']
      refine iff_of_true ((h.bit hv).mpr ?_) (by decide)
      rw [hstate]
      decide
    rejected := h.rejected }

/-! ## Finding the request finished -/

/-- While nobody is seen to remove the request, nobody removes it. -/
theorem WaitInv.nobody (h : WaitInv ct r n a w ro v s)
    (hnobody : ∀ t, (s.tpc t).removing = false) : v = none := by
  have hremover : Active TestPc.removing s.tpc none := hnobody
  exact h.remover.eq hremover

variable [DecidableEq τ]

/-- A tester that has found the request cancelled says so in its status. -/
theorem WaitInv.setCancelled (h : WaitInv ct r n a w ro v s) (hpc : s.tpc t = .setCancelled) :
    WaitInv ct r n a w ro v ({ s with status := MCAPI_ERR_REQUEST_CANCELLED }.goto t
      (.queryCompleted true none)) := by
  have hfits := h.fits t
  have hstate := h.testers t
  rw [hpc] at hfits hstate
  have hopen : ∀ state, state = REQUEST_VALID ∨ state = REQUEST_RECEIVED ∨
      state = REQUEST_COMPLETED → (s.rq.data r).state ≠ state := by
    rintro state hopen hc
    rw [hc] at hstate
    rcases hopen with rfl | rfl | rfl <;> rcases hstate with hs | hs <;> cases hs
  exact {
    fifo := h.fifo
    knows := h.knows
    fits := (Function.forall_update_iff s.tpc fun t p => p.Fits (s.fifo.rpc t)).mpr
      ⟨hfits, fun t' _ => h.fits t'⟩
    testers := (Function.forall_update_iff s.tpc fun t p =>
      p.Knows ct n (s.rq.data r).state s.size MCAPI_ERR_REQUEST_CANCELLED (s.fifo.rpc t)).mpr
      ⟨⟨fun _ _ => ⟨hstate, rfl⟩, nofun⟩, fun t' _ => (h.testers t').cancelled_status hstate⟩
    progress := by
      have hprogress := h.progress
      rcases hstate with hs | hs
      · exact Progress.of_eq hs (h.progress_of hs)
      · exact Progress.of_eq hs (h.progress_of hs)
    waiting := h.waiting
    taken := h.taken
    cancelled := h.cancelled
    received := h.received
    finishing := fun hc => absurd hc (hopen _ (.inr (.inr rfl)))
    remover := h.remover.outside (by rw [hpc]; rfl) rfl
    removes := by
      intro p hp
      have hremoves := h.removes p hp
      -- who removes a cancelled request has found this status
      have hstatus : s.status = MCAPI_ERR_REQUEST_CANCELLED := by
        rcases hremoves.finished with hc | ⟨-, hs⟩
        · exact absurd hc (hopen _ (.inr (.inr rfl)))
        · exact hs
      rw [hstatus] at hremoves
      exact hremoves
    bit := h.bit
    rejected := h.rejected }

/-- **A tester finds the request finished**, and nobody else has. -/
theorem WaitInv.takes (h : WaitInv ct r n a w ro v s)
    (hnobody : ∀ t, (s.tpc t).removing = false) (hq : s.fifo.rpc t = .idle)
    (hfinished : Finished (s.rq.data r).state s.status) :
    WaitInv ct r n a w ro (some .takeSize) (s.goto t .takeSize) := by
  have hv := h.nobody hnobody
  have hfree : (s.rq.data r).state ≠ REQUEST_FREE := by
    rcases hfinished with hs | ⟨hs, -⟩ <;> rw [hs] <;> decide
  exact {
    fifo := h.fifo
    knows := h.knows
    fits := (Function.forall_update_iff s.tpc fun t p => p.Fits (s.fifo.rpc t)).mpr
      ⟨hq, fun t' _ => h.fits t'⟩
    testers := (Function.forall_update_iff s.tpc fun t p =>
      p.Knows ct n (s.rq.data r).state s.size s.status (s.fifo.rpc t)).mpr
      ⟨trivial, fun t' _ => h.testers t'⟩
    progress := h.progress
    waiting := h.waiting
    taken := h.taken
    cancelled := h.cancelled
    received := h.received
    finishing := fun _ => .inl nofun
    remover := h.remover.stay (.inr hv) rfl
    removes := by
      rintro p ⟨⟩
      exact ⟨hfinished, (h.bit hv).mpr hfree⟩
    bit := nofun
    rejected := h.rejected }

/-! ## Removing it -/

/-- The tester that removes the request moves on; the request's state stays. -/
theorem WaitInv.removing (h : WaitInv ct r n a w ro v s) (hin : (s.tpc t).removing = true)
    (hp' : p'.removing = true) {rq' : mcapi_requests}
    (hstate : (rq'.data r).state = (s.rq.data r).state)
    (hremoves : Removes r (s.rq.data r).state s.size s.status (rq'.bit r) p') :
    WaitInv ct r n a w ro (some p') ({ s with rq := rq' }.goto t p') := by
  have hq := (h.fits t).removing hin
  exact {
    fifo := h.fifo
    knows := h.knows
    fits := (Function.forall_update_iff s.tpc fun t p => p.Fits (s.fifo.rpc t)).mpr
      ⟨by rw [hq]; exact TestPc.fits_of_removing hp', fun t' _ => h.fits t'⟩
    testers := by
      rw [show (({ s with rq := rq' } : WaitSys τ).goto t p').rq = rq' from rfl, hstate]
      exact (Function.forall_update_iff s.tpc fun t p =>
        p.Knows ct n (s.rq.data r).state s.size s.status (s.fifo.rpc t)).mpr
        ⟨TestPc.knows_of_removing hp', fun t' _ => h.testers t'⟩
    progress := Progress.of_eq hstate h.progress
    waiting := h.waiting
    taken := h.taken
    cancelled := h.cancelled
    received := by
      intro hc
      exact h.received (hstate.symm.trans hc)
    finishing := fun _ => .inl nofun
    remover := h.remover.stay (.inl hin) hp'
    removes := by
      rintro p ⟨⟩
      change Removes r (rq'.data r).state s.size s.status (rq'.bit r) p'
      rw [hstate]
      exact hremoves
    bit := nofun
    rejected := h.rejected }

/-- **It frees the request**, and reports what the request was finished with. -/
theorem WaitInv.frees (h : WaitInv ct r n a w ro v s) {m : ℕ} {st : CallStatus} {p : ReqPc}
    (hpc : s.tpc t = .remove m st p) (hbit : s.rq.bit r = false) :
    WaitInv ct r n a w ro none ({ s with
      rq := setState s.rq r REQUEST_FREE
      released := s.released + 1
      reports := s.reports ++ [Report.mk m st] }.goto t .idle) := by
  have hstate' := setState_state s.rq r REQUEST_FREE
  have hin : (s.tpc t).removing = true := by
    rw [hpc]
    rfl
  have hq := (h.fits t).removing hin
  have hremoves := h.removes _ (h.remover.of_inside hin)
  rw [hpc] at hremoves
  obtain ⟨hfinished, rfl, rfl, -⟩ := hremoves
  exact {
    fifo := h.fifo
    knows := h.knows
    fits := (Function.forall_update_iff s.tpc fun t p => p.Fits (s.fifo.rpc t)).mpr
      ⟨hq, fun t' _ => h.fits t'⟩
    testers := (Function.forall_update_iff s.tpc fun t p =>
      p.Knows ct n ((setState s.rq r REQUEST_FREE).data r).state s.size s.status
        (s.fifo.rpc t)).mpr
      ⟨trivial, fun t' _ => by rw [hstate']; exact (h.testers t').free hfinished⟩
    progress := by
      refine Progress.of_eq hstate' ?_
      rcases hfinished with hs | ⟨hs, hstatus⟩
      · obtain ⟨d, hd, hm, hreport, hcancels, hreleased, hreports⟩ := h.progress_of hs
        refine ⟨by simp [WaitSys.goto, hreleased], .inl ⟨d, hd, hm, hcancels, ?_⟩⟩
        simp [WaitSys.goto, hreports, hreport]
      · obtain ⟨hcompleted, hcancels, hreleased, hreports⟩ := h.progress_of hs
        refine ⟨by simp [WaitSys.goto, hreleased], .inr ⟨hcompleted, hcancels, s.size, ?_⟩⟩
        simp [WaitSys.goto, hreports, hstatus]
    waiting := h.waiting
    taken := h.taken
    cancelled := h.cancelled
    received := by
      intro hc
      cases hstate'.symm.trans hc
    finishing := by
      intro hc
      cases hstate'.symm.trans hc
    remover := h.remover.leave hin rfl
    removes := nofun
    bit := by
      intro _
      change s.rq.bit r = true ↔ ((setState s.rq r REQUEST_FREE).data r).state ≠ REQUEST_FREE
      rw [hstate', hbit]
      exact iff_of_false nofun fun hne => hne rfl
    rejected := h.rejected }

/-- **A step of the removal.** -/
theorem WaitInv.remove (h : WaitInv ct r n a w ro v s) {m : ℕ} {st : CallStatus} {p : ReqPc}
    (hpc : s.tpc t = .remove m st p) : ∃ v', WaitInv ct r n a w ro v' (testStep r s t) := by
  have hin : (s.tpc t).removing = true := by
    rw [hpc]
    rfl
  have hremoves := h.removes _ (h.remover.of_inside hin)
  rw [hpc] at hremoves
  obtain ⟨hfinished, hm, hst, ⟨rfl, hbit⟩ | ⟨hp, hbit⟩⟩ := hremoves
  · -- the bit is cleared
    have hnext : reqProgram s.rq 0 (.clearBit r)
        = ((s.rq.updateBit mrapi_atomic_clear r).2, .decCount r, none) := by
      simp only [reqProgram, updateBit_clear_fst, hbit, if_true]
    refine ⟨some (.remove m st (.decCount r)), ?_⟩
    unfold testStep
    rw [hpc]
    simp only [hnext]
    refine h.removing hin rfl (by rw [updateBit_data])
      ⟨hfinished, hm, hst, .inr ⟨.inl rfl, ?_⟩⟩
    rw [bit_clear, if_pos rfl]
  · rcases hp with rfl | rfl | rfl | ⟨rfl, hs⟩
    · refine ⟨some (.remove m st (.clearQindex r)), ?_⟩
      unfold testStep
      rw [hpc]
      exact h.removing hin rfl rfl ⟨hfinished, hm, hst, .inr ⟨.inr (.inl rfl), hbit⟩⟩
    · refine ⟨some (.remove m st (.casCompleted r)), ?_⟩
      unfold testStep
      rw [hpc]
      refine h.removing hin rfl ?_ ⟨hfinished, hm, hst, .inr ⟨.inr (.inr (.inl rfl)), hbit⟩⟩
      simp [reqProgram]
    · by_cases hs : (s.rq.data r).state = REQUEST_COMPLETED
      · refine ⟨none, ?_⟩
        unfold testStep
        rw [hpc]
        simp only [reqProgram, casState_of_eq hs, if_true]
        exact h.frees hpc hbit
      · -- the request was cancelled
        have hcancelled : (s.rq.data r).state = REQUEST_CANCELLED :=
          (hfinished.resolve_left hs).1
        refine ⟨some (.remove m st (.casCancelled r)), ?_⟩
        unfold testStep
        rw [hpc]
        simp only [reqProgram, mcapi_requests.casState, if_neg hs, Bool.false_eq_true, if_false]
        exact h.removing hin rfl rfl
          ⟨hfinished, hm, hst, .inr ⟨.inr (.inr (.inr ⟨rfl, hcancelled⟩)), hbit⟩⟩
    · refine ⟨none, ?_⟩
      unfold testStep
      rw [hpc]
      simp only [reqProgram, casState_of_eq hs, if_true]
      exact h.frees hpc hbit

/-! ## Learning that it is gone -/

/-- A tester returns `TRUE` without having removed the request, which is free. -/
theorem WaitInv.rejects (h : WaitInv ct r n a w ro v s) {st : CallStatus}
    (hpc : s.tpc t = .queryCancelled true (some st)) :
    WaitInv ct r n a w ro v ({ s with rejected := s.rejected ++ [some st] }.goto t .idle) := by
  have hfits := h.fits t
  have hknows := h.testers t
  rw [hpc] at hfits hknows
  obtain ⟨-, rfl⟩ := hknows.2 st rfl
  exact {
    fifo := h.fifo
    knows := h.knows
    fits := (Function.forall_update_iff s.tpc fun t p => p.Fits (s.fifo.rpc t)).mpr
      ⟨hfits, fun t' _ => h.fits t'⟩
    testers := (Function.forall_update_iff s.tpc fun t p =>
      p.Knows ct n (s.rq.data r).state s.size s.status (s.fifo.rpc t)).mpr
      ⟨trivial, fun t' _ => h.testers t'⟩
    progress := h.progress
    waiting := h.waiting
    taken := h.taken
    cancelled := h.cancelled
    received := h.received
    finishing := by
      refine h.finishing_goto ?_
      intro rc st hquery
      rw [hpc] at hquery
      cases hquery
    remover := h.remover.outside (by rw [hpc]; rfl) rfl
    removes := h.removes
    bit := h.bit
    rejected := by
      intro st hst
      rcases List.mem_append.mp hst with hst | hst
      · exact h.rejected st hst
      · exact List.mem_singleton.mp hst }

end Ends

end MxApi.CheckReceive
