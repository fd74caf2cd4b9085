/-
What a receive request that is tested and cancelled promises, and when it keeps
it.

[`WaitOk`] is the contract: the request ends once, with the message at the head
of the queue or with its cancellation, and the message it does not take stays at
the head. It holds along every run in which each thread that acts on what it has
read of the request or of the queue acts on what is still so ([`WaitGuard`]). It
fails where one does not: a tester marks the head as received before it claims
the request, and when the request is cancelled in between its assert fails.
-/
import MxApi.Mcapi.CheckReceiveEndpoint
import MxApi.Mcapi.CheckReceiveRemoval
import MxApi.Mcapi.FifoSafety

set_option autoImplicit false

namespace MxApi.CheckReceive

open Lib channel_type mcapi_buffer_state mcapi_request_state mcapi_status_t CallStatus

section Contract

variable {τ : Type}

/-! ## The contract -/

/-- What holds between the calls of `mcapi_trans_test_i`. -/
structure Settled (ct : channel_type) (r a : ℕ) (s : WaitSys τ) : Prop where
  /-- the request is outstanding, waits to be reported as cancelled, or is free -/
  state : (s.rq.data r).state = REQUEST_VALID ∨ (s.rq.data r).state = REQUEST_CANCELLED ∨
    (s.rq.data r).state = REQUEST_FREE
  /-- its index is in use until the request is released -/
  bit : s.rq.bit r = true ↔ s.released = 0
  /-- a request that was completed is released, and its message received -/
  taken : s.completed ≠ none → s.released = 1 ∧ s.fifo.received.length = a + 1
  /-- otherwise the message at the head is there for the next receive -/
  queued : s.completed = none → s.fifo.received.length = a ∧
    ∀ u, s.fifo.sent[a]? = some u →
      mcapi_trans_queue_head s.fifo.sh.q = (ringSlot a, mcapi_status_t.MCAPI_SUCCESS) ∧
      EntryIs BUFFER_ALLOCATED (validIndex u.frame.i) (s.fifo.sh.q.elements (ringSlot a)) ∧
      Carries ct u.frame.msg (s.fifo.sh.buffers u.frame.i)

/-- The contract of a receive request for `n` bytes on an endpoint on which `a`
messages had been received. -/
structure WaitOk (ct : channel_type) (r n a : ℕ) (s : WaitSys τ) : Prop where
  no_assert_fails : ∀ t, s.tpc t ≠ .failed
  exchange : FifoOk ct s.fifo
  /-- the request is released at most once, and a release is a report -/
  released_le : s.released ≤ 1
  reported : s.reports.length = s.released
  /-- it is completed with the message at the head, or cancelled, not both -/
  delivered : ∀ d, s.completed = some d → IsMessage ct n a s d ∧ s.cancels = 0
  /-- what is reported is the one or the other -/
  report : ∀ rep ∈ s.reports, (∃ d, s.completed = some d ∧ rep = outcome ct n d) ∨
    (s.completed = none ∧ s.cancels = 1 ∧ rep.status = MCAPI_ERR_REQUEST_CANCELLED)
  /-- any other test that returns `TRUE` says that there is no such request -/
  rejected : ∀ st ∈ s.rejected, st = some MCAPI_ERR_REQUEST_INVALID
  settled : (∀ t, s.tpc t = .idle) → Settled ct r a s

variable {ct : channel_type} {r n a : ℕ} {w : Option SendPc} {ro : Option RecvPc}
  {v : Option TestPc} {s : WaitSys τ}

/-- A request that is not free has not been released. -/
theorem WaitInv.released (h : WaitInv ct r n a w ro v s) :
    s.released = (if (s.rq.data r).state = REQUEST_FREE then 1 else 0) ∧
      s.reports.length = s.released := by
  have hprogress := h.progress
  revert hprogress
  cases (s.rq.data r).state with
  | REQUEST_VALID =>
    rintro ⟨-, -, -, hreleased, hreports⟩
    simp [hreleased, hreports]
  | REQUEST_RECEIVED =>
    rintro ⟨-, -, hreleased, hreports⟩
    simp [hreleased, hreports]
  | REQUEST_COMPLETED =>
    rintro ⟨d, -, -, -, -, hreleased, hreports⟩
    simp [hreleased, hreports]
  | REQUEST_CANCELLED =>
    rintro ⟨-, -, hreleased, hreports⟩
    simp [hreleased, hreports]
  | REQUEST_FREE =>
    rintro ⟨hreleased, ⟨d, -, -, -, hreports⟩ | ⟨-, -, m, hreports⟩⟩ <;>
      simp [hreleased, hreports]

/-- What the request was completed with is the message at the head. -/
theorem WaitInv.delivered (h : WaitInv ct r n a w ro v s) {d : Delivery}
    (hd : s.completed = some d) : IsMessage ct n a s d ∧ s.cancels = 0 := by
  have hprogress := h.progress
  revert hprogress
  cases (s.rq.data r).state with
  | REQUEST_VALID =>
    rintro ⟨-, hcompleted, -⟩
    cases hcompleted.symm.trans hd
  | REQUEST_RECEIVED | REQUEST_CANCELLED =>
    rintro ⟨hcompleted, -⟩
    cases hcompleted.symm.trans hd
  | REQUEST_COMPLETED =>
    rintro ⟨d', hd', hm, -, hcancels, -⟩
    cases hd.symm.trans hd'
    exact ⟨hm, hcancels⟩
  | REQUEST_FREE =>
    rintro ⟨-, ⟨d', hd', hm, hcancels, -⟩ | ⟨hcompleted, -⟩⟩
    · cases hd.symm.trans hd'
      exact ⟨hm, hcancels⟩
    · cases hcompleted.symm.trans hd

/-- What is reported is what happened. -/
theorem WaitInv.report (h : WaitInv ct r n a w ro v s) {rep : Report} (hrep : rep ∈ s.reports) :
    (∃ d, s.completed = some d ∧ rep = outcome ct n d) ∨
      (s.completed = none ∧ s.cancels = 1 ∧ rep.status = MCAPI_ERR_REQUEST_CANCELLED) := by
  have hprogress := h.progress
  have hempty : s.reports ≠ [] := List.ne_nil_of_mem hrep
  revert hprogress
  cases (s.rq.data r).state with
  | REQUEST_VALID =>
    rintro ⟨-, -, -, -, hreports⟩
    exact absurd hreports hempty
  | REQUEST_RECEIVED | REQUEST_CANCELLED =>
    rintro ⟨-, -, -, hreports⟩
    exact absurd hreports hempty
  | REQUEST_COMPLETED =>
    rintro ⟨d, -, -, -, -, -, hreports⟩
    exact absurd hreports hempty
  | REQUEST_FREE =>
    rintro ⟨-, ⟨d, hd, -, -, hreports⟩ | ⟨hcompleted, hcancels, m, hreports⟩⟩ <;>
      rw [hreports, List.mem_singleton] at hrep
    · exact .inl ⟨d, hd, hrep⟩
    · exact .inr ⟨hcompleted, hcancels, by rw [hrep]⟩

/-- Between the calls nobody has the head, and a completed request is gone. -/
theorem WaitInv.settled (h : WaitInv ct r n a w ro v s) (hidle : ∀ t, s.tpc t = .idle) :
    Settled ct r a s := by
  have hpc : ∀ t, s.fifo.rpc t = .idle := by
    intro t
    have hfits := h.fits t
    rw [hidle t] at hfits
    exact hfits
  have hreceivers : Active RecvPc.inside s.fifo.rpc none := by
    intro t
    rw [hpc t]
    rfl
  cases h.fifo.receivers.eq hreceivers
  cases h.nobody fun t => by
    rw [hidle t]
    rfl
  have hreceived : (s.rq.data r).state ≠ REQUEST_RECEIVED := fun hc => h.received hc rfl
  have hcompleted : (s.rq.data r).state ≠ REQUEST_COMPLETED := by
    intro hc
    rcases h.finishing hc with hv | hro | ⟨t, rc, st, ht⟩
    · exact hv rfl
    · exact hro rfl
    · cases (hidle t).symm.trans ht
  have hreleased := h.released.1
  have hbit := h.bit rfl
  have hstate : (s.rq.data r).state = REQUEST_VALID ∨ (s.rq.data r).state = REQUEST_CANCELLED ∨
      (s.rq.data r).state = REQUEST_FREE := by
    revert hreceived hcompleted
    cases (s.rq.data r).state <;> simp
  refine ⟨hstate, ?_, ?_, ?_⟩
  · rw [hbit, hreleased]
    split <;> simp_all
  · intro hne
    refine ⟨?_, h.taken hne⟩
    rw [hreleased, if_pos]
    rcases hstate with hs | hs | hs
    · exact absurd (h.progress_of hs).2.1 hne
    · exact absurd (h.progress_of hs).1 hne
    · exact hs
  · intro hnone
    have hlength := h.waiting hnone
    refine ⟨hlength, ?_⟩
    intro u hu
    have hlt : a < s.fifo.sent.length := (List.getElem?_eq_some_iff.mp hu).1
    have hlen : s.fifo.frames.length = s.fifo.sent.length := List.length_map ..
    have hcore := h.fifo.core
    rw [hlength] at hcore
    refine ⟨hcore.queue_head_of_message (by omega), ?_⟩
    rcases h.fifo.ok.queued a u hlength.le hu with hq | ⟨-, t, ht⟩
    · exact hq
    · rw [hpc t] at ht
      cases ht

/-- The invariant gives the contract. -/
theorem WaitInv.ok (h : WaitInv ct r n a w ro v s) : WaitOk ct r n a s where
  no_assert_fails := by
    intro t hfailed
    have hfits := h.fits t
    rw [hfailed] at hfits
    exact hfits
  exchange := h.fifo.ok
  released_le := by
    rw [h.released.1]
    split <;> decide
  reported := h.released.2
  delivered := fun _ hd => h.delivered hd
  report := fun _ hrep => h.report hrep
  rejected := h.rejected
  settled := h.settled

end Contract

/-! ## Acting on what is still so -/

section Guard

variable {τ : Type}

/-- A tester that claims the request. -/
def TestPc.claiming : TestPc → Bool
  | .casRequest => true
  | _ => false

/-- A tester that takes an entry takes the head, for a request that is still
valid; one that finds the request finished is alone with that, and the one that
finds it cancelled knew it, and is the one whose test stored no status. -/
def TestGuard (r : ℕ) (s : WaitSys τ) (t : τ) : TestPc → Prop
  | .receive => FreshTake s.fifo (.stepRecv t) ∧
      ((s.fifo.rpc t).takes ≠ none → (s.rq.data r).state = REQUEST_VALID)
  | .queryCompleted _ _ => (s.rq.data r).state = REQUEST_COMPLETED →
      ∀ t', (s.tpc t').removing = false
  | .queryCancelled rc st =>
      ((s.rq.data r).state = REQUEST_CANCELLED → ∀ t', (s.tpc t').removing = false) ∧
        ((s.rq.data r).state = REQUEST_CANCELLED ↔ rc = true ∧ st = none)
  | _ => True

/-- The canceller cancels a request no tester has marked the head for. -/
def CancelGuard (r : ℕ) (s : WaitSys τ) : Prop :=
  s.cpc = .casCancelled → (s.rq.data r).state = REQUEST_VALID →
    ∀ t, (s.tpc t).claiming = false

/-- Everybody acts on what is still so. -/
def WaitGuard (r : ℕ) (s : WaitSys τ) : WaitLabel τ → Prop
  | .stepSend => CheckedEntry s.fifo (.stepSend ())
  | .stepTest t => TestGuard r s t (s.tpc t)
  | .stepCancel => CancelGuard r s
  | _ => True

instance [Fintype τ] (r : ℕ) (s : WaitSys τ) (t : τ) : ∀ p, Decidable (TestGuard r s t p)
  | .receive => inferInstanceAs (Decidable (_ ∧ _))
  | .queryCompleted _ _ => inferInstanceAs (Decidable (_ → ∀ t', (s.tpc t').removing = false))
  | .queryCancelled _ _ => inferInstanceAs (Decidable ((_ → ∀ _, _) ∧ (_ ↔ _ ∧ _)))
  | .idle | .readFree | .readCancelled | .setCancelled | .readCompleted | .readQindex
  | .headUpdate _ | .headAck .. | .readBuffIndex _ | .readBufferState .. | .casRequest
  | .setStatus | .passSize | .storeSize _ | .truncate _ | .setSize _ | .setTruncated
  | .casCompleted | .takeSize | .takeStatus _ | .remove .. | .failed => isTrue trivial

instance [Fintype τ] (r : ℕ) (s : WaitSys τ) : ∀ l, Decidable (WaitGuard r s l)
  | .stepSend => inferInstanceAs (Decidable (CheckedEntry s.fifo (.stepSend ())))
  | .stepTest t => inferInstanceAs (Decidable (TestGuard r s t (s.tpc t)))
  | .stepCancel =>
    inferInstanceAs (Decidable (_ → _ → ∀ t, (s.tpc t).claiming = false))
  | .send _ | .test _ | .cancel => isTrue trivial

end Guard

section Runs

variable {τ : Type} [DecidableEq τ] {ct : channel_type} {r n a : ℕ} {w : Option SendPc}
  {ro : Option RecvPc} {v : Option TestPc} {s s' : WaitSys τ} {t : τ}

/-! ## The steps of a tester -/

/-- A tester that polls. -/
theorem WaitInv.testStep_polling (h : WaitInv ct r n a w ro v s)
    (hp : (s.tpc t).polling = true) : WaitInv ct r n a w ro v (testStep r s t) := by
  have hfree : ∀ rc st, (s.rq.data r).state = REQUEST_FREE →
      st = some MCAPI_ERR_REQUEST_INVALID → rc = true →
      (TestPc.queryCompleted rc st).Knows ct n (s.rq.data r).state s.size s.status .idle := by
    rintro rc st - rfl rfl
    exact ⟨nofun, fun st' hst => ⟨rfl, by cases hst; rfl⟩⟩
  have hagain : (TestPc.queryCompleted false none).Knows ct n (s.rq.data r).state s.size
      s.status .idle := ⟨nofun, nofun⟩
  unfold testStep
  cases hpc : s.tpc t with
  | idle => exact h
  | readFree =>
    by_cases hc : (s.rq.data r).state = REQUEST_FREE
    · simp only [if_pos hc]
      exact h.polls hp rfl rfl (hfree _ _ hc rfl rfl)
    · simp only [if_neg hc]
      exact h.polls hp rfl rfl trivial
  | readCancelled =>
    by_cases hc : (s.rq.data r).state = REQUEST_CANCELLED
    · simp only [if_pos hc]
      exact h.polls hp rfl rfl (.inl hc)
    · simp only [if_neg hc]
      exact h.polls hp rfl rfl trivial
  | readCompleted =>
    by_cases hc : (s.rq.data r).state ≠ REQUEST_COMPLETED
    · simp only [if_pos hc]
      exact h.polls hp rfl rfl trivial
    · simp only [if_neg hc]
      exact h.polls hp rfl rfl hagain
  | readQindex => exact h.polls hp rfl rfl trivial
  | headUpdate qindex => exact h.polls hp rfl rfl trivial
  | headAck qindex tempUC =>
    dsimp only
    split
    · exact h.polls hp rfl rfl trivial
    · exact h.polls hp rfl rfl hagain
  | readBuffIndex qindex => exact h.polls hp rfl rfl trivial
  | readBufferState qindex buff_index =>
    dsimp only
    split
    · exact h.polls hp rfl rfl hagain
    · exact h.startReceive hpc
  | receive | setCancelled | casRequest | setStatus | passSize | storeSize | truncate | setSize
  | setTruncated | casCompleted | queryCompleted | queryCancelled | takeSize | takeStatus | remove
  | failed =>
    rw [hpc] at hp
    cases hp

/-- A tester that asks whether the request is finished. -/
theorem WaitInv.testStep_query (h : WaitInv ct r n a w ro v s) {rc : Bool}
    {st : Option CallStatus} (hg : TestGuard r s t (s.tpc t))
    (hpc : s.tpc t = .queryCompleted rc st ∨ s.tpc t = .queryCancelled rc st) :
    ∃ v', WaitInv ct r n a w ro v' (testStep r s t) := by
  have hfits := h.fits t
  have hknows := h.testers t
  unfold testStep
  rcases hpc with hpc | hpc
  · rw [hpc] at hfits hknows hg ⊢
    by_cases hc : (s.rq.data r).state = REQUEST_COMPLETED
    · simp only [if_pos hc]
      exact ⟨_, h.takes (hg hc) hfits (.inl hc)⟩
    · simp only [if_neg hc]
      exact ⟨v, h.local (by rw [hpc]; rfl) rfl hfits hknows fun _ _ _ => hc⟩
  · rw [hpc] at hfits hknows hg ⊢
    obtain ⟨hnobody, hiff⟩ := hg
    by_cases hc : (s.rq.data r).state = REQUEST_CANCELLED
    · simp only [if_pos hc]
      obtain ⟨hrc, hst⟩ := hiff.mp hc
      exact ⟨_, h.takes (hnobody hc) hfits (.inr ⟨hc, (hknows.1 hrc hst).2⟩)⟩
    · simp only [if_neg hc]
      cases rc with
      | false =>
        refine ⟨v, h.local (by rw [hpc]; rfl) rfl hfits trivial ?_⟩
        intro rc st hquery
        rw [hpc] at hquery
        cases hquery
      | true =>
        -- it has found the request free before
        cases st with
        | none => exact absurd (hiff.mpr ⟨rfl, rfl⟩) hc
        | some st => exact ⟨v, h.rejects hpc⟩

/-- **The step lemma of a tester.** -/
theorem WaitInv.testStep (h : WaitInv ct r n a w ro v s) (hg : TestGuard r s t (s.tpc t)) :
    ∃ w' ro' v', WaitInv ct r n a w' ro' v' (testStep r s t) := by
  cases hpc : s.tpc t with
  | idle | readFree | readCancelled | readCompleted | readQindex | headUpdate | headAck
  | readBuffIndex | readBufferState =>
    exact ⟨w, ro, v, h.testStep_polling (by rw [hpc]; rfl)⟩
  | setCancelled =>
    refine ⟨w, ro, v, ?_⟩
    unfold CheckReceive.testStep
    rw [hpc]
    exact h.setCancelled hpc
  | receive =>
    rw [hpc] at hg
    obtain ⟨w', ro', h'⟩ := h.receive hpc hg.1 hg.2
    exact ⟨w', ro', v, h'⟩
  | casRequest => exact ⟨w, ro, v, h.casRequest hpc⟩
  | setStatus =>
    refine ⟨w, ro, v, ?_⟩
    unfold CheckReceive.testStep
    rw [hpc]
    exact h.setStatus hpc
  | passSize =>
    refine ⟨w, some (CheckReceive.passSize s.size (s.fifo.rpc t)), v, ?_⟩
    unfold CheckReceive.testStep
    rw [hpc]
    exact h.passSize hpc
  | storeSize m =>
    refine ⟨w, ro, v, ?_⟩
    unfold CheckReceive.testStep
    rw [hpc]
    exact h.storeSize hpc
  | truncate m => exact ⟨w, ro, v, h.truncate hpc⟩
  | setSize m =>
    refine ⟨w, ro, v, ?_⟩
    unfold CheckReceive.testStep
    rw [hpc]
    exact h.setSize hpc
  | setTruncated =>
    refine ⟨w, ro, v, ?_⟩
    unfold CheckReceive.testStep
    rw [hpc]
    exact h.setTruncated hpc
  | casCompleted => exact ⟨w, ro, v, h.casCompleted hpc⟩
  | queryCompleted rc st =>
    obtain ⟨v', h'⟩ := h.testStep_query hg (.inl hpc)
    exact ⟨w, ro, v', h'⟩
  | queryCancelled rc st =>
    obtain ⟨v', h'⟩ := h.testStep_query hg (.inr hpc)
    exact ⟨w, ro, v', h'⟩
  | takeSize =>
    have hin : (s.tpc t).removing = true := by
      rw [hpc]
      rfl
    have hremoves := h.removes _ (h.remover.of_inside hin)
    rw [hpc] at hremoves
    refine ⟨w, ro, some (.takeStatus s.size), ?_⟩
    unfold CheckReceive.testStep
    rw [hpc]
    exact h.removing hin rfl rfl ⟨hremoves.1, hremoves.2, rfl⟩
  | takeStatus m =>
    have hin : (s.tpc t).removing = true := by
      rw [hpc]
      rfl
    have hremoves := h.removes _ (h.remover.of_inside hin)
    rw [hpc] at hremoves
    obtain ⟨hfinished, hbit, hm⟩ := hremoves
    refine ⟨w, ro, some (.remove m s.status (.clearBit r)), ?_⟩
    unfold CheckReceive.testStep
    rw [hpc]
    exact h.removing hin rfl rfl ⟨hfinished, hm, rfl, .inl ⟨rfl, hbit⟩⟩
  | remove m st p =>
    obtain ⟨v', h'⟩ := h.remove hpc
    exact ⟨w, ro, v', h'⟩
  | failed =>
    have hfits := h.fits t
    rw [hpc] at hfits
    exact hfits.elim

/-! ## The steps of the canceller -/

omit [DecidableEq τ] in
/-- **The step lemma of the canceller.** -/
theorem WaitInv.cancelStep (h : WaitInv ct r n a w ro v s) (hg : CancelGuard r s) :
    WaitInv ct r n a w ro v (cancelStep r s) := by
  have hmove : ∀ c, WaitInv ct r n a w ro v { s with cpc := c } := h.canceller rfl rfl
  unfold CheckReceive.cancelStep
  cases hpc : s.cpc with
  | idle => exact h
  | readFree =>
    dsimp only
    split
    · exact hmove _
    · exact hmove _
  | readCancelled =>
    dsimp only
    split
    · exact hmove _
    · exact hmove _
  | casCancelled =>
    by_cases hc : (s.rq.data r).state = REQUEST_VALID
    · simp only [casState_of_eq hc, if_true]
      refine h.cancels hc ?_ _
      intro t ht
      have hclaims := hg hpc hc t
      rw [ht] at hclaims
      cases hclaims
    · simp only [mcapi_requests.casState, if_neg hc, Bool.false_eq_true, if_false]
      exact hmove _
  | readQindex =>
    dsimp only
    split
    · exact hmove _
    · exact hmove _
  | clearQindex =>
    have hstate : (Function.update s.rq.data r ⟨(s.rq.data r).state, -1⟩ r).state
        = (s.rq.data r).state := by
      rw [Function.update_self]
    have hmove' : ∀ rq', (rq'.data r).state = (s.rq.data r).state → rq'.bit r = s.rq.bit r →
        WaitInv ct r n a w ro v { s with rq := rq', cpc := .idle } :=
      fun _ hs hb => h.canceller hs hb .idle
    exact hmove' ⟨s.rq.reserves_header, _⟩ hstate rfl

/-! ## Whole runs -/

/-- **The step lemma.** -/
theorem waitStep_inv {l : WaitLabel τ} (h : WaitInv ct r n a w ro v s)
    (hstep : waitStep r s l = some s') (hg : WaitGuard r s l) :
    ∃ w' ro' v', WaitInv ct r n a w' ro' v' s' := by
  cases l with
  | send m =>
    obtain ⟨f', hf', rfl⟩ := Option.map_eq_some_iff.mp hstep
    have hsend := hf'
    simp only [fifoStep, Option.ite_none_right_eq_some, Option.some.injEq] at hsend
    obtain ⟨-, rfl⟩ := hsend
    obtain ⟨w', h'⟩ := h.sends hf' trivial trivial rfl rfl (List.append_nil _).symm
    exact ⟨w', ro, v, h'⟩
  | stepSend =>
    cases hstep
    obtain ⟨w', h'⟩ := h.sends (l := .stepSend ()) rfl hg trivial rfl rfl rfl
    exact ⟨w', ro, v, h'⟩
  | test t =>
    simp only [waitStep, Option.ite_none_right_eq_some, Option.some.injEq] at hstep
    obtain ⟨hidle, rfl⟩ := hstep
    refine ⟨w, ro, v, h.polls ?_ rfl rfl trivial⟩
    cases hpc : s.tpc t <;> rw [hpc] at hidle <;> first | rfl | cases hidle
  | stepTest t =>
    cases hstep
    exact h.testStep hg
  | cancel =>
    simp only [waitStep, Option.ite_none_right_eq_some, Option.some.injEq] at hstep
    obtain ⟨-, rfl⟩ := hstep
    exact ⟨w, ro, v, h.canceller rfl rfl _⟩
  | stepCancel =>
    cases hstep
    exact ⟨w, ro, v, h.cancelStep hg⟩

omit [DecidableEq τ] in
/-- Reserving an entry changes nothing that FIFO message exchange relies on. -/
theorem FifoInv_setReserved {f : Fifo Unit τ} (h : FifoInv ct w ro f) (q : ℕ) :
    FifoInv ct w ro (setReserved f q) where
  core := {
    channel := h.core.channel
    le := h.core.le
    bound := h.core.bound
    uc := h.core.uc
    ac := h.core.ac
    sender := h.core.sender
    reader := h.core.reader
    entries := by
      have hsame : ∀ j st b, EntryIs st b (f.sh.q.elements j) →
          EntryIs st b ((setReserved f q).sh.q.elements j) := by
        intro j st b hj
        by_cases hjq : j = q
        · subst hjq
          simpa [setReserved, EntryIs] using hj
        · simpa [setReserved, f.sh.setElement_of_ne hjq] using hj
      refine h.core.entries.of_content ?_ fun j hj => hsame j _ _ hj
      intro o j P ho hj
      obtain ⟨st, b, rfl, -⟩ := entryClaim_is ho
      exact hsame j st b hj
    bufs := h.core.bufs
    index := h.core.index }
  senders := h.senders
  receivers := h.receivers
  send_ok := h.send_ok
  recv_ok := h.recv_ok
  delivered := h.delivered

omit [DecidableEq τ] in
/-- The invariant holds when the request is set up. -/
theorem WaitInv.start {f : Fifo Unit τ} (h : FifoInv ct w ro f) (hk : SenderKnows ro f)
    (hidle : ∀ t, f.rpc t = .idle) {rq : mcapi_requests} (q : ℕ)
    (hstate : (rq.data r).state = REQUEST_VALID) (hbit : rq.bit r = true) :
    WaitInv ct r n f.received.length w ro none (WaitSys.start f rq q n) where
  fifo := FifoInv_setReserved h q
  knows := hk
  fits := hidle
  testers := fun _ => trivial
  progress := Progress.of_eq hstate ⟨rfl, rfl, rfl, rfl, rfl⟩
  waiting := fun _ => rfl
  taken := fun hne => absurd rfl hne
  cancelled := nofun
  received := by
    intro hc
    cases hstate.symm.trans hc
  finishing := by
    intro hc
    cases hstate.symm.trans hc
  remover := fun _ => rfl
  removes := nofun
  bit := by
    intro _
    refine iff_of_true hbit ?_
    intro hc
    cases hstate.symm.trans hc
  rejected := nofun

/-- **Testing and cancelling one receive request.** The request is outstanding on
an endpoint whose receives so far each took the head. At every point of every run
in which the sender's checks find no buffer, and the testers and the canceller act
on what is still so, the contract holds. -/
theorem check_receive_ok (ct : channel_type) (pool : ℕ → buffer_entry) (f : Fifo Unit τ)
    (hf : Run fifoStep (fun s l _ => CheckedEntry s l ∧ FreshTake s l)
      (Fifo.init Unit τ ct pool) f)
    (hidle : ∀ t, f.rpc t = .idle) (rq : mcapi_requests) (r q size : ℕ)
    (hstate : (rq.data r).state = REQUEST_VALID) (hbit : rq.bit r = true) (s : WaitSys τ)
    (hrun : Run (waitStep r) (fun s l _ => WaitGuard r s l) (WaitSys.start f rq q size) s) :
    WaitOk ct r size f.received.length s := by
  obtain ⟨w, ro, hinv, hk⟩ := hf.invariant
    (I := fun s => ∃ w r, FifoInv ct w r s ∧ SenderKnows r s)
    (fun s l s' ⟨w, r, hinv, hk⟩ hstep hg =>
      hk.step hinv hstep ⟨hg.1, hk.reserve hinv, hg.2⟩) ⟨_, _, .init ct pool, trivial⟩
  obtain ⟨w', ro', v', h⟩ := hrun.invariant
    (I := fun s => ∃ w ro v, WaitInv ct r size f.received.length w ro v s)
    (fun _ _ _ ⟨_, _, _, h⟩ hstep hg => waitStep_inv h hstep hg)
    ⟨w, ro, none, WaitInv.start hinv hk hidle q hstate hbit⟩
  exact h.ok

end Runs

/-! ## Runs -/

/-- A table with one request, which is outstanding. -/
def oneRequest : mcapi_requests where
  reserves_header := ⟨fun _ => 1, 1, MCAPI_MAX_REQUESTS⟩
  data := fun _ => ⟨REQUEST_VALID, 0⟩

/-- Two testers poll, one of them completes the request when the message is
there, and the other one then learns that it is gone. -/
theorem check_receive_ok_two_bytes :
    ∃ s : WaitSys Bool, s.reports = [⟨2, CallStatus.MCAPI_SUCCESS⟩] ∧
      s.rejected = [some MCAPI_ERR_REQUEST_INVALID] ∧ WaitOk MCAPI_NO_CHAN 0 8 0 s := by
  have hexec : (exec (waitStep 0) (fun s l _ => decide (WaitGuard 0 s l))
      (WaitSys.start (Fifo.init Unit Bool MCAPI_NO_CHAN fun _ => .zero) oneRequest 0 8)
      ([WaitLabel.send .twoBytes, .test true] ++ List.replicate 8 (WaitLabel.stepTest true) ++
        List.replicate 17 WaitLabel.stepSend ++ [WaitLabel.test false] ++
        List.replicate 45 (WaitLabel.stepTest false) ++
        [WaitLabel.test true] ++ List.replicate 3 (WaitLabel.stepTest true))).any
        (fun s => s.reports == [⟨2, CallStatus.MCAPI_SUCCESS⟩] &&
          s.rejected == [some MCAPI_ERR_REQUEST_INVALID]) = true := by
    decide +kernel
  obtain ⟨s, hrun, hs⟩ := exec_run_of_any hexec
  simp only [Bool.and_eq_true, beq_iff_eq] at hs
  exact ⟨s, hs.1, hs.2, check_receive_ok MCAPI_NO_CHAN _ _ (.refl _) (fun _ => rfl) oneRequest 0 0 8
    rfl (by decide) s (hrun.mono fun _ _ _ hg => of_decide_eq_true hg)⟩

/-- The tester has marked the head as received when the request is cancelled. -/
def cancelSchedule : List (WaitLabel Unit) :=
  [.send .empty] ++ List.replicate 15 .stepSend ++ [.test ()] ++
  List.replicate 9 (.stepTest ()) ++ [.cancel] ++ List.replicate 3 .stepCancel ++ [.stepTest ()]

/-- **The contract fails when a request is cancelled while it is tested.** -/
theorem check_receive_cancel_assert :
    ¬ ∀ (τ : Type) [DecidableEq τ] (ct : channel_type) (pool : ℕ → buffer_entry)
      (f : Fifo Unit τ), Run fifoStep (fun s l _ => CheckedEntry s l ∧ FreshTake s l)
        (Fifo.init Unit τ ct pool) f → (∀ t, f.rpc t = .idle) →
      ∀ (rq : mcapi_requests) (r q size : ℕ), (rq.data r).state = REQUEST_VALID →
        rq.bit r = true → ∀ s : WaitSys τ,
        Run (waitStep r) (fun _ _ _ => True) (WaitSys.start f rq q size) s →
        WaitOk ct r size f.received.length s := by
  intro hok
  have hexec : (exec (waitStep 0) (fun _ _ _ => true)
      (WaitSys.start (Fifo.init Unit Unit MCAPI_NO_CHAN fun _ => .zero) oneRequest 0 8)
      cancelSchedule).any (fun s => s.tpc () matches .failed) = true := by
    decide +kernel
  obtain ⟨s, hrun, hs⟩ := exec_run_of_any hexec
  have h := hok Unit MCAPI_NO_CHAN (fun _ => .zero) _ (.refl _) (fun _ => rfl) oneRequest 0 0 8 rfl
    (by decide) s (hrun.mono fun _ _ _ _ => trivial)
  have hne := h.no_assert_fails ()
  split at hs
  · rename_i hpc
    exact hne hpc
  · cases hs

end MxApi.CheckReceive
