/-
The life cycle of requests: what a sequence of non-blocking operations, tests,
waits and cancels reports, on whatever handle values it is made.

A handle value is outstanding while its request has been issued and not yet
reported. The calls answer the outstanding handles as they should; what they do
with other values depends on how much of a value each of them looks at.
-/
import MxApi.Lib.Agreement
import MxApi.Mcapi.Requests

set_option autoImplicit false

namespace MxApi

open Lib mcapi_request_state mcapi_request_type mcapi_buffer_type CallStatus

/-! ## Calls -/

/-- The operations that may have to wait. -/
inductive Waiting
  | OPEN_PKTCHAN
  | OPEN_SCLCHAN
  | RECV
  | GET_ENDPT
  deriving DecidableEq, Repr

def Waiting.type : Waiting → mcapi_request_type
  | .OPEN_PKTCHAN => .OPEN_PKTCHAN
  | .OPEN_SCLCHAN => .OPEN_SCLCHAN
  | .RECV => .RECV
  | .GET_ENDPT => .GET_ENDPT

inductive RequestCall
  /-- a non-blocking operation that completes at once, with `status` -/
  | complete (rand handle : ℕ) (type : mcapi_request_type) (status : CallStatus)
  /-- a non-blocking operation that has to wait -/
  | begin (rand handle : ℕ) (type : Waiting) (slot : Bool)
  | test (request : ℕ) (found : Option Found)
  /-- the outcomes of the first poll and of those after it -/
  | wait (request : ℕ) (found : Option Found) (polls : List (Option Found))
  | wait_any (requests : List ℕ) (polls : List (Option Found))
  | cancel (request : ℕ)

/-- A non-blocking operation, as far as requests are concerned. -/
def startRequest (s : RequestLog) (rand handle : ℕ) (status : CallStatus) (completed : Bool)
    (type : mcapi_request_type) (slot : Bool) : Option (RequestLog × Answer) :=
  match mcapi_trans_reserve_request s rand with
  | none => some (s, ⟨false, MCAPI_ERR_REQUEST_LIMIT, false⟩)
  | some (s, r) =>
    (setup_request s r handle status completed type slot).map fun p => (p.1, ⟨true, status, false⟩)

def RequestCall.perform (s : RequestLog) : RequestCall → Option (RequestLog × Answer)
  | .complete rand handle type status => startRequest s rand handle status true type true
  | .begin rand handle type slot => startRequest s rand handle MCAPI_SUCCESS false type.type slot
  | .test request found => mcapi_test s request found
  | .wait request found polls => mcapi_wait s request (found :: polls)
  | .wait_any requests polls => (mcapi_wait_any s requests polls).map fun p => (p.1, p.2.1)
  | .cancel request => mcapi_cancel s request

/-- No request in use, nothing recorded. -/
def RequestLog.init : RequestLog :=
  ⟨fun _ => ⟨REQUEST_FREE, MCAPI_SUCCESS, .OTHER, 0⟩, [], fun _ => 0, fun _ => 0⟩

/-! ## What is expected -/

/-- The moves of the life cycle. -/
def Allowed : mcapi_request_state → mcapi_request_state → Prop
  | REQUEST_FREE, REQUEST_VALID | REQUEST_VALID, REQUEST_RECEIVED
  | REQUEST_VALID, REQUEST_COMPLETED | REQUEST_RECEIVED, REQUEST_COMPLETED
  | REQUEST_COMPLETED, REQUEST_FREE | REQUEST_VALID, REQUEST_CANCELLED
  | REQUEST_CANCELLED, REQUEST_FREE => True
  | _, _ => False

/-- What was recorded is in order: only moves of the life cycle, and every
handle issued has been reported once, or is of a request still in use and has
not. Values that are no handles were neither issued nor reported. -/
structure RecordOk (s : RequestLog) : Prop where
  moves : ∀ m ∈ s.moves, Allowed m.oldstate m.newstate
  once : ∀ r < MCAPI_MAX_REQUESTS, s.issued (requestHandle r) =
    s.reported (requestHandle r) + if (s.data r).state = REQUEST_FREE then 0 else 1
  only : ∀ request, (∀ r < MCAPI_MAX_REQUESTS, request ≠ requestHandle r) →
    s.issued request = 0 ∧ s.reported request = 0

/-- The value is the handle of request `r`, which is in use. -/
def Outstanding (s : RequestLog) (request r : ℕ) : Prop :=
  r < MCAPI_MAX_REQUESTS ∧ request = requestHandle r ∧ (s.data r).state ≠ REQUEST_FREE

/-- The result of the request `r` in use, if it has one. -/
def requestResult (s : RequestLog) (r : ℕ) (found : Option Found) : Option CallStatus :=
  match (s.data r).state with
  | REQUEST_COMPLETED => some (s.data r).status
  | REQUEST_CANCELLED => some MCAPI_ERR_REQUEST_CANCELLED
  | _ =>
    match (s.data r).type with
    | RECV => found.map Found.status
    | GET_ENDPT => found.map fun _ => MCAPI_SUCCESS
    | .OPEN_PKTCHAN | .OPEN_SCLCHAN => found.map fun _ => (s.data r).status
    | _ => none

/-- Only request `r` is touched. -/
def OthersKept (s s' : RequestLog) (r : ℕ) : Prop := ∀ i, i ≠ r → s'.data i = s.data i

/-- The result `status` of request `r` is reported and the request released. -/
def Reports (s : RequestLog) (r : ℕ) (status : CallStatus) (s' : RequestLog) (answer : Answer) :
    Prop :=
  answer = ⟨true, status, true⟩ ∧ (s'.data r).state = REQUEST_FREE ∧ OthersKept s s' r

/-- The value is answered as one that is no outstanding handle. -/
def Rejects (s s' : RequestLog) (answer : Answer) : Prop :=
  answer.status = MCAPI_ERR_REQUEST_INVALID ∧ answer.cleared = false ∧ s' = s

/-- One poll of a value. -/
def TestOk (s : RequestLog) (request : ℕ) (found : Option Found) (s' : RequestLog)
    (answer : Answer) : Prop :=
  (∀ r, Outstanding s request r →
    match requestResult s r found with
    | some status => Reports s r status s' answer
    | none => s' = s ∧ answer = ⟨false, MCAPI_SUCCESS, false⟩) ∧
  ((∀ r, ¬ Outstanding s request r) → Rejects s s' answer)

/-- A wait reports the result found by the first poll that finds one. -/
def WaitOk (s : RequestLog) (request : ℕ) (polls : List (Option Found)) (s' : RequestLog)
    (answer : Answer) : Prop :=
  (∀ r, Outstanding s request r →
    match polls.findSome? (requestResult s r) with
    | some status => Reports s r status s' answer
    | none => s' = s ∧ answer = ⟨false, MCAPI_TIMEOUT, false⟩) ∧
  ((∀ r, ¬ Outstanding s request r) → Rejects s s' answer)

/-- Every poll of a wait for several values is in order, up to the first that is
answered, and the position of that value is returned. -/
def WaitAnyOk (s : RequestLog) (requests : List ℕ) :
    ℕ → List (Option Found) → RequestLog → Answer → Option ℕ → Prop
  | _, [], s', answer, _ => s' = s ∧ answer = ⟨false, MCAPI_TIMEOUT, false⟩
  | i, found :: polls, s', answer, position =>
    match requests[i % requests.length]? with
    | none => s' = s ∧ answer = ⟨false, MCAPI_TIMEOUT, false⟩
    | some request =>
      TestOk s request found s' answer ∧ answer.rc = true ∧ position = some (i % requests.length) ∨
      TestOk s request found s ⟨false, MCAPI_SUCCESS, false⟩ ∧
        WaitAnyOk s requests (i + 1) polls s' answer position

def CancelOk (s : RequestLog) (request : ℕ) (s' : RequestLog) (answer : Answer) : Prop :=
  (∀ r, Outstanding s request r → answer.cleared = false ∧ OthersKept s s' r ∧
    (s'.data r).state =
      if (s.data r).state = REQUEST_VALID then REQUEST_CANCELLED else (s.data r).state) ∧
  ((∀ r, ¬ Outstanding s request r) → Rejects s s' answer)

/-- A free request is taken into use, or there is none. -/
def StartOk (s s' : RequestLog) (answer : Answer) : Prop :=
  (∃ r < MCAPI_MAX_REQUESTS, (s.data r).state = REQUEST_FREE ∧
    (s'.data r).state ≠ REQUEST_FREE ∧ OthersKept s s' r) ∨
  (∀ r < MCAPI_MAX_REQUESTS, (s.data r).state ≠ REQUEST_FREE) ∧ s' = s ∧
    answer.status = MCAPI_ERR_REQUEST_LIMIT

/-- The call returns, and did what is expected of it. -/
def RequestCallOk (s : RequestLog) : RequestCall → Prop
  | .complete rand handle type status => ∃ s' answer,
      startRequest s rand handle status true type true = some (s', answer) ∧ StartOk s s' answer
  | .begin rand handle type slot => ∃ s' answer,
      startRequest s rand handle MCAPI_SUCCESS false type.type slot = some (s', answer) ∧
        StartOk s s' answer
  | .test request found => ∃ s' answer,
      mcapi_test s request found = some (s', answer) ∧ TestOk s request found s' answer
  | .wait request found polls => ∃ s' answer,
      mcapi_wait s request (found :: polls) = some (s', answer) ∧
        WaitOk s request (found :: polls) s' answer
  | .wait_any requests polls => ∃ s' answer position,
      mcapi_wait_any s requests polls = some (s', answer, position) ∧
        WaitAnyOk s requests 0 polls s' answer position
  | .cancel request => ∃ s' answer,
      mcapi_cancel s request = some (s', answer) ∧ CancelOk s request s' answer

/-! ## When it is done -/

/-- If the value is decoded to a request in use, it is the handle of it. -/
def Recognised (s : RequestLog) (request : ℕ) : Prop :=
  ∀ r, mcapi_trans_decode_request_handle request = some r →
    (s.data r).state ≠ REQUEST_FREE → request = requestHandle r

/-- If the value is not decoded, its low bits do not name a finished request. -/
def Harmless (s : RequestLog) (request : ℕ) : Prop :=
  mcapi_trans_decode_request_handle request = none →
    requestIndex request < MCAPI_MAX_REQUESTS ∧
      (s.data (requestIndex request)).state ≠ REQUEST_COMPLETED ∧
      (s.data (requestIndex request)).state ≠ REQUEST_CANCELLED

/-- A poll of the value is answered. -/
def Answered (s : RequestLog) (request : ℕ) (found : Option Found) : Prop :=
  ∀ r, mcapi_trans_decode_request_handle request = some r →
    (s.data r).state = REQUEST_FREE ∨ requestResult s r found ≠ none

/-- Every value is recognised and harmless when it is polled. -/
def PollsOk (s : RequestLog) (requests : List ℕ) : ℕ → List (Option Found) → Prop
  | _, [] => True
  | i, found :: polls =>
    ∀ request, requests[i % requests.length]? = some request →
      Recognised s request ∧ Harmless s request ∧
        (¬ Answered s request found → PollsOk s requests (i + 1) polls)

/-- The condition on a call. -/
def RequestCallCond (s : RequestLog) : RequestCall → Prop
  | .complete .. | .begin .. => True
  | .test request _ | .wait request _ _ => Recognised s request
  | .wait_any requests polls => PollsOk s requests 0 polls
  | .cancel request => Recognised s request ∧
      ∀ r, mcapi_trans_decode_request_handle request = some r →
        (s.data r).state = REQUEST_VALID → (s.data r).type = RECV ∨ (s.data r).type = GET_ENDPT

/-! ## One test -/

/-- What calls leave behind: a request that waits is of a kind that may, and no
request stays between received and completed. -/
def Settled (s : RequestLog) : Prop :=
  ∀ r, match (s.data r).state with
    | REQUEST_VALID => ∃ w : Waiting, (s.data r).type = w.type
    | REQUEST_RECEIVED => False
    | _ => True

/-- Request `r` of `s` was finished, released and reported under `request`. -/
structure Released (s : RequestLog) (r request : ℕ) (s' : RequestLog) : Prop where
  free : (s'.data r).state = REQUEST_FREE
  others : OthersKept s s' r
  issued : s'.issued = s.issued
  reported : s'.reported = Function.update s.reported request (s.reported request + 1)
  moves : (∀ m ∈ s.moves, Allowed m.oldstate m.newstate) →
    ∀ m ∈ s'.moves, Allowed m.oldstate m.newstate

section

variable {s : RequestLog} {r request : ℕ} {found : Option Found}

/-- Removing a finished request releases it. -/
theorem mcapi_trans_remove_request_of_finished (request : ℕ)
    (h : (s.data r).state = REQUEST_COMPLETED ∨ (s.data r).state = REQUEST_CANCELLED) :
    ∃ s', (mcapi_trans_remove_request s r).map (·.countReport request) = some s' ∧
      Released s r request s' := by
  rw [mcapi_trans_remove_request]
  rcases h with h | h
  · rw [RequestLog.casState_of_eq h]
    refine ⟨_, rfl, ?_, ?_, rfl, rfl, ?_⟩
    · simp [RequestLog.countReport, RequestLog.setData]
    · intro i hi
      simp [RequestLog.countReport, RequestLog.setData, hi]
    · rintro hm m (_ | ⟨_, hmem⟩)
      · trivial
      · exact hm m hmem
  · have hne : (s.data r).state ≠ REQUEST_COMPLETED := by simp [h]
    rw [RequestLog.casState_of_ne hne, RequestLog.casState_of_eq h]
    refine ⟨_, rfl, ?_, ?_, rfl, rfl, ?_⟩
    · simp [RequestLog.countReport, RequestLog.setData]
    · intro i hi
      simp [RequestLog.countReport, RequestLog.setData, hi]
    · rintro hm m (_ | ⟨_, hmem⟩)
      · trivial
      · exact hm m hmem

/-- The second half of a test on a finished request reports it. -/
theorem testFinish_of_finished (hr : requestIndex request = r) (hlt : r < MCAPI_MAX_REQUESTS)
    (h : (s.data r).state = REQUEST_COMPLETED ∨ (s.data r).state = REQUEST_CANCELLED)
    (rc : Bool) (status : CallStatus) :
    ∃ s', testFinish s request rc status = some (s', ⟨true, (s.data r).status, true⟩) ∧
      Released s r request s' := by
  obtain ⟨s', hs', hrel⟩ := mcapi_trans_remove_request_of_finished request h
  obtain ⟨t, ht, rfl⟩ := Option.map_eq_some_iff.mp hs'
  refine ⟨_, ?_, hrel⟩
  simp only [testFinish, hr, if_pos hlt, if_pos h, ht, Option.map_some]

theorem testFinish_of_not_finished (hr : requestIndex request = r) (hlt : r < MCAPI_MAX_REQUESTS)
    (h : ¬ ((s.data r).state = REQUEST_COMPLETED ∨ (s.data r).state = REQUEST_CANCELLED))
    (rc : Bool) (status : CallStatus) :
    testFinish s request rc status = some (s, ⟨rc, status, false⟩) := by
  simp only [testFinish, hr, if_pos hlt, if_neg h]

/-- A free request is tested as an invalid one. -/
theorem test_of_free (hd : mcapi_trans_decode_request_handle request = some r)
    (hf : (s.data r).state = REQUEST_FREE) :
    mcapi_trans_test_i s request found = some (s, ⟨true, MCAPI_ERR_REQUEST_INVALID, false⟩) := by
  obtain ⟨hr, hlt⟩ := decode_request_handle_some hd
  rw [mcapi_trans_test_i, testState, hd]
  simp only [hf, Option.bind_some]
  exact testFinish_of_not_finished hr hlt (by rw [hf]; nofun) ..

/-- A pending request that cannot be completed stays as it is. -/
theorem test_of_pending (hs : Settled s) (hd : mcapi_trans_decode_request_handle request = some r)
    (hf : (s.data r).state ≠ REQUEST_FREE) (hres : requestResult s r found = none) :
    mcapi_trans_test_i s request found = some (s, ⟨false, MCAPI_SUCCESS, false⟩) := by
  obtain ⟨hr, hlt⟩ := decode_request_handle_some hd
  have hset := hs r
  rw [mcapi_trans_test_i, testState, hd]
  cases hst : (s.data r).state with
  | REQUEST_FREE => exact absurd hst hf
  | REQUEST_RECEIVED =>
    rw [hst] at hset
    exact hset.elim
  | REQUEST_COMPLETED | REQUEST_CANCELLED =>
    rw [requestResult, hst] at hres
    cases hres
  | REQUEST_VALID =>
    rw [hst] at hset
    obtain ⟨w, hw⟩ := hset
    have hcheck : checkRequest s r found = some s := by
      rw [requestResult, hst, hw] at hres
      unfold checkRequest
      rw [hw]
      cases w <;> cases found <;> first | rfl | cases hres
    simp only [hst, hcheck, Option.map_some, Option.bind_some]
    exact testFinish_of_not_finished hr hlt (by rw [hst]; nofun) ..

/-- Request `r` of `s` was completed with `status`. -/
structure Completed (s : RequestLog) (r : ℕ) (status : CallStatus) (s' : RequestLog) : Prop where
  state : (s'.data r).state = REQUEST_COMPLETED
  status : (s'.data r).status = status
  others : OthersKept s s' r
  issued : s'.issued = s.issued
  reported : s'.reported = s.reported
  moves : (∀ m ∈ s.moves, Allowed m.oldstate m.newstate) →
    ∀ m ∈ s'.moves, Allowed m.oldstate m.newstate

/-- The exchange of `REQUEST_VALID` for `REQUEST_COMPLETED`. -/
theorem casState_completes (hst : (s.data r).state = REQUEST_VALID) :
    ∃ s', s.casState r REQUEST_VALID REQUEST_COMPLETED = some s' ∧
      Completed s r (s.data r).status s' := by
  refine ⟨_, RequestLog.casState_of_eq hst, ?_, ?_, ?_, rfl, rfl, ?_⟩
  · simp [RequestLog.setData]
  · simp [RequestLog.setData]
  · intro i hi
    simp [RequestLog.setData, hi]
  · rintro hm m (_ | ⟨_, hmem⟩)
    · trivial
    · exact hm m hmem

/-- Storing something in the request before or between makes no difference to
the others. -/
theorem Completed.of_setData {v : RequestData} {status : CallStatus} {s' : RequestLog}
    (h : Completed (s.setData r v) r status s') : Completed s r status s' where
  state := h.state
  status := h.status
  others := fun i hi => (h.others i hi).trans (RequestLog.setData_of_ne hi v)
  issued := h.issued
  reported := h.reported
  moves := h.moves

/-- Completing a waiting request leaves the result in it. -/
theorem checkRequest_of_found {w : Waiting} (hst : (s.data r).state = REQUEST_VALID)
    (hw : (s.data r).type = w.type) {status : CallStatus}
    (hres : requestResult s r found = some status) :
    ∃ s', checkRequest s r found = some s' ∧ Completed s r status s' := by
  obtain ⟨s₁, hcas, hcomp⟩ := casState_completes hst
  rw [requestResult, hst, hw] at hres
  unfold checkRequest
  rw [hw]
  cases found with
  | none => cases w <;> cases hres
  | some found =>
    obtain ⟨st, bt⟩ := found
    cases w with
    | OPEN_PKTCHAN | OPEN_SCLCHAN =>
      obtain rfl := Option.some.inj hres
      exact ⟨s₁, hcas, hcomp⟩
    | GET_ENDPT =>
      obtain rfl := Option.some.inj hres
      refine ⟨_, by simp only [Waiting.type, hcas]; rfl, ?_⟩
      exact ⟨by simp [hcomp.state], by simp, fun i hi => by rw [RequestLog.setData_of_ne hi, hcomp.others i hi],
        hcomp.issued, hcomp.reported, hcomp.moves⟩
    | RECV =>
      obtain rfl := Option.some.inj hres
      cases bt with
      | MCAPI_ENDP_ATTR_STATE_BUFFER =>
        obtain ⟨s', hcas', hcomp'⟩ := casState_completes
          (s := s.setData r { s.data r with status := st }) (r := r) (by simp [hst])
        refine ⟨s', hcas', ?_⟩
        have := hcomp'.of_setData
        simpa using this
      | MCAPI_ENDP_ATTR_FIFO_BUFFER =>
        let s₁ : RequestLog := { s.setData r { s.data r with state := REQUEST_RECEIVED } with
          moves := ⟨r, REQUEST_VALID, REQUEST_RECEIVED⟩ :: s.moves }
        let s₂ := s₁.setData r { s₁.data r with status := st }
        let s₃ : RequestLog := { s₂.setData r { s₂.data r with state := REQUEST_COMPLETED } with
          moves := ⟨r, REQUEST_RECEIVED, REQUEST_COMPLETED⟩ :: s₂.moves }
        have h₂ : (s₂.data r).state = REQUEST_RECEIVED := by
          simp [s₂, s₁, RequestLog.setData]
        have hcas₁ : s.casState r REQUEST_VALID REQUEST_RECEIVED = some s₁ := RequestLog.casState_of_eq hst
        have hdone : s₂.casState r REQUEST_RECEIVED REQUEST_COMPLETED = some s₃ := RequestLog.casState_of_eq h₂
        refine ⟨s₃, ?_, ?_, ?_, ?_, rfl, rfl, ?_⟩
        · simp only [Waiting.type, hcas₁]
          exact hdone
        · simp [s₃, RequestLog.setData]
        · simp [s₃, s₂, RequestLog.setData]
        · intro i hi
          simp [s₃, s₂, s₁, RequestLog.setData, hi]
        · rintro hm m (_ | ⟨_, _ | ⟨_, hmem⟩⟩)
          · trivial
          · trivial
          · exact hm m hmem

/-- A request in use that has a result is reported and released. -/
theorem test_of_result (hs : Settled s) (hd : mcapi_trans_decode_request_handle request = some r)
    {status : CallStatus} (hf : (s.data r).state ≠ REQUEST_FREE)
    (hres : requestResult s r found = some status) :
    ∃ s', mcapi_trans_test_i s request found = some (s', ⟨true, status, true⟩) ∧
      Released s r request s' := by
  obtain ⟨hr, hlt⟩ := decode_request_handle_some hd
  have hset := hs r
  rw [mcapi_trans_test_i, testState, hd]
  cases hst : (s.data r).state with
  | REQUEST_FREE => exact absurd hst hf
  | REQUEST_RECEIVED =>
    rw [hst] at hset
    exact hset.elim
  | REQUEST_COMPLETED =>
    rw [requestResult, hst] at hres
    obtain rfl := Option.some.inj hres
    simp only [hst, Option.bind_some]
    exact testFinish_of_finished hr hlt (.inl hst) ..
  | REQUEST_CANCELLED =>
    rw [requestResult, hst] at hres
    obtain rfl := Option.some.inj hres
    simp only [hst, Option.bind_some]
    obtain ⟨s', hs', hrel⟩ := testFinish_of_finished
      (s := s.setData r { s.data r with status := MCAPI_ERR_REQUEST_CANCELLED }) hr hlt
      (.inr (by simp [hst])) true MCAPI_SUCCESS
    refine ⟨s', ?_, ?_⟩
    · simpa [hst] using hs'
    · exact ⟨hrel.free, fun i hi => (hrel.others i hi).trans (RequestLog.setData_of_ne hi _), hrel.issued,
        hrel.reported, hrel.moves⟩
  | REQUEST_VALID =>
    rw [hst] at hset
    obtain ⟨w, hw⟩ := hset
    obtain ⟨s₁, hcheck, hcomp⟩ := checkRequest_of_found hst hw hres
    simp only [hst, hcheck, Option.map_some, Option.bind_some]
    obtain ⟨s', hs', hrel⟩ := testFinish_of_finished (s := s₁) hr hlt
      (.inl hcomp.state) false MCAPI_SUCCESS
    refine ⟨s', ?_, ?_⟩
    · rw [hs', hcomp.status]
    · exact ⟨hrel.free, fun i hi => (hrel.others i hi).trans (hcomp.others i hi),
        hrel.issued.trans hcomp.issued, by rw [hrel.reported, hcomp.reported],
        fun hm => hrel.moves (hcomp.moves hm)⟩

/-- A value that is not decoded, and whose low bits name no finished request, is
tested as an invalid one. -/
theorem test_of_not_decoded (hd : mcapi_trans_decode_request_handle request = none)
    (hh : Harmless s request) :
    mcapi_trans_test_i s request found = some (s, ⟨true, MCAPI_ERR_REQUEST_INVALID, false⟩) := by
  obtain ⟨hlt, h₁, h₂⟩ := hh hd
  rw [mcapi_trans_test_i, testState, hd]
  exact testFinish_of_not_finished rfl hlt (not_or.mpr ⟨h₁, h₂⟩) ..

/-- Otherwise the finished request is reported, or memory outside the table is
read. -/
theorem test_of_not_harmless (found : Option Found) (hh : ¬ Harmless s request) :
    mcapi_trans_test_i s request found = none ∨
      ∃ s' status, mcapi_trans_test_i s request found = some (s', ⟨true, status, true⟩) := by
  rw [Harmless, Classical.not_imp] at hh
  obtain ⟨hd, hh⟩ := hh
  rw [mcapi_trans_test_i, testState, hd]
  by_cases hlt : requestIndex request < MCAPI_MAX_REQUESTS
  · have hfin : (s.data (requestIndex request)).state = REQUEST_COMPLETED ∨
        (s.data (requestIndex request)).state = REQUEST_CANCELLED := by
      by_contra hne
      exact hh ⟨hlt, not_or.mp hne⟩
    obtain ⟨s', hs', -⟩ := testFinish_of_finished (r := requestIndex request) rfl hlt hfin true
      MCAPI_ERR_REQUEST_INVALID
    exact .inr ⟨s', _, hs'⟩
  · left
    simp only [Option.bind_some, testFinish, if_neg hlt]

/-! ## One call on a value -/

theorem Outstanding.decode (h : Outstanding s request r) :
    mcapi_trans_decode_request_handle request = some r := by
  rw [h.2.1]
  exact decode_requestHandle h.1

/-- A value decoded to a free request, or that is not the handle of the request
it is decoded to, is not outstanding. -/
theorem not_outstanding (hd : mcapi_trans_decode_request_handle request = some r)
    (h : (s.data r).state = REQUEST_FREE ∨ request ≠ requestHandle r) :
    ∀ r', ¬ Outstanding s request r' := by
  intro r' ho
  obtain rfl := Option.some.inj (hd.symm.trans ho.decode)
  rcases h with h | h
  · exact ho.2.2 h
  · exact h ho.2.1

theorem not_outstanding_of_not_decoded (hd : mcapi_trans_decode_request_handle request = none) :
    ∀ r', ¬ Outstanding s request r' := by
  intro r' ho
  rw [ho.decode] at hd
  cases hd

/-- What a test of a value does when it is decoded to a request in use. -/
theorem testOk_of_outstanding {s' : RequestLog} {answer : Answer}
    (ho : Outstanding s request r) (h : match requestResult s r found with
      | some status => Reports s r status s' answer
      | none => s' = s ∧ answer = ⟨false, MCAPI_SUCCESS, false⟩) :
    TestOk s request found s' answer := by
  refine ⟨fun r' ho' => ?_, fun hno => absurd ho (hno r)⟩
  obtain rfl := Option.some.inj (ho.decode.symm.trans ho'.decode)
  exact h

theorem testOk_of_rejects (hno : ∀ r, ¬ Outstanding s request r) {s' : RequestLog}
    {answer : Answer} (h : Rejects s s' answer) : TestOk s request found s' answer :=
  ⟨fun r ho => absurd ho (hno r), fun _ => h⟩

/-- The answer to a value that is no outstanding handle has to be this one. -/
theorem not_testOk (hno : ∀ r, ¬ Outstanding s request r) {s' : RequestLog} {answer : Answer}
    (h : answer.status ≠ MCAPI_ERR_REQUEST_INVALID ∨ answer.cleared = true) :
    ¬ TestOk s request found s' answer := by
  intro hok
  obtain ⟨hst, hcl, -⟩ := hok.2 hno
  rcases h with h | h
  · exact h hst
  · rw [hcl] at h
    cases h

theorem test_ok_iff (hs : Settled s) :
    RequestCallOk s (.test request found) ↔ RequestCallCond s (.test request found) := by
  rw [RequestCallOk, RequestCallCond]
  cases hd : mcapi_trans_decode_request_handle request with
  | none =>
    have hno := not_outstanding_of_not_decoded (s := s) hd
    refine iff_of_true ⟨s, ⟨true, MCAPI_ERR_REQUEST_INVALID, false⟩, ?_, ?_⟩ ?_
    · simp [mcapi_test, mcapi_trans_valid_request_handle, hd]
    · exact testOk_of_rejects hno ⟨rfl, rfl, rfl⟩
    · intro r hr
      rw [hd] at hr
      cases hr
  | some r =>
    have htest : mcapi_test s request found = mcapi_trans_test_i s request found := by
      simp [mcapi_test, mcapi_trans_valid_request_handle, hd]
    rw [htest]
    by_cases hf : (s.data r).state = REQUEST_FREE
    · refine iff_of_true ⟨_, _, test_of_free hd hf, ?_⟩ ?_
      · exact testOk_of_rejects (not_outstanding hd (.inl hf)) ⟨rfl, rfl, rfl⟩
      · intro r' hr' hne
        obtain rfl := Option.some.inj (hd.symm.trans hr')
        exact absurd hf hne
    by_cases hv : request = requestHandle r
    · have ho : Outstanding s request r := ⟨(decode_request_handle_some hd).2, hv, hf⟩
      refine iff_of_true ?_ ?_
      · cases hres : requestResult s r found with
        | none => exact ⟨_, _, test_of_pending hs hd hf hres, testOk_of_outstanding ho (by
            rw [hres]; exact ⟨rfl, rfl⟩)⟩
        | some status =>
          obtain ⟨s', hs', hrel⟩ := test_of_result hs hd hf hres
          exact ⟨s', _, hs', testOk_of_outstanding ho (by
            rw [hres]; exact ⟨rfl, hrel.free, hrel.others⟩)⟩
      · intro r' hr' _
        obtain rfl := Option.some.inj (hd.symm.trans hr')
        exact hv
    · -- another value that is decoded to a request in use
      have hno := not_outstanding (s := s) hd (.inr hv)
      refine iff_of_false ?_ fun h => hv (h r hd hf)
      rintro ⟨s', answer, hs', hok⟩
      cases hres : requestResult s r found with
      | none =>
        rw [test_of_pending hs hd hf hres] at hs'
        cases hs'
        exact not_testOk hno (.inl (by nofun)) hok
      | some status =>
        obtain ⟨s'', hs'', -⟩ := test_of_result hs hd hf hres
        rw [hs''] at hs'
        cases hs'
        exact not_testOk hno (.inr rfl) hok

/-- A wait for a value decoded to a request in use reports the first result
found. The induction is on the polls; one that finds nothing changes nothing. -/
theorem wait_of_in_use (hs : Settled s) (hd : mcapi_trans_decode_request_handle request = some r)
    (hf : (s.data r).state ≠ REQUEST_FREE) : ∀ polls : List (Option Found),
    match polls.findSome? (requestResult s r) with
    | some status => ∃ s', mcapi_trans_wait s request polls = some (s', ⟨true, status, true⟩) ∧
        Released s r request s'
    | none => mcapi_trans_wait s request polls = some (s, ⟨false, MCAPI_TIMEOUT, false⟩)
  | [] => rfl
  | found :: polls => by
    have ih := wait_of_in_use hs hd hf polls
    rw [List.findSome?_cons]
    cases hres : requestResult s r found with
    | none =>
      have hwait : mcapi_trans_wait s request (found :: polls) = mcapi_trans_wait s request polls := by
        rw [mcapi_trans_wait, test_of_pending hs hd hf hres]
        rfl
      simp only [hwait]
      exact ih
    | some status =>
      obtain ⟨s', hs', hrel⟩ := test_of_result hs hd hf hres
      refine ⟨s', ?_, hrel⟩
      rw [mcapi_trans_wait, hs']
      rfl

theorem wait_ok_iff (hs : Settled s) (polls : List (Option Found)) :
    RequestCallOk s (.wait request found polls) ↔
      RequestCallCond s (.wait request found polls) := by
  rw [RequestCallOk, RequestCallCond]
  cases hd : mcapi_trans_decode_request_handle request with
  | none =>
    have hno := not_outstanding_of_not_decoded (s := s) hd
    refine iff_of_true ⟨s, ⟨false, MCAPI_ERR_REQUEST_INVALID, false⟩, ?_, ?_⟩ ?_
    · simp [mcapi_wait, mcapi_trans_valid_request_handle, hd]
    · exact ⟨fun r ho => absurd ho (hno r), fun _ => ⟨rfl, rfl, rfl⟩⟩
    · intro r hr
      rw [hd] at hr
      cases hr
  | some r =>
    have hwait : mcapi_wait s request (found :: polls) =
        mcapi_trans_wait s request (found :: polls) := by
      simp [mcapi_wait, mcapi_trans_valid_request_handle, hd]
    rw [hwait]
    by_cases hf : (s.data r).state = REQUEST_FREE
    · have hno := not_outstanding (s := s) hd (.inl hf)
      refine iff_of_true ⟨s, ⟨true, MCAPI_ERR_REQUEST_INVALID, false⟩, ?_, ?_⟩ ?_
      · rw [mcapi_trans_wait, test_of_free hd hf]
        rfl
      · exact ⟨fun r ho => absurd ho (hno r), fun _ => ⟨rfl, rfl, rfl⟩⟩
      · intro r' hr' hne
        obtain rfl := Option.some.inj (hd.symm.trans hr')
        exact absurd hf hne
    have hspec := wait_of_in_use hs hd hf (found :: polls)
    by_cases hv : request = requestHandle r
    · have ho : Outstanding s request r := ⟨(decode_request_handle_some hd).2, hv, hf⟩
      have hunique : ∀ r', Outstanding s request r' → r' = r := by
        intro r' ho'
        exact Option.some.inj (ho'.decode.symm.trans hd)
      refine iff_of_true ?_ ?_
      · cases hres : (found :: polls).findSome? (requestResult s r) with
        | none =>
          rw [hres] at hspec
          refine ⟨s, _, hspec, fun r' ho' => ?_, fun hno => absurd ho (hno r)⟩
          obtain rfl := hunique r' ho'
          rw [hres]
          exact ⟨rfl, rfl⟩
        | some status =>
          rw [hres] at hspec
          obtain ⟨s', hs', hrel⟩ := hspec
          refine ⟨s', _, hs', fun r' ho' => ?_, fun hno => absurd ho (hno r)⟩
          obtain rfl := hunique r' ho'
          rw [hres]
          exact ⟨rfl, hrel.free, hrel.others⟩
      · intro r' hr' _
        obtain rfl := Option.some.inj (hd.symm.trans hr')
        exact hv
    · have hno := not_outstanding (s := s) hd (.inr hv)
      refine iff_of_false ?_ fun h => hv (h r hd hf)
      rintro ⟨s', answer, hs', hok⟩
      obtain ⟨hst, hcl, -⟩ := hok.2 hno
      cases hres : (found :: polls).findSome? (requestResult s r) with
      | none =>
        rw [hres] at hspec
        obtain ⟨-, rfl⟩ := Prod.mk.inj (Option.some.inj (hspec.symm.trans hs'))
        cases hst
      | some status =>
        rw [hres] at hspec
        obtain ⟨s'', hs'', -⟩ := hspec
        obtain ⟨-, rfl⟩ := Prod.mk.inj (Option.some.inj (hs''.symm.trans hs'))
        cases hcl

/-- The table after the pending request `r` was cancelled. -/
def RequestLog.cancelled (s : RequestLog) (r : ℕ) : RequestLog :=
  { s.setData r { s.data r with state := REQUEST_CANCELLED } with
    moves := ⟨r, REQUEST_VALID, REQUEST_CANCELLED⟩ :: s.moves }

theorem cancel_of_waiting (hd : mcapi_trans_decode_request_handle request = some r)
    (hvalid : (s.data r).state = REQUEST_VALID)
    (htype : (s.data r).type = RECV ∨ (s.data r).type = GET_ENDPT) :
    mcapi_trans_cancel s request = some (s.cancelled r, ⟨false, MCAPI_SUCCESS, false⟩) := by
  have hkeep : ((s.cancelled r).data r).type = (s.data r).type := by
    simp [RequestLog.cancelled, RequestLog.setData]
  have hcas : s.casState r REQUEST_VALID REQUEST_CANCELLED = some (s.cancelled r) :=
    RequestLog.casState_of_eq hvalid
  simp only [mcapi_trans_cancel, hd, hvalid, hcas]
  rcases htype with h | h <;> rw [hkeep, h]

theorem cancel_of_not_waiting (hd : mcapi_trans_decode_request_handle request = some r)
    (hvalid : (s.data r).state = REQUEST_VALID)
    (htype : ¬ ((s.data r).type = RECV ∨ (s.data r).type = GET_ENDPT)) :
    mcapi_trans_cancel s request = none := by
  have hkeep : ((s.cancelled r).data r).type = (s.data r).type := by
    simp [RequestLog.cancelled, RequestLog.setData]
  have hcas : s.casState r REQUEST_VALID REQUEST_CANCELLED = some (s.cancelled r) :=
    RequestLog.casState_of_eq hvalid
  simp only [mcapi_trans_cancel, hd, hvalid, hcas]
  rw [hkeep]
  cases hty : (s.data r).type with
  | RECV => exact absurd (.inl hty) htype
  | GET_ENDPT => exact absurd (.inr hty) htype
  | _ => rfl

theorem cancel_of_finished (hd : mcapi_trans_decode_request_handle request = some r)
    (hf : (s.data r).state ≠ REQUEST_FREE) (hvalid : (s.data r).state ≠ REQUEST_VALID) :
    ∃ status, status ≠ MCAPI_ERR_REQUEST_INVALID ∧
      mcapi_trans_cancel s request = some (s, ⟨false, status, false⟩) := by
  have hcas : s.casState r REQUEST_VALID REQUEST_CANCELLED = none := RequestLog.casState_of_ne hvalid
  cases hst : (s.data r).state with
  | REQUEST_FREE => exact absurd hst hf
  | REQUEST_VALID => exact absurd hst hvalid
  | REQUEST_CANCELLED =>
    exact ⟨MCAPI_ERR_REQUEST_CANCELLED, nofun, by simp only [mcapi_trans_cancel, hd, hst]⟩
  | REQUEST_COMPLETED | REQUEST_RECEIVED =>
    exact ⟨MCAPI_SUCCESS, nofun, by simp only [mcapi_trans_cancel, hd, hst, hcas]⟩

theorem cancel_ok_iff :
    RequestCallOk s (.cancel request) ↔ RequestCallCond s (.cancel request) := by
  rw [RequestCallOk, RequestCallCond]
  cases hd : mcapi_trans_decode_request_handle request with
  | none =>
    have hno := not_outstanding_of_not_decoded (s := s) hd
    refine iff_of_true ⟨s, ⟨false, MCAPI_ERR_REQUEST_INVALID, false⟩, ?_, ?_⟩ ⟨?_, nofun⟩
    · simp [mcapi_cancel, mcapi_trans_valid_request_handle, hd]
    · exact ⟨fun r ho => absurd ho (hno r), fun _ => ⟨rfl, rfl, rfl⟩⟩
    · intro r hr
      rw [hd] at hr
      cases hr
  | some r =>
    have hcancel : mcapi_cancel s request = mcapi_trans_cancel s request := by
      simp [mcapi_cancel, mcapi_trans_valid_request_handle, hd]
    rw [hcancel]
    by_cases hf : (s.data r).state = REQUEST_FREE
    · have hno := not_outstanding (s := s) hd (.inl hf)
      refine iff_of_true ⟨s, ⟨false, MCAPI_ERR_REQUEST_INVALID, false⟩, ?_, ?_⟩ ⟨?_, ?_⟩
      · simp only [mcapi_trans_cancel, hd, hf]
      · exact ⟨fun r ho => absurd ho (hno r), fun _ => ⟨rfl, rfl, rfl⟩⟩
      · intro r' hr' hne
        obtain rfl := Option.some.inj (hd.symm.trans hr')
        exact absurd hf hne
      · intro r' hr' hvalid
        obtain rfl := Option.some.inj hr'
        rw [hf] at hvalid
        cases hvalid
    by_cases hvalid : (s.data r).state = REQUEST_VALID
    · by_cases htype : (s.data r).type = RECV ∨ (s.data r).type = GET_ENDPT
      · have hs' := cancel_of_waiting hd hvalid htype
        constructor
        · rintro ⟨s', answer, hs'', hok⟩
          rw [hs'] at hs''
          cases hs''
          refine ⟨fun r' hr' _ => ?_, fun r' hr' _ => ?_⟩
          · obtain rfl := Option.some.inj (hd.symm.trans hr')
            by_contra hv
            exact absurd (hok.2 (not_outstanding hd (.inr hv))).1 (by nofun)
          · obtain rfl := Option.some.inj hr'
            exact htype
        · rintro ⟨hrec, -⟩
          refine ⟨_, _, hs', fun r' ho => ?_, fun hno => ?_⟩
          · obtain rfl := Option.some.inj (hd.symm.trans ho.decode)
            refine ⟨rfl, fun i hi => ?_, ?_⟩
            · exact RequestLog.setData_of_ne hi _
            · rw [if_pos hvalid]
              simp [RequestLog.cancelled]
          · exact absurd ⟨(decode_request_handle_some hd).2, hrec r hd hf, hf⟩ (hno r)
      · -- the assert at the end of the switch
        refine iff_of_false ?_ fun h => htype (h.2 r rfl hvalid)
        rintro ⟨s', answer, hs', -⟩
        rw [cancel_of_not_waiting hd hvalid htype] at hs'
        cases hs'
    · -- cancelled or completed already
      obtain ⟨status, hne, hs'⟩ := cancel_of_finished hd hf hvalid
      constructor
      · rintro ⟨s', answer, hs'', hok⟩
        rw [hs'] at hs''
        cases hs''
        refine ⟨fun r' hr' _ => ?_, fun r' hr' hval => ?_⟩
        · obtain rfl := Option.some.inj (hd.symm.trans hr')
          by_contra hv
          exact hne (hok.2 (not_outstanding hd (.inr hv))).1
        · obtain rfl := Option.some.inj hr'
          exact absurd hval hvalid
      · rintro ⟨hrec, -⟩
        refine ⟨_, _, hs', fun r' ho => ?_, fun hno => ?_⟩
        · obtain rfl := Option.some.inj (hd.symm.trans ho.decode)
          exact ⟨rfl, fun _ _ => rfl, by rw [if_neg hvalid]⟩
        · exact absurd ⟨(decode_request_handle_some hd).2, hrec r hd hf, hf⟩ (hno r)

/-! ## Starting an operation -/

/-- A drawn index is free, and one is drawn unless none is. -/
theorem mcapi_trans_request_get_index_cases (s : RequestLog) (rand : ℕ) :
    (∃ r, mcapi_trans_request_get_index s rand = some r ∧ r < MCAPI_MAX_REQUESTS ∧
      (s.data r).state = REQUEST_FREE) ∨
    mcapi_trans_request_get_index s rand = none ∧
      ∀ r < MCAPI_MAX_REQUESTS, (s.data r).state ≠ REQUEST_FREE := by
  cases hg : mcapi_trans_request_get_index s rand with
  | some r =>
    refine .inl ⟨r, rfl, ?_, by simpa using List.find?_some hg⟩
    obtain ⟨i, -, rfl⟩ := List.mem_map.mp (List.mem_of_find?_eq_some hg)
    exact Nat.mod_lt _ (by decide)
  | none =>
    refine .inr ⟨rfl, fun r hr hfree => ?_⟩
    have hr' : r < 1024 := hr
    have hmem : r ∈ (List.range MCAPI_MAX_REQUESTS).map fun i => (rand + i) % MCAPI_MAX_REQUESTS := by
      refine List.mem_map.mpr ⟨(r + (1024 - rand % 1024)) % 1024, ?_, ?_⟩
      · exact List.mem_range.mpr (Nat.mod_lt _ (by decide))
      · show (rand + (r + (1024 - rand % 1024)) % 1024) % 1024 = r
        omega
    have hno := List.find?_eq_none.mp hg r hmem
    simp [hfree] at hno

/-- Request `r` was taken into use. -/
structure Started (s : RequestLog) (r : ℕ) (s' : RequestLog) : Prop where
  state : (s'.data r).state = REQUEST_COMPLETED ∨
    (s'.data r).state = REQUEST_VALID ∧ ∃ w : Waiting, (s'.data r).type = w.type
  others : OthersKept s s' r
  issued : s'.issued =
    Function.update s.issued (requestHandle r) (s.issued (requestHandle r) + 1)
  reported : s'.reported = s.reported
  moves : (∀ m ∈ s.moves, Allowed m.oldstate m.newstate) →
    ∀ m ∈ s'.moves, Allowed m.oldstate m.newstate

/-- Setting up a request that has just been reserved. -/
theorem setup_request_started (hst : (s.data r).state = REQUEST_VALID) {completed : Bool}
    {type : mcapi_request_type} (htype : completed = false → ∃ w : Waiting, type = w.type)
    (slot : Bool) (handle : ℕ) (status : CallStatus) :
    ∃ s', setup_request s r handle status completed type slot = some (s', requestHandle r) ∧
      Started s r s' := by
  let s₁ := s.setData r { s.data r with status := status }
  have hst₁ : (s₁.data r).state = REQUEST_VALID := by simpa [s₁] using hst
  cases completed with
  | true =>
    obtain ⟨s₂, hcas, hcomp⟩ := casState_completes hst₁
    refine ⟨s₂.issue r type handle, ?_, ?_⟩
    · simp [setup_request, s₁, hcas]
    · have hcomp' := hcomp.of_setData
      refine ⟨.inl ?_, fun i hi => ?_, ?_, hcomp'.reported, hcomp'.moves⟩
      · simpa [RequestLog.issue] using hcomp'.state
      · rw [← hcomp'.others i hi]
        simp [RequestLog.issue, RequestLog.setData, hi]
      · rw [← hcomp'.issued]
        rfl
  | false =>
    obtain ⟨w, rfl⟩ := htype rfl
    let s₂ := s₁.issue r w.type handle
    have hst₂ : (s₂.data r).state = REQUEST_VALID := by
      simpa [s₂, RequestLog.issue] using hst₁
    have hothers₂ : OthersKept s s₂ r := by
      intro i hi
      simp [s₂, s₁, RequestLog.issue, RequestLog.setData, hi]
    by_cases hslot : w.type = RECV ∧ slot = false
    · -- no queue entry is left to reserve
      obtain ⟨s₃, hcas, hcomp⟩ := casState_completes (r := r)
        (s := s₂.setData r { s₂.data r with status := MCAPI_ERR_MEM_LIMIT }) (by simpa using hst₂)
      have hcomp' := hcomp.of_setData
      refine ⟨s₃, ?_, .inl hcomp'.state, fun i hi => (hcomp'.others i hi).trans (hothers₂ i hi),
        hcomp'.issued, hcomp'.reported, hcomp'.moves⟩
      rw [setup_request]
      simp only [Bool.false_eq_true, if_false, Option.bind_eq_bind, Option.bind_some]
      rw [if_pos ⟨hslot.1, trivial, hslot.2⟩, hcas]
      rfl
    · refine ⟨s₂, ?_, .inr ⟨hst₂, w, ?_⟩, hothers₂, rfl, rfl, fun hm => hm⟩
      · simp [setup_request, hslot, s₁, s₂]
      · simp [s₂, RequestLog.issue]

/-- The table after the free request `r` was reserved. -/
def RequestLog.reserve (s : RequestLog) (r : ℕ) : RequestLog :=
  { s.setData r { s.data r with state := REQUEST_VALID } with
    moves := ⟨r, REQUEST_FREE, REQUEST_VALID⟩ :: s.moves }

theorem mcapi_trans_reserve_request_cases (s : RequestLog) (rand : ℕ) :
    (∃ r, mcapi_trans_reserve_request s rand = some (s.reserve r, r) ∧ r < MCAPI_MAX_REQUESTS ∧
      (s.data r).state = REQUEST_FREE) ∨
    mcapi_trans_reserve_request s rand = none ∧
      ∀ r < MCAPI_MAX_REQUESTS, (s.data r).state ≠ REQUEST_FREE := by
  unfold mcapi_trans_reserve_request
  refine (mcapi_trans_request_get_index_cases s rand).imp ?_ ?_
  · rintro ⟨r, hg, hlt, hfree⟩
    refine ⟨r, ?_, hlt, hfree⟩
    rw [hg, Option.bind_some, RequestLog.casState_of_eq hfree, Option.map_some, RequestLog.reserve]
  · rintro ⟨hg, hnone⟩
    refine ⟨?_, hnone⟩
    rw [hg, Option.bind_none]

/-- Setting up the request just reserved starts it. -/
theorem Started.of_reserve {s' : RequestLog} (h : Started (s.reserve r) r s') : Started s r s' where
  state := h.state
  others := by
    intro i hi
    rw [h.others i hi]
    simp [RequestLog.reserve, RequestLog.setData, hi]
  issued := h.issued
  reported := h.reported
  moves := by
    intro hm
    apply h.moves
    rintro m (_ | ⟨_, hmem⟩)
    · trivial
    · exact hm m hmem

/-- An operation takes a free request into use, or finds none. -/
theorem startRequest_cases (s : RequestLog) (rand handle : ℕ) (status : CallStatus)
    {completed : Bool} {type : mcapi_request_type} (slot : Bool)
    (htype : completed = false → ∃ w : Waiting, type = w.type) :
    (∃ r s', startRequest s rand handle status completed type slot =
        some (s', ⟨true, status, false⟩) ∧
      r < MCAPI_MAX_REQUESTS ∧ (s.data r).state = REQUEST_FREE ∧ Started s r s') ∨
    startRequest s rand handle status completed type slot =
        some (s, ⟨false, MCAPI_ERR_REQUEST_LIMIT, false⟩) ∧
      ∀ r < MCAPI_MAX_REQUESTS, (s.data r).state ≠ REQUEST_FREE := by
  unfold startRequest
  rcases mcapi_trans_reserve_request_cases s rand with ⟨r, hres, hlt, hfree⟩ | ⟨hres, hnone⟩
  · obtain ⟨s', hs', hstart⟩ := setup_request_started (s := s.reserve r) (r := r)
      (by simp [RequestLog.reserve, RequestLog.setData]) htype slot handle status
    refine .inl ⟨r, s', ?_, hlt, hfree, hstart.of_reserve⟩
    rw [hres]
    simp only [hs', Option.map_some]
  · refine .inr ⟨?_, hnone⟩
    rw [hres]

theorem Started.in_use {s' : RequestLog} (h : Started s r s') : (s'.data r).state ≠ REQUEST_FREE := by
  rcases h.state with h | ⟨h, -⟩ <;> rw [h] <;> nofun

theorem start_ok (s : RequestLog) (rand handle : ℕ) (status : CallStatus)
    {completed : Bool} {type : mcapi_request_type} (slot : Bool)
    (htype : completed = false → ∃ w : Waiting, type = w.type) :
    ∃ s' answer, startRequest s rand handle status completed type slot = some (s', answer) ∧
      StartOk s s' answer := by
  rcases startRequest_cases s rand handle status slot htype with
    ⟨r, s', hs', hlt, hfree, hstart⟩ | ⟨hs', hnone⟩
  · exact ⟨s', _, hs', .inl ⟨r, hlt, hfree, hstart.in_use, hstart.others⟩⟩
  · exact ⟨s, _, hs', .inr ⟨hnone, rfl, rfl⟩⟩

/-! ## Waiting for several requests -/

/-- How a poll ends. -/
inductive Poll (s : RequestLog) (request : ℕ) (found : Option Found) :
    Option (RequestLog × Answer) → Prop
  /-- it reports a request that is not the value's, or does not return -/
  | foreign {o : Option (RequestLog × Answer)} (hh : ¬ Harmless s request)
      (ho : ∀ s' answer, o = some (s', answer) → answer.rc = true ∧ answer.cleared = true) :
      Poll s request found o
  | invalid (hh : Harmless s request) (hd : ∀ r, mcapi_trans_decode_request_handle request = some r →
      (s.data r).state = REQUEST_FREE) :
      Poll s request found (some (s, ⟨true, MCAPI_ERR_REQUEST_INVALID, false⟩))
  | pending {r : ℕ} (hd : mcapi_trans_decode_request_handle request = some r)
      (hf : (s.data r).state ≠ REQUEST_FREE) (hres : requestResult s r found = none) :
      Poll s request found (some (s, ⟨false, MCAPI_SUCCESS, false⟩))
  | result {r : ℕ} {status : CallStatus} {s' : RequestLog}
      (hd : mcapi_trans_decode_request_handle request = some r)
      (hf : (s.data r).state ≠ REQUEST_FREE) (hres : requestResult s r found = some status)
      (hrel : Released s r request s') : Poll s request found (some (s', ⟨true, status, true⟩))

theorem poll_test (hs : Settled s) (request : ℕ) (found : Option Found) :
    Poll s request found (mcapi_trans_test_i s request found) := by
  cases hd : mcapi_trans_decode_request_handle request with
  | none =>
    by_cases hh : Harmless s request
    · rw [test_of_not_decoded hd hh]
      refine .invalid hh fun r hr => ?_
      rw [hd] at hr
      cases hr
    · refine .foreign hh fun s' answer h => ?_
      rcases test_of_not_harmless found hh with hnone | ⟨t, status, ht⟩
      · rw [hnone] at h
        cases h
      · obtain ⟨-, rfl⟩ := Prod.mk.inj (Option.some.inj (ht.symm.trans h))
        exact ⟨rfl, rfl⟩
  | some r =>
    by_cases hf : (s.data r).state = REQUEST_FREE
    · rw [test_of_free hd hf]
      refine .invalid (fun hnone => ?_) fun r' hr' => ?_
      · rw [hd] at hnone
        cases hnone
      · obtain rfl := Option.some.inj (hd.symm.trans hr')
        exact hf
    · cases hres : requestResult s r found with
      | none =>
        rw [test_of_pending hs hd hf hres]
        exact .pending hd hf hres
      | some status =>
        obtain ⟨s', hs', hrel⟩ := test_of_result hs hd hf hres
        rw [hs']
        exact .result hd hf hres hrel

/-- A wait for several values that returns the position of a value decoded to a
request in use does not answer it as invalid. -/
theorem wait_any_of_in_use (hs : Settled s) {requests : List ℕ} {j : ℕ}
    (hj : requests[j]? = some request) (hd : mcapi_trans_decode_request_handle request = some r)
    (hf : (s.data r).state ≠ REQUEST_FREE) : ∀ (polls : List (Option Found)) (i : ℕ)
    (s' : RequestLog) (answer : Answer),
    mcapi_trans_wait_any s requests i polls = some (s', answer, some j) → answer.cleared = true
  | [], i, s', answer, h => by
    rw [mcapi_trans_wait_any] at h
    cases h
  | found :: polls, i, s', answer, h => by
    rw [mcapi_trans_wait_any] at h
    cases hi : requests[i % requests.length]? with
    | none =>
      rw [hi] at h
      cases h
    | some v =>
      have hpoll := poll_test hs v found
      simp only [hi] at h
      generalize mcapi_trans_test_i s v found = o at h hpoll
      cases hpoll with
      | foreign hh ho =>
        cases o with
        | none => cases h
        | some p =>
          obtain ⟨hrc, hcl⟩ := ho p.1 p.2 rfl
          simp only [hrc, if_true] at h
          cases h
          exact hcl
      | invalid hh hfree =>
        simp only [if_true] at h
        cases h
        rw [hj] at hi
        cases hi
        exact absurd (hfree r hd) hf
      | pending hd' hf' hres =>
        simp only [Bool.false_eq_true, if_false] at h
        exact wait_any_of_in_use hs hj hd hf polls (i + 1) s' answer h
      | result hd' hf' hres hrel =>
        simp only [if_true] at h
        cases h
        rfl

/-- A value whose polls are in order has its result reported or stays. -/
theorem outstanding_of_recognised (hrec : Recognised s request)
    (hd : mcapi_trans_decode_request_handle request = some r)
    (hf : (s.data r).state ≠ REQUEST_FREE) : Outstanding s request r :=
  ⟨(decode_request_handle_some hd).2, hrec r hd hf, hf⟩

theorem wait_any_ok_iff (hs : Settled s) (requests : List ℕ) :
    ∀ (polls : List (Option Found)) (i : ℕ),
      (∃ s' answer position,
        mcapi_trans_wait_any s requests i polls = some (s', answer, position) ∧
          WaitAnyOk s requests i polls s' answer position) ↔ PollsOk s requests i polls
  | [], i => iff_of_true ⟨_, _, _, rfl, rfl, rfl⟩ trivial
  | found :: polls, i => by
    have ih := wait_any_ok_iff hs requests polls (i + 1)
    simp only [mcapi_trans_wait_any, WaitAnyOk, PollsOk]
    cases hi : requests[i % requests.length]? with
    | none => exact iff_of_true ⟨_, _, _, rfl, rfl, rfl⟩ nofun
    | some v =>
      have hpoll := poll_test hs v found
      simp only [Option.some.injEq, forall_eq']
      generalize mcapi_trans_test_i s v found = o at hpoll ⊢
      cases hpoll with
      | foreign hh ho =>
        refine iff_of_false ?_ fun h => hh h.2.1
        have hno := not_outstanding_of_not_decoded (s := s) (Classical.not_imp.mp hh).1
        rintro ⟨s', answer, position, h, hok⟩
        cases o with
        | none => cases h
        | some p =>
          obtain ⟨hrc, hcl⟩ := ho p.1 p.2 rfl
          simp only [hrc, if_true] at h
          cases h
          rcases hok with ⟨hok, -⟩ | ⟨hok, -⟩
          · exact not_testOk hno (.inr hcl) hok
          · exact not_testOk hno (.inl (by nofun)) hok
      | invalid hh hfree =>
        have hno : ∀ r, ¬ Outstanding s v r := fun r ho => ho.2.2 (hfree r ho.decode)
        refine iff_of_true ⟨_, _, _, if_pos rfl, .inl ⟨?_, rfl, rfl⟩⟩ ⟨?_, hh, ?_⟩
        · exact testOk_of_rejects hno ⟨rfl, rfl, rfl⟩
        · exact fun r hr hne => absurd (hfree r hr) hne
        · exact fun hna => absurd (fun r hr => .inl (hfree r hr)) hna
      | @pending r hd hf hres =>
        have hharm : Harmless s v := by
          intro hnone
          rw [hd] at hnone
          cases hnone
        have hna : ¬ Answered s v found := by
          intro ha
          rcases ha r hd with h | h
          · exact hf h
          · exact h hres
        simp only [Bool.false_eq_true, if_false]
        constructor
        · rintro ⟨s', answer, position, h, ⟨hok, hrc, rfl⟩ | ⟨hok, hrest⟩⟩
          · -- only a value that is not outstanding could be answered by a later poll
            exfalso
            have hcl := wait_any_of_in_use hs hi hd hf polls (i + 1) s' answer h
            by_cases hv : v = requestHandle r
            · have ho : Outstanding s v r := ⟨(decode_request_handle_some hd).2, hv, hf⟩
              have hans := hok.1 r ho
              rw [hres] at hans
              rw [hans.2] at hrc
              cases hrc
            · exact not_testOk (not_outstanding hd (.inr hv)) (.inr hcl) hok
          · refine ⟨?_, hharm, fun _ => ih.mp ⟨s', answer, position, h, hrest⟩⟩
            intro r' hr' _
            obtain rfl := Option.some.inj (hd.symm.trans hr')
            by_contra hv
            exact not_testOk (not_outstanding hd (.inr hv)) (.inl (by nofun)) hok
        · rintro ⟨hrec, -, hrest⟩
          obtain ⟨s', answer, position, h, hok⟩ := ih.mpr (hrest hna)
          refine ⟨s', answer, position, h, .inr ⟨?_, hok⟩⟩
          apply testOk_of_outstanding (outstanding_of_recognised hrec hd hf)
          rw [hres]
          exact ⟨rfl, rfl⟩
      | @result r status s' hd hf hres hrel =>
        constructor
        · rintro ⟨t, answer, position, h, hok⟩
          refine ⟨?_, ?_, ?_⟩
          · intro r' hr' _
            obtain rfl := Option.some.inj (hd.symm.trans hr')
            by_contra hv
            have hno := not_outstanding (s := s) hd (.inr hv)
            simp only [if_true] at h
            cases h
            rcases hok with ⟨hok, -⟩ | ⟨hok, -⟩
            · exact not_testOk hno (.inr rfl) hok
            · exact not_testOk hno (.inl (by nofun)) hok
          · intro hnone
            rw [hd] at hnone
            cases hnone
          · intro hna
            refine absurd (fun r' hr' => ?_) hna
            obtain rfl := Option.some.inj (hd.symm.trans hr')
            rw [hres]
            exact .inr nofun
        · rintro ⟨hrec, -⟩
          refine ⟨s', _, _, if_pos rfl, .inl ⟨?_, rfl, rfl⟩⟩
          apply testOk_of_outstanding (outstanding_of_recognised hrec hd hf)
          rw [hres]
          exact ⟨rfl, hrel.free, hrel.others⟩

/-- What the calls do to the table. -/
inductive RequestStep (s : RequestLog) : RequestLog → Prop
  | same : RequestStep s s
  | started {r : ℕ} {s' : RequestLog} (hlt : r < MCAPI_MAX_REQUESTS) (hfree : (s.data r).state = REQUEST_FREE)
      (h : Started s r s') : RequestStep s s'
  | released {r : ℕ} {s' : RequestLog} (hlt : r < MCAPI_MAX_REQUESTS) (huse : (s.data r).state ≠ REQUEST_FREE)
      (h : Released s r (requestHandle r) s') : RequestStep s s'
  | cancelled {r : ℕ} (hvalid : (s.data r).state = REQUEST_VALID) : RequestStep s (s.cancelled r)

/-- The settled states after one request changed. -/
theorem Settled.of_others (hs : Settled s) {s' : RequestLog} (ho : OthersKept s s' r)
    (hr : match (s'.data r).state with
      | REQUEST_VALID => ∃ w : Waiting, (s'.data r).type = w.type
      | REQUEST_RECEIVED => False
      | _ => True) : Settled s' := by
  intro i
  by_cases hi : i = r
  · subst hi
    exact hr
  · rw [ho i hi]
    exact hs i

theorem RequestStep.settled {s' : RequestLog} (h : RequestStep s s') (hs : Settled s) :
    Settled s' := by
  cases h with
  | same => exact hs
  | started hlt hfree h =>
    refine hs.of_others h.others ?_
    rcases h.state with hst | ⟨hst, hw⟩
    · rw [hst]
      trivial
    · rw [hst]
      exact hw
  | released hlt huse h =>
    refine hs.of_others h.others ?_
    rw [h.free]
    trivial
  | @cancelled r hvalid =>
    refine hs.of_others (r := r) (fun i hi => RequestLog.setData_of_ne hi _) ?_
    simp [RequestLog.cancelled, RequestLog.setData]

/-- The record after one request changed. -/
theorem RecordOk.of_others (h : RecordOk s) {s' : RequestLog} (hlt : r < MCAPI_MAX_REQUESTS)
    (ho : OthersKept s s' r)
    (hissued : ∀ v, v ≠ requestHandle r → s'.issued v = s.issued v)
    (hreported : ∀ v, v ≠ requestHandle r → s'.reported v = s.reported v)
    (hmoves : ∀ m ∈ s'.moves, Allowed m.oldstate m.newstate)
    (honce : s'.issued (requestHandle r) =
      s'.reported (requestHandle r) + if (s'.data r).state = REQUEST_FREE then 0 else 1) :
    RecordOk s' where
  moves := hmoves
  once := by
    intro i hi
    by_cases hir : i = r
    · subst hir
      exact honce
    · have hne : requestHandle i ≠ requestHandle r := fun h => hir (requestHandle_inj hi hlt h)
      rw [hissued _ hne, hreported _ hne, ho i hir]
      exact h.once i hi
  only := by
    intro v hv
    rw [hissued v (hv r hlt), hreported v (hv r hlt)]
    exact h.only v hv

theorem RequestStep.record {s' : RequestLog} (h : RequestStep s s') (hr : RecordOk s) :
    RecordOk s' := by
  cases h with
  | same => exact hr
  | @started r s' hlt hfree h =>
    refine hr.of_others hlt h.others ?_ ?_ (h.moves hr.moves) ?_
    · intro v hv
      rw [h.issued, Function.update_of_ne hv]
    · intro v _
      rw [h.reported]
    · have hone := hr.once r hlt
      rw [if_pos hfree, Nat.add_zero] at hone
      rw [h.issued, h.reported, Function.update_self, if_neg h.in_use, hone]
  | @released r s' hlt huse h =>
    refine hr.of_others hlt h.others ?_ ?_ (h.moves hr.moves) ?_
    · intro v _
      rw [h.issued]
    · intro v hv
      rw [h.reported, Function.update_of_ne hv]
    · have hone := hr.once r hlt
      rw [if_neg huse] at hone
      rw [h.issued, h.reported, Function.update_self, if_pos h.free, hone]
  | @cancelled r hvalid =>
    have hstate : ∀ i, ((s.cancelled r).data i).state = REQUEST_FREE ↔
        (s.data i).state = REQUEST_FREE := by
      intro i
      by_cases hi : i = r
      · subst hi
        simp [RequestLog.cancelled, RequestLog.setData, hvalid]
      · simp [RequestLog.cancelled, RequestLog.setData, hi]
    refine ⟨?_, fun i hi => ?_, hr.only⟩
    · rintro m (_ | ⟨_, hmem⟩)
      · trivial
      · exact hr.moves m hmem
    · simp only [hstate]
      exact hr.once i hi

/-! ## The calls under the condition -/

/-- A poll of a recognised and harmless value. -/
theorem Poll.step {s' : RequestLog} {answer : Answer}
    (h : Poll s request found (some (s', answer))) (hrec : Recognised s request)
    (hh : Harmless s request) : RequestStep s s' := by
  cases h with
  | foreign hnot => exact absurd hh hnot
  | invalid => exact .same
  | pending => exact .same
  | result hd hf hres hrel =>
    rw [hrec _ hd hf] at hrel
    exact .released (decode_request_handle_some hd).2 hf hrel

theorem start_step (rand handle : ℕ) (status : CallStatus) {completed : Bool}
    {type : mcapi_request_type} (slot : Bool)
    (htype : completed = false → ∃ w : Waiting, type = w.type) {s' : RequestLog} {answer : Answer}
    (h : startRequest s rand handle status completed type slot = some (s', answer)) :
    RequestStep s s' := by
  rcases startRequest_cases s rand handle status slot htype with
    ⟨r, t, ht, hlt, hfree, hstart⟩ | ⟨ht, -⟩
  · obtain ⟨rfl, -⟩ := Prod.mk.inj (Option.some.inj (ht.symm.trans h))
    exact .started hlt hfree hstart
  · obtain ⟨rfl, -⟩ := Prod.mk.inj (Option.some.inj (ht.symm.trans h))
    exact .same

theorem wait_any_step (hs : Settled s) {requests : List ℕ} :
    ∀ {polls : List (Option Found)} {i : ℕ} {s' : RequestLog} {answer : Answer}
      {position : Option ℕ}, PollsOk s requests i polls →
      mcapi_trans_wait_any s requests i polls = some (s', answer, position) → RequestStep s s'
  | [], i, s', answer, position, _, h => by
    rw [mcapi_trans_wait_any] at h
    cases h
    exact .same
  | found :: polls, i, s', answer, position, hok, h => by
    rw [mcapi_trans_wait_any] at h
    cases hi : requests[i % requests.length]? with
    | none =>
      rw [hi] at h
      cases h
      exact .same
    | some v =>
      obtain ⟨hrec, hh, hrest⟩ := hok v hi
      have hpoll := poll_test hs v found
      simp only [hi] at h
      generalize mcapi_trans_test_i s v found = o at h hpoll
      cases o with
      | none => cases h
      | some p =>
        have hstep := hpoll.step hrec hh
        cases hpoll with
        | foreign hnot => exact absurd hh hnot
        | invalid =>
          simp only [if_true] at h
          cases h
          exact hstep
        | result =>
          simp only [if_true] at h
          cases h
          exact hstep
        | pending hd hf hres =>
          simp only [Bool.false_eq_true, if_false] at h
          refine wait_any_step hs (hrest fun ha => ?_) h
          rcases ha _ hd with hfree | hne
          · exact hf hfree
          · exact hne hres

theorem call_step (hs : Settled s) {c : RequestCall} (hc : RequestCallCond s c) {s' : RequestLog}
    {answer : Answer} (h : c.perform s = some (s', answer)) : RequestStep s s' := by
  cases c with
  | complete rand handle type status =>
    rw [RequestCall.perform] at h
    exact start_step rand handle status true (fun hc => by cases hc) h
  | begin rand handle type slot =>
    rw [RequestCall.perform] at h
    exact start_step rand handle MCAPI_SUCCESS slot (fun _ => ⟨type, rfl⟩) h
  | test request found =>
    rw [RequestCall.perform, mcapi_test] at h
    split at h
    · rename_i hv
      have hpoll := poll_test hs request found
      rw [h] at hpoll
      refine hpoll.step hc fun hnone => ?_
      rw [mcapi_trans_valid_request_handle, hnone] at hv
      cases hv
    · cases h
      exact .same
  | wait request found polls =>
    rw [RequestCall.perform, mcapi_wait] at h
    split at h
    · rename_i hv
      obtain ⟨r, hd⟩ := Option.isSome_iff_exists.mp hv
      by_cases hf : (s.data r).state = REQUEST_FREE
      · rw [mcapi_trans_wait, test_of_free hd hf] at h
        cases h
        exact .same
      · have hspec := wait_of_in_use hs hd hf (found :: polls)
        cases hres : (found :: polls).findSome? (requestResult s r) with
        | none =>
          rw [hres] at hspec
          obtain ⟨rfl, -⟩ := Prod.mk.inj (Option.some.inj (hspec.symm.trans h))
          exact .same
        | some status =>
          rw [hres] at hspec
          obtain ⟨t, ht, hrel⟩ := hspec
          obtain ⟨rfl, -⟩ := Prod.mk.inj (Option.some.inj (ht.symm.trans h))
          rw [hc r hd hf] at hrel
          exact .released (decode_request_handle_some hd).2 hf hrel
    · cases h
      exact .same
  | wait_any requests polls =>
    obtain ⟨⟨t, a, position⟩, ht, heq⟩ := Option.map_eq_some_iff.mp h
    obtain ⟨rfl, -⟩ := Prod.mk.inj heq
    exact wait_any_step hs hc ht
  | cancel request =>
    rw [RequestCall.perform, mcapi_cancel] at h
    split at h
    · rename_i hv
      obtain ⟨r, hd⟩ := Option.isSome_iff_exists.mp hv
      by_cases hvalid : (s.data r).state = REQUEST_VALID
      · rw [cancel_of_waiting hd hvalid (hc.2 r hd hvalid)] at h
        cases h
        exact .cancelled hvalid
      · by_cases hf : (s.data r).state = REQUEST_FREE
        · simp only [mcapi_trans_cancel, hd, hf] at h
          cases h
          exact .same
        · obtain ⟨status, -, hs'⟩ := cancel_of_finished hd hf hvalid
          rw [hs'] at h
          cases h
          exact .same
    · cases h
      exact .same

theorem call_ok_iff (hs : Settled s) (c : RequestCall) :
    RequestCallOk s c ↔ RequestCallCond s c := by
  cases c with
  | complete rand handle type status =>
    exact iff_of_true (start_ok s rand handle status true fun hc => by cases hc) trivial
  | begin rand handle type slot =>
    exact iff_of_true (start_ok s rand handle MCAPI_SUCCESS slot fun _ => ⟨type, rfl⟩) trivial
  | test => exact test_ok_iff hs
  | wait request found polls => exact wait_ok_iff hs polls
  | wait_any requests polls => exact wait_any_ok_iff hs requests polls 0
  | cancel => exact cancel_ok_iff

end

/-! ## The life cycle -/

/-- Every call of the sequence does what is expected of it, and what is recorded
is in order at every moment. -/
def RequestLifeCycle (calls : List RequestCall) : Prop :=
  AllSteps (fun s (c : RequestCall) => c.perform s) RequestCallOk RequestLog.init calls ∧
    ∀ k p, answers (fun s (c : RequestCall) => c.perform s) RequestLog.init (calls.take k) = some p →
      RecordOk p.1

theorem init_settled : Settled RequestLog.init := fun _ => trivial

theorem init_record : RecordOk RequestLog.init where
  moves := nofun
  once := fun _ _ => rfl
  only := fun _ _ => ⟨rfl, rfl⟩

/-- A free index that is drawn is taken. -/
theorem mcapi_trans_request_get_index_of_free {s : RequestLog} (rand : ℕ)
    (h : (s.data (rand % MCAPI_MAX_REQUESTS)).state = REQUEST_FREE) :
    mcapi_trans_request_get_index s rand = some (rand % MCAPI_MAX_REQUESTS) := by
  have hrange : List.range MCAPI_MAX_REQUESTS = 0 :: (List.range 1023).map Nat.succ :=
    List.range_succ_eq_map
  rw [mcapi_trans_request_get_index, hrange, List.map_cons, List.find?_cons]
  simp [h]

/-- The table after a receive with the request 5 was begun. -/
def receiveBegun : RequestLog :=
  ((RequestLog.init.reserve 5).setData 5
    { (RequestLog.init.reserve 5).data 5 with status := MCAPI_SUCCESS }).issue 5 RECV 0

theorem receive_begins :
    (RequestCall.begin 5 0 .RECV true).perform RequestLog.init =
      some (receiveBegun, ⟨true, MCAPI_SUCCESS, false⟩) := by
  have hg : mcapi_trans_request_get_index RequestLog.init 5 = some 5 :=
    mcapi_trans_request_get_index_of_free 5 rfl
  have hres : mcapi_trans_reserve_request RequestLog.init 5 =
      some (RequestLog.init.reserve 5, 5) := by
    unfold mcapi_trans_reserve_request
    rw [hg]
    rfl
  simp only [RequestCall.perform]
  unfold startRequest
  rw [hres]
  rfl

end MxApi
