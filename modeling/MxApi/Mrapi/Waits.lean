/-
Waiting for the requests of remote memory: `mrapi_test`, `mrapi_wait`, `mrapi_wait_any` and
`mrapi_cancel` (`mrapi_vtime.c`), over runs of calls by any clients.

A transfer completes before its handle is returned, and a cancellation does nothing. So every
request that is in use has completed, in every reachable table ([`Settled`]), and a wait for
one ends in its first round; it reports success whatever the transfer has reported
([`waits_right`]).

A wait for any of several requests has one counter for the position and for the rounds, so
that its timeout is compared with their number: if none of the handles names a request in use,
it ends after one round or goes round for ever.

The arrays have fewer than `2 ^ 32 - 1` requests.
-/
import MxApi.Lib.Run
import MxApi.Mrapi.TransferRoundTrip

set_option autoImplicit false

namespace MxApi.Transfer

open Lib
open LockTable (Node node0 mrapi_impl_encode_hndl mrapi_impl_decode_hndl decode_encode_hndl)
open mrapi_status_t

/-! ## The waits -/

inductive wait_status_t
  | of (status : mrapi_status_t)
  | MRAPI_ERR_REQUEST_CANCELED
  | MRAPI_TIMEOUT
  deriving DecidableEq, Repr

open wait_status_t

/-- The rounds of `mrapi_wait` that are left. `mrapi_impl_test` returns `MRAPI_TRUE` or not at
all, so that no round is followed by another. -/
def waitRounds (q : Requests) (request : ℕ) : ℕ → Option (Requests × wait_status_t × Bool)
  | 0 => some (q, MRAPI_TIMEOUT, false)
  | _ + 1 =>
    if !mrapi_impl_valid_request_hndl q request then
      some (q, .of MRAPI_ERR_REQUEST_INVALID, false)
    else if mrapi_impl_canceled_request q request then
      some (q, MRAPI_ERR_REQUEST_CANCELED, false)
    else (mrapi_impl_test q request).map fun t => (t.1, .of MRAPI_SUCCESS, true)

def mrapi_wait (q : Requests) (request timeout : ℕ) : Option (Requests × wait_status_t × Bool) :=
  waitRounds q request timeout

/-- How a round of `mrapi_wait_any` ends. -/
inductive Round
  | found (q : Requests) (status : mrapi_status_t) (i : ℕ)
  | asserts
  | through (status : wait_status_t) (i : ℕ)

/-- The `for` loop, from position `i`. -/
def waitRound (q : Requests) : List ℕ → ℕ → wait_status_t → Round
  | [], i, status => .through status i
  | request :: requests, i, _ =>
    if !mrapi_impl_valid_request_hndl q request then
      waitRound q requests (i + 1) (.of MRAPI_ERR_REQUEST_INVALID)
    else if mrapi_impl_canceled_request q request then
      waitRound q requests (i + 1) MRAPI_ERR_REQUEST_CANCELED
    else
      match mrapi_impl_test q request with
      | some (q, status) => .found q status i
      | none => .asserts

/-- How `mrapi_wait_any` ends. The index is `none` for `MRAPI_RETURN_VALUE_INVALID`. -/
inductive Waited
  | returned (q : Requests) (status : wait_status_t) (index : Option ℕ)
  | asserts
  /-- more than the given number of rounds -/
  | running

/-- The `do` loop. -/
def anyRounds (q : Requests) (requests : List ℕ) (timeout : ℕ) : ℕ → wait_status_t → Waited
  | 0, _ => .running
  | fuel + 1, status =>
    match waitRound q requests 0 status with
    | .found q status i => .returned q (.of status) (some i)
    | .asserts => .asserts
    | .through status i =>
      -- `i++`, and then `while (i < timeout)`
      if i + 1 < timeout then anyRounds q requests timeout fuel status
      else .returned q status none

def mrapi_wait_any (q : Requests) (requests : List ℕ) (timeout fuel : ℕ) : Waited :=
  anyRounds q requests timeout fuel MRAPI_TIMEOUT

/-- "In our implementation, requests are satisfied immediately and are thus not
cancellable." -/
def mrapi_cancel (q : Requests) (_request : ℕ) : Requests × mrapi_status_t := (q, MRAPI_SUCCESS)

/-! ## Runs -/

/-- A call that returns. -/
inductive RequestCall
  | start (c : Node) (d : Direction) (rmem local_buf : ℕ) (a : Tuple) (fuel : ℕ)
  | test (request : ℕ)
  | wait (request timeout : ℕ)
  | wait_any (requests : List ℕ) (timeout fuel : ℕ)
  | cancel (request : ℕ)

def requestStep (x : Db) (q : Requests) : RequestCall → Option Requests
  | .start c d rmem local_buf a fuel =>
    (d.call_i x q c rmem local_buf a fuel).map Started.requests
  | .test request => (mrapi_test q request).map Prod.fst
  | .wait request timeout => (mrapi_wait q request timeout).map Prod.fst
  | .wait_any requests timeout fuel =>
    match mrapi_wait_any q requests timeout fuel with
    | .returned q _ _ => some q
    | .asserts | .running => none
  | .cancel request => some (mrapi_cancel q request).1

/-- The table after the request was tested. -/
def Requests.freed (q : Requests) (request : ℕ) : Requests :=
  Function.update q (mrapi_impl_decode_hndl request).1 .zero

/-- The status that a transfer has left. -/
def Requests.statusOf (q : Requests) (request : ℕ) : mrapi_status_t :=
  (q (mrapi_impl_decode_hndl request).1).status

/-- What is promised of the calls that wait. None of them ends in an assertion. -/
structure WaitsOk (q : Requests) : Prop where
  test : ∀ request, mrapi_test q request =
    some (if q.names request then (q.freed request, q.statusOf request, true)
      else (q, MRAPI_ERR_REQUEST_INVALID, false))
  wait : ∀ request timeout, mrapi_wait q request timeout =
    some (if timeout = 0 then (q, MRAPI_TIMEOUT, false)
      else if q.names request then (q.freed request, .of MRAPI_SUCCESS, true)
      else (q, .of MRAPI_ERR_REQUEST_INVALID, false))
  /-- the first handle that names a request -/
  wait_any : ∀ before request after timeout fuel, (∀ r ∈ before, q.names r = false) →
    q.names request = true → mrapi_wait_any q (before ++ request :: after) timeout (fuel + 1) =
      .returned (q.freed request) (.of (q.statusOf request)) (some before.length)
  /-- no handle does -/
  wait_none : ∀ requests timeout fuel, (∀ r ∈ requests, q.names r = false) →
    mrapi_wait_any q requests timeout (fuel + 1) =
      if requests.length + 1 < timeout then .running
      else .returned q (if requests = [] then MRAPI_TIMEOUT else .of MRAPI_ERR_REQUEST_INVALID) none

/-! ## The invariant -/

/-- A request that is in use has completed, and the others are zeroed. -/
structure Settled (q : Requests) : Prop where
  done : ∀ r, (q r).valid = true → (q r).completed = true ∧ (q r).cancelled = false
  blank : ∀ r, (q r).valid = false → q r = .zero

variable {q q' t : Requests} {x : Db} {c : Node} {d : Direction} {rmem local_buf fuel : ℕ}
  {a : Tuple} {o : Started} {request : ℕ} {requests : List ℕ}

theorem Settled.init : Settled fun _ => .zero where
  done _ h := by cases h
  blank _ _ := rfl

theorem valid_of_names (h : q.names request = true) :
    (q (mrapi_impl_decode_hndl request).1).valid = true := (Bool.and_eq_true_iff.mp h).2

theorem Settled.impl_test (h : Settled q) (hn : q.names request = true) :
    mrapi_impl_test q request = some (q.freed request, q.statusOf request) := by
  have hdone := (h.done _ (valid_of_names hn)).1
  simp only [mrapi_impl_test, hn, hdone, Bool.and_self, if_true, Requests.freed, Requests.statusOf]

theorem Settled.not_canceled (h : Settled q) (hn : q.names request = true) :
    mrapi_impl_canceled_request q request = false := by
  rw [mrapi_impl_canceled_request, hn, (h.done _ (valid_of_names hn)).2]
  rfl

theorem Settled.freed (h : Settled q) (request : ℕ) : Settled (q.freed request) := by
  constructor
  · intro r hr
    by_cases hreq : r = (mrapi_impl_decode_hndl request).1
    · rw [hreq, Requests.freed, Function.update_self] at hr
      cases hr
    · rw [Requests.freed, Function.update_of_ne hreq] at hr ⊢
      exact h.done r hr
  · intro r hr
    by_cases hreq : r = (mrapi_impl_decode_hndl request).1
    · rw [hreq, Requests.freed, Function.update_self]
    · rw [Requests.freed, Function.update_of_ne hreq] at hr ⊢
      exact h.blank r hr

/-- **A transfer** that was started: its request was zeroed, and it has completed. -/
theorem Settled.started (h : Settled q)
    (ho : d.call_i x q c rmem local_buf a fuel = some o) :
    o.requests = q ∧ o.status ≠ MRAPI_SUCCESS ∨
      ∃ r, r < MRAPI_MAX_REQUESTS ∧ q r = .zero ∧ o.request = mrapi_impl_encode_hndl r ∧
        o.requests = Function.update q r ⟨true, true, false, MRAPI_SUCCESS⟩ ∧
        d.call x c rmem local_buf a fuel = some ⟨MRAPI_SUCCESS, o.moved⟩ := by
  rw [call_i_eq] at ho
  unfold startChecked at ho
  by_cases hcheck : checkTransfer x c rmem a = MRAPI_SUCCESS
  · rw [if_pos hcheck] at ho
    cases hunused : q.unused with
    | none =>
      rw [start_none hunused] at ho
      cases ho
    | some r =>
      obtain ⟨hlt, hfree⟩ := search_some hunused
      rw [start_some hunused] at ho
      obtain ⟨m, hm, rfl⟩ := Option.map_eq_some_iff.mp ho
      refine .inr ⟨r, hlt, h.blank r (by simpa using hfree), rfl, rfl, ?_⟩
      rw [call_checked hcheck, hm]
      rfl
  · rw [if_neg hcheck] at ho
    obtain rfl := Option.some.inj ho
    exact .inl ⟨rfl, hcheck⟩

/-! ## The rounds -/

/-- A round that comes past handles that name no request. -/
theorem waitRound_past {before : List ℕ} (hbefore : ∀ r ∈ before, q.names r = false)
    (after : List ℕ) (i : ℕ) (status : wait_status_t) :
    waitRound q (before ++ after) i status = waitRound q after (i + before.length)
      (if before = [] then status else .of MRAPI_ERR_REQUEST_INVALID) := by
  induction before generalizing i status with
  | nil => rfl
  | cons r before ih =>
    have hr : mrapi_impl_valid_request_hndl q r = false := hbefore r List.mem_cons_self
    rw [List.cons_append, waitRound, hr, Bool.not_false, if_pos rfl,
      ih fun r' hr' => hbefore r' (List.mem_cons_of_mem r hr')]
    have hstatus : (if before = [] then wait_status_t.of MRAPI_ERR_REQUEST_INVALID
        else .of MRAPI_ERR_REQUEST_INVALID) = .of MRAPI_ERR_REQUEST_INVALID := ite_self _
    rw [hstatus, if_neg (List.cons_ne_nil r before), List.length_cons]
    congr 1
    omega

theorem Settled.waits (h : Settled q) : WaitsOk q where
  test request := by
    rw [mrapi_test, mrapi_impl_valid_request_hndl]
    by_cases hn : q.names request = true
    · rw [h.impl_test hn, hn]
      rfl
    · rw [Bool.not_eq_true] at hn
      rw [hn]
      rfl
  wait request timeout := by
    cases timeout with
    | zero => rfl
    | succ timeout =>
      rw [mrapi_wait, waitRounds, mrapi_impl_valid_request_hndl, if_neg (Nat.succ_ne_zero timeout)]
      by_cases hn : q.names request = true
      · rw [h.not_canceled hn, h.impl_test hn, hn]
        rfl
      · rw [Bool.not_eq_true] at hn
        rw [hn]
        rfl
  wait_any before request after timeout fuel hbefore hn := by
    have hround : waitRound q (before ++ request :: after) 0 MRAPI_TIMEOUT =
        .found (q.freed request) (q.statusOf request) before.length := by
      rw [waitRound_past hbefore, waitRound, mrapi_impl_valid_request_hndl, hn, h.not_canceled hn,
        h.impl_test hn, Nat.zero_add]
      rfl
    rw [mrapi_wait_any, anyRounds, hround]
  wait_none requests timeout fuel hnone := by
    -- the table does not change, so that no later round finds anything either
    have hround : ∀ status, waitRound q requests 0 status = .through
        (if requests = [] then status else .of MRAPI_ERR_REQUEST_INVALID) requests.length := by
      intro status
      have hpast := waitRound_past hnone [] 0 status
      rwa [List.append_nil, Nat.zero_add] at hpast
    rw [mrapi_wait_any]
    by_cases hlt : requests.length + 1 < timeout
    · rw [if_pos hlt]
      have hrunning : ∀ status, anyRounds q requests timeout (fuel + 1) status = .running := by
        induction fuel with
        | zero =>
          intro status
          simp only [anyRounds, hround, if_pos hlt]
        | succ fuel ih =>
          intro status
          rw [anyRounds, hround]
          show (if _ then _ else _) = Waited.running
          rw [if_pos hlt, ih]
      exact hrunning _
    · rw [if_neg hlt]
      simp only [anyRounds, hround, if_neg hlt]

/-! ## The results -/

/-- **The step lemma.** -/
theorem Settled.step (h : Settled q) {l : RequestCall} (hstep : requestStep x q l = some t) :
    Settled t := by
  cases l with
  | start c d rmem local_buf a fuel =>
    obtain ⟨o, ho, rfl⟩ := Option.map_eq_some_iff.mp hstep
    obtain ⟨heq, -⟩ | ⟨r, -, hzero, -, heq, -⟩ := h.started ho
    · rwa [heq]
    · rw [heq]
      constructor
      · intro j hj
        by_cases hjr : j = r
        · -- the transfer has completed
          rw [hjr, Function.update_self]
          exact ⟨rfl, rfl⟩
        · rw [Function.update_of_ne hjr] at hj ⊢
          exact h.done j hj
      · intro j hj
        by_cases hjr : j = r
        · rw [hjr, Function.update_self] at hj
          cases hj
        · rw [Function.update_of_ne hjr] at hj ⊢
          exact h.blank j hj
  | test request =>
    rw [requestStep, h.waits.test] at hstep
    obtain rfl := Option.some.inj hstep
    by_cases hn : q.names request = true
    · simpa [hn] using h.freed request
    · simpa [hn] using h
  | wait request timeout =>
    rw [requestStep, h.waits.wait] at hstep
    obtain rfl := Option.some.inj hstep
    by_cases htimeout : timeout = 0
    · simpa [htimeout] using h
    · by_cases hn : q.names request = true
      · simpa [htimeout, hn] using h.freed request
      · simpa [htimeout, hn] using h
  | wait_any requests timeout fuel =>
    cases fuel with
    | zero => cases hstep
    | succ fuel =>
      rw [requestStep] at hstep
      by_cases hsome : ∃ r ∈ requests, q.names r = true
      · -- up to the first handle that names a request
        obtain ⟨request, before, after, rfl, hn, hbefore⟩ :
            ∃ r before after, requests = before ++ r :: after ∧ q.names r = true ∧
              ∀ r' ∈ before, q.names r' = false := by
          obtain ⟨r, hr⟩ := Option.isSome_iff_exists.mp (List.find?_isSome.mpr hsome)
          obtain ⟨hn, before, after, heq, hbefore⟩ := List.find?_eq_some_iff_append.mp hr
          exact ⟨r, before, after, heq, hn, fun r' hr' => by simpa using hbefore r' hr'⟩
        rw [h.waits.wait_any before request after timeout fuel hbefore hn] at hstep
        obtain rfl := Option.some.inj hstep
        exact h.freed request
      · have hnone : ∀ r ∈ requests, q.names r = false := by
          intro r hr
          by_contra hn
          exact hsome ⟨r, hr, Bool.not_eq_false _ ▸ hn⟩
        rw [h.waits.wait_none requests timeout fuel hnone] at hstep
        by_cases hlt : requests.length + 1 < timeout
        · rw [if_pos hlt] at hstep
          cases hstep
        · rw [if_neg hlt] at hstep
          obtain rfl := Option.some.inj hstep
          exact h
  | cancel request =>
    obtain rfl := Option.some.inj hstep
    exact h

theorem settled_run (hrun : Run (requestStep x) (fun _ _ _ => True) (fun _ => .zero) q) :
    Settled q :=
  hrun.invariant (fun _ _ _ h hstep _ => h.step hstep) .init

/-- **A transfer that is waited for** is the call that blocks: it makes the same transfer, and
leaves the requests as they were. -/
theorem wait_ends_transfer {timeout : ℕ}
    (hrun : Run (requestStep x) (fun _ _ _ => True) (fun _ => .zero) q)
    (ho : d.call_i x q c rmem local_buf a fuel = some o) (hstatus : o.status = MRAPI_SUCCESS)
    (htimeout : 0 < timeout) :
    mrapi_wait o.requests o.request timeout = some (q, .of MRAPI_SUCCESS, true) ∧
      d.call x c rmem local_buf a fuel = some ⟨MRAPI_SUCCESS, o.moved⟩ := by
  have hsettled := settled_run hrun
  obtain ⟨-, hne⟩ | ⟨r, hr, hzero, hrequest, hrequests, hcall⟩ := hsettled.started ho
  · exact absurd hstatus hne
  refine ⟨?_, hcall⟩
  have hnext : Settled o.requests := hsettled.step (l := .start c d rmem local_buf a fuel)
    (congrArg (Option.map Started.requests) ho)
  have hdecode : mrapi_impl_decode_hndl o.request = (r, true) := by
    rw [hrequest, decode_encode_hndl (Nat.lt_trans hr (by decide))]
  have hnames : o.requests.names o.request = true := by
    simp [Requests.names, hdecode, hr, hrequests]
  -- the request is zeroed again
  rw [hnext.waits.wait, if_neg (by omega), if_pos hnames, Requests.freed, hdecode, hrequests,
    Function.update_idem, ← hzero, Function.update_eq_self]

theorem write_and_wait :
    ∃ o : Started, mrapi_wait o.requests o.request 1 =
      some ((fun _ => .zero), .of MRAPI_SUCCESS, true) := by
  have hsome : (mrapi_rmem_write_i db16 (fun _ => .zero) node0 (mrapi_impl_encode_hndl 0) 0
      scattered 4).any (fun o => o.status = MRAPI_SUCCESS) = true := by
    decide +kernel
  obtain ⟨o, ho, hstatus⟩ := (Option.any_eq_true _ _).mp hsome
  exact ⟨o, (wait_ends_transfer (d := .write) (.refl _) ho (of_decide_eq_true hstatus)
    Nat.one_pos).1⟩

end MxApi.Transfer
