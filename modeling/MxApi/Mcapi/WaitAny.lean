/-
`mcapi_trans_wait_any` (`Fragments/transport_sm_wait_abb.c`) with its timeout.

The timeout counts the passes over the list, but it is tested after every request of a
pass. So a wait that may make one pass gives up after its first test, and the requests
after the first are not looked at ([`wait_any_finds_iff`]).

The tests are numbered through all passes; test `n` is of the request at position
`n % requests.length`. Whether a pending request can be completed when it is tested is
the parameter `found`, by the number of the test.
-/
import MxApi.Lib.Word
import MxApi.Mcapi.RequestLifeCycle

set_option autoImplicit false

namespace MxApi.WaitAny

open Lib mcapi_request_state CallStatus

/-- `~0` as an `mcapi_timeout_t`. -/
def MCA_INFINITE : ℕ := 2 ^ 32 - 1

/-- What a wait returns: the table, the index (`none` is `MCA_RETURN_VALUE_INVALID`),
`*mcapi_status`, whether it is the result of a request, stored with its size, and the
number of tests that were made. -/
structure Waited where
  table : RequestLog
  index : Option ℕ
  status : CallStatus
  stored : Bool
  tests : ℕ

/-! ## The function -/

/-- One pass over the list from position `i` on: the wait is over, or all were tested. -/
def scan (found : ℕ → Option Found) (timeout time : ℕ) :
    RequestLog → ℕ → ℕ → List ℕ → Option (Waited ⊕ RequestLog × ℕ)
  | s, n, _, [] => some (.inr (s, n))
  | s, n, i, request :: requests =>
    match mcapi_trans_test_i s request (found n) with
    | none => none
    | some (s, answer) =>
      if answer.rc then some (.inl ⟨s, some i, answer.status, answer.cleared, n + 1⟩)
      else if timeout ≠ MCA_INFINITE ∧ time ≥ timeout then
        some (.inl ⟨s, none, MCAPI_TIMEOUT, false, n + 1⟩)
      else scan found timeout time s (n + 1) (i + 1) requests

/-- The loop, for at most so many passes; `none` where it has not returned by then. -/
def passes (requests : List ℕ) (found : ℕ → Option Found) (timeout : ℕ) :
    ℕ → RequestLog → ℕ → ℕ → Option Waited
  | 0, _, _, _ => none
  | fuel + 1, s, n, time =>
    let time := u32 (time + 1)
    match scan found timeout time s n 0 requests with
    | none => none
    | some (.inl w) => some w
    | some (.inr (s, n)) => passes requests found timeout fuel s n time

def mcapi_trans_wait_any (fuel : ℕ) (s : RequestLog) (requests : List ℕ)
    (found : ℕ → Option Found) (timeout : ℕ) : Option Waited :=
  passes requests found timeout fuel s 0 0

/-! ## What is expected -/

/-- The request is finished, or can be completed. -/
def Finishes (s : RequestLog) (request : ℕ) (found : Option Found) : Prop :=
  ∃ r, Outstanding s request r ∧ (requestResult s r found).isSome = true

/-- Every handle of the list is that of a request. -/
def Listed (s : RequestLog) (requests : List ℕ) : Prop :=
  ∀ request ∈ requests, ∃ r, Outstanding s request r

/-- If a request of the list finishes when it is called, the wait returns the position of
one whose result it stored. It gives up only if every request was tested and found
unfinished. -/
structure FindsFinished (s : RequestLog) (requests : List ℕ) (found : ℕ → Option Found)
    (timeout : ℕ) : Prop where
  finds : (∃ i request, requests[i]? = some request ∧ Finishes s request (found i)) →
    ∃ fuel w i request r, mcapi_trans_wait_any fuel s requests found timeout = some w ∧
      w.index = some i ∧ requests[i]? = some request ∧ Outstanding s request r ∧
      requestResult s r (found i) = some w.status ∧ w.stored = true
  gives_up : ∀ fuel w, mcapi_trans_wait_any fuel s requests found timeout = some w →
    w.index = none → ∀ j request, requests[j]? = some request →
      ∃ n < w.tests, n % requests.length = j ∧ ¬ Finishes s request (found n)

/-! ## One test -/

section Tests

variable {s : RequestLog} {requests : List ℕ} {found : ℕ → Option Found} {timeout time : ℕ}
  {request : ℕ} {f : Option Found}

theorem test_finishes (hs : Settled s) (h : Finishes s request f) :
    ∃ s' r status, mcapi_trans_test_i s request f = some (s', ⟨true, status, true⟩) ∧
      Outstanding s request r ∧ requestResult s r f = some status := by
  obtain ⟨r, ho, hres⟩ := h
  obtain ⟨status, hstatus⟩ := Option.isSome_iff_exists.mp hres
  obtain ⟨s', htest, -⟩ := test_of_result hs ho.decode ho.2.2 hstatus
  exact ⟨s', r, status, htest, ho, hstatus⟩

theorem test_unfinished (hs : Settled s) (hlisted : ∃ r, Outstanding s request r)
    (h : ¬ Finishes s request f) :
    mcapi_trans_test_i s request f = some (s, ⟨false, MCAPI_SUCCESS, false⟩) := by
  obtain ⟨r, ho⟩ := hlisted
  apply test_of_pending hs ho.decode ho.2.2
  rw [← Option.not_isSome_iff_eq_none]
  exact fun hres => h ⟨r, ho, hres⟩

/-! ## One pass -/

/-- A pass that may not give up returns at the first request that finishes, or passes by
all of them. -/
theorem scan_cases (found : ℕ → Option Found) (hs : Settled s)
    (hwaits : ¬ (timeout ≠ MCA_INFINITE ∧ time ≥ timeout)) :
    ∀ (requests : List ℕ) (n i : ℕ), Listed s requests →
      (∃ w j request r, scan found timeout time s n i requests = some (.inl w) ∧
        w.index = some (i + j) ∧ requests[j]? = some request ∧ Outstanding s request r ∧
        requestResult s r (found (n + j)) = some w.status ∧ w.stored = true) ∨
      scan found timeout time s n i requests = some (.inr (s, n + requests.length)) ∧
        ∀ j request, requests[j]? = some request → ¬ Finishes s request (found (n + j))
  | [], n, i, _ => by
    refine .inr ⟨rfl, ?_⟩
    intro j request h
    cases h
  | request :: requests, n, i, hlisted => by
    by_cases hfin : Finishes s request (found n)
    · obtain ⟨s', r, status, htest, ho, hres⟩ := test_finishes hs hfin
      refine .inl ⟨⟨s', some i, status, true, n + 1⟩, 0, request, r, ?_, rfl, rfl, ho, hres, rfl⟩
      simp only [scan, htest, if_true]
    · have htest := test_unfinished hs (hlisted request (List.mem_cons_self ..)) hfin
      have hscan : scan found timeout time s n i (request :: requests) =
          scan found timeout time s (n + 1) (i + 1) requests := by
        simp only [scan, htest, Bool.false_eq_true, if_false, if_neg hwaits]
      have hrest : Listed s requests := fun x hx => hlisted x (List.mem_cons_of_mem _ hx)
      have hshift : ∀ j, n + 1 + j = n + (j + 1) := fun j => by omega
      rw [hscan]
      rcases scan_cases found hs hwaits requests (n + 1) (i + 1) hrest with
        ⟨w, j, x, r, hw, hi, hx, ho, hres, hst⟩ | ⟨hpassed, hall⟩
      · refine .inl ⟨w, j + 1, x, r, hw, ?_, hx, ho, ?_, hst⟩
        · rw [hi]
          congr 1
          omega
        · rw [← hshift]
          exact hres
      · refine .inr ⟨?_, ?_⟩
        · rw [hpassed, List.length_cons, hshift]
        · intro j x hx
          cases j with
          | zero =>
            obtain rfl := Option.some.inj hx
            exact hfin
          | succ j =>
            rw [← hshift]
            exact hall j x hx

/-- The tests of a pass are counted. -/
theorem scan_tests (found : ℕ → Option Found) (timeout time : ℕ) : ∀ (requests : List ℕ) (s : RequestLog) (n i : ℕ),
    (∀ w, scan found timeout time s n i requests = some (.inl w) → n ≤ w.tests) ∧
      ∀ s' n', scan found timeout time s n i requests = some (.inr (s', n')) → n ≤ n'
  | [], s, n, i => by
    refine ⟨nofun, ?_⟩
    intro s' n' h
    rw [scan, Option.some.injEq, Sum.inr.injEq, Prod.mk.injEq] at h
    exact h.2.le
  | request :: requests, s, n, i => by
    rw [scan]
    cases htest : mcapi_trans_test_i s request (found n) with
    | none => exact ⟨nofun, nofun⟩
    | some p =>
      obtain ⟨t, answer⟩ := p
      dsimp only
      split
      · refine ⟨?_, nofun⟩
        rintro w ⟨⟩
        exact Nat.le_succ n
      · split
        · refine ⟨?_, nofun⟩
          rintro w ⟨⟩
          exact Nat.le_succ n
        · obtain ⟨hw, hp⟩ := scan_tests found timeout time requests t (n + 1) (i + 1)
          exact ⟨fun w h => Nat.le_of_succ_le (hw w h),
            fun s' n' h => Nat.le_of_succ_le (hp s' n' h)⟩

/-- So are those of all passes. -/
theorem passes_tests : ∀ (fuel : ℕ) (s : RequestLog) (n time : ℕ) (w : Waited),
    passes requests found timeout fuel s n time = some w → n ≤ w.tests
  | 0, _, _, _, _, h => by cases h
  | fuel + 1, s, n, time, w, h => by
    obtain ⟨hw, hp⟩ := scan_tests found timeout (u32 (time + 1)) requests s n 0
    rw [passes] at h
    split at h
    · cases h
    · rename_i w' hscan
      obtain rfl := Option.some.inj h
      exact hw _ hscan
    · rename_i s' n' hscan
      exact (hp s' n' hscan).trans (passes_tests fuel s' n' _ w h)

/-! ## The whole wait -/

/-- A wait whose first pass may not give up finds a finished request in that pass, or
leaves it with every request tested. -/
theorem findsFinished_of_waits (hs : Settled s) (hlisted : Listed s requests)
    (hwaits : ¬ (timeout ≠ MCA_INFINITE ∧ u32 (0 + 1) ≥ timeout)) :
    FindsFinished s requests found timeout := by
  rcases scan_cases found hs hwaits requests 0 0 hlisted with
    ⟨w, i, request, r, hscan, hi, hx, ho, hres, hst⟩ | ⟨hpassed, hall⟩
  · rw [Nat.zero_add] at hi hres
    constructor
    · intro _
      refine ⟨1, w, i, request, r, ?_, hi, hx, ho, hres, hst⟩
      simp only [mcapi_trans_wait_any, passes, hscan]
    · intro fuel w' hw' hnone
      cases fuel with
      | zero => cases hw'
      | succ fuel =>
        simp only [mcapi_trans_wait_any, passes, hscan] at hw'
        obtain rfl := Option.some.inj hw'
        rw [hi] at hnone
        cases hnone
  · constructor
    · rintro ⟨i, request, hx, hfin⟩
      have hnot := hall i request hx
      rw [Nat.zero_add] at hnot
      exact absurd hfin hnot
    · intro fuel w' hw' _ j request hx
      cases fuel with
      | zero => cases hw'
      | succ fuel =>
        simp only [mcapi_trans_wait_any, passes, hpassed] at hw'
        have htests := passes_tests _ _ _ _ _ hw'
        obtain ⟨hj, -⟩ := List.getElem?_eq_some_iff.mp hx
        have hnot := hall j request hx
        rw [Nat.zero_add] at htests hnot
        exact ⟨j, hj.trans_le htests, Nat.mod_eq_of_lt hj, hnot⟩

/-- With a timeout of one the first request alone decides. -/
theorem scan_once (found : ℕ → Option Found) (rest : List ℕ) (hs : Settled s) (hlisted : ∃ r, Outstanding s request r)
    (hfin : ¬ Finishes s request (found 0)) :
    scan found 1 (u32 (0 + 1)) s 0 0 (request :: rest) =
      some (.inl ⟨s, none, MCAPI_TIMEOUT, false, 1⟩) := by
  have htime : (1 : ℕ) ≠ MCA_INFINITE ∧ u32 (0 + 1) ≥ 1 := by
    simp [MCA_INFINITE, u32]
  have htest := test_unfinished hs hlisted hfin
  simp only [scan, htest, Bool.false_eq_true, if_false, if_pos htime]

end Tests

variable {s : RequestLog} {requests : List ℕ} {found : ℕ → Option Found} {timeout : ℕ}

/-- **`mcapi_trans_wait_any` finds a finished request unless it may make one pass only**:
then just the first request of the list is looked at. -/
theorem wait_any_finds_iff (hs : Settled s) (hlisted : Listed s requests) (h₁ : 1 ≤ timeout) :
    FindsFinished s requests found timeout ↔
      timeout ≠ 1 ∨ requests.length ≤ 1 ∨
        ∃ request, requests[0]? = some request ∧ Finishes s request (found 0) := by
  have hone : u32 (0 + 1) = 1 := by simp [u32]
  by_cases htime : timeout = 1
  · subst htime
    cases requests with
    | nil =>
      -- nothing is tested, and the loop never ends
      have hlisted : ∀ fuel n time, passes [] found 1 fuel s n time = none := by
        intro fuel
        induction fuel with
        | zero => exact fun _ _ => rfl
        | succ fuel ih =>
          intro n time
          simp only [passes, scan]
          exact ih n _
      refine ⟨fun _ => .inr (.inl (Nat.zero_le 1)), fun _ => ⟨?_, ?_⟩⟩
      · rintro ⟨i, request, hx, -⟩
        simp at hx
      · intro fuel w hw
        rw [mcapi_trans_wait_any, hlisted] at hw
        cases hw
    | cons request rest =>
      have hreq := hlisted request (List.mem_cons_self ..)
      by_cases hfin : Finishes s request (found 0)
      · refine ⟨fun _ => .inr (.inr ⟨request, rfl, hfin⟩), fun _ => ?_⟩
        obtain ⟨s', r, status, htest, ho, hres⟩ := test_finishes hs hfin
        have hscan : ∀ time, scan found 1 time s 0 0 (request :: rest) =
            some (.inl ⟨s', some 0, status, true, 1⟩) := by
          intro time
          simp only [scan, htest, if_true]
        constructor
        · intro _
          refine ⟨1, ⟨s', some 0, status, true, 1⟩, 0, request, r, ?_, rfl, rfl, ho, hres, rfl⟩
          simp only [mcapi_trans_wait_any, passes, hscan]
        · intro fuel w hw hnone
          cases fuel with
          | zero => cases hw
          | succ fuel =>
            simp only [mcapi_trans_wait_any, passes, hscan] at hw
            obtain rfl := Option.some.inj hw
            cases hnone
      · have hscan := scan_once found rest hs hreq hfin
        have hrun : ∀ fuel w, mcapi_trans_wait_any fuel s (request :: rest) found 1 = some w →
            w = ⟨s, none, MCAPI_TIMEOUT, false, 1⟩ := by
          intro fuel w hw
          cases fuel with
          | zero => cases hw
          | succ fuel =>
            simp only [mcapi_trans_wait_any, passes, hscan] at hw
            exact (Option.some.inj hw).symm
        constructor
        · intro hfinds
          -- the second request is not among those tested
          right
          left
          by_contra hlen
          have hone_lt : 1 < (request :: rest).length := by omega
          have hgave : mcapi_trans_wait_any 1 s (request :: rest) found 1 =
              some ⟨s, none, MCAPI_TIMEOUT, false, 1⟩ := by
            simp only [mcapi_trans_wait_any, passes, hscan]
          obtain ⟨n, hn, hmod, -⟩ := hfinds.gives_up 1 _ hgave rfl 1 _
            (List.getElem?_eq_getElem hone_lt)
          obtain rfl : n = 0 := Nat.lt_one_iff.mp hn
          rw [Nat.zero_mod] at hmod
          cases hmod
        · rintro (h | hlen | ⟨x, hx, hfin'⟩)
          · exact absurd rfl h
          · obtain rfl : rest = [] := by
              apply List.eq_nil_of_length_eq_zero
              rw [List.length_cons] at hlen
              omega
            constructor
            · rintro ⟨i, x, hx, hx'⟩
              cases i with
              | zero =>
                obtain rfl := Option.some.inj hx
                exact absurd hx' hfin
              | succ i => simp at hx
            · intro fuel w hw _ j x hx
              obtain rfl := hrun fuel w hw
              cases j with
              | zero =>
                obtain rfl := Option.some.inj hx
                exact ⟨0, Nat.one_pos, rfl, hfin⟩
              | succ j => simp at hx
          · obtain rfl := Option.some.inj hx
            exact absurd hfin' hfin
  · refine ⟨fun _ => .inl htime, fun _ => findsFinished_of_waits hs hlisted ?_⟩
    rintro ⟨-, hge⟩
    rw [hone] at hge
    omega

/-! ## A finished request behind a pending one -/

/-- Request 0 is a receive that waits, request 1 a send that is done. -/
def behindPending : RequestLog where
  data := fun r =>
    if r = 0 then ⟨REQUEST_VALID, MCAPI_SUCCESS, .RECV, 0⟩
    else if r = 1 then ⟨REQUEST_COMPLETED, MCAPI_SUCCESS, .SEND, 0⟩
    else ⟨REQUEST_FREE, MCAPI_SUCCESS, .OTHER, 0⟩
  moves := []
  issued := fun _ => 0
  reported := fun _ => 0

theorem behindPending_settled : Settled behindPending := by
  intro r
  by_cases h₀ : r = 0
  · subst h₀
    exact ⟨.RECV, rfl⟩
  · by_cases h₁ : r = 1
    · subst h₁
      trivial
    · simp [behindPending, h₀, h₁]

theorem behindPending_outstanding {r : ℕ} (h : r < 2) :
    Outstanding behindPending (requestHandle r) r := by
  refine ⟨h.trans (by decide), rfl, ?_⟩
  obtain rfl | rfl : r = 0 ∨ r = 1 := by omega
  · simp [behindPending]
  · simp [behindPending]

theorem behindPending_listed : Listed behindPending [requestHandle 0, requestHandle 1] := by
  intro request hmem
  rw [List.mem_cons, List.mem_singleton] at hmem
  rcases hmem with rfl | rfl
  · exact ⟨0, behindPending_outstanding (by omega)⟩
  · exact ⟨1, behindPending_outstanding (by omega)⟩

/-- The receive cannot be completed. -/
theorem behindPending_waits : ¬ Finishes behindPending (requestHandle 0) none := by
  rintro ⟨r, ⟨hr, heq, -⟩, hres⟩
  obtain rfl := requestHandle_inj (by decide) hr heq
  revert hres
  simp [requestResult, behindPending]

/-- With a timeout of two the send is found. -/
theorem wait_any_finds_two : Settled behindPending ∧
    Listed behindPending [requestHandle 0, requestHandle 1] ∧ 1 ≤ 2 ∧
    (FindsFinished behindPending [requestHandle 0, requestHandle 1] (fun _ => none) 2 ↔
      2 ≠ 1 ∨ [requestHandle 0, requestHandle 1].length ≤ 1 ∨
        ∃ request, [requestHandle 0, requestHandle 1][0]? = some request ∧
          Finishes behindPending request none) :=
  ⟨behindPending_settled, behindPending_listed, by decide,
    wait_any_finds_iff behindPending_settled behindPending_listed (by decide)⟩

/-- With a timeout of one it is not: the wait gives up after the receive. -/
theorem wait_any_misses : Settled behindPending ∧
    Listed behindPending [requestHandle 0, requestHandle 1] ∧
    Finishes behindPending (requestHandle 1) none ∧
    mcapi_trans_wait_any 1 behindPending [requestHandle 0, requestHandle 1] (fun _ => none) 1 =
      some ⟨behindPending, none, MCAPI_TIMEOUT, false, 1⟩ ∧
    ¬ FindsFinished behindPending [requestHandle 0, requestHandle 1] (fun _ => none) 1 := by
  have hwait : mcapi_trans_wait_any 1 behindPending [requestHandle 0, requestHandle 1]
      (fun _ => none) 1 = some ⟨behindPending, none, MCAPI_TIMEOUT, false, 1⟩ := by
    have hscan := scan_once (fun _ => none) [requestHandle 1] behindPending_settled
      ⟨0, behindPending_outstanding (by omega)⟩ behindPending_waits
    simp only [mcapi_trans_wait_any, passes, hscan]
  refine ⟨behindPending_settled, behindPending_listed, ?_, hwait, ?_⟩
  · exact ⟨1, behindPending_outstanding (by omega), rfl⟩
  · intro h
    obtain ⟨n, hn, hmod, -⟩ := h.gives_up 1 _ hwait rfl 1 (requestHandle 1) rfl
    obtain rfl : n = 0 := Nat.lt_one_iff.mp hn
    cases hmod

end MxApi.WaitAny
