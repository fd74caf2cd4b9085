/-
A failed initialize, and the identity of a thread.

`mrapi_impl_initialize` sets the identity of its thread and claims entries before it knows
that there is an entry for the domain, the node and the process, and takes nothing back
([`initialize_ok_iff`]). `mrapi_impl_finalize` does not clear the identity either; that
`mrapi_impl_whoami` is false afterwards is due to the pointer of the process, which only its
last node clears ([`finalize_ok_iff`]).
-/
import MxApi.Mrapi.NodeLife

set_option autoImplicit false

namespace MxApi.NodeTable

open Lib
open LockTable (Node MRAPI_MAX_DOMAINS MRAPI_MAX_NODES)

/-! ## What the two calls should do -/

/-- A failure leaves the tables as they were and the thread without an identity; a success
gives it that of a node which is in the tables now. -/
def InitializeOk (w : World) (c : Thread) (domain_id node_id : ℕ) : Prop :=
  ∃ w' ok, mrapi_impl_initialize w c domain_id node_id = some (w', ok) ∧
    (ok = false → w'.db.domains = w.db.domains ∧ w'.db.processes = w.db.processes ∧
      mrapi_impl_whoami w' c = none) ∧
    (ok = true → ∃ me, mrapi_impl_whoami w' c = some me ∧ me.domain_id = domain_id ∧
      me.node_id = node_id ∧ me.d_index < MRAPI_MAX_DOMAINS ∧ me.n_index < MRAPI_MAX_NODES ∧
      (w.db.node me.d_index me.n_index).valid = false ∧
      (w'.db.node me.d_index me.n_index).valid = true ∧
      (w'.db.node me.d_index me.n_index).node_num = node_id ∧
      (w'.db.domains me.d_index).domain_id = domain_id)

/-- The thread has no identity any more, and can be a node again. -/
def FinalizeOk (w : World) (c : Thread) : Prop :=
  ∃ w', mrapi_impl_finalize w c = some w' ∧ mrapi_impl_whoami w' c = none ∧
    ∀ domain_id node_id, Vacant w' c domain_id node_id →
      ∃ w'', mrapi_impl_initialize w' c domain_id node_id = some (w'', true)

/-! ## When they do it -/

section Iff

variable {w : World} {x : Sys} {c : Thread} {domain_id node_id : ℕ}

theorem initialize_ok_iff (hwho : mrapi_impl_whoami w c = none) :
    InitializeOk w c domain_id node_id ↔ Vacant w c domain_id node_id := by
  constructor
  · rintro ⟨w', ok, heq, hfail, -⟩
    by_contra hvacant
    by_cases hroom : Room w c domain_id node_id
    · rw [initialize_not_vacant hwho hroom hvacant] at heq
      cases heq
    · rcases initialize_no_room hwho hroom with hnone | ⟨w₁, hw₁, hknown, -⟩
      · rw [hnone] at heq
        cases heq
      · rw [hw₁] at heq
        obtain ⟨rfl, rfl⟩ := Prod.mk.inj (Option.some.inj heq)
        exact hknown (hfail rfl).2.2
  · intro hvacant
    obtain ⟨d, n, p, w', heq, hd, hn, -, ha⟩ := initialize_room hwho hvacant
    refine ⟨w', true, heq, (fun h => nomatch h), fun _ => ?_⟩
    have hnode := ha.node d n
    rw [if_pos ⟨rfl, rfl⟩] at hnode
    refine ⟨⟨node_id, n, domain_id, d⟩, ?_, rfl, rfl, domainIndex_lt hd, (search_some hn).1,
      hvacant.2 d hd n hn, ?_, ?_, ha.domain⟩
    · have hattached : w'.mrapi_db c.pid = true := by
        rw [ha.mrapi_db]
        exact Function.update_self ..
      unfold mrapi_impl_whoami
      rw [hattached, ha.tls, Function.update_self, if_neg (by decide)]
      exact if_neg (fun h => nomatch h)
    · rw [hnode]
    · rw [hnode]

/-- The thread has its identity until the process loses the pointer to the database. -/
theorem whoami_detached {w' : World} {last lastForThisProcess : Bool}
    (hattached : w.mrapi_db c.pid = true) (hpid : (w.tls c).mrapi_pid = some c.pid)
    (hd : Detached w c.pid last lastForThisProcess w') :
    mrapi_impl_whoami w' c = none ↔ lastForThisProcess = true := by
  unfold mrapi_impl_whoami
  rw [hd.mrapi_db, hd.tls, hpid]
  cases lastForThisProcess with
  | true =>
    rw [if_pos rfl, Function.update_self, if_pos rfl]
    exact ⟨fun _ => rfl, fun _ => rfl⟩
  | false =>
    have hkept : (if false = true then Function.update w.mrapi_db c.pid false else w.mrapi_db) c.pid
        = true := hattached
    rw [hkept, if_neg (by decide), if_neg (fun h => nomatch h)]
    exact ⟨(fun h => nomatch h), (fun h => nomatch h)⟩

theorem finalize_ok_iff (h : Registry x) (hc : x.Registered c) :
    FinalizeOk x.w c ↔ ∀ c', x.Registered c' → c'.pid = c.pid → c' = c := by
  obtain ⟨i, hi⟩ := hc
  obtain ⟨w₁, w', hf, heq, hd⟩ := h.finalize hi
  have hfinalize : mrapi_impl_finalize x.w c = some w' := by
    unfold mrapi_impl_finalize
    rw [heq]
    rfl
  have hn := h.named i c hi
  have hwho : mrapi_impl_whoami w' c = none ↔
      ∀ j c', (x.without w₁ i).thread j = some c' → c'.pid ≠ c.pid := by
    rw [← (h.finalize_node hi hf).lastManStandingForThisProcess]
    apply whoami_detached _ _ hd
    · rw [hf.mrapi_db]
      exact hn.attached
    · rw [hf.tls]
      exact hn.pid
  -- who is left after the node is gone
  have hleft : (∀ j c', (x.without w₁ i).thread j = some c' → c'.pid ≠ c.pid) ↔
      ∀ c', x.Registered c' → c'.pid = c.pid → c' = c := by
    rw [h.without_thread hi]
    constructor
    · rintro hnone c' ⟨j, hj⟩ hpid
      by_contra hne
      apply hnone j c' _ hpid
      dsimp only
      rw [if_neg, hj]
      rw [hj]
      exact fun hcc => hne (Option.some.inj hcc)
    · intro honly j c' hj hpid
      dsimp only at hj
      split at hj
      · cases hj
      · rename_i hne
        rw [honly c' ⟨j, hj⟩ hpid] at hj
        exact hne hj
  rw [← hleft, ← hwho]
  constructor
  · rintro ⟨w'', heq', hnone, -⟩
    rw [hfinalize] at heq'
    cases heq'
    exact hnone
  · intro hnone
    refine ⟨w', hfinalize, hnone, ?_⟩
    intro domain_id node_id hvacant
    obtain ⟨-, -, -, w'', hw'', -⟩ := initialize_room hnone hvacant
    exact ⟨w'', hw''⟩

end Iff

/-! ## The two calls -/

/-- **When initialize and finalize are atomic**: an initialize, in every state of the database,
exactly where there is room; a finalize exactly when its thread is the last node of its
process. -/
theorem initialize_finalize_ok {w : World} {c : Thread} {domain_id node_id : ℕ}
    (hwho : mrapi_impl_whoami w c = none) {x : Sys}
    (h : Run step (fun x a _ => Calls x a) Sys.initial x) {c' : Thread}
    (hc : x.Registered c') :
    (InitializeOk w c domain_id node_id ↔ Vacant w c domain_id node_id) ∧
      (FinalizeOk x.w c' ↔ ∀ c'', x.Registered c'' → c''.pid = c'.pid → c'' = c') :=
  ⟨initialize_ok_iff hwho, finalize_ok_iff (registry_run h) hc⟩

/-- Two processes, one node each: a third node has room, and a finalize is complete. -/
theorem initialize_finalize_ok_two :
    ∃ x : Sys, Run step (fun x a _ => Calls x a) Sys.initial x ∧
      InitializeOk x.w thread12 1 3 ∧ FinalizeOk x.w thread21 := by
  have hexec : (exec step (fun x a _ => decide (Calls x a)) Sys.initial
      [.start thread11 1 1, .start thread21 1 2]).any
      (fun x => decide (mrapi_impl_whoami x.w thread12 = none) &&
        decide (Vacant x.w thread12 1 3) && decide (x.Registered thread21) &&
        decide (∀ i, (x.thread i).all fun c' => c'.pid != 2 || c' == thread21)) = true := by
    decide +kernel
  obtain ⟨x, hrun, hx⟩ := exec_run_of_any hexec
  simp only [Bool.and_eq_true, decide_eq_true_eq] at hx
  obtain ⟨⟨⟨hwho, hvacant⟩, hregistered⟩, honly⟩ := hx
  have hrun' : Run step (fun x a _ => Calls x a) Sys.initial x :=
    hrun.mono fun _ _ _ hg => of_decide_eq_true hg
  obtain ⟨hinit, hfinalize⟩ := @initialize_finalize_ok x.w thread12 1 3 hwho x hrun'
    thread21 hregistered
  refine ⟨x, hrun', hinit.mpr hvacant, hfinalize.mpr ?_⟩
  rintro c' ⟨i, hi⟩ hpid
  have hi' := honly i
  rw [hi, Option.all_some, Bool.or_eq_true, bne_iff_ne, beq_iff_eq] at hi'
  exact hi'.resolve_left fun hne => hne hpid

/-- **A pair that is registered already**: the failed call leaves its thread with an identity.
And a node that finalizes while its process has another one keeps its identity. -/
theorem identity_of_no_node :
    ∃ x : Sys, Run step (fun x a _ => Calls x a) Sys.initial x ∧
      mrapi_impl_whoami x.w thread21 = none ∧ ¬ InitializeOk x.w thread21 1 1 ∧
      x.Registered thread11 ∧ ¬ FinalizeOk x.w thread11 := by
  have hexec : (exec step (fun x a _ => decide (Calls x a)) Sys.initial
      [.start thread11 1 1, .start thread12 1 2]).any
      (fun x => decide (mrapi_impl_whoami x.w thread21 = none) &&
        !decide (Vacant x.w thread21 1 1) && decide (x.Registered thread11) &&
        decide (x.Registered thread12)) = true := by
    decide +kernel
  obtain ⟨x, hrun, hx⟩ := exec_run_of_any hexec
  simp only [Bool.and_eq_true, decide_eq_true_eq, Bool.not_eq_true', decide_eq_false_iff_not] at hx
  obtain ⟨⟨⟨hwho, hvacant⟩, hfirst⟩, hsecond⟩ := hx
  have hrun' : Run step (fun x a _ => Calls x a) Sys.initial x :=
    hrun.mono fun _ _ _ hg => of_decide_eq_true hg
  refine ⟨x, hrun', hwho, ?_, hfirst, ?_⟩
  · rw [initialize_ok_iff hwho]
    exact hvacant
  · rw [finalize_ok_iff (registry_run hrun') hfirst]
    intro honly
    exact absurd (honly thread12 hsecond rfl) (by decide)

end MxApi.NodeTable
