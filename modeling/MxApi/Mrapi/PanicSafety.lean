/-
The clean-up after a signal, `mrapi_impl_free_resources` with `panic`.

A registered thread takes out its own node first and then all others of its process, each
through the process entry that it points to, which stays until the last of them is gone. A
thread that was never initialised has no index of a process entry: where its process uses the
database it clears an entry outside the table ([`panic_stranger_iff`]).
-/
import MxApi.Mrapi.NodeIdentity

set_option autoImplicit false

namespace MxApi.NodeTable

open Lib
open LockTable (Node MRAPI_MAX_DOMAINS MRAPI_MAX_NODES)

/-! ## What the clean-up should do -/

/-- Afterwards nothing of the process is left, nothing of another one has changed, and the
result says whether there is another one. -/
def PanicOk (w : World) (c : Thread) : Prop :=
  ∃ w' last, mrapi_impl_free_resources true w c = some (w', last) ∧
    (∀ d n, (w'.db.node d n).valid = true → w'.db.pidOf d n ≠ c.pid) ∧
    (∀ p, (w.db.processes p).pid = c.pid → w'.db.processes p = .zero) ∧
    (∀ d n, (w.db.node d n).valid = true → w.db.pidOf d n ≠ c.pid →
      w'.db.node d n = w.db.node d n) ∧
    (∀ p, (w.db.processes p).pid ≠ c.pid → w'.db.processes p = w.db.processes p) ∧
    (last = false → (∀ s, (w'.db.shmems s).refs = (w.db.shmems s).refs) ∧
      (∀ s, (w'.db.sems s).refs = (w.db.sems s).refs)) ∧
    (last = true ↔ ∀ d n, (w.db.node d n).valid = true → w.db.pidOf d n = c.pid)

section Threads

variable {x : Sys} {c : Thread} {pid : ℕ}

/-- After its nodes are gone nothing of the process is left. -/
theorem Less.panicOk (h : Registry x) {x' : Sys} (h' : Registry x') (hl : Less c.pid x x')
    (hnone : ∀ j c', x'.thread j = some c' → c'.pid ≠ c.pid) {w' : World}
    (heq : mrapi_impl_free_resources true x.w c = some (w', lastManStanding x'.w.db))
    (hdb : w'.db = if lastManStanding x'.w.db then .zero else x'.w.db) : PanicOk x.w c := by
  -- the nodes that stay are those of the other processes
  have hkept : ∀ d n, (x.w.db.node d n).valid = true → x.w.db.pidOf d n ≠ c.pid →
      ∃ j c', j.dindex = d ∧ j.nindex = n ∧ x.thread j = some c' ∧ c'.pid ≠ c.pid := by
    intro d n hv hpid
    obtain ⟨j, c', rfl, rfl, hj⟩ := h.exists_thread hv
    rw [h.pidOf hj] at hpid
    exact ⟨j, c', rfl, rfl, hj, hpid⟩
  have hempty : ∀ p, (x.w.db.processes p).pid = c.pid → x'.w.db.processes p = .zero := by
    intro p hp
    apply (h'.processes p).empty
    rw [← Bool.not_eq_true]
    intro hv
    exact h'.no_entry hnone hv ((hl.process_pid p hv).2.trans hp)
  refine ⟨w', lastManStanding x'.w.db, heq, ?_, ?_, ?_, ?_, ?_, ?_⟩
  · intro d n hv
    rw [hdb] at hv ⊢
    split at hv
    · cases hv
    · rename_i hlast
      rw [if_neg hlast]
      obtain ⟨j, c', rfl, rfl, hj⟩ := h'.exists_thread hv
      rw [h'.pidOf hj]
      exact hnone j c' hj
  · intro p hp
    rw [hdb]
    split
    · rfl
    · exact hempty p hp
  · intro d n hv hpid
    obtain ⟨j, c', rfl, rfl, hj, hc'⟩ := hkept d n hv hpid
    rw [hdb, if_neg]
    · exact hl.node j c' hj hc'
    · intro hlast
      have hgone := h'.lastManStanding.mp hlast j
      rw [hl.thread j c' hj hc'] at hgone
      cases hgone
  · intro p hp
    rw [hdb]
    split
    · rename_i hlast
      -- an entry of another process counts a node
      have hzero := hl.processes p hp
      have hnot : (x'.w.db.processes p).valid = false := by
        rw [← Bool.not_eq_true]
        intro hv
        apply h'.no_entry _ hv rfl
        intro j c' hj
        rw [h'.lastManStanding.mp hlast] at hj
        cases hj
      rw [← hzero, (h'.processes p).empty hnot]
      rfl
    · exact hl.processes p hp
  · intro hlast
    rw [hdb, hlast, if_neg (by decide)]
    refine ⟨fun s => (hl.shmems s).1, fun s => ?_⟩
    rw [hl.sems]
  · rw [h'.lastManStanding]
    constructor
    · intro hall d n hv
      by_contra hpid
      obtain ⟨j, c', -, -, hj, hc'⟩ := hkept d n hv hpid
      have hgone := hall j
      rw [hl.thread j c' hj hc'] at hgone
      cases hgone
    · intro hall j
      cases hj : x'.thread j with
      | none => rfl
      | some c' =>
        have hold := hl.gone j c' hj
        have hpid := hall j.dindex j.nindex (h.thread_valid hold)
        rw [h.pidOf hold] at hpid
        exact absurd hpid (hnone j c' hj)

theorem panic_registered (h : Registry x) (hc : x.Registered c) : PanicOk x.w c := by
  obtain ⟨i, hi⟩ := hc
  obtain ⟨x', w', h', hl, hnone, heq, hd⟩ := h.panic hi
  exact hl.panicOk h h' hnone heq hd.db

/-! ## Threads that were never initialised -/

/-- Where no process id is stored, no index is. -/
def Strangers (w : World) : Prop :=
  ∀ c, (w.tls c).mrapi_pid = none → (w.tls c).mrapi_pindex = unsigned_minus_one

theorem Strangers.step (hs : Strangers x.w) (h : Registry x) {a : Label} {x' : Sys}
    (hcall : Calls x a) (hstep : NodeTable.step x a = some x') : Strangers x'.w := by
  have hsame : x'.w.tls = x.w.tls → Strangers x'.w := by
    intro htls c hc
    rw [htls] at hc ⊢
    exact hs c hc
  have hone : ∀ c' : Thread, (x'.w.tls c').mrapi_pid ≠ none →
      (∀ c, c ≠ c' → x'.w.tls c = x.w.tls c) → Strangers x'.w := by
    intro c' hc' htls c hc
    have hne : c ≠ c' := by
      rintro rfl
      exact hc' hc
    rw [htls c hne] at hc ⊢
    exact hs c hc
  cases a with
  | start c domain_id node_id =>
    cases h.initialized hstep with
    | again => exact hs
    | tried w' hwho ht =>
      apply hone c _ ht.tls
      rw [ht.pid]
      exact nofun
    | added w' i p hwho hn hp ha =>
      apply hone c
      · change (w'.tls c).mrapi_pid ≠ none
        rw [ha.tls, Function.update_self]
        exact (fun h => nomatch h)
      · intro c' hc'
        change w'.tls c' = x.w.tls c'
        rw [ha.tls, Function.update_of_ne hc']
  | finalize c =>
    obtain ⟨i, hi⟩ := hcall
    obtain ⟨w₁, hf, -, hd⟩ := h.finalize_step hi hstep
    exact hsame (hd.tls.trans hf.tls)
  | panic c =>
    obtain ⟨i, hi⟩ := hcall
    obtain ⟨x₁, w', -, hl, -, heq, hd⟩ := h.panic hi
    dsimp only [NodeTable.step] at hstep
    rw [heq] at hstep
    obtain rfl := Option.some.inj hstep
    exact hsame (hd.tls.trans hl.tls)
  | use c call =>
    obtain rfl := Option.some.inj hstep
    exact hsame (Aside.run x.w c call).tls

/-- A thread that was never initialised clears a process entry outside the table. -/
theorem panic_stranger_none (h : Registry x) (hs : Strangers x.w)
    (hattached : x.w.mrapi_db c.pid = true) (hwho : mrapi_impl_whoami x.w c = none) :
    mrapi_impl_free_resources true x.w c = none := by
  have hpid : (x.w.tls c).mrapi_pid = none := by
    unfold mrapi_impl_whoami at hwho
    rw [hattached, if_neg (by decide)] at hwho
    by_contra hpid
    rw [if_neg hpid] at hwho
    cases hwho
  obtain ⟨x', hx', h', hl, hrest⟩ := @Registry.finalizeOthers _ c.pid h nodeIndexes
  have hnone : ∀ j c', x'.thread j = some c' → c'.pid ≠ c.pid :=
    fun j c' hj heq => hrest j c' hj heq (node_mem j)
  have hclear : x'.w.setDb (clearProcess c.pid x'.w.db) = x'.w := by
    rw [h'.clearProcess hnone]
    rfl
  have hdetach : ∀ last, detachDatabase x'.w c last true = none := by
    intro last
    unfold detachDatabase
    dsimp only
    rw [if_pos rfl, hl.tls, hs c hpid, if_neg (by decide)]
  unfold mrapi_impl_free_resources
  rw [if_neg (by rw [hattached]; decide), hwho]
  dsimp only
  rw [Option.bind_eq_bind, Option.bind_some, if_pos rfl, hx', Option.map_some, hclear,
    Option.bind_some, h'.inRange, h'.lastManStandingForThisProcess.mpr hnone,
    if_neg (by decide), hdetach]
  rfl

/-- Where the process does not use the database, the result is that there is no node. -/
theorem panic_detached (hattached : x.w.mrapi_db c.pid = false) :
    mrapi_impl_free_resources true x.w c = some (x.w, true) := by
  unfold mrapi_impl_free_resources
  rw [if_pos hattached]

theorem panic_stranger_iff (h : Registry x) (hs : Strangers x.w)
    (hwho : mrapi_impl_whoami x.w c = none) :
    PanicOk x.w c ↔ x.w.mrapi_db c.pid = false ∧ ∀ i, x.thread i = none := by
  constructor
  · rintro ⟨w', last, heq, -, -, -, -, -, hlast⟩
    cases hattached : x.w.mrapi_db c.pid with
    | true =>
      rw [panic_stranger_none h hs hattached hwho] at heq
      cases heq
    | false =>
      rw [panic_detached hattached] at heq
      obtain ⟨rfl, rfl⟩ := Prod.mk.inj (Option.some.inj heq)
      refine ⟨rfl, fun i => ?_⟩
      cases hi : x.thread i with
      | none => rfl
      | some c' =>
        have hpid := hlast.mp rfl i.dindex i.nindex (h.thread_valid hi)
        rw [h.pidOf hi] at hpid
        have hnamed := (h.named i c' hi).attached
        rw [hpid, hattached] at hnamed
        cases hnamed
  · rintro ⟨hattached, hnone⟩
    have hempty : ∀ d n, (x.w.db.node d n).valid ≠ true := by
      intro d n hv
      obtain ⟨j, c', -, -, hj⟩ := h.exists_thread hv
      rw [hnone] at hj
      cases hj
    refine ⟨x.w, true, panic_detached hattached, ?_, ?_, fun _ _ _ _ => rfl, fun _ _ => rfl,
      (fun h => nomatch h), ?_⟩
    · intro d n hv
      exact absurd hv (hempty d n)
    · intro p hp
      apply (h.processes p).empty
      rw [← Bool.not_eq_true]
      intro hv
      apply h.no_entry _ hv hp
      intro j c' hj
      rw [hnone] at hj
      cases hj
    · exact ⟨fun _ d n hv => absurd hv (hempty d n), fun _ => rfl⟩

/-! ## The clean-up in every run -/

end Threads

end MxApi.NodeTable
