/-
One guard for each object of the lock table.

In the runs in which the indeterminate guard values are `MRAPI_FALSE` nobody uses a spin
word, so that the system semaphores exclude; and where no object is created with
`MRAPI_SPINLOCK_GUARD`, that is also the guard that was asked for ([`one_guard_ok`]).
Otherwise two threads can be in the critical section of one entry
([`two_guards_of_one_semaphore`]).
-/
import MxApi.Mrapi.LockGuardExclusion

set_option autoImplicit false

namespace MxApi.LockGuard

open Lib LockTable LockTable.lock_type LockTable.mrapi_status_t

/-! ## One guard for each object -/

/-- At most one thread is in a critical section of an entry, and its guard is the one that
the object was created with. -/
structure OneGuard (x : Sys) : Prop where
  exclusive : ∀ c c' s guard guard', (s, guard) ∈ (x.pc c).uses → (s, guard') ∈ (x.pc c').uses →
    c = c'
  agreed : ∀ c s guard, (s, guard) ∈ (x.pc c).uses → guard = x.w.wanted s

/-- The guard values that are found in memory are `MRAPI_FALSE`, and no object is created
with `MRAPI_SPINLOCK_GUARD`. -/
def PlainGuard (_ : Sys) : Label → Sys → Prop
  | .call _ (.create _ guard) garbage, _ => guard = false ∧ garbage = false
  | .call _ _ garbage, _ => garbage = false
  | .step _ garbage, _ => garbage = false

instance (x : Sys) (a : Label) (x' : Sys) : Decidable (PlainGuard x a x') := by
  unfold PlainGuard
  split <;> infer_instance

/-- The guard values of a call. -/
def ThreadPc.Plain : ThreadPc → Prop
  | .single x | .unlockMultiple _ _ x => x.spinlock_guard = false
  | .multiple args _ stage =>
    args.garbage = false ∧ ∀ todo x, stage = .revert todo x → x.spinlock_guard = false
  | .create _ guard _ => guard = false

theorem pre_wanted {c : Node} {w w' : World} {ref : mrapi_impl_sem_ref_t}
    (h : mrapi_impl_access_database_pre c w ref = some w') : w'.wanted = w.wanted := by
  unfold mrapi_impl_access_database_pre at h
  split_ifs at h <;> (obtain rfl := Option.some.inj h; rfl)

theorem post_wanted (w : World) (ref : mrapi_impl_sem_ref_t) :
    (mrapi_impl_access_database_post w ref).wanted = w.wanted := by
  unfold mrapi_impl_access_database_post
  split <;> rfl

theorem Section.step_plain {c : Node} {w : World} {x : Section} {y : World × Section}
    (h : x.step c false w = some y) (hx : x.spinlock_guard = false) :
    y.2.spinlock_guard = false ∧ y.1.wanted = w.wanted := by
  obtain ⟨s, pc, guard, stage⟩ := x
  unfold Section.step at h
  cases stage with
  | attrPre =>
    dsimp only at h
    split at h
    · cases h
    · obtain ⟨v, hv, rfl⟩ := Option.map_eq_some_iff.mp h
      exact ⟨hx, pre_wanted hv⟩
  | attrPost =>
    obtain rfl := Option.some.inj h
    exact ⟨rfl, post_wanted _ _⟩
  | pre =>
    obtain ⟨v, hv, rfl⟩ := Option.map_eq_some_iff.mp h
    exact ⟨hx, pre_wanted hv⟩
  | body =>
    obtain ⟨o, -, rfl⟩ := Option.map_eq_some_iff.mp h
    exact ⟨hx, rfl⟩
  | yieldPost next =>
    obtain rfl := Option.some.inj h
    exact ⟨hx, post_wanted _ _⟩
  | yieldPre next =>
    obtain ⟨v, hv, rfl⟩ := Option.map_eq_some_iff.mp h
    refine ⟨?_, pre_wanted hv⟩
    cases next <;> exact hx
  | post next =>
    obtain rfl := Option.some.inj h
    exact ⟨rfl, post_wanted _ _⟩

/-- What may follow in `mrapi_impl_sem_lock_multiple`: no unlock, or a plain one. -/
def MultipleStage.Plain (stage : MultipleStage) : Prop :=
  ∀ todo x, stage = .revert todo x → x.spinlock_guard = false

theorem Multiple.attempted_plain (args : Multiple) (n : ℤ) : (args.attempted n).Plain := by
  unfold Multiple.attempted
  split <;> (intro todo x h; cases h)

theorem Multiple.reverting_plain (args : Multiple) (todo : List ℕ) :
    (args.reverting todo).Plain := by
  cases todo with
  | nil => exact args.attempted_plain 0
  | cons s todo =>
    intro todo' x h
    cases h
    rfl

theorem Multiple.entered_plain (args : Multiple) (time : ℕ) (again : Bool) :
    (args.entered time again).2.Plain := by
  unfold Multiple.entered
  split <;> (intro todo x h; cases h)

theorem Multiple.step_plain {c : Node} {w : World} {args : Multiple} {time : ℕ}
    {stage : MultipleStage} {y : World × ℕ × MultipleStage}
    (h : args.step c false w time stage = some y) (hstage : stage.Plain) :
    y.2.2.Plain ∧ y.1.wanted = w.wanted := by
  cases stage with
  | pre again =>
    dsimp only [Multiple.step] at h
    split at h
    · obtain rfl := Option.some.inj h
      exact ⟨(fun todo x h => nomatch h), rfl⟩
    · obtain ⟨v, hv, rfl⟩ := Option.map_eq_some_iff.mp h
      refine ⟨args.entered_plain time again, ?_⟩
      unfold sys_sem_lock_multiple at hv
      split at hv
      · obtain rfl := Option.some.inj hv
        rfl
      · cases hv
  | spin again i =>
    dsimp only [Multiple.step] at h
    split at h
    · obtain rfl := Option.some.inj h
      exact ⟨args.entered_plain time again, rfl⟩
    · split at h
      · rename_i v hv
        obtain rfl := Option.some.inj h
        exact ⟨(fun todo x h => nomatch h), pre_wanted hv⟩
      · obtain rfl := Option.some.inj h
        exact ⟨(fun todo x h => nomatch h), rfl⟩
  | spinRevert again i j =>
    dsimp only [Multiple.step] at h
    split at h <;> (obtain rfl := Option.some.inj h; exact ⟨(fun todo x h => nomatch h), rfl⟩)
  | acquire i total_added =>
    dsimp only [Multiple.step] at h
    split at h
    · obtain rfl := Option.some.inj h
      exact ⟨args.attempted_plain _, rfl⟩
    · split_ifs at h <;> obtain rfl := Option.some.inj h
      · exact ⟨args.reverting_plain _, rfl⟩
      · exact ⟨(fun todo x h => nomatch h), rfl⟩
      · exact ⟨(fun todo x h => nomatch h), rfl⟩
      · exact ⟨args.attempted_plain _, rfl⟩
  | revert todo x =>
    obtain ⟨v, hv, rfl⟩ := Option.map_eq_some_iff.mp h
    obtain ⟨hplain, hwanted⟩ := Section.step_plain hv (hstage todo x rfl)
    refine ⟨?_, hwanted⟩
    dsimp only
    split
    · exact args.reverting_plain todo
    · intro todo' x' h'
      cases h'
      exact hplain
  | yield k =>
    dsimp only [Multiple.step] at h
    split at h
    · obtain rfl := Option.some.inj h
      exact ⟨(fun todo x h => nomatch h), post_wanted _ _⟩
    · obtain rfl := Option.some.inj h
      exact ⟨(fun todo x h => nomatch h), rfl⟩
  | post k ret =>
    dsimp only [Multiple.step] at h
    split at h
    · obtain rfl := Option.some.inj h
      exact ⟨(fun todo x h => nomatch h), post_wanted _ _⟩
    · obtain rfl := Option.some.inj h
      exact ⟨(fun todo x h => nomatch h), rfl⟩
  | returned ret => cases h

theorem createStep_wanted {c : Node} {w : World} {args : Creation} {stage : CreateStage}
    {y : World × CreateStage} (h : createStep c w args false stage = some y)
    (hw : ∀ s, w.wanted s = false) (s : ℕ) : y.1.wanted s = false := by
  cases stage with
  | pre =>
    dsimp only [createStep] at h
    split at h
    · obtain rfl := Option.some.inj h
      exact hw s
    · cases h
  | search =>
    dsimp only [createStep] at h
    split at h
    · obtain rfl := Option.some.inj h
      exact hw s
    · split at h <;> (obtain rfl := Option.some.inj h; exact hw s)
  | clear s' spin =>
    obtain rfl := Option.some.inj h
    exact hw s
  | restore s' spin =>
    obtain rfl := Option.some.inj h
    change Function.update w.wanted s' false s = false
    rw [Function.update_apply]
    split
    · rfl
    · exact hw s
  | post ret =>
    obtain rfl := Option.some.inj h
    exact hw s
  | returned ret => cases h

theorem unlockFrom_plain (todo : List ℕ) (rc : Bool) (status : mrapi_status_t) :
    (unlockFrom todo rc status).Plain := by
  induction todo generalizing rc status with
  | nil => rfl
  | cons hndl todo ih =>
    unfold unlockFrom
    dsimp only
    split
    · rfl
    · exact ih false status

theorem threadStep_plain {c : Node} {w : World} {pc : ThreadPc} {y : World × ThreadPc}
    (h : threadStep c false w pc = some y) (hpc : pc.Plain) (hw : ∀ s, w.wanted s = false) :
    y.2.Plain ∧ ∀ s, y.1.wanted s = false := by
  cases pc with
  | single x =>
    obtain ⟨v, hv, rfl⟩ := Option.map_eq_some_iff.mp h
    obtain ⟨hplain, hwanted⟩ := Section.step_plain hv hpc
    exact ⟨hplain, fun s => hwanted ▸ hw s⟩
  | unlockMultiple todo rc x =>
    obtain ⟨v, hv, rfl⟩ := Option.map_eq_some_iff.mp h
    obtain ⟨hplain, hwanted⟩ := Section.step_plain hv hpc
    refine ⟨?_, fun s => hwanted ▸ hw s⟩
    dsimp only
    split
    · exact unlockFrom_plain _ _ _
    · exact unlockFrom_plain _ _ _
    · exact hplain
  | multiple args time stage =>
    obtain ⟨v, hv, rfl⟩ := Option.map_eq_some_iff.mp h
    obtain ⟨hplain, hwanted⟩ := Multiple.step_plain hv hpc.2
    exact ⟨⟨hpc.1, hplain⟩, fun s => hwanted ▸ hw s⟩
  | create args guard stage =>
    obtain ⟨v, hv, rfl⟩ := Option.map_eq_some_iff.mp h
    obtain rfl : guard = false := hpc
    exact ⟨rfl, createStep_wanted hv hw⟩

/-- The guard values of a plain call are the same at all its entries. -/
theorem ThreadPc.Plain.uses {pc : ThreadPc} (h : pc.Plain) {s : ℕ} {guard : Bool}
    (hmem : (s, guard) ∈ pc.uses) : guard = false := by
  have hsection : ∀ x : Section, x.spinlock_guard = false → (s, guard) ∈ x.uses →
      guard = false := by
    intro x hx hx'
    obtain ⟨s', pc, guard', stage⟩ := x
    obtain rfl : guard' = false := hx
    cases stage <;> simp [Section.uses] at hx' <;> exact hx'.2
  have hlist : ∀ (args : Multiple) (sems : List ℕ), sems ⊆ args.sems → args.garbage = false →
      (s, guard) ∈ args.usesOf sems → guard = false := by
    intro args sems hsub hgarbage hmem'
    obtain ⟨s', hs', heq⟩ := List.mem_map.mp hmem'
    have hguard : args.spinlock_guard = false := by
      unfold Multiple.spinlock_guard
      rw [hgarbage, List.all_eq_false]
      exact ⟨s', hsub hs', Bool.false_ne_true⟩
    rw [hguard] at heq
    exact (Prod.mk.inj heq).2.symm
  cases pc with
  | single x => exact hsection x h hmem
  | unlockMultiple todo rc x => exact hsection x h hmem
  | multiple args time stage =>
    obtain ⟨hgarbage, hstage⟩ := h
    cases stage with
    | acquire i total_added => exact hlist args _ (List.Subset.refl _) hgarbage hmem
    | revert todo x =>
      rcases List.mem_append.mp hmem with hmem' | hmem'
      · exact hlist args _ (List.Subset.refl _) hgarbage hmem'
      · exact hsection x (hstage todo x rfl) hmem'
    | yield k => exact hlist args _ (List.drop_subset k _) hgarbage hmem
    | post k ret => exact hlist args _ (List.drop_subset k _) hgarbage hmem
    | _ => cases hmem
  | create args guard stage => cases hmem

/-- Nobody uses a spin word, and nobody asked for one. -/
structure PlainInv (x : Sys) : Prop where
  guards : GuardInv x
  plain : ∀ c, (x.pc c).Plain
  wanted : ∀ s, x.w.wanted s = false

theorem PlainInv.init (sems : ℕ → mrapi_sem_t) (address : Node → ℕ → ℕ) :
    PlainInv (init sems (fun _ => false) address) :=
  ⟨.init _ _ _, fun _ => rfl, fun _ => rfl⟩

theorem Call.start_plain {call : Call} (hguard : ∀ args guard, call = .create args guard →
    guard = false) : (call.start false).Plain := by
  cases call with
  | use hndl op =>
    simp only [Call.start]
    split <;> rfl
  | sem_unlock_multiple sem => exact unlockFrom_plain _ _ _
  | sem_lock_multiple sem waitall timeout =>
    simp only [Call.start]
    split
    · exact ⟨rfl, by simp⟩
    · rfl
  | create args guard => exact hguard args guard rfl

theorem PlainInv.step {x x' : Sys} {a : Label} (h : PlainInv x) (hstep : step x a = some x')
    (hplain : PlainGuard x a x') : PlainInv x' := by
  have hguards : GuardInv x' := h.guards.step hstep
  cases a with
  | call c call garbage =>
    have hgarbage : garbage = false := by
      cases call with
      | create args guard => exact hplain.2
      | _ => exact hplain
    have hguard : ∀ args guard, call = .create args guard → guard = false := by
      rintro args guard rfl
      exact hplain.1
    subst hgarbage
    simp only [LockGuard.step] at hstep
    split at hstep
    · obtain rfl := Option.some.inj hstep
      refine ⟨hguards, ?_, h.wanted⟩
      intro c'
      dsimp only
      by_cases hc : c' = c
      · rw [hc, Function.update_self]
        exact Call.start_plain hguard
      · rw [Function.update_of_ne hc]
        exact h.plain c'
    · cases hstep
  | step c garbage =>
    obtain rfl : garbage = false := hplain
    obtain ⟨y, hy, rfl⟩ := Option.map_eq_some_iff.mp hstep
    obtain ⟨hpc, hwanted⟩ := threadStep_plain hy (h.plain c) h.wanted
    refine ⟨hguards, ?_, hwanted⟩
    intro c'
    dsimp only
    by_cases hc : c' = c
    · rw [hc, Function.update_self]
      exact hpc
    · rw [Function.update_of_ne hc]
      exact h.plain c'

/-- **One guard**: in every run without spin words at most one thread is in a critical section
of an entry, and all threads use the guard that the object was created with. -/
theorem one_guard_ok {sems : ℕ → mrapi_sem_t} {address : Node → ℕ → ℕ} {x : Sys}
    (h : Run step PlainGuard (init sems (fun _ => false) address) x) : OneGuard x := by
  have hinv : PlainInv x :=
    Run.invariant (fun _ _ _ hI hstep hguard => hI.step hstep hguard) h (.init sems address)
  constructor
  · intro c c' s guard guard' hmem hmem'
    obtain rfl := (hinv.plain c).uses hmem
    obtain rfl := (hinv.plain c').uses hmem'
    exact (hinv.guards.owns c).unique (hinv.guards.owns c') (mem_sysSems.mpr hmem)
      (mem_sysSems.mpr hmem')
  · intro c s guard hmem
    rw [hinv.wanted s]
    exact (hinv.plain c).uses hmem

/-- Two nodes lock one semaphore; the second is before its guard while the first is in its
critical section. -/
theorem one_guard_ok_two :
    ∃ x : Sys, Run step PlainGuard (init (fun _ => .zero) (fun _ => false) fun _ _ => 0) x ∧
      (x.pc node0).uses = [(0, false)] ∧ OneGuard x := by
  have hexec : (exec step (fun x a x' => decide (PlainGuard x a x'))
      (init (fun _ => .zero) (fun _ => false) fun _ _ => 0)
      [.call node0 (.create ⟨MRAPI_SEM, 7, 0, 1, ⟨false, false⟩⟩ false) false,
        .step node0 false, .step node0 false, .step node0 false, .step node0 false,
        .step node0 false,
        .call node1 (.use 0xC0000000 .sem_trylock) false, .step node1 false, .step node1 false,
        .call node0 (.sem_lock_multiple [0xC0000000] true 3) false, .step node0 false]).any
      (fun x => (x.pc node0).uses == [(0, false)]) = true := by
    decide +kernel
  obtain ⟨x, hrun, hx⟩ := exec_run_of_any hexec
  have hrun' : Run step PlainGuard (init (fun _ => .zero) (fun _ => false) fun _ _ => 0) x :=
    hrun.mono fun _ _ _ hg => of_decide_eq_true hg
  exact ⟨x, hrun', eq_of_beq hx, one_guard_ok hrun'⟩

/-- **Two guards of one object**: a semaphore is created with `MRAPI_SPINLOCK_GUARD`. One node
finds `MRAPI_TRUE` where it looks for the guard and the other one `MRAPI_FALSE`, and both
are in the critical section at once. -/
theorem two_guards_of_one_semaphore :
    ∃ x : Sys, Run step (fun _ _ _ => True)
        (init (fun _ => .zero) (fun _ => false) fun _ _ => 0) x ∧
      x.w.wanted 0 = true ∧ (x.pc node0).uses = [(0, false)] ∧
      (x.pc node1).uses = [(0, true)] ∧ ¬ OneGuard x := by
  have hexec : (exec step (fun _ _ _ => true)
      (init (fun _ => .zero) (fun _ => false) fun _ _ => 0)
      [.call node0 (.create ⟨MRAPI_SEM, 7, 0, 1, ⟨false, false⟩⟩ true) false,
        .step node0 false, .step node0 false, .step node0 false, .step node0 false,
        .step node0 false,
        .call node1 (.use 0xC0000000 .sem_trylock) false, .step node1 false, .step node1 true,
        .step node1 false,
        .call node0 (.use 0xC0000000 .sem_trylock) false, .step node0 false, .step node0 false,
        .step node0 false]).any
      (fun x => x.w.wanted 0 && (x.pc node0).uses == [(0, false)] &&
        (x.pc node1).uses == [(0, true)]) = true := by
    decide +kernel
  obtain ⟨x, hrun, hx⟩ := exec_run_of_any hexec
  simp only [Bool.and_eq_true, beq_iff_eq] at hx
  obtain ⟨⟨hwanted, h0⟩, h1⟩ := hx
  refine ⟨x, hrun.mono fun _ _ _ _ => trivial, hwanted, h0, h1, ?_⟩
  intro hone
  have hsame := hone.exclusive node0 node1 0 false true (by rw [h0]; exact List.mem_singleton_self _)
    (by rw [h1]; exact List.mem_singleton_self _)
  exact absurd hsame (by decide)

end MxApi.LockGuard
