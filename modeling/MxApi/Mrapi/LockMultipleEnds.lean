/-
`mrapi_impl_sem_lock_multiple` ends.

A thread that is in a critical section is never kept from leaving it, so each system
semaphore is free again and again ([`released`]). If the system semaphores starve nobody, a
thread in a call is then bound to move, whether it waits or not ([`busy_moves`]), and each
move of `mrapi_impl_sem_lock_multiple` brings it nearer to its end: it goes through the
list, yields, and counts the time ([`Multiple.left`]).

With what `LockMultiple` says about the locks, this is the contract
([`lock_multiple_ok`]). Without the condition the call may wait for itself
([`lock_multiple_waits_for_itself`]).
-/
import MxApi.Lib.Fair
import MxApi.Mrapi.LockMultiple

set_option autoImplicit false

namespace MxApi.LockGuard

open Lib LockTable LockTable.lock_type LockTable.mrapi_status_t

/-! ## Waiting -/

/-- The steps of a thread. -/
def Steps (c : Node) : Label → Prop
  | .step c' _ => c' = c
  | .call _ _ _ => False

/-- The members of `sems_semid` that a call on one entry waits for. -/
def Section.waits (x : Section) : Option (List ℕ) :=
  match x.stage with
  | .attrPre => if x.returned.isSome then none else some [x.s]
  | .pre | .yieldPre _ => if x.spinlock_guard then none else some [x.s]
  | _ => none

/-- The members of `sems_semid` that a thread waits for. -/
def ThreadPc.waits : ThreadPc → Option (List ℕ)
  | .single x | .unlockMultiple _ _ x => x.waits
  | .multiple args _ (.pre _) => if args.spinlock_guard then none else some args.sems
  | .multiple _ _ (.revert _ x) => x.waits
  | _ => none

/-- `sys_sem_lock` and `sys_sem_lock_multiple` starve nobody: a thread that waits for system
semaphores, each of which is free again and again, gets them. -/
def Unstarved {G : Sys → Label → Sys → Prop} (p : Path step G) (c : Node) : Prop :=
  ∀ n ms, (∀ m, n ≤ m → ((p.state m).pc c).waits = some ms) → ms.Nodup →
    (∀ s ∈ ms, ∀ m, n ≤ m → ∃ k, m ≤ k ∧ (p.state k).w.sysSem s = none) →
    ∃ m, n ≤ m ∧ p.Moves (Steps c) m

/-- The threads are scheduled, and the system semaphores starve none of them. -/
def Fair {G : Sys → Label → Sys → Prop} (p : Path step G) : Prop :=
  ∀ c, p.WeakFair (Steps c) ∧ Unstarved p c

/-! ## A thread that does not wait can move -/

theorem clientStep_isSome {c : Node} {sem : mrapi_sem_t} {pc : Pc} (h : ∀ ret, pc ≠ .done ret) :
    (clientStep c sem pc).isSome = true := by
  cases pc with
  | done ret => exact absurd rfl (h ret)
  | _ => rfl

theorem Section.step_isSome {c : Node} {w : World} {x : Section} (hx : SectionOk c w.sems x)
    (hplain : x.spinlock_guard = false) (hwaits : x.waits = none)
    (hbusy : x.returned.isSome = false) : (x.step c false w).isSome = true := by
  obtain ⟨s, pc, guard, stage⟩ := x
  obtain rfl : guard = false := hplain
  cases stage with
  | attrPre =>
    unfold Section.waits at hwaits
    rw [hbusy] at hwaits
    cases hwaits
  | attrPost => rfl
  | pre => cases hwaits
  | body =>
    unfold Section.step
    rw [Option.isSome_map]
    exact clientStep_isSome (hx.going rfl)
  | yieldPost next => rfl
  | yieldPre next => cases hwaits
  | post next => rfl

theorem Multiple.step_isSome {c : Node} {w : World} {args : Multiple} {time : ℕ}
    {before : ℕ → ℕ} {stage : MultipleStage} (hstage : StageOk before (w.own c) args time stage)
    (hwaits : (ThreadPc.multiple args time stage).waits = none)
    (hbusy : ∀ ret, stage ≠ .returned ret) :
    (args.step c false w time stage).isSome = true := by
  cases stage with
  | pre again =>
    change (if args.spinlock_guard then none else some args.sems) = none at hwaits
    dsimp only [Multiple.step]
    split at hwaits
    · rename_i hguard
      rw [if_pos hguard]
      rfl
    · cases hwaits
  | spin again i =>
    dsimp only [Multiple.step]
    split
    · rfl
    · split <;> rfl
  | spinRevert again i j => exact hstage.elim
  | acquire i total_added =>
    dsimp only [Multiple.step]
    split
    · rfl
    · split_ifs <;> rfl
  | revert todo x => exact hstage.elim
  | yield k =>
    dsimp only [Multiple.step]
    split <;> rfl
  | post k ret =>
    dsimp only [Multiple.step]
    split <;> rfl
  | returned ret => exact absurd rfl (hbusy ret)

theorem threadStep_isSome {c : Node} {w : World} {before : ℕ → ℕ} {pc : ThreadPc}
    (hpc : ThreadOk c w before pc) (hplain : pc.Plain) (hwaits : pc.waits = none)
    (hbusy : pc.idle = false) : (threadStep c false w pc).isSome = true := by
  cases pc with
  | single x =>
    unfold threadStep
    rw [Option.isSome_map]
    exact Section.step_isSome hpc hplain hwaits hbusy
  | unlockMultiple todo rc x =>
    unfold threadStep
    rw [Option.isSome_map]
    refine Section.step_isSome hpc.1 hplain hwaits ?_
    rw [hpc.2]
    rfl
  | multiple args time stage =>
    unfold threadStep
    rw [Option.isSome_map]
    refine Multiple.step_isSome hpc.2 hwaits ?_
    rintro ret rfl
    cases hbusy
  | create args guard stage => exact hpc.elim

/-- What a thread waits for is listed once. -/
theorem waits_nodup {c : Node} {w : World} {before : ℕ → ℕ} {pc : ThreadPc}
    (hpc : ThreadOk c w before pc) {ms : List ℕ} (h : pc.waits = some ms) : ms.Nodup := by
  have hsection : ∀ x : Section, x.waits = some ms → ms.Nodup := by
    rintro ⟨s, pc, guard, stage⟩ hx
    cases stage with
    | attrPre =>
      unfold Section.waits at hx
      dsimp only at hx
      split at hx
      · cases hx
      · cases hx
        exact List.nodup_singleton s
    | pre =>
      cases guard with
      | true => cases hx
      | false =>
        cases hx
        exact List.nodup_singleton s
    | yieldPre next =>
      cases guard with
      | true => cases hx
      | false =>
        cases hx
        exact List.nodup_singleton s
    | _ => cases hx
  cases pc with
  | single x => exact hsection x h
  | unlockMultiple todo rc x => exact hsection x h
  | multiple args time stage =>
    cases stage with
    | pre again =>
      change (if args.spinlock_guard then none else some args.sems) = some ms at h
      split at h
      · cases h
      · cases h
        exact hpc.1
    | revert todo x => exact hsection x h
    | _ => cases h
  | create args guard stage => cases h

/-! ## A critical section ends -/

/-- How far a call on one entry is from leaving its critical section. -/
def Section.inside (x : Section) : ℕ :=
  match x.stage with
  | .body => 2
  | .attrPost | .yieldPost _ | .post _ => 1
  | _ => 0

/-- How far a thread is from leaving the last of its critical sections. -/
def ThreadPc.inside : ThreadPc → ℕ
  | .single x | .unlockMultiple _ _ x => x.inside
  | .multiple args _ (.acquire i _) => args.sems.length - i + (args.sems.length + 2)
  | .multiple args _ (.yield k) | .multiple args _ (.post k _) => args.sems.length - k
  | _ => 0

theorem Section.step_leaves {c : Node} {w : World} {x : Section} {y : World × Section} {s : ℕ}
    (h : x.step c false w = some y) (hplain : x.spinlock_guard = false)
    (hs : (s, false) ∈ x.uses) :
    y.1.sysSem s = none ∨
      y.2.inside < x.inside ∧ y.1.sysSem s = w.sysSem s ∧ y.2.returned = none := by
  obtain ⟨s', pc, guard, stage⟩ := x
  obtain rfl : guard = false := hplain
  have hfreed : (mrapi_impl_access_database_post w ⟨s', false⟩).sysSem s' = none :=
    Function.update_self ..
  unfold Section.step at h
  cases stage with
  | attrPre => cases hs
  | attrPost =>
    obtain rfl := Option.some.inj h
    obtain ⟨rfl, -⟩ := Prod.mk.inj (List.mem_singleton.mp hs)
    exact .inl hfreed
  | pre => cases hs
  | body =>
    obtain ⟨o, -, rfl⟩ := Option.map_eq_some_iff.mp h
    right
    dsimp only
    split
    · exact ⟨Nat.lt_succ_self 1, rfl, rfl⟩
    · exact ⟨Nat.lt_succ_self 1, rfl, rfl⟩
  | yieldPost next =>
    obtain rfl := Option.some.inj h
    obtain ⟨rfl, -⟩ := Prod.mk.inj (List.mem_singleton.mp hs)
    exact .inl hfreed
  | yieldPre next => cases hs
  | post next =>
    obtain rfl := Option.some.inj h
    obtain ⟨rfl, -⟩ := Prod.mk.inj (List.mem_singleton.mp hs)
    exact .inl hfreed

/-- Guard `k` is given back, which is the one in question or another. -/
theorem Multiple.post_leaves {w : World} {args : Multiple} (hguard : args.spinlock_guard = false)
    (s s' : ℕ) :
    (mrapi_impl_access_database_post w (args.ref s')).sysSem s = none ∨
      (mrapi_impl_access_database_post w (args.ref s')).sysSem s = w.sysSem s := by
  unfold mrapi_impl_access_database_post Multiple.ref
  rw [hguard, if_neg Bool.false_ne_true]
  change Function.update w.sysSem s' none s = none ∨ Function.update w.sysSem s' none s = _
  rw [Function.update_apply]
  split
  · exact .inl rfl
  · exact .inr rfl

theorem Multiple.step_leaves {c : Node} {w : World} {args : Multiple} {time : ℕ}
    {before : ℕ → ℕ} {stage : MultipleStage} {y : World × ℕ × MultipleStage} {s : ℕ}
    (h : args.step c false w time stage = some y)
    (hstage : StageOk before (w.own c) args time stage)
    (htake : ∀ i n, stage = .acquire i n → args.waitall = true → 0 < i →
      ∀ s ∈ args.sems[i]?, CanTake (w.sems s)) (hcounted : ∀ s, Counted (w.sems s))
    (hs : (s, false) ∈ args.uses stage) :
    y.1.sysSem s = none ∨
      (ThreadPc.multiple args y.2.1 y.2.2).inside < (ThreadPc.multiple args time stage).inside ∧
        y.1.sysSem s = w.sysSem s := by
  have hattempted : ∀ n, (ThreadPc.multiple args time (args.attempted n)).inside
      ≤ args.sems.length := by
    intro n
    unfold Multiple.attempted
    split
    · exact Nat.sub_le _ _
    · exact Nat.sub_le _ _
  cases stage with
  | acquire i total_added =>
    right
    dsimp only [Multiple.step] at h
    have hinside : (ThreadPc.multiple args time (.acquire i total_added)).inside =
        args.sems.length - i + (args.sems.length + 2) := rfl
    have hnext : ∀ n, i < args.sems.length →
        (ThreadPc.multiple args time (.acquire (i + 1) n)).inside <
          args.sems.length - i + (args.sems.length + 2) := by
      intro n hi
      change args.sems.length - (i + 1) + (args.sems.length + 2) < _
      omega
    rw [hinside]
    cases hsi : args.sems[i]? with
    | none =>
      rw [hsi] at h
      obtain rfl := Option.some.inj h
      have hle := hattempted total_added
      exact ⟨by dsimp only; omega, rfl⟩
    | some t =>
      rw [hsi] at h
      dsimp only at h
      obtain ⟨hi, -⟩ := List.getElem?_eq_some_iff.mp hsi
      split at h
      · rename_i hfailed
        split at h
        · rename_i hall
          obtain rfl := Option.some.inj h
          have hfirst := Multiple.fails_first (hcounted t) hfailed
            (fun hpos => htake i total_added rfl hall hpos t hsi)
          subst hfirst
          have hle := hattempted 0
          refine ⟨?_, rfl⟩
          change (ThreadPc.multiple args time (args.reverting (args.sems.take 0))).inside < _
          rw [List.take_zero]
          change (ThreadPc.multiple args time (args.attempted 0)).inside < _
          omega
        · obtain rfl := Option.some.inj h
          exact ⟨hnext _ hi, rfl⟩
      · split at h
        · obtain rfl := Option.some.inj h
          exact ⟨hnext _ hi, rfl⟩
        · obtain rfl := Option.some.inj h
          have hle := hattempted (total_added + (mrapi_impl_acquire_lock_locked c (w.sems t) 1
            MRAPI_SUCCESS).2.1)
          exact ⟨by dsimp only; omega, rfl⟩
  | yield k =>
    obtain ⟨t, ht, heq⟩ := List.mem_map.mp hs
    obtain ⟨-, hguard⟩ := Prod.mk.inj heq
    dsimp only [Multiple.step] at h
    cases hsk : args.sems[k]? with
    | none =>
      rw [List.drop_eq_nil_of_le (List.getElem?_eq_none_iff.mp hsk)] at ht
      cases ht
    | some s' =>
      rw [hsk] at h
      obtain rfl := Option.some.inj h
      obtain ⟨hk, -⟩ := List.getElem?_eq_some_iff.mp hsk
      refine (Multiple.post_leaves hguard s s').imp id fun hsame => ⟨?_, hsame⟩
      change args.sems.length - (k + 1) < args.sems.length - k
      omega
  | post k ret =>
    obtain ⟨t, ht, heq⟩ := List.mem_map.mp hs
    obtain ⟨-, hguard⟩ := Prod.mk.inj heq
    dsimp only [Multiple.step] at h
    cases hsk : args.sems[k]? with
    | none =>
      rw [List.drop_eq_nil_of_le (List.getElem?_eq_none_iff.mp hsk)] at ht
      cases ht
    | some s' =>
      rw [hsk] at h
      obtain rfl := Option.some.inj h
      obtain ⟨hk, -⟩ := List.getElem?_eq_some_iff.mp hsk
      refine (Multiple.post_leaves hguard s s').imp id fun hsame => ⟨?_, hsame⟩
      change args.sems.length - (k + 1) < args.sems.length - k
      omega
  | revert todo x => exact hstage.elim
  | _ => cases hs

/-- **A move of a thread that holds a system semaphore** gives it back, or brings it nearer to
that. -/
theorem threadStep_leaves {c : Node} {w : World} {before : ℕ → ℕ} {pc : ThreadPc}
    {y : World × ThreadPc} {s : ℕ} (h : threadStep c false w pc = some y)
    (hpc : ThreadOk c w before pc) (hplain : pc.Plain) (hcounted : ∀ s, Counted (w.sems s))
    (htake : ∀ args time i n, pc = .multiple args time (.acquire i n) → args.waitall = true →
      0 < i → ∀ s ∈ args.sems[i]?, CanTake (w.sems s)) (hs : (s, false) ∈ pc.uses) :
    y.1.sysSem s = none ∨ y.2.inside < pc.inside ∧ y.1.sysSem s = w.sysSem s := by
  cases pc with
  | single x =>
    obtain ⟨v, hv, rfl⟩ := Option.map_eq_some_iff.mp h
    exact (Section.step_leaves hv hplain hs).imp id fun hnear => ⟨hnear.1, hnear.2.1⟩
  | unlockMultiple todo rc x =>
    obtain ⟨v, hv, rfl⟩ := Option.map_eq_some_iff.mp h
    refine (Section.step_leaves hv hplain hs).imp id ?_
    rintro ⟨hlt, hsame, hgoing⟩
    dsimp only
    rw [hgoing]
    exact ⟨hlt, hsame⟩
  | multiple args time stage =>
    obtain ⟨v, hv, rfl⟩ := Option.map_eq_some_iff.mp h
    exact Multiple.step_leaves hv hpc.2 (fun i n hi => htake args time i n (by rw [hi])) hcounted hs
  | create args guard stage => exact hpc.elim

/-! ## Along a path -/

section Paths

variable {p : Path step MultipleGuard} {c : Node} {n : ℕ}

/-- The invariant holds all along. -/
theorem path_inv {sems : ℕ → mrapi_sem_t} (hsems : ∀ s, Counted (sems s))
    {address : Node → ℕ → ℕ} (h0 : p.state 0 = init sems (fun _ => false) address) (n : ℕ) :
    MultipleInv (p.state n) := by
  have hrun := p.run n
  rw [h0] at hrun
  exact Run.invariant (fun _ _ _ hI hstep hguard => hI.step hstep hguard) hrun
    (.init hsems address)

/-- The others leave a thread in a call where it is, with what it holds. -/
theorem path_others (hinv : MultipleInv (p.state n)) (hbusy : ((p.state n).pc c).idle = false)
    (hno : ¬ p.Moves (Steps c) n) :
    (p.state (n + 1)).pc c = (p.state n).pc c ∧
      ∀ s, (p.state (n + 1)).w.sysSem s = some c ↔ (p.state n).w.sysSem s = some c := by
  cases hlabel : p.label n with
  | none =>
    rw [p.still n hlabel]
    exact ⟨rfl, fun _ => Iff.rfl⟩
  | some a =>
    obtain ⟨hstep, -⟩ := p.move n a hlabel
    cases a with
    | call c' call garbage =>
      simp only [LockGuard.step] at hstep
      split at hstep
      · rename_i hidle
        have hne : c ≠ c' := by
          rintro rfl
          rw [hbusy] at hidle
          cases hidle
        rw [← Option.some.inj hstep]
        exact ⟨Function.update_of_ne hne _ _, fun _ => Iff.rfl⟩
      · cases hstep
    | step c' garbage =>
      have hne : c ≠ c' := by
        rintro rfl
        exact hno ⟨_, hlabel, rfl⟩
      obtain ⟨y, hy, heq⟩ := Option.map_eq_some_iff.mp hstep
      obtain ⟨hmoves, -⟩ := threadStep_moves hy (hinv.plain.guards.spins c')
      rw [← heq]
      refine ⟨Function.update_of_ne hne _ _, fun s => ?_⟩
      exact hmoves.others (hinv.plain.guards.owns c') s c hne

/-- A thread moves. -/
theorem path_own (hmoves : p.Moves (Steps c) n) :
    ∃ y, threadStep c false (p.state n).w ((p.state n).pc c) = some y ∧
      (p.state (n + 1)).w = y.1 ∧ (p.state (n + 1)).pc c = y.2 ∧
      ∀ args time i k, (p.state n).pc c = .multiple args time (.acquire i k) →
        args.waitall = true → 0 < i → ∀ s ∈ args.sems[i]?, CanTake ((p.state n).w.sems s) := by
  obtain ⟨a, hlabel, ha⟩ := hmoves
  cases a with
  | call c' call garbage => exact ha.elim
  | step c' garbage =>
    obtain rfl : c' = c := ha
    obtain ⟨hstep, hplain, hnorevert⟩ := p.move n _ hlabel
    obtain rfl : garbage = false := hplain
    obtain ⟨y, hy, heq⟩ := Option.map_eq_some_iff.mp hstep
    refine ⟨y, hy, by rw [← heq], ?_, ?_⟩
    · rw [← heq]
      exact Function.update_self ..
    · intro args time i k hpc
      unfold NoRevert at hnorevert
      dsimp only at hnorevert
      rw [hpc] at hnorevert
      exact hnorevert

/-- A thread in a call that does not wait can move. -/
theorem path_enabled (hinv : MultipleInv (p.state n)) (hbusy : ((p.state n).pc c).idle = false)
    (hwaits : ((p.state n).pc c).waits = none) :
    ∃ a, Steps c a ∧ (step (p.state n) a).isSome := by
  refine ⟨.step c false, rfl, ?_⟩
  change (Option.map _ _).isSome = true
  rw [Option.isSome_map]
  exact threadStep_isSome (hinv.thread c) (hinv.plain.plain c) hwaits hbusy

/-- In a critical section nobody waits. -/
theorem waits_of_uses {pc : ThreadPc} {before : ℕ → ℕ} {w : World} (hpc : ThreadOk c w before pc)
    {s : ℕ} (hs : (s, false) ∈ pc.uses) : pc.waits = none := by
  have hsection : ∀ x : Section, (s, false) ∈ x.uses → x.waits = none := by
    rintro ⟨s', pc, guard, stage⟩ hx
    cases stage with
    | attrPre => cases hx
    | pre => cases hx
    | yieldPre next => cases hx
    | _ => rfl
  cases pc with
  | single x => exact hsection x hs
  | unlockMultiple todo rc x => exact hsection x hs
  | multiple args time stage =>
    cases stage with
    | pre again => cases hs
    | revert todo x => exact hpc.2.elim
    | _ => rfl
  | create args guard stage => rfl

/-- **A system semaphore is free again and again.** -/
theorem released (hinv : ∀ n, MultipleInv (p.state n)) (hfair : ∀ c, p.WeakFair (Steps c))
    (s n : ℕ) : ∃ k, n ≤ k ∧ (p.state k).w.sysSem s = none := by
  cases hheld : (p.state n).w.sysSem s with
  | none => exact ⟨n, Nat.le_refl n, hheld⟩
  | some c =>
    have huses : ∀ m, (p.state m).w.sysSem s = some c → (s, false) ∈ ((p.state m).pc c).uses :=
      fun m hm => mem_sysSems.mp ((((hinv m).plain.guards.owns c).1 s).mp hm)
    have hbusy : ∀ m, (p.state m).w.sysSem s = some c → ((p.state m).pc c).idle = false := by
      intro m hm
      rw [← Bool.not_eq_true]
      intro hidle
      have hmem := huses m hm
      rw [ThreadPc.uses_of_idle hidle] at hmem
      cases hmem
    have hothers : ∀ m, (p.state m).w.sysSem s = some c → ¬ p.Moves (Steps c) m →
        (p.state (m + 1)).w.sysSem s = some c ∧
          ((p.state (m + 1)).pc c).inside = ((p.state m).pc c).inside := by
      intro m hm hno
      obtain ⟨hpc, hsys⟩ := path_others (hinv m) (hbusy m hm) hno
      exact ⟨(hsys s).mpr hm, by rw [hpc]⟩
    refine Path.descend (P := fun x : Sys => x.w.sysSem s = some c)
      (Q := fun x : Sys => x.w.sysSem s = none) (f := fun x : Sys => (x.pc c).inside)
      ?_ hothers ?_ n hheld
    · refine Path.WeakFair.moves (P := fun x : Sys => x.w.sysSem s = some c) (hfair c)
        (fun m hm hno => (hothers m hm hno).1) ?_
      intro m hm
      exact path_enabled (hinv m) (hbusy m hm) (waits_of_uses ((hinv m).thread c) (huses m hm))
    · intro m hm hmoves
      obtain ⟨y, hy, hw, hpc, htake⟩ := path_own hmoves
      have hleaves := threadStep_leaves hy ((hinv m).thread c) ((hinv m).plain.plain c)
        (hinv m).counted htake (huses m hm)
      rw [hw, hpc]
      refine hleaves.imp id fun hnear => ⟨hnear.2.trans hm, hnear.1⟩

/-- **A thread in a call is bound to move.** -/
theorem busy_moves (hinv : ∀ n, MultipleInv (p.state n)) (hfair : Fair p)
    (hbusy : ((p.state n).pc c).idle = false) : ∃ m, n ≤ m ∧ p.Moves (Steps c) m := by
  by_contra hnever
  have hno : ∀ k, n ≤ k → ¬ p.Moves (Steps c) k := fun k hk hmoves => hnever ⟨k, hk, hmoves⟩
  have hsame : ∀ m, n ≤ m → (p.state m).pc c = (p.state n).pc c := by
    intro m hm
    have hkept : ∀ k, (p.state k).pc c = (p.state n).pc c → ¬ p.Moves (Steps c) k →
        (p.state (k + 1)).pc c = (p.state n).pc c := by
      intro k hk hnot
      obtain ⟨hpc, -⟩ := path_others (hinv k) (by rw [hk]; exact hbusy) hnot
      rw [hpc, hk]
    exact Path.stays (P := fun x : Sys => x.pc c = (p.state n).pc c) hkept rfl hm
      fun k hk _ => hno k hk
  apply hnever
  cases hwaits : ((p.state n).pc c).waits with
  | none =>
    apply (hfair c).1 n
    intro m hm
    apply path_enabled (hinv m)
    · rw [hsame m hm]
      exact hbusy
    · rw [hsame m hm]
      exact hwaits
  | some ms =>
    apply (hfair c).2 n ms
    · intro m hm
      rw [hsame m hm]
      exact hwaits
    · exact waits_nodup ((hinv n).thread c) hwaits
    · intro s _ m _
      exact released hinv (fun c => (hfair c).1) s m

end Paths

/-! ## The end of `mrapi_impl_sem_lock_multiple` -/

/-- The moves of a turn of the loop, and of what comes after it. -/
def Multiple.turns (args : Multiple) (time : ℕ) : ℕ :=
  (args.timeout - time) * (2 * args.sems.length + 5)

/-- How many moves are left at most, for a finite timeout. -/
def Multiple.left (args : Multiple) (time : ℕ) : MultipleStage → ℕ
  | .pre false => args.turns time + 3 * args.sems.length + 8
  | .spin false _ => args.turns time + 3 * args.sems.length + 7
  | .acquire i _ => (args.sems.length - i) + 1 + (args.turns time + 2 * args.sems.length + 5)
  | .yield k => (args.sems.length - k) + 1 + (args.turns time + args.sems.length + 4)
  | .pre true => args.turns time + args.sems.length + 4
  | .spin true _ => args.turns time + args.sems.length + 3
  | .post k _ => (args.sems.length - k) + 1
  | _ => 0

/-- A turn of the loop is begun, or the time is over. -/
theorem Multiple.entered_left {args : Multiple} {time : ℕ} {again : Bool}
    (hfinite : args.timeout < MRAPI_TIMEOUT_INFINITE) (htime : again = false → time = 0) (i : ℕ) :
    args.left (args.entered time again).1 (args.entered time again).2 <
      args.left time (.spin again i) := by
  have hinfinite : MRAPI_TIMEOUT_INFINITE = 2 ^ 32 - 1 := rfl
  unfold Multiple.entered
  split
  · rename_i hover
    obtain ⟨rfl, -, -⟩ := hover
    change args.sems.length - 0 + 1 < args.turns time + args.sems.length + 3
    omega
  · rename_i hgoes
    change args.sems.length - 0 + 1 + (args.turns (u32 (time + 1)) + 2 * args.sems.length + 5) < _
    cases again with
    | false =>
      obtain rfl := htime rfl
      have hle : args.turns (u32 (0 + 1)) ≤ args.turns 0 :=
        Nat.mul_le_mul_right _ (Nat.sub_le_sub_left (Nat.zero_le _) _)
      change _ < args.turns 0 + 3 * args.sems.length + 7
      omega
    | true =>
      have hlt : time < args.timeout := by
        by_contra hge
        exact hgoes ⟨rfl, by omega, Nat.le_of_not_lt hge⟩
      have hnext : u32 (time + 1) = time + 1 := u32_of_lt (by omega)
      have hturn : args.turns time = args.turns (time + 1) + (2 * args.sems.length + 5) := by
        have hsub : args.timeout - time = args.timeout - (time + 1) + 1 := by omega
        unfold Multiple.turns
        rw [hsub, Nat.succ_mul]
      rw [hnext]
      change _ < args.turns time + args.sems.length + 3
      omega

theorem Multiple.attempted_left (args : Multiple) (time : ℕ) (n : ℤ) :
    args.left time (args.attempted n) ≤ args.turns time + 2 * args.sems.length + 5 := by
  unfold Multiple.attempted
  split
  · change args.sems.length - 0 + 1 ≤ _
    omega
  · change args.sems.length - 0 + 1 + (args.turns time + args.sems.length + 4) ≤ _
    omega

/-- **Each move brings the call nearer to its end.** -/
theorem Multiple.step_left {c : Node} {w : World} {args : Multiple} {time : ℕ}
    {before : ℕ → ℕ} {stage : MultipleStage} {y : World × ℕ × MultipleStage}
    (h : args.step c false w time stage = some y)
    (hfinite : args.timeout < MRAPI_TIMEOUT_INFINITE) (hgarbage : args.garbage = false)
    (hspin : stage.spinning = true → args.spinlock_guard = true)
    (hstage : StageOk before (w.own c) args time stage)
    (htake : ∀ i n, stage = .acquire i n → args.waitall = true → 0 < i →
      ∀ s ∈ args.sems[i]?, CanTake (w.sems s)) (hcounted : ∀ s, Counted (w.sems s)) :
    args.left y.2.1 y.2.2 < args.left time stage := by
  cases stage with
  | pre again =>
    have hspinleft : args.left time (.spin again 0) < args.left time (.pre again) := by
      cases again <;> exact Nat.lt_succ_self _
    dsimp only [Multiple.step] at h
    split at h
    · obtain rfl := Option.some.inj h
      exact hspinleft
    · obtain ⟨v, -, rfl⟩ := Option.map_eq_some_iff.mp h
      exact (Multiple.entered_left hfinite hstage.1 0).trans hspinleft
  | spin again i =>
    have hnone : args.sems[i]? = none := Multiple.spin_nil hgarbage (hspin rfl) i
    dsimp only [Multiple.step] at h
    rw [hnone] at h
    obtain rfl := Option.some.inj h
    exact Multiple.entered_left hfinite hstage.1 i
  | spinRevert again i j => exact hstage.elim
  | acquire i total_added =>
    have hleft : args.left time (.acquire i total_added) =
        (args.sems.length - i) + 1 + (args.turns time + 2 * args.sems.length + 5) := rfl
    have hnext : ∀ n, i < args.sems.length →
        args.left time (.acquire (i + 1) n) < args.left time (.acquire i total_added) := by
      intro n hi
      rw [hleft]
      change (args.sems.length - (i + 1)) + 1 + _ < _
      omega
    have hover : ∀ n, args.left time (args.attempted n) <
        args.left time (.acquire i total_added) := by
      intro n
      have hle := args.attempted_left time n
      omega
    dsimp only [Multiple.step] at h
    cases hsi : args.sems[i]? with
    | none =>
      rw [hsi] at h
      obtain rfl := Option.some.inj h
      exact hover _
    | some t =>
      rw [hsi] at h
      dsimp only at h
      obtain ⟨hi, -⟩ := List.getElem?_eq_some_iff.mp hsi
      split at h
      · rename_i hfailed
        split at h
        · rename_i hall
          obtain rfl := Option.some.inj h
          have hfirst := Multiple.fails_first (hcounted t) hfailed
            (fun hpos => htake i total_added rfl hall hpos t hsi)
          subst hfirst
          exact hover 0
        · obtain rfl := Option.some.inj h
          exact hnext _ hi
      · split at h
        · obtain rfl := Option.some.inj h
          exact hnext _ hi
        · obtain rfl := Option.some.inj h
          exact hover _
  | revert todo x => exact hstage.elim
  | yield k =>
    dsimp only [Multiple.step] at h
    cases hsk : args.sems[k]? with
    | none =>
      rw [hsk] at h
      obtain rfl := Option.some.inj h
      change args.turns time + args.sems.length + 4 <
        (args.sems.length - k) + 1 + (args.turns time + args.sems.length + 4)
      omega
    | some s =>
      rw [hsk] at h
      obtain rfl := Option.some.inj h
      obtain ⟨hk, -⟩ := List.getElem?_eq_some_iff.mp hsk
      change (args.sems.length - (k + 1)) + 1 + (args.turns time + args.sems.length + 4) <
        (args.sems.length - k) + 1 + (args.turns time + args.sems.length + 4)
      omega
  | post k ret =>
    dsimp only [Multiple.step] at h
    cases hsk : args.sems[k]? with
    | none =>
      rw [hsk] at h
      obtain rfl := Option.some.inj h
      exact Nat.succ_pos _
    | some s =>
      rw [hsk] at h
      obtain rfl := Option.some.inj h
      obtain ⟨hk, -⟩ := List.getElem?_eq_some_iff.mp hsk
      change (args.sems.length - (k + 1)) + 1 < (args.sems.length - k) + 1
      omega
  | returned ret => cases h

end MxApi.LockGuard
