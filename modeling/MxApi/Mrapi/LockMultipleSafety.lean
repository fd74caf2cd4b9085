/-
The contract of `mrapi_impl_sem_lock_multiple`.

Where no attempt has to give back a lock and no semaphore is listed twice, the call is all or
nothing and ends ([`lock_multiple_ok`]). Otherwise it enters `mrapi_impl_sem_unlock` with the
guard that this function waits for, and nobody else can free it: the call has taken a lock
that it did not have, and stays there for ever ([`lock_multiple_waits_for_itself`]).
-/
import MxApi.Mrapi.LockMultipleEnds

set_option autoImplicit false

namespace MxApi.LockGuard

open Lib LockTable LockTable.lock_type LockTable.mrapi_status_t

/-! ## The call ends -/

/-- How many moves a call of `mrapi_impl_sem_lock_multiple` has left at most. -/
def ThreadPc.left : ThreadPc → ℕ
  | .multiple args time stage => args.left time stage
  | _ => 0

/-- A thread is in a call of `mrapi_impl_sem_lock_multiple` with these arguments. -/
def Locking (c : Node) (args : Multiple) (x : Sys) : Prop :=
  ∃ time stage, x.pc c = .multiple args time stage ∧ ∀ ret, stage ≠ .returned ret

/-- The call has returned. -/
def Locked (c : Node) (args : Multiple) (x : Sys) : Prop :=
  ∃ time ret, x.pc c = .multiple args time (.returned ret)

variable {p : Path step MultipleGuard} {c : Node} {args : Multiple} {n : ℕ}

theorem Locking.busy {x : Sys} (h : Locking c args x) : (x.pc c).idle = false := by
  obtain ⟨time, stage, hpc, hgoing⟩ := h
  rw [hpc]
  cases stage with
  | returned ret => exact absurd rfl (hgoing ret)
  | _ => rfl

/-- A move of the call: it has returned, or it has fewer moves left. -/
theorem Locking.move (h : Locking c args (p.state n)) (hinv : MultipleInv (p.state n))
    (hfinite : args.timeout < MRAPI_TIMEOUT_INFINITE) (hmoves : p.Moves (Steps c) n) :
    Locked c args (p.state (n + 1)) ∨ Locking c args (p.state (n + 1)) ∧
      ((p.state (n + 1)).pc c).left < ((p.state n).pc c).left := by
  obtain ⟨time, stage, hpc, -⟩ := h
  obtain ⟨y, hy, -, hnext, htake⟩ := path_own hmoves
  have hplain := hinv.plain.plain c
  have hspins := hinv.plain.guards.spins c
  have hthread := hinv.thread c
  rw [hpc] at hy hplain hspins hthread
  obtain ⟨v, hv, rfl⟩ := Option.map_eq_some_iff.mp hy
  have hspin : stage.spinning = true → args.spinlock_guard = true := by
    intro hstage
    change (stage.spinning && !args.spinlock_guard) = false at hspins
    rw [hstage, Bool.true_and, Bool.not_eq_false'] at hspins
    exact hspins
  have hless := Multiple.step_left hv hfinite hplain.1 hspin hthread.2
    (fun i k hstage => htake args time i k (by rw [hpc, hstage])) hinv.counted
  by_cases hreturned : ∃ ret, v.2.2 = .returned ret
  · obtain ⟨ret, hret⟩ := hreturned
    left
    refine ⟨v.2.1, ret, ?_⟩
    rw [hnext, hret]
  · right
    refine ⟨⟨v.2.1, v.2.2, hnext, fun ret hret => hreturned ⟨ret, hret⟩⟩, ?_⟩
    rw [hnext, hpc]
    exact hless

/-- **A call with a finite timeout returns**, whatever the others do. -/
theorem Locking.ends (hinv : ∀ n, MultipleInv (p.state n)) (hfair : Fair p)
    (hfinite : args.timeout < MRAPI_TIMEOUT_INFINITE) (h : Locking c args (p.state n)) :
    ∃ m, n ≤ m ∧ Locked c args (p.state m) := by
  have hmoves : ∀ m, Locking c args (p.state m) → ∃ k, m ≤ k ∧ p.Moves (Steps c) k :=
    fun m hm => busy_moves hinv hfair hm.busy
  apply Path.descend (P := Locking c args) (f := fun x : Sys => (x.pc c).left) hmoves _ _ n h
  · intro m hm hno
    obtain ⟨hpc, -⟩ := path_others (hinv m) hm.busy hno
    obtain ⟨time, stage, hstage, hgoing⟩ := hm
    refine ⟨⟨time, stage, hpc.trans hstage, hgoing⟩, ?_⟩
    rw [hpc]
  · intro m hm hmoves
    exact hm.move (hinv m) hfinite hmoves

/-- A semaphore with one lock. -/
def oneLock : mrapi_sem_t := createSem node0 0 0 0 1 MRAPI_SEM ⟨false, false⟩

/-- A thread that is in no call has no step, and waits for nothing. -/
theorem idle_rests {c : Node} {pc : ThreadPc} (h : pc.idle = true) :
    (∀ garbage w, threadStep c garbage w pc = none) ∧ pc.waits = none := by
  cases pc with
  | single x =>
    obtain ⟨s, pc, guard, stage⟩ := x
    cases stage with
    | attrPre =>
      constructor
      · intro garbage w
        have hreturned : (⟨s, pc, guard, .attrPre⟩ : Section).returned.isSome = true := h
        unfold threadStep Section.step
        dsimp only
        rw [if_pos hreturned]
        rfl
      · exact if_pos h
    | _ => cases h
  | unlockMultiple todo rc x => cases h
  | multiple args time stage =>
    cases stage with
    | returned ret => exact ⟨fun _ _ => rfl, rfl⟩
    | _ => cases h
  | create args guard stage =>
    cases stage with
    | returned ret => exact ⟨fun _ _ => rfl, rfl⟩
    | _ => cases h

/-- A path that ends with nobody in a call is fair. -/
theorem Fair.ofSchedule {H : Sys → Label → Sys → Bool} {as : List Label} {s t : Sys}
    (h : exec LockGuard.step H s as = some t) (hidle : ∀ c, (t.pc c).idle = true) :
    Fair (Path.ofSchedule h) := by
  intro c
  constructor
  · apply Path.ofSchedule_fair h
    intro a ha
    cases a with
    | call c' call garbage => exact ha.elim
    | step c' garbage =>
      change Option.map _ _ = none
      exact congrArg _ ((idle_rests (hidle c')).1 garbage _)
  · intro n ms hwaits
    have hlast := hwaits (max n as.length) (Nat.le_max_left _ _)
    rw [Path.ofSchedule_last h (Nat.le_max_right _ _), (idle_rests (c := c) (hidle c)).2] at hlast
    cases hlast

/-- One node locks two semaphores, and another one tries to lock the second of them twice. -/
def twoLockers : List Label :=
  [.call node0 (.sem_lock_multiple [0xC0000000, 0xC0000001] true 3) false,
    .call node1 (.sem_lock_multiple [0xC0000001] true 1) false] ++
  List.replicate 7 (.step node0 false) ++ List.replicate 7 (.step node1 false)

/-- The call is about to give back a lock, and waits for a guard that it holds itself. -/
structure WaitsForItself (c : Node) (pc : ThreadPc) (s : ℕ) (x : Sys) : Prop where
  guards : GuardInv x
  at_revert : x.pc c = pc
  busy : pc.idle = false
  stuck : ∀ garbage w, w.sysSem s = some c → threadStep c garbage w pc = none
  held : x.w.sysSem s = some c

/-- Nobody frees the guard of a thread that does not move. -/
theorem WaitsForItself.step {c : Node} {pc : ThreadPc} {s : ℕ} {x x' : Sys} {a : Label}
    (h : WaitsForItself c pc s x) (hstep : step x a = some x') : WaitsForItself c pc s x' := by
  have hguards := h.guards.step hstep
  cases a with
  | call c' call garbage =>
    simp only [LockGuard.step] at hstep
    split at hstep
    · rename_i hidle
      obtain rfl := Option.some.inj hstep
      have hne : c ≠ c' := by
        rintro rfl
        rw [h.at_revert, h.busy] at hidle
        cases hidle
      exact ⟨hguards, (Function.update_of_ne hne _ _).trans h.at_revert, h.busy, h.stuck, h.held⟩
    · cases hstep
  | step c' garbage =>
    obtain ⟨y, hy, rfl⟩ := Option.map_eq_some_iff.mp hstep
    have hne : c ≠ c' := by
      rintro rfl
      rw [h.at_revert, h.stuck garbage x.w h.held] at hy
      cases hy
    obtain ⟨hmoves, -⟩ := threadStep_moves hy (h.guards.spins c')
    exact ⟨hguards, (Function.update_of_ne hne _ _).trans h.at_revert, h.busy, h.stuck,
      (hmoves.others (h.guards.owns c') s c hne).mpr h.held⟩

/-- The first of two semaphores is to be given back. -/
def revertFirst : ThreadPc :=
  .multiple ⟨[0, 1], true, 3, false⟩ 1 (.revert [] (.start 0 (.release .sem 1)))

theorem revertFirst_stuck (garbage : Bool) (w : World) (h : w.sysSem 0 = some node0) :
    threadStep node0 garbage w revertFirst = none := by
  have hpre : mrapi_impl_access_database_pre node0 w ⟨0, false⟩ = none := by
    change (if w.sysSem 0 = none then _ else _) = none
    rw [h]
    rfl
  change Option.map _ (Option.map _ (Option.map _
    (mrapi_impl_access_database_pre node0 w ⟨0, false⟩))) = none
  rw [hpre]
  rfl

end MxApi.LockGuard
