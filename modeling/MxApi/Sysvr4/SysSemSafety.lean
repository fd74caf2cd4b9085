/-
What the system semaphores' locks promise, where no attempt fails in a way they do not handle
([`Admitted`]).

The attempts of a call are followed one after the other. One that fails has decremented nothing
and leaves the call where it was ([`ProcInv.fails`]); one that succeeds has decremented what the
call requires ([`ProcInv.succeeds`]). In between the scan keeps track of what it has decremented:
all before the reference it stands at, if all are required, and nothing otherwise.

In other runs an interrupted trylock returns `FALSE`, a lock on a deleted semaphore goes round
for ever, a failure in the middle of a scan leaves the semaphores before it decremented, and a
lock of one out of no semaphores returns `TRUE`.
-/
import MxApi.Sysvr4.SysSem

set_option autoImplicit false

namespace MxApi.SysSem

open Lib Errno

/-! ## Attempts that fail -/

/-- What is promised of an attempt that fails. -/
structure Failed (isLock : Bool) (a : Attempt) : Prop where
  clean : a.got = []
  retried : a.errors.getLast? ≠ some EINTR
  temporary : isLock = true → a.errors.any Errno.permanent = false

/-- Where a scan has come to, and what it has decremented. -/
def taken (refs : List Ref) (waitall : Bool) (i : ℕ) : List Ref :=
  if waitall then refs.take i else []

/-- How a scan has ended: with what is required, or with an error and nothing. -/
inductive Scanned (isLock : Bool) (refs : List Ref) (waitall : Bool) (i : ℕ) (a : Attempt) :
    Except Errno Unit → Prop
  | all (hall : waitall = true) (hi : i = refs.length) (got : a.got = refs) :
    Scanned isLock refs waitall i a (.ok ())
  | one (hone : waitall = false) (got : refs = [] ∨ ∃ ref ∈ refs, a.got = [ref]) :
    Scanned isLock refs waitall i a (.ok ())
  | none (e : Errno) (hi : waitall = true → i < refs.length) (he : e ≠ EINTR)
    (failed : Failed isLock a) : Scanned isLock refs waitall i a (.error e)

def Proc.Multiple (p : Proc) (refs : List Ref) (waitall : Bool) : Prop :=
  p.op = some (.trylock_multiple refs waitall) ∨ p.op = some (.lock_multiple refs waitall)

/-- What a process knows where it is. -/
def Proc.Known (p : Proc) : Prop :=
  match p.pc with
  | .idle => True
  | .trylock ref => (p.op = some (.trylock ref) ∨ p.op = some (.lock ref)) ∧
      p.current = ⟨[], []⟩
  | .scan refs waitall i => p.Multiple refs waitall ∧ i < refs.length ∧
      p.current.got = taken refs waitall i
  | .decide refs waitall i rc => p.Multiple refs waitall ∧
      Scanned p.isLock refs waitall i p.current rc
  | .unlock _ _ _ => p.isLock = false
  | .returned b => b = true → ∀ op, p.op = some op → op.isLock = true →
      Required op (p.ended.flatMap fun x => x.1.got)

/-- The invariant of a process. Only the last attempt of a call that has returned may have
succeeded. -/
structure ProcInv (p : Proc) : Prop where
  required : p.op ≠ some (.lock_multiple [] false)
  failed : ∀ x ∈ p.ended, x.2 = false → Failed p.isLock x.1
  unless_returned : (∀ b, p.pc ≠ .returned b) → ∀ x ∈ p.ended, x.2 = false
  known : p.Known

theorem ProcInv.right {p : Proc} (h : ProcInv p) : Right p where
  locked := by
    intro op hop hlock hpc
    have hknown := h.known
    unfold Proc.Known at hknown
    rw [hpc] at hknown
    exact hknown rfl op hop hlock
  clean := fun x hx hfalse => (h.failed x hx hfalse).clean
  retried := fun x hx hfalse => (h.failed x hx hfalse).retried
  gives_up := by
    intro hlock x hx hfalse hpermanent
    rw [(h.failed x hx hfalse).temporary hlock] at hpermanent
    cases hpermanent

/-! ## The ends of an attempt -/

section Ends

variable {p : Proc} {op : Op} {rc : Except Errno Unit}

/-- The attempts that failed have decremented nothing between them. -/
theorem flatMap_failed {ended : List (Attempt × Bool)} {isLock : Bool}
    (hfalse : ∀ x ∈ ended, x.2 = false) (hfailed : ∀ x ∈ ended, x.2 = false → Failed isLock x.1) :
    (ended.flatMap fun x => x.1.got) = [] := by
  rw [List.flatMap_eq_nil_iff]
  intro x hx
  exact (hfailed x hx (hfalse x hx)).clean

theorem attemptEnds_isLock (result : Option Bool) :
    (p.attemptEnds result rc).isLock = p.isLock := by
  cases result <;> rfl

/-- At the head of the loop over the references. -/
theorem known_forHead (refs : List Ref) (waitall : Bool) (i : ℕ)
    (hmultiple : p.Multiple refs waitall) (hgot : p.current.got = taken refs waitall i)
    (hend : refs.length ≤ i → Scanned p.isLock refs waitall i p.current rc)
    (hpc : p.pc = forHead refs waitall i rc) : p.Known := by
  unfold Proc.Known
  by_cases hlt : i < refs.length
  · rw [hpc, forHead, if_pos hlt]
    exact ⟨hmultiple, hlt, hgot⟩
  · rw [hpc, forHead, if_neg hlt]
    exact ⟨hmultiple, hend (Nat.le_of_not_lt hlt)⟩

/-- A call begins, or tries again, without anything decremented. -/
theorem known_start (hop : p.op = some op) (hcurrent : p.current = ⟨[], []⟩)
    (hpc : p.pc = op.start) : p.Known := by
  have hmultiple (refs : List Ref) (waitall : Bool) (hmultiple : p.Multiple refs waitall)
      (hpc : p.pc = forHead refs waitall 0 (.ok ())) : p.Known := by
    refine known_forHead refs waitall 0 hmultiple ?_ ?_ hpc
    · rw [hcurrent, taken]
      split <;> rfl
    · intro hempty
      have hrefs : refs = [] := List.length_eq_zero_iff.mp (by omega)
      cases waitall with
      | true => exact .all rfl (by rw [hrefs]; rfl) (by rw [hcurrent, hrefs])
      | false => exact .one rfl (.inl hrefs)
  cases op with
  | trylock ref =>
    unfold Proc.Known
    rw [hpc]
    exact ⟨.inl hop, hcurrent⟩
  | lock ref =>
    unfold Proc.Known
    rw [hpc]
    exact ⟨.inr hop, hcurrent⟩
  | trylock_multiple refs waitall => exact hmultiple refs waitall (.inl hop) hpc
  | lock_multiple refs waitall => exact hmultiple refs waitall (.inr hop) hpc
  | unlock ref =>
    unfold Proc.Known Proc.isLock
    rw [hpc, hop]
    rfl
  | unlock_multiple refs =>
    unfold Proc.Known Proc.isLock
    rw [hpc, hop]
    rfl

/-- **An attempt that succeeds** ends the call, with what the call requires. -/
theorem ProcInv.succeeds (hrequired : p.op ≠ some (.lock_multiple [] false))
    (hfalse : ∀ x ∈ p.ended, x.2 = false)
    (hfailed : ∀ x ∈ p.ended, x.2 = false → Failed p.isLock x.1)
    (hgot : ∀ op, p.op = some op → op.isLock = true → Required op p.current.got) :
    ProcInv (p.attemptEnds (some true) rc) := by
  have hpc : (p.attemptEnds (some true) rc).pc = .returned true := by
    unfold Proc.attemptEnds
    dsimp only
    split <;> rfl
  refine ⟨hrequired, ?_, fun hnot => absurd hpc (hnot true), ?_⟩
  · intro x hx hx2
    rcases List.mem_append.mp hx with hx | hx
    · exact hfailed x hx hx2
    · rw [List.mem_singleton.mp hx] at hx2
      cases hx2
  · unfold Proc.Known
    rw [hpc]
    intro _ op hop hlock
    have htaken : ((p.attemptEnds (some true) rc).ended.flatMap fun x => x.1.got) =
        p.current.got := by
      unfold Proc.attemptEnds
      rw [List.flatMap_append, flatMap_failed hfalse hfailed, List.nil_append,
        List.flatMap_singleton]
    rw [htaken]
    exact hgot op hop hlock

/-- **An attempt that fails** makes a lock try again and a trylock return. -/
theorem ProcInv.fails (hrequired : p.op ≠ some (.lock_multiple [] false))
    (hfalse : ∀ x ∈ p.ended, x.2 = false)
    (hfailed : ∀ x ∈ p.ended, x.2 = false → Failed p.isLock x.1)
    (hnow : Failed p.isLock p.current) : ProcInv (p.attemptEnds (some false) rc) := by
  have hall : ∀ x ∈ (p.attemptEnds (some false) rc).ended, x.2 = false := by
    intro x hx
    rcases List.mem_append.mp hx with hx | hx
    · exact hfalse x hx
    · rw [List.mem_singleton.mp hx]
  refine ⟨hrequired, ?_, fun _ => hall, ?_⟩
  · intro x hx hx2
    rcases List.mem_append.mp hx with hx | hx
    · exact hfailed x hx hx2
    · rw [List.mem_singleton.mp hx]
      exact hnow
  · cases hlock : p.isLock with
    | false =>
      unfold Proc.Known Proc.attemptEnds
      simp only [hlock, Bool.false_eq_true, if_false]
      nofun
    | true =>
      -- whatever the error, the body of a lock goes round
      have hround : whileLoop (lockBody false rc) = none := by
        unfold lockBody
        rw [if_neg Bool.false_ne_true]
        split <;> rfl
      obtain ⟨op, hop⟩ : ∃ op, p.op = some op := by
        cases hp : p.op with
        | none =>
          unfold Proc.isLock at hlock
          rw [hp] at hlock
          cases hlock
        | some op => exact ⟨op, rfl⟩
      have hpc : (p.attemptEnds (some false) rc).pc = op.start := by
        unfold Proc.attemptEnds
        simp only [hlock, if_true, hround, hop]
        rfl
      exact known_start hop rfl hpc

end Ends

/-! ## Steps -/

section Steps

variable {sems sems' : Sems} {p p' : Proc} {interrupted : Bool}

theorem note_op (p : Proc) (ref : Ref) (rc : Except Errno Unit) : (p.note ref rc).op = p.op := by
  cases rc <;> rfl

/-- What an attempt that may end with an error has to show for it. -/
theorem Proc.MayFail.failed {e : Errno} (h : p.MayFail (.error e)) (ref : Ref) :
    Failed p.isLock (p.note ref (.error e)).current where
  clean := h.2.1
  retried := by
    dsimp only [Proc.note]
    rw [List.getLast?_concat]
    intro heq
    exact h.1 (Option.some.inj heq)
  temporary := h.2.2

/-- The one `semop` of a trylock. -/
theorem ProcInv.trylock {ref : Ref} (h : ProcInv p) (hpc : p.pc = .trylock ref)
    (hadmitted : p.Admits sems interrupted p.pc)
    (hstep : procStep sems p interrupted = some (sems', p')) : ProcInv p' := by
  have hknown := h.known
  have hfalse := h.unless_returned (by rw [hpc]; nofun)
  unfold Proc.Known at hknown
  rw [hpc] at hadmitted hknown
  replace hadmitted : p.MayFail (semop sems ref (-1) interrupted).2 := hadmitted
  obtain ⟨hop, hcurrent⟩ := hknown
  simp only [procStep, hpc] at hstep
  cases hrc : (semop sems ref (-1) interrupted).2 with
  | ok _ =>
    rw [hrc] at hstep
    cases hstep
    refine .succeeds h.required hfalse h.failed ?_
    intro op hop' hlock
    have hgot : (p.note ref (.ok ())).current.got = [ref] := by
      dsimp only [Proc.note]
      rw [hcurrent]
      rfl
    rw [hgot]
    rcases hop with hop | hop <;> rw [note_op, hop] at hop' <;> cases hop'
    · cases hlock
    · rfl
  | error e =>
    rw [hrc] at hstep hadmitted
    cases hstep
    have hbody : whileLoop (trylockBody (.error e)) = some false := by
      simp [trylockBody, hadmitted.1, whileLoop]
    rw [hbody]
    exact .fails h.required hfalse h.failed (hadmitted.failed ref)

/-- A `semop` of a scan. -/
theorem ProcInv.scan {refs : List Ref} {waitall : Bool} {i : ℕ} (h : ProcInv p)
    (hpc : p.pc = .scan refs waitall i) (hadmitted : p.Admits sems interrupted p.pc)
    (hstep : procStep sems p interrupted = some (sems', p')) : ProcInv p' := by
  have hknown := h.known
  have hfalse := h.unless_returned (by rw [hpc]; nofun)
  unfold Proc.Known at hknown
  rw [hpc] at hknown
  obtain ⟨hmultiple, hi, hgot⟩ := hknown
  have hget : refs[i]? = some refs[i] := List.getElem?_eq_getElem hi
  have htake : refs.take (i + 1) = refs.take i ++ [refs[i]] := by
    rw [List.take_add_one, hget]
    rfl
  simp only [procStep, hpc, hget] at hstep
  rw [hpc] at hadmitted
  replace hadmitted := hadmitted refs[i] hget
  cases hrc : (semop sems refs[i] (-1) interrupted).2 with
  | ok _ =>
    rw [hrc] at hstep
    cases hstep
    refine ⟨h.required, h.failed, fun _ => hfalse, ?_⟩
    cases waitall with
    | true =>
      -- all so far, and on to the next
      refine known_forHead refs true (i + 1) hmultiple ?_ ?_ rfl
      · dsimp only [Proc.note]
        rw [hgot, taken, if_pos rfl, taken, if_pos rfl, htake]
      · intro hend
        have heq : i + 1 = refs.length := by omega
        refine .all rfl heq ?_
        dsimp only [Proc.note]
        rw [hgot, taken, if_pos rfl, ← htake, heq, List.take_length]
    | false =>
      refine ⟨hmultiple, .one rfl (.inr ⟨refs[i], List.getElem_mem hi, ?_⟩)⟩
      dsimp only [Proc.note]
      rw [hgot, taken, if_neg Bool.false_ne_true, List.nil_append]
  | error e =>
    rw [hrc] at hstep hadmitted
    cases hstep
    refine ⟨h.required, h.failed, fun _ => hfalse, ?_⟩
    cases waitall with
    | true =>
      have hmay := hadmitted (.inl rfl)
      exact ⟨hmultiple, .none e (fun _ => hi) hmay.1 (hmay.failed refs[i])⟩
    | false =>
      -- nothing so far, and on to the next
      refine known_forHead refs false (i + 1) hmultiple hgot ?_ rfl
      intro hend
      have hmay := hadmitted (.inr (by omega))
      exact .none e nofun hmay.1 (hmay.failed refs[i])

/-- The test behind a scan. -/
theorem ProcInv.decide {refs : List Ref} {waitall : Bool} {i : ℕ} {rc : Except Errno Unit}
    (h : ProcInv p) (hpc : p.pc = .decide refs waitall i rc)
    (hstep : procStep sems p interrupted = some (sems', p')) : ProcInv p' := by
  have hknown := h.known
  have hfalse := h.unless_returned (by rw [hpc]; nofun)
  unfold Proc.Known at hknown
  rw [hpc] at hknown
  obtain ⟨hmultiple, hscanned⟩ := hknown
  simp only [procStep, hpc, Option.some.injEq, Prod.mk.injEq] at hstep
  obtain ⟨-, rfl⟩ := hstep
  cases hscanned with
  | all hall hi hgot =>
    have hbody : whileLoop (trylockMultipleBody waitall refs.length i (.ok ())) = some true := by
      simp [trylockMultipleBody, hall, hi, whileLoop]
    rw [hbody]
    refine .succeeds h.required hfalse h.failed ?_
    intro op hop hlock
    rcases hmultiple with hmultiple | hmultiple <;> rw [hmultiple] at hop <;> cases hop
    · cases hlock
    · rw [hall]
      exact hgot
  | one hone hgot =>
    have hbody : whileLoop (trylockMultipleBody waitall refs.length i (.ok ())) = some true := by
      simp [trylockMultipleBody, hone, whileLoop]
    rw [hbody]
    refine .succeeds h.required hfalse h.failed ?_
    intro op hop hlock
    rcases hmultiple with hmultiple | hmultiple <;> rw [hmultiple] at hop <;> cases hop
    · cases hlock
    · rw [hone] at hmultiple ⊢
      rcases hgot with hempty | hgot
      · rw [hempty] at hmultiple
        exact absurd hmultiple h.required
      · exact hgot
  | none e hi he hfailed =>
    have hbody : whileLoop (trylockMultipleBody waitall refs.length i (.error e)) =
        some false := by
      have hnot : (waitall && Decidable.decide (refs.length ≤ i)) = false := by
        cases waitall with
        | true => exact decide_eq_false (Nat.not_le.mpr (hi rfl))
        | false => rfl
      simp [trylockMultipleBody, hnot, he, whileLoop]
    rw [hbody]
    exact .fails h.required hfalse h.failed hfailed

/-- A call that is no lock promises nothing. -/
theorem ProcInv.unlock {refs : List Ref} {i : ℕ} {status : Bool} (h : ProcInv p)
    (hpc : p.pc = .unlock refs i status)
    (hstep : procStep sems p interrupted = some (sems', p')) : ProcInv p' := by
  have hknown := h.known
  have hfalse := h.unless_returned (by rw [hpc]; nofun)
  unfold Proc.Known at hknown
  rw [hpc] at hknown
  simp only [procStep, hpc] at hstep
  split at hstep
  · cases hstep
    refine ⟨h.required, h.failed, fun hnot => absurd rfl (hnot status), ?_⟩
    intro _ op hop hlock
    unfold Proc.isLock at hknown
    rw [hop] at hknown
    rw [Option.any_some, hlock] at hknown
    cases hknown
  · cases hstep
    exact ⟨h.required, h.failed, fun _ => hfalse, hknown⟩

/-- **A step of a process.** One case for each program point. -/
theorem ProcInv.step (h : ProcInv p) (hadmitted : p.Admits sems interrupted p.pc)
    (hstep : procStep sems p interrupted = some (sems', p')) : ProcInv p' := by
  cases hpc : p.pc with
  | idle | returned =>
    simp only [procStep, hpc] at hstep
    cases hstep
  | trylock ref => exact h.trylock hpc hadmitted hstep
  | scan refs waitall i => exact h.scan hpc hadmitted hstep
  | decide refs waitall i rc => exact h.decide hpc hstep
  | unlock refs i status => exact h.unlock hpc hstep

/-- A call begins. -/
theorem ProcInv.call {op : Op} (hrequired : op ≠ .lock_multiple [] false) :
    ProcInv ⟨some op, op.start, ⟨[], []⟩, []⟩ where
  required := fun heq => hrequired (Option.some.inj heq)
  failed := nofun
  unless_returned := fun _ => nofun
  known := known_start rfl rfl rfl

end Steps

/-! ## Runs -/

section Runs

variable {τ : Type} [DecidableEq τ] {s s' : St τ}

theorem step_inv {l : Label τ} (h : ∀ t, ProcInv (s.proc t)) (hadmitted : Admitted s l)
    (hstep : step s l = some s') (t : τ) : ProcInv (s'.proc t) := by
  cases l with
  | call u op =>
    simp only [step] at hstep
    have hcall : ProcInv (Function.update s.proc u ⟨some op, op.start, ⟨[], []⟩, []⟩ t) := by
      by_cases htu : t = u
      · subst htu
        rw [Function.update_self]
        exact .call hadmitted
      · rw [Function.update_of_ne htu]
        exact h t
    split at hstep <;> cases hstep <;> exact hcall
  | step u interrupted =>
    simp only [step] at hstep
    split at hstep
    · cases hstep
    · rename_i sems' p' hproc
      cases hstep
      dsimp only
      by_cases htu : t = u
      · subst htu
        rw [Function.update_self]
        exact (h t).step hadmitted hproc
      · rw [Function.update_of_ne htu]
        exact h t
  | change ref value =>
    cases hstep
    exact h t

/-- **In every run whose steps are admitted**, the locks return `TRUE` only having decremented
what is required, once, an attempt that returns `FALSE` leaves nothing decremented and has not
been interrupted, and no lock goes on after a permanent error. -/
theorem sys_sem_right {sems : Sems} (h : Run step (fun s l _ => Admitted s l) (init sems) s)
    (t : τ) : Right (s.proc t) := by
  have hinv : ∀ t, ProcInv (s.proc t) := by
    refine Run.invariant (I := fun s : St τ => ∀ t, ProcInv (s.proc t)) ?_ h ?_
    · intro _ _ _ hs hstep hadmitted
      exact step_inv hs hadmitted hstep
    · intro t
      exact ⟨nofun, nofun, fun _ => nofun, trivial⟩
  exact (hinv t).right

end Runs

/-- Two semaphores of one set. -/
def twoSems : Sems := fun ref => if ref.set = 1 ∧ ref.member < 2 then some 1 else none

/-- Both are required, one of them twice as another program gives it back. -/
theorem lock_multiple_right :
    ∃ s : St Unit, Right (s.proc ()) ∧
      (s.proc ()).ended = [(⟨[⟨1, 0⟩, ⟨1, 1⟩, ⟨1, 0⟩], []⟩, true)] := by
  have hexec : (exec step (fun s l _ => Decidable.decide (Admitted s l)) (init twoSems)
      [Label.call () (.lock_multiple [⟨1, 0⟩, ⟨1, 1⟩, ⟨1, 0⟩] true), Label.step () false,
        Label.change ⟨1, 0⟩ (some 1), Label.step () false, Label.step () false,
        Label.step () false]).any
      (fun s => (s.proc ()).ended = [(⟨[⟨1, 0⟩, ⟨1, 1⟩, ⟨1, 0⟩], []⟩, true)]) = true := by
    decide +kernel
  obtain ⟨s, hrun, hs⟩ := exec_run_of_any hexec
  have hright := sys_sem_right (hrun.mono fun _ _ _ => of_decide_eq_true) ()
  exact ⟨s, hright, of_decide_eq_true hs⟩

/-! ## Other runs -/

section Others

variable {τ : Type} [DecidableEq τ] {s s' : St τ}

/-- All runs. -/
def Reached (sems : Sems) (s : St τ) : Prop := Run step (fun _ _ _ => True) (init sems) s

theorem exec_reached {sems : Sems} {labels : List (Label τ)} {p : St τ → Bool}
    (h : (exec step (fun _ _ _ => true) (init sems) labels).any p = true) :
    ∃ s : St τ, Reached sems s ∧ p s = true := by
  obtain ⟨s, hrun, hp⟩ := exec_run_of_any h
  exact ⟨s, hrun.mono fun _ _ _ _ => trivial, hp⟩

/-- **An interrupted trylock** of a free semaphore returns `FALSE`. -/
theorem trylock_interrupted :
    ¬ ∀ s : St Unit, Reached twoSems s → Right (s.proc ()) := by
  intro hall
  have hexec : (exec step (fun _ _ _ => true) (init twoSems)
      [Label.call () (.trylock ⟨1, 0⟩), Label.step () true]).any
      (fun s => (s.proc ()).ended = [(⟨[], [EINTR]⟩, false)]) = true := by
    decide +kernel
  obtain ⟨s, hreached, hs⟩ := exec_reached hexec
  have hretried := (hall s hreached).retried
  rw [of_decide_eq_true hs] at hretried
  exact hretried _ (List.mem_singleton_self _) rfl rfl

/-- **A scan that fails in the middle** keeps what it has decremented, and a lock that tries
again decrements it again. -/
theorem scan_keeps_decremented :
    ∃ s : St Unit, Reached twoSems s ∧
      (s.proc ()).ended = [(⟨[⟨1, 0⟩], [EAGAIN]⟩, false), (⟨[⟨1, 0⟩, ⟨1, 1⟩], []⟩, true)] := by
  have hexec : (exec step (fun _ _ _ => true) (init twoSems)
      [Label.change ⟨1, 1⟩ (some 0), Label.call () (.lock_multiple [⟨1, 0⟩, ⟨1, 1⟩] true),
        Label.step () false, Label.step () false, Label.step () false,
        Label.change ⟨1, 0⟩ (some 1), Label.change ⟨1, 1⟩ (some 1), Label.step () false,
        Label.step () false, Label.step () false]).any
      (fun s => (s.proc ()).ended =
        [(⟨[⟨1, 0⟩], [EAGAIN]⟩, false), (⟨[⟨1, 0⟩, ⟨1, 1⟩], []⟩, true)]) = true := by
    decide +kernel
  obtain ⟨s, hreached, hs⟩ := exec_reached hexec
  exact ⟨s, hreached, of_decide_eq_true hs⟩

/-- A lock is not about to return `FALSE`, and does not unlock. -/
def Pc.Locking : Pc → Prop
  | .unlock _ _ _ => False
  | .returned b => b = true
  | _ => True

theorem forHead_locking (refs : List Ref) (waitall : Bool) (i : ℕ) (rc : Except Errno Unit) :
    (forHead refs waitall i rc).Locking := by
  unfold forHead
  split <;> trivial

theorem start_locking {op : Op} (h : op.isLock = true) : op.start.Locking := by
  cases op with
  | lock ref => trivial
  | lock_multiple refs waitall => exact forHead_locking refs waitall 0 (.ok ())
  | trylock | trylock_multiple | unlock | unlock_multiple => cases h

/-- The body of a lock returns only the `TRUE` of its trylock. -/
theorem lockBody_locking (b : Bool) (rc : Except Errno Unit) {b' : Bool}
    (h : whileLoop (lockBody b rc) = some b') : b' = true := by
  cases b with
  | true => exact (Option.some.inj h).symm
  | false =>
    unfold lockBody at h
    rw [if_neg Bool.false_ne_true] at h
    split at h <;> cases h

theorem attemptEnds_locking {p : Proc} (h : p.isLock = true) (result : Option Bool)
    (rc : Except Errno Unit) : (p.attemptEnds result rc).pc.Locking := by
  have hagain : ((p.op.map Op.start).getD .idle).Locking := by
    unfold Proc.isLock at h
    cases hop : p.op with
    | none => trivial
    | some op =>
      rw [hop] at h
      exact start_locking h
  cases result with
  | none => exact hagain
  | some b =>
    dsimp only [Proc.attemptEnds]
    rw [if_pos h]
    split
    · rename_i b' hbody
      exact lockBody_locking b rc hbody
    · exact hagain

/-- A step of a process does not make its lock return `FALSE`. -/
theorem procStep_locking {sems sems' : Sems} {p p' : Proc} {interrupted : Bool}
    (h : p.isLock = true → p.pc.Locking)
    (hstep : procStep sems p interrupted = some (sems', p')) :
    p'.isLock = true → p'.pc.Locking := by
  have hhead (stop : Bool) (refs : List Ref) (waitall : Bool) (i : ℕ) (rc : Except Errno Unit) :
      (if stop then Pc.decide refs waitall i rc else forHead refs waitall (i + 1) rc).Locking := by
    cases stop with
    | true => trivial
    | false => exact forHead_locking refs waitall (i + 1) rc
  intro hlock
  cases hpc : p.pc with
  | idle | returned =>
    simp only [procStep, hpc] at hstep
    cases hstep
  | trylock ref =>
    simp only [procStep, hpc, Option.some.injEq, Prod.mk.injEq] at hstep
    obtain ⟨-, rfl⟩ := hstep
    rw [attemptEnds_isLock] at hlock
    exact attemptEnds_locking hlock _ _
  | scan refs waitall i =>
    simp only [procStep, hpc] at hstep
    split at hstep
    · cases hstep
    · cases hstep
      exact hhead _ refs waitall i _
  | decide refs waitall i rc =>
    simp only [procStep, hpc, Option.some.injEq, Prod.mk.injEq] at hstep
    obtain ⟨-, rfl⟩ := hstep
    rw [attemptEnds_isLock] at hlock
    exact attemptEnds_locking hlock _ _
  | unlock refs i status =>
    rw [hpc] at h
    simp only [procStep, hpc] at hstep
    split at hstep <;> cases hstep <;> exact (h hlock).elim

/-- **No lock returns `FALSE`**, in any run. -/
theorem lock_not_false {sems : Sems} (h : Reached sems s) (t : τ)
    (hlock : (s.proc t).isLock = true) : (s.proc t).pc ≠ .returned false := by
  have hinv : ∀ t, (s.proc t).isLock = true → (s.proc t).pc.Locking := by
    refine Run.invariant
      (I := fun s : St τ => ∀ t, (s.proc t).isLock = true → (s.proc t).pc.Locking) ?_ h ?_
    · intro s l s' hs hstep _ t
      cases l with
      | call u op =>
        have hcall : (Function.update s.proc u ⟨some op, op.start, ⟨[], []⟩, []⟩ t).isLock = true →
            (Function.update s.proc u ⟨some op, op.start, ⟨[], []⟩, []⟩ t).pc.Locking := by
          by_cases htu : t = u
          · subst htu
            rw [Function.update_self]
            exact start_locking
          · rw [Function.update_of_ne htu]
            exact hs t
        simp only [step] at hstep
        split at hstep <;> cases hstep <;> exact hcall
      | step u interrupted =>
        simp only [step] at hstep
        split at hstep
        · cases hstep
        · rename_i sems' p' hproc
          cases hstep
          dsimp only
          by_cases htu : t = u
          · subst htu
            rw [Function.update_self]
            exact procStep_locking (hs t) hproc
          · rw [Function.update_of_ne htu]
            exact hs t
      | change ref value =>
        cases hstep
        exact hs t
    · intro t hlock
      cases hlock
  intro hpc
  have hlocking := hinv t hlock
  rw [hpc] at hlocking
  cases hlocking

/-- So what is to hold does not, once a lock has met a permanent error and goes on. -/
theorem permanent_not_right {sems : Sems} (h : Reached sems s) (t : τ)
    (hlock : (s.proc t).isLock = true) (x : Attempt × Bool) (hx : x ∈ (s.proc t).ended)
    (hfalse : x.2 = false) (hpermanent : x.1.errors.any Errno.permanent = true) :
    ¬ Right (s.proc t) := fun hright =>
  lock_not_false h t hlock (hright.gives_up hlock x hx hfalse hpermanent)

end Others

end MxApi.SysSem
