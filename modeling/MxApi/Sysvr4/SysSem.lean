/-
`sys_sem_trylock`, `sys_sem_lock`, `sys_sem_trylock_multiple`, `sys_sem_lock_multiple` and the
unlocks (`sysvr4/Fragments/sysvr4_sem_abb.c`), as they are on Unix.

The multiple lock is a scan of single `semop`s. The loops around them are written down as they
stand: the body of each `while (1)` says whether the function returns, the loop goes round, or
it is left ([`Flow`]). The trylocks end their body with a `break`, so theirs never goes round,
and the locks do not return on any error, so theirs never ends without the lock.

Each `semop` is one step, of any number of processes, and what else happens to the semaphores is
left open: another program may set a value or delete a semaphore at any time. The parameter that
the source calls `id` in one place and `ref` in another is the reference; the length of a list of
references is its `count`.
-/
import Mathlib.Data.Fintype.Basic
import Mathlib.Logic.Function.Basic
import MxApi.Lib.Run

set_option autoImplicit false

namespace MxApi.SysSem

open Lib

/-! ## semop -/

/-- `sem_ref_t`. -/
structure Ref where
  set : ℕ
  member : ℕ
  deriving DecidableEq, Repr

/-- The set of a semaphore may have been deleted (`EIDRM`). -/
inductive Errno
  | EAGAIN
  | EINTR
  | EIDRM
  | ERANGE
  deriving DecidableEq, Repr

open Errno

/-- Trying again does not help. -/
def Errno.permanent (e : Errno) : Bool := e != EAGAIN && e != EINTR

def SEMVMX : ℕ := 32767

/-- The values of the semaphores that exist. -/
abbrev Sems := Ref → Option ℕ

/-- `semop` with one operation that does not wait: 0, or -1 and `errno`. -/
def semop (sems : Sems) (ref : Ref) (sem_op : ℤ) (interrupted : Bool) :
    Sems × Except Errno Unit :=
  if interrupted then (sems, .error EINTR)
  else
    match sems ref with
    | none => (sems, .error EIDRM)
    | some val =>
      if (val : ℤ) + sem_op < 0 then (sems, .error EAGAIN)
      else if (SEMVMX : ℤ) < val + sem_op then (sems, .error ERANGE)
      else (Function.update sems ref (some ((val : ℤ) + sem_op).toNat), .ok ())

/-! ## The loops -/

/-- How the body of a `while (1)` ends. -/
inductive Flow
  | ret (b : Bool)
  | again
  | leave
  deriving DecidableEq, Repr

/-- The loop, and the `return MRAPI_FALSE` behind it; `none` is another round. -/
def whileLoop : Flow → Option Bool
  | .ret b => some b
  | .again => none
  | .leave => some false

/-- "retry only if we get EINTR". -/
def trylockBody : Except Errno Unit → Flow
  | .ok _ => .ret true
  | .error errno =>
    if errno ≠ EINTR then .ret false
    -- the attempt is reported, and then comes the `break` at the end of the body
    else .leave

/-- The body after the scan has stopped at `i` with result `rc`. -/
def trylockMultipleBody (waitall : Bool) (count i : ℕ) (rc : Except Errno Unit) : Flow :=
  match rc with
  | .ok _ =>
    if !waitall then .ret true
    else if count ≤ i then .ret true
    else .leave
  | .error errno =>
    if waitall && decide (count ≤ i) then .ret true
    else if errno ≠ EINTR then .ret false
    else .leave

/-- The body of both locks: "repeatedly call trylock until we get the lock or fail due to an
error other than EAGAIN". -/
def lockBody (locked : Bool) (rc : Except Errno Unit) : Flow :=
  if locked then .ret true
  -- reported, but not returned
  else if rc ≠ .error EAGAIN then .again
  -- `sys_os_yield`
  else .again

/-! ## The calls -/

inductive Op
  | trylock (ref : Ref)
  | lock (ref : Ref)
  | trylock_multiple (refs : List Ref) (waitall : Bool)
  | lock_multiple (refs : List Ref) (waitall : Bool)
  | unlock (ref : Ref)
  | unlock_multiple (refs : List Ref)
  deriving DecidableEq, Repr

def Op.isLock : Op → Bool
  | .lock _ | .lock_multiple _ _ => true
  | _ => false

/-- Where a process is in its call. -/
inductive Pc
  | idle
  | trylock (ref : Ref)
  /-- Before the `semop` on the reference `i`. -/
  | scan (refs : List Ref) (waitall : Bool) (i : ℕ)
  /-- After the scan. -/
  | decide (refs : List Ref) (waitall : Bool) (i : ℕ) (rc : Except Errno Unit)
  | unlock (refs : List Ref) (i : ℕ) (status : Bool)
  | returned (b : Bool)

/-- The head of the `for` loop. -/
def forHead (refs : List Ref) (waitall : Bool) (i : ℕ) (rc : Except Errno Unit) : Pc :=
  if i < refs.length then .scan refs waitall i else .decide refs waitall i rc

def Op.start : Op → Pc
  | .trylock ref | .lock ref => .trylock ref
  | .trylock_multiple refs waitall | .lock_multiple refs waitall => forHead refs waitall 0 (.ok ())
  | .unlock ref => .unlock [ref] 0 true
  | .unlock_multiple refs => .unlock refs 0 true

/-- The semaphores that an attempt has decremented, and the errors of its other `semop`s. -/
structure Attempt where
  got : List Ref
  errors : List Errno
  deriving DecidableEq, Repr

/-- A process with the call it is in or was in last, the attempt it makes, and, as history, the
attempts of this call that have ended, each with what it returned. -/
structure Proc where
  op : Option Op
  pc : Pc
  current : Attempt
  ended : List (Attempt × Bool)

def Proc.isLock (p : Proc) : Bool := p.op.any Op.isLock

/-- The attempt goes on with the result of a `semop`. -/
def Proc.note (p : Proc) (ref : Ref) (rc : Except Errno Unit) : Proc :=
  match rc with
  | .ok _ => { p with current := { p.current with got := p.current.got ++ [ref] } }
  | .error e => { p with current := { p.current with errors := p.current.errors ++ [e] } }

/-- The loop of the trylock ends, or goes round. A lock then tries again or returns. -/
def Proc.attemptEnds (p : Proc) (result : Option Bool) (rc : Except Errno Unit) : Proc :=
  let again := (p.op.map Op.start).getD .idle
  match result with
  | none => { p with pc := again }
  | some b =>
    { p with
      current := ⟨[], []⟩
      ended := p.ended ++ [(p.current, b)]
      pc :=
        if p.isLock then
          match whileLoop (lockBody b rc) with
          | some b => .returned b
          | none => again
        else .returned b }

def procStep (sems : Sems) (p : Proc) (interrupted : Bool) : Option (Sems × Proc) :=
  match p.pc with
  | .idle | .returned _ => none
  | .trylock ref =>
    let (sems, rc) := semop sems ref (-1) interrupted
    some (sems, (p.note ref rc).attemptEnds (whileLoop (trylockBody rc)) rc)
  | .scan refs waitall i =>
    match refs[i]? with
    | none => none
    | some ref =>
      let (sems, rc) := semop sems ref (-1) interrupted
      let stop :=
        match rc with
        -- one of the semaphores is ready
        | .ok _ => !waitall
        -- one of the semaphores is not ready
        | .error _ => waitall
      some (sems, { p.note ref rc with
        pc := if stop then .decide refs waitall i rc else forHead refs waitall (i + 1) rc })
  | .decide refs waitall i rc =>
    some (sems,
      p.attemptEnds (whileLoop (trylockMultipleBody waitall refs.length i rc)) rc)
  | .unlock refs i status =>
    match refs[i]? with
    | none => some (sems, { p with pc := .returned status })
    | some ref =>
      let (sems, rc) := semop sems ref 1 interrupted
      let ok := match rc with
        | .ok _ => true
        | .error _ => false
      some (sems, { p with pc := .unlock refs (i + 1) (status && ok) })

/-! ## The processes -/

structure St (τ : Type) where
  sems : Sems
  proc : τ → Proc

inductive Label (τ : Type)
  | call (t : τ) (op : Op)
  /-- The next step of a process, whose `semop` may be interrupted. -/
  | step (t : τ) (interrupted : Bool)
  /-- Another program sets a value, or deletes the semaphore. -/
  | change (ref : Ref) (value : Option ℕ)

section Model

variable {τ : Type} [DecidableEq τ]

def step (s : St τ) : Label τ → Option (St τ)
  | .call t op =>
    match (s.proc t).pc with
    | .idle | .returned _ =>
      some { s with proc := Function.update s.proc t ⟨some op, op.start, ⟨[], []⟩, []⟩ }
    | _ => none
  | .step t interrupted =>
    match procStep s.sems (s.proc t) interrupted with
    | none => none
    | some (sems, p) => some ⟨sems, Function.update s.proc t p⟩
  | .change ref value => some { s with sems := Function.update s.sems ref value }

def init (sems : Sems) : St τ := ⟨sems, fun _ => ⟨none, .idle, ⟨[], []⟩, []⟩⟩

end Model

/-! ## What is to hold -/

/-- What a lock that returns `TRUE` has decremented, in order: the semaphore; all of the list;
or one of the list. -/
def Required : Op → List Ref → Prop
  | .lock ref, taken => taken = [ref]
  | .lock_multiple refs true, taken => taken = refs
  | .lock_multiple refs false, taken => ∃ ref ∈ refs, taken = [ref]
  | _, _ => True

structure Right (p : Proc) : Prop where
  /-- A lock returns `TRUE` only having decremented what is required, over all its attempts. -/
  locked : ∀ op, p.op = some op → op.isLock = true → p.pc = .returned true →
    Required op (p.ended.flatMap fun x => x.1.got)
  /-- An attempt that returns `FALSE` leaves nothing decremented. -/
  clean : ∀ x ∈ p.ended, x.2 = false → x.1.got = []
  /-- An attempt does not return `FALSE` on `EINTR`. -/
  retried : ∀ x ∈ p.ended, x.2 = false → x.1.errors.getLast? ≠ some EINTR
  /-- A lock whose attempt has met a permanent error returns `FALSE`. -/
  gives_up : p.isLock = true → ∀ x ∈ p.ended, x.2 = false →
    x.1.errors.any Errno.permanent = true → p.pc = .returned false

/-- An attempt may end with this error: it is not interrupted, it has decremented nothing, and in
a lock none of its errors is permanent. -/
def Proc.MayFail (p : Proc) : Except Errno Unit → Prop
  | .ok _ => True
  | .error e => e ≠ EINTR ∧ p.current.got = [] ∧
      (p.isLock = true → (p.current.errors ++ [e]).any Errno.permanent = false)

/-- The `semop`s with which an attempt may end: the only one of a trylock, and of a scan any that
fails if all are required, and the last. -/
def Proc.Admits (sems : Sems) (p : Proc) (interrupted : Bool) : Pc → Prop
  | .trylock ref => p.MayFail (semop sems ref (-1) interrupted).2
  | .scan refs waitall i => ∀ ref ∈ refs[i]?, waitall = true ∨ i + 1 = refs.length →
      p.MayFail (semop sems ref (-1) interrupted).2
  | _ => True

/-- The steps that a run may contain. -/
def Admitted {τ : Type} (s : St τ) : Label τ → Prop
  | .call _ op => op ≠ .lock_multiple [] false
  | .step t interrupted => (s.proc t).Admits s.sems interrupted (s.proc t).pc
  | .change _ _ => True

instance (p : Proc) : (rc : Except Errno Unit) → Decidable (p.MayFail rc)
  | .ok _ => isTrue trivial
  | .error _ => inferInstanceAs (Decidable (_ ∧ _ ∧ (_ → _)))

instance (sems : Sems) (p : Proc) (interrupted : Bool) :
    (pc : Pc) → Decidable (p.Admits sems interrupted pc)
  | .trylock ref => inferInstanceAs (Decidable (p.MayFail (semop sems ref (-1) interrupted).2))
  | .scan refs _ i => inferInstanceAs (Decidable (∀ ref ∈ refs[i]?, _ → p.MayFail _))
  | .idle => isTrue trivial
  | .decide _ _ _ _ => isTrue trivial
  | .unlock _ _ _ => isTrue trivial
  | .returned _ => isTrue trivial

instance {τ : Type} (s : St τ) : (l : Label τ) → Decidable (Admitted s l)
  | .call _ op => inferInstanceAs (Decidable (op ≠ .lock_multiple [] false))
  | .step t interrupted =>
    inferInstanceAs (Decidable ((s.proc t).Admits s.sems interrupted (s.proc t).pc))
  | .change _ _ => isTrue trivial

end MxApi.SysSem
