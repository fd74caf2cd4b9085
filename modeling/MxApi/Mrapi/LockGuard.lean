/-
How the critical sections of the lock table are guarded: the program between
`mrapi_impl_access_database_pre` and `mrapi_impl_access_database_post`.

In `LockTable` a critical section is one step. Here its guard is part of the state. An
entry has two: its member of `sems_semid`, a system semaphore, and its word `spin`. Which
one a call uses is the field `spinlock_guard` of a local structure. The callers mean to
read it from the entry, but `mrapi_impl_sem_get_attribute` writes to the first field of
that structure, so what they use is an indeterminate value, and so is the field in the
references that `mrapi_impl_sem_lock_multiple` allocates. Each step is given the value that
is found there as an argument (`garbage`).

A call on one entry is a [`Section`]: the critical sections of `LockTable` one after
another, each with the one of `mrapi_impl_sem_get_attribute` before it. A turn of
`mrapi_impl_sem_lock` that gets no lock yields: it leaves the critical section and enters
it again. The bodies are single steps, since they touch nothing but their entry. System
semaphores are binary, know no owner, and are granted in any order; a thread that has to
wait for its guard has no step.

The check of the handles by the API is left out, and so are the assertions, which hold in
every run of the lock table.
-/
import MxApi.Mrapi.LockTableSafety

set_option autoImplicit false

namespace MxApi.LockGuard

open Lib LockTable LockTable.lock_type LockTable.mrapi_status_t

/-! ## Guards -/

structure mrapi_impl_sem_ref_t where
  member : ℕ
  spinlock_guard : Bool
  deriving DecidableEq, Repr

/-- The entries, who has locked each member of `sems_semid`, whose thread each word `spin`
names, who has locked the global semaphore, the addresses of the entries, and the attribute
`MRAPI_SPINLOCK_GUARD` that the object in each entry was created with. The last is not kept
by the program. -/
structure World where
  sems : ℕ → mrapi_sem_t
  sysSem : ℕ → Option Node
  spin : ℕ → Option Node
  semid : Option Node
  address : Node → ℕ → ℕ
  wanted : ℕ → Bool

def World.setSem (w : World) (s : ℕ) (sem : mrapi_sem_t) : World :=
  { w with sems := Function.update w.sems s sem }

def World.setSysSem (w : World) (s : ℕ) (holder : Option Node) : World :=
  { w with sysSem := Function.update w.sysSem s holder }

def World.setSpin (w : World) (s : ℕ) (holder : Option Node) : World :=
  { w with spin := Function.update w.spin s holder }

/-- `mrapi_impl_access_database_pre`, once it gets the guard. -/
def mrapi_impl_access_database_pre (c : Node) (w : World) (ref : mrapi_impl_sem_ref_t) :
    Option World :=
  if ref.spinlock_guard then
    if w.spin ref.member = none then some (w.setSpin ref.member (some c)) else none
  else if w.sysSem ref.member = none then some (w.setSysSem ref.member (some c))
  else none

def mrapi_impl_access_database_post (w : World) (ref : mrapi_impl_sem_ref_t) : World :=
  if ref.spinlock_guard then w.setSpin ref.member none else w.setSysSem ref.member none

/-- All of them at once, as non-recursive semaphores: twice in the list means twice
locked. -/
def sys_sem_lock_multiple (c : Node) (w : World) (members : List ℕ) : Option World :=
  if members.Nodup ∧ ∀ s ∈ members, w.sysSem s = none then
    some { w with sysSem := fun s => if s ∈ members then some c else w.sysSem s }
  else none

/-! ## Calls on one entry -/

/-- Where a call stands with its next critical section: before and inside that of
`mrapi_impl_sem_get_attribute`, before and inside its own, at the two halves of
`mrapi_impl_yield_locked`, or before it leaves. -/
inductive Stage
  | attrPre
  | attrPost
  | pre
  | body
  | yieldPost (next : Pc)
  | yieldPre (next : Pc)
  | post (next : Pc)
  deriving DecidableEq, Repr

/-- A call on entry `s` before the critical section `pc`. -/
structure Section where
  s : ℕ
  pc : Pc
  spinlock_guard : Bool
  stage : Stage
  deriving DecidableEq, Repr

def Section.start (s : ℕ) (pc : Pc) : Section := ⟨s, pc, false, .attrPre⟩

def Section.ref (x : Section) : mrapi_impl_sem_ref_t := ⟨x.s, x.spinlock_guard⟩

/-- What a call that has returned leaves. -/
def Section.returned (x : Section) : Option (Option Ret) :=
  match x.stage, x.pc with
  | .attrPre, .done ret => some ret
  | _, _ => none

/-- A turn of the loop of `mrapi_impl_sem_lock` that does not get its locks. -/
def failedTurn (c : Node) (sem : mrapi_sem_t) : Pc → Bool
  | .acquire _ num_locks _ _ status =>
    (mrapi_impl_acquire_lock_locked c sem num_locks status).2.1 != num_locks
  | _ => false

/-- Where the loop goes on after it has yielded: with the next turn, or it gives up. -/
def Section.resume (x : Section) (next : Pc) : Section :=
  match next with
  | .acquire _ _ _ _ _ => { x with pc := next, stage := .body }
  | _ => { x with stage := .post next }

def Section.step (c : Node) (garbage : Bool) (w : World) (x : Section) :
    Option (World × Section) :=
  match x.stage with
  | .attrPre =>
    if x.returned.isSome then none
    else (mrapi_impl_access_database_pre c w ⟨x.s, false⟩).map fun w' =>
      (w', { x with stage := .attrPost })
  | .attrPost =>
    -- the attribute goes to another field than the one that is used
    some (mrapi_impl_access_database_post w ⟨x.s, false⟩,
      { x with spinlock_guard := garbage, stage := .pre })
  | .pre =>
    (mrapi_impl_access_database_pre c w x.ref).map fun w' => (w', { x with stage := .body })
  | .body =>
    (clientStep c (w.sems x.s) x.pc).map fun o =>
      (w.setSem x.s o.sem,
        { x with stage := if failedTurn c (w.sems x.s) x.pc then .yieldPost o.pc
                          else .post o.pc })
  | .yieldPost next =>
    some (mrapi_impl_access_database_post w x.ref, { x with stage := .yieldPre next })
  | .yieldPre next =>
    (mrapi_impl_access_database_pre c w x.ref).map fun w' => (w', x.resume next)
  | .post next => some (mrapi_impl_access_database_post w x.ref, .start x.s next)

/-! ## `mrapi_impl_sem_lock_multiple` -/

/-- The arguments and the references. The two calls of the API ask for one lock on each
semaphore. -/
structure Multiple where
  sems : List ℕ
  waitall : Bool
  timeout : ℕ
  garbage : Bool
  deriving DecidableEq, Repr

/-- All semaphores must have the spinlock guard to activate it. -/
def Multiple.spinlock_guard (args : Multiple) : Bool := args.sems.all fun _ => args.garbage

def Multiple.ref (args : Multiple) (s : ℕ) : mrapi_impl_sem_ref_t := ⟨s, args.spinlock_guard⟩

/-- Where `mrapi_impl_sem_lock_multiple` stands: before the guards, for the first time or
`again` after a yield; at a position of the loops over the spin words; before the lock of
semaphore `i`; in the unlock of one that is given back, with those that follow; before
guard `k` is given back, to yield or to return. -/
inductive MultipleStage
  | pre (again : Bool)
  | spin (again : Bool) (i : ℕ)
  | spinRevert (again : Bool) (i j : ℕ)
  | acquire (i : ℕ) (total_added : ℤ)
  | revert (todo : List ℕ) (x : Section)
  | yield (k : ℕ)
  | post (k : ℕ) (ret : Ret)
  | returned (ret : Ret)
  deriving DecidableEq, Repr

/-- After the guards: the next turn of the loop, unless the time is over. The status of a
trylock is not overwritten. -/
def Multiple.entered (args : Multiple) (time : ℕ) (again : Bool) : ℕ × MultipleStage :=
  if again ∧ args.timeout ≠ MRAPI_TIMEOUT_INFINITE ∧ time ≥ args.timeout then
    (time, .post 0 ⟨false, if args.timeout ≠ 1 then MRAPI_TIMEOUT else MRAPI_SUCCESS, none⟩)
  else (u32 (time + 1), .acquire 0 0)

/-- After `mrapi_impl_acquire_lock_locked_multiple`. -/
def Multiple.attempted (args : Multiple) (added_locks : ℤ) : MultipleStage :=
  if (args.waitall ∧ (args.sems.length : ℤ) = added_locks) ∨
      (¬ args.waitall ∧ 0 < added_locks) then
    .post 0 ⟨true, MRAPI_SUCCESS, none⟩
  else .yield 0

/-- Not all the locks could be taken; revert. -/
def Multiple.reverting (args : Multiple) : List ℕ → MultipleStage
  | [] => args.attempted 0
  | s :: todo => .revert todo (.start s (.release .sem 1))

def Multiple.step (c : Node) (garbage : Bool) (w : World) (args : Multiple) (time : ℕ) :
    MultipleStage → Option (World × ℕ × MultipleStage)
  | .pre again =>
    if args.spinlock_guard then some (w, time, .spin again 0)
    else (sys_sem_lock_multiple c w args.sems).map fun w' => (w', args.entered time again)
  | .spin again i =>
    match args.sems[i]? with
    | none => some (w, args.entered time again)
    | some s =>
      match mrapi_impl_access_database_pre c w ⟨s, true⟩ with
      | some w' => some (w', time, .spin again (i + 1))
      | none => some (w, time, .spinRevert again i 0)
  | .spinRevert again i j =>
    match (args.sems.take i)[j]? with
    | some s => some (w.setSpin s none, time, .spinRevert again i (j + 1))
    | none => some (w, time, .spin again 0)
  | .acquire i total_added =>
    match args.sems[i]? with
    | none => some (w, time, args.attempted total_added)
    | some s =>
      let got := mrapi_impl_acquire_lock_locked c (w.sems s) 1 MRAPI_SUCCESS
      let w' := w.setSem s got.1
      if got.2.1 ≠ 1 then
        if args.waitall then some (w', time, args.reverting (args.sems.take i))
        else some (w', time, .acquire (i + 1) 0)
      else if args.waitall then some (w', time, .acquire (i + 1) (total_added + got.2.1))
      else some (w', time, args.attempted (total_added + got.2.1))
  | .revert todo x =>
    -- the unlock enters the critical sections of the semaphore by itself
    (x.step c garbage w).map fun y =>
      (y.1, time, if y.2.returned.isSome then args.reverting todo else .revert todo y.2)
  | .yield k =>
    match args.sems[k]? with
    | some s => some (mrapi_impl_access_database_post w (args.ref s), time, .yield (k + 1))
    | none => some (w, time, .pre true)
  | .post k ret =>
    match args.sems[k]? with
    | some s => some (mrapi_impl_access_database_post w (args.ref s), time, .post (k + 1) ret)
    | none => some (w, time, .returned ret)
  | .returned _ => none

/-! ## Creating -/

/-- Where a create stands: before the global semaphore, before its search, before the
`memset` of the entry it has found, before it restores the word `spin` that it has saved
and fills the entry in, or before it gives the semaphore back. -/
inductive CreateStage
  | pre
  | search
  | clear (s : ℕ) (spin : Option Node)
  | restore (s : ℕ) (spin : Option Node)
  | post (ret : Ret)
  | returned (ret : Ret)
  deriving DecidableEq, Repr

/-- The index of the first entry with a property. -/
def World.find (w : World) (p : mrapi_sem_t → Bool) : Option ℕ :=
  (List.range MRAPI_MAX_SEMS).find? fun s => p (w.sems s)

def createStep (c : Node) (w : World) (args : Creation) (guard : Bool) :
    CreateStage → Option (World × CreateStage)
  | .pre => if w.semid = none then some ({ w with semid := some c }, .search) else none
  | .search =>
    if args.key ≠ MRAPI_SEM_ID_ANY ∧
        (w.find fun sem => sem.valid && sem.key == args.key).isSome then
      some (w, .post ⟨false, MRAPI_ERR_EXISTS args.type, none⟩)
    else
      match w.find fun sem => !sem.valid && !sem.deleted with
      | none => some (w, .post ⟨false, MRAPI_ERR_LIMIT args.type, none⟩)
      | some s => some (w, .clear s (w.spin s))
  | .clear s spin => some ((w.setSem s .zero).setSpin s none, .restore s spin)
  | .restore s spin =>
    let key := if args.key = MRAPI_SEM_ID_ANY then w.address c s else args.key
    let w' := w.setSem s (createSem c (mrapi_impl_encode_hndl s) key args.num_locks
      args.shared_lock_limit args.type args.attributes)
    some ({ (if spin = none then w' else w'.setSpin s spin) with
        wanted := Function.update w.wanted s guard },
      .post ⟨true, MRAPI_SUCCESS, none⟩)
  | .post ret => some ({ w with semid := none }, .returned ret)
  | .returned _ => none

/-! ## The system -/

/-- The call that a thread is in. -/
inductive ThreadPc
  | single (x : Section)
  | unlockMultiple (todo : List ℕ) (rc : Bool) (x : Section)
  | multiple (args : Multiple) (time : ℕ) (stage : MultipleStage)
  | create (args : Creation) (guard : Bool) (stage : CreateStage)
  deriving DecidableEq, Repr

/-- A call that has returned. -/
def ThreadPc.done (ret : Option Ret) : ThreadPc := .single (.start 0 (.done ret))

/-- The thread is in no call. -/
def ThreadPc.idle : ThreadPc → Bool
  | .single x => x.returned.isSome
  | .multiple _ _ (.returned _) => true
  | .create _ _ (.returned _) => true
  | _ => false

/-- The loop of `mrapi_impl_sem_unlock_multiple` from the next handle on. -/
def unlockFrom : List ℕ → Bool → mrapi_status_t → ThreadPc
  | [], rc, status => .done (some ⟨rc, status, none⟩)
  | hndl :: todo, rc, status =>
    let s := mrapi_impl_decode_hndl hndl
    if s.2 then .unlockMultiple todo rc (.start s.1 (.release .sem 1))
    else unlockFrom todo false status

/-- The calls. A call on one entry is any of those of `LockTable`; `guard` is the attribute
`MRAPI_SPINLOCK_GUARD` that a create is given. -/
inductive Call
  | use (hndl : ℕ) (op : Op)
  | sem_unlock_multiple (sem : List ℕ)
  | sem_lock_multiple (sem : List ℕ) (waitall : Bool) (timeout : ℕ)
  | create (args : Creation) (guard : Bool)
  deriving DecidableEq, Repr

/-- Where a call begins. A handle that cannot be decoded is refused. -/
def Call.start (garbage : Bool) : Call → ThreadPc
  | .use hndl op =>
    let s := mrapi_impl_decode_hndl hndl
    if s.2 then .single (.start s.1 op.start) else .done (some ⟨false, MRAPI_SUCCESS, none⟩)
  | .sem_unlock_multiple sem => unlockFrom sem true MRAPI_SUCCESS
  | .sem_lock_multiple sem waitall timeout =>
    if sem.all fun hndl => (mrapi_impl_decode_hndl hndl).2 then
      .multiple ⟨sem.map fun hndl => (mrapi_impl_decode_hndl hndl).1, waitall, timeout, garbage⟩
        0 (.pre false)
    else .done (some ⟨false, MRAPI_SUCCESS, none⟩)
  | .create args guard => .create args guard .pre

/-- The next step of a thread. -/
def threadStep (c : Node) (garbage : Bool) (w : World) : ThreadPc → Option (World × ThreadPc)
  | .single x => (x.step c garbage w).map fun y => (y.1, .single y.2)
  | .unlockMultiple todo rc x =>
    (x.step c garbage w).map fun y =>
      (y.1, match y.2.returned with
        | some (some ret) => unlockFrom todo (rc && ret.rc) ret.status
        | some none => unlockFrom todo rc MRAPI_SUCCESS
        | none => .unlockMultiple todo rc y.2)
  | .multiple args time stage =>
    (args.step c garbage w time stage).map fun y => (y.1, .multiple args y.2.1 y.2.2)
  | .create args guard stage =>
    (createStep c w args guard stage).map fun y => (y.1, .create args guard y.2)

/-- Everything, and how many locks each node had on each entry when its call began. -/
structure Sys where
  w : World
  pc : Node → ThreadPc
  before : Node → ℕ → ℕ

/-- A thread starts a call, or takes its next step; with the value that it finds in
memory that it has not initialised. -/
inductive Label
  | call (c : Node) (call : Call) (garbage : Bool)
  | step (c : Node) (garbage : Bool)
  deriving DecidableEq, Repr

def step (x : Sys) : Label → Option Sys
  | .call c call garbage =>
    if (x.pc c).idle then
      some { x with
        pc := Function.update x.pc c (call.start garbage)
        before := Function.update x.before c fun s => (x.w.sems s).own c }
    else none
  | .step c garbage =>
    (threadStep c garbage x.w (x.pc c)).map fun y =>
      { x with w := y.1, pc := Function.update x.pc c y.2 }

/-- Some objects, and nobody in a call. -/
def init (sems : ℕ → mrapi_sem_t) (wanted : ℕ → Bool) (address : Node → ℕ → ℕ) : Sys :=
  ⟨⟨sems, fun _ => none, fun _ => none, none, address, wanted⟩, fun _ => .done none,
    fun _ _ => 0⟩

end MxApi.LockGuard
