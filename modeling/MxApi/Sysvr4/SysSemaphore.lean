/-
The system semaphore of a key: `mrapi_impl_create_sys_semaphore`, and the Unix branches of
`sys_sem_create`, `sys_sem_get`, `sys_sem_trylock`, `sys_sem_lock`, `sys_sem_unlock` and
`sys_sem_delete` (`sysvr4_sem.c`), for any number of processes.

Each `semget`, `semop` and `semctl` is one step on the table of the sets. A process creates
the set and frees its members one by one, or finds it and waits until `sem_otime` is set;
then it takes member 0. One that initializes the library does so to have the database alone,
and the last one that finalizes removes the set while it holds it. Another process may have
found the set just before.

The key is not `IPC_PRIVATE`. A new set gets an identifier that was not used before. The
members have room for the value 1 that they get, and a `semop` fails only where its set is
gone, where it would have to wait, or by a signal.
-/
import Mathlib.Logic.Function.Basic
import Mathlib.Tactic.Common
import MxApi.Lib.Run

set_option autoImplicit false

namespace MxApi.SysSemaphore

open Lib

/-! ## The table -/

/-- The values of the members, and whether `sem_otime` is set. -/
structure SemSet where
  val : ℕ → ℕ
  otime : Bool

/-- `current` is the set that the key names, and `next` was not used yet. -/
structure Ids where
  current : Option ℕ
  sets : ℕ → Option SemSet
  next : ℕ

namespace Ids

variable (m : Ids)

/-- `semget(key, num_locks, IPC_CREAT | IPC_EXCL | 0666)`, which may fail for want of space. -/
def semget_excl (fails : Bool) : Option (Ids × ℕ) :=
  if fails ∨ m.current.isSome then none
  else
    some (⟨some m.next, Function.update m.sets m.next (some ⟨fun _ => 0, false⟩), m.next + 1⟩,
      m.next)

/-- `semget(key, num_locks, 0)`, which may fail for a set with fewer members. -/
def semget (fails : Bool) : Option ℕ := if fails then none else m.current

def setVal (id member x : ℕ) (v : SemSet) : Ids :=
  { m with sets := Function.update m.sets id (some ⟨Function.update v.val member x, true⟩) }

/-- `semop` with `sem_op = 1`. -/
def up (id member : ℕ) : Option Ids :=
  (m.sets id).map fun v => m.setVal id member (v.val member + 1) v

/-- `semop` with `sem_op = -1` and `IPC_NOWAIT`. -/
def down (id member : ℕ) : Option Ids :=
  (m.sets id).bind fun v =>
    if 0 < v.val member then some (m.setVal id member (v.val member - 1) v) else none

/-- `semctl(id, 0, IPC_RMID)` -/
def rmid (id : ℕ) : Ids :=
  { m with
    current := if m.current = some id then none else m.current
    sets := Function.update m.sets id none }

end Ids

/-! ## The calls -/

def max_semaphores_per_array : ℕ := 65536

def MAX_RETRIES : ℕ := 0xffff

def max_tries : ℕ := 0xffffffff

/-- Where a process stands. -/
inductive Phase
  | outside
  /-- `semget` of `sys_sem_create` -/
  | creating (lock : Bool) (trycount : ℕ)
  /-- `semop` on member `sem_num` of the new set -/
  | initializing (lock : Bool) (trycount id sem_num : ℕ)
  /-- `semctl` of `sys_sem_create` after a `semop` that failed -/
  | cleaning (lock : Bool) (trycount id : ℕ)
  /-- `semget` of `sys_sem_get` -/
  | getting (lock : Bool) (trycount : ℕ)
  /-- `semctl` of `sys_sem_get`, for the `i`-th time -/
  | polling (lock : Bool) (trycount id i : ℕ)
  /-- `sys_sem_trylock` of `mrapi_impl_create_sys_semaphore` -/
  | locking (trycount id : ℕ)
  /-- the set was returned, and member 0 is not held -/
  | ready (id : ℕ)
  /-- `sys_sem_trylock` of `sys_sem_lock` -/
  | waiting (id : ℕ)
  | holding (id : ℕ)
  /-- `MRAPI_FALSE` was returned -/
  | failed
  deriving DecidableEq, Repr

/-- The outer loop of `mrapi_impl_create_sys_semaphore`. -/
def nextTry (lock : Bool) (trycount : ℕ) : Phase :=
  if trycount < max_tries then .creating lock (trycount + 1) else .failed

/-- The inner loop, which leaves `trycount` alone. -/
def tryLock (trycount id : ℕ) : Phase :=
  if trycount < max_tries then .locking trycount id else .failed

/-- The set was created or found. -/
def found (lock : Bool) (trycount id : ℕ) : Phase :=
  if lock then tryLock trycount id else .ready id

/-- The next system call of a process. `fails` stands for a failure that the table does not
explain, and `stale` for what is in `buf` if `semctl` fails. -/
def advance (num_locks : ℕ) (m : Ids) (fails stale : Bool) : Phase → Option (Ids × Phase)
  | .creating lock t =>
    if num_locks = 0 ∨ max_semaphores_per_array < num_locks then some (m, .getting lock t)
    else
      match m.semget_excl fails with
      | none => some (m, .getting lock t)
      | some (m, id) => some (m, .initializing lock t id 0)
  | .initializing lock t id k =>
    match m.up id k with
    | none => some (m, .cleaning lock t id)
    | some m =>
      some (m, if k + 1 < num_locks then .initializing lock t id (k + 1) else found lock t id)
  | .cleaning lock t id => some (m.rmid id, .getting lock t)
  | .getting lock t =>
    match m.semget fails with
    | none => some (m, nextTry lock t)
    | some id => some (m, .polling lock t id 0)
  | .polling lock t id i =>
    if i < MAX_RETRIES then
      if (m.sets id).elim stale SemSet.otime then some (m, found lock t id)
      else some (m, .polling lock t id (i + 1))
    else some (m, nextTry lock t)
  | .locking t id =>
    match if fails then none else m.down id 0 with
    | none => some (m, tryLock t id)
    | some m => some (m, .holding id)
  | .waiting id =>
    match if fails then none else m.down id 0 with
    | none => some (m, .waiting id)
    | some m => some (m, .holding id)
  | .outside | .ready _ | .holding _ | .failed => none

variable {π : Type}

structure St (π : Type) where
  ids : Ids
  phase : π → Phase

inductive Call (π : Type)
  | create_sys_semaphore (p : π) (lock : Bool)
  | lock (p : π)
  | unlock (p : π)
  /-- by the last process that finalizes -/
  | delete (p : π)
  | step (p : π) (fails stale : Bool)

section Step

variable [DecidableEq π]

def St.set (s : St π) (m : Ids) (p : π) (x : Phase) : St π := ⟨m, Function.update s.phase p x⟩

def step (num_locks : ℕ) (s : St π) : Call π → Option (St π)
  | .create_sys_semaphore p lock =>
    match s.phase p with
    | .outside | .failed => some (s.set s.ids p (nextTry lock 0))
    | _ => none
  | .lock p =>
    match s.phase p with
    | .ready id => some (s.set s.ids p (.waiting id))
    | _ => none
  | .unlock p =>
    match s.phase p with
    | .holding id =>
      match s.ids.up id 0 with
      | none => some (s.set s.ids p .failed)
      | some m => some (s.set m p (.ready id))
    | _ => none
  | .delete p =>
    match s.phase p with
    | .holding id => some (s.set (s.ids.rmid id) p .outside)
    | _ => none
  | .step p fails stale =>
    (advance num_locks s.ids fails stale (s.phase p)).map fun r => s.set r.1 p r.2

end Step

/-- The sets of other programs have the identifiers below `base`. -/
def init (π : Type) (base : ℕ) (foreign : ℕ → Option SemSet) : St π :=
  ⟨⟨none, fun id => if id < base then foreign id else none, base⟩, fun _ => .outside⟩

end MxApi.SysSemaphore
