/-
The life of a system semaphore set (`SemSet`, `sem_create` and `sem_get` in `sysvr4/src/unix.rs`,
`SemRef::new` in `sysvr4/src/lib.rs`, `create_sys_semaphore` in `mrapi/src/internal/db.rs`), for the
values of one key in all processes.

Member 0 of a set counts the handles to it. Each `semget`, `semctl` and `semop` is one step on the
table of the sets. A set is created and its members are initialized by several calls, and the last
one sets the count to 1; a set is looked up, its count awaited and then stepped; and a drop steps the
count back, reads it, and removes the set where it reads 0. A new set gets an identifier that was not
used before. The sets of other programs are in the table from the start.

A handle also comes from the derived clone, which does not count it, and from the default value,
whose identifier is 0, that of any set or none. `create_sys_semaphore` with a lock is the call without
one, followed by `SemRef::new`, a lock of another member, and the drop of that reference.
-/
import Mathlib.Logic.Function.Basic
import Mathlib.Tactic.Common

set_option autoImplicit false

namespace MxApi.SemSet

/-! ## The table -/

def IPC_PRIVATE : ℕ := 0

def SEMVMX : ℕ := 32767

/-- `current` is the set that the key names, `val id` the value of member 0 of set `id`, and `next`
was not used yet. -/
structure Ids where
  current : Option ℕ
  val : ℕ → Option ℕ
  next : ℕ

namespace Ids

variable (m : Ids)

def setVal (id : ℕ) (x : Option ℕ) : Ids := { m with val := Function.update m.val id x }

/-- A set is allocated, its members are zero. -/
def alloc : Ids := { m.setVal m.next (some 0) with next := m.next + 1 }

/-- `semget(key, num_locks + 1, IPC_CREAT | IPC_EXCL | 0o777)`, which may fail for want of space. -/
def semget_excl (key : ℕ) (fails : Bool) : Option (Ids × ℕ) :=
  if fails then none
  else if key = IPC_PRIVATE then some (m.alloc, m.next)
  else
    match m.current with
    | some _ => none
    | none => some ({ m.alloc with current := some m.next }, m.next)

/-- `semget(key, num_locks + 1, 0)`, which may fail for a set with fewer members. -/
def semget (key : ℕ) (fails : Bool) : Option (Ids × ℕ) :=
  if fails then none
  else if key = IPC_PRIVATE then some (m.alloc, m.next)
  else m.current.map fun id => (m, id)

/-- `semctl(id, i, SETVAL, x)` -/
def setval (id i x : ℕ) : Option Ids :=
  match m.val id with
  | none => none
  | some _ => some (if i = 0 then m.setVal id (some x) else m)

/-- `semctl(id, 0, IPC_RMID, 0)` -/
def rmid (id : ℕ) : Option Ids :=
  match m.val id with
  | none => none
  | some _ =>
    some { m.setVal id none with current := if m.current = some id then none else m.current }

/-- `semop` with `sem_op = 1` on member 0. -/
def increment (id : ℕ) : Option Ids :=
  match m.val id with
  | none => none
  | some x => if SEMVMX < x + 1 then none else some (m.setVal id (some (x + 1)))

/-- `semop` with `sem_op = -1` and `IPC_NOWAIT` on member 0; a failure is only reported. -/
def decrement (id : ℕ) : Ids :=
  match m.val id with
  | none | some 0 => m
  | some (x + 1) => m.setVal id (some x)

end Ids

/-! ## The calls -/

/-- Who asks for a handle, `create_sys_semaphore` with the number of its tries. -/
inductive Caller
  | sem_create
  | sem_get
  | new
  | create_sys_semaphore (trycount : ℕ)
  deriving DecidableEq, Repr

/-- Where a value stands. `unusable` has a value that `create_sys_semaphore` drops, because its key
is 0, before it tries again. This and the two points of a drop say whether the value is, or was, a
handle of the set. -/
inductive Phase
  | none
  | creating (c : Caller) (num_locks : ℕ)
  | initializing (c : Caller) (num_locks id i : ℕ)
  | lookup (c : Caller) (num_locks : ℕ)
  | waiting (id : ℕ)
  | ready (id : ℕ)
  | live (id : ℕ)
  | default
  | unusable (id : ℕ) (handle : Bool) (trycount num_locks : ℕ)
  | dropped (id : ℕ) (handle : Bool) (again : Option (ℕ × ℕ))
  | removing (id : ℕ) (handle : Bool) (again : Option (ℕ × ℕ))
  | panicked
  deriving DecidableEq, Repr

def max_tries : ℕ := 0xffffffff

/-- The next turn of the loop of `create_sys_semaphore`. -/
def nextTry (trycount num_locks : ℕ) : Phase :=
  if trycount < max_tries then .creating (.create_sys_semaphore (trycount + 1)) num_locks else .none

/-- After a drop. -/
def afterDrop : Option (ℕ × ℕ) → Phase
  | none => .none
  | some (trycount, num_locks) => nextTry trycount num_locks

/-- `sem_create` returns `None`. -/
def createFailed (c : Caller) (num_locks : ℕ) : Phase :=
  match c with
  | .create_sys_semaphore _ => .lookup c num_locks
  | _ => .none

/-- `sem_get` returns `None`. -/
def lookupFailed (c : Caller) (num_locks : ℕ) : Phase :=
  match c with
  | .new => .default
  | .create_sys_semaphore trycount => .unusable 0 false trycount num_locks
  | _ => .none

/-- `sem_create` returns a handle of set `id`. -/
def created (key : ℕ) (c : Caller) (num_locks id : ℕ) : Phase :=
  match c with
  | .create_sys_semaphore trycount =>
    if 0 < key then .live id else .unusable id true trycount num_locks
  | _ => .live id

/-- The next system call of a value. -/
def advance (key : ℕ) (m : Ids) (fails : Bool) : Phase → Option (Ids × Phase)
  | .creating c num_locks =>
    if num_locks = 0 ∨ SEMVMX < num_locks then some (m, createFailed c num_locks)
    else
      match m.semget_excl key fails with
      | none => some (m, createFailed c num_locks)
      | some (m, id) => some (m, .initializing c num_locks id 0)
  | .initializing c num_locks id i =>
    -- the first member is used as a reference counter
    let lock := if i = 0 then 0 else 1
    if i < num_locks + 1 then
      match m.setval id i lock with
      | some m => some (m, .initializing c num_locks id (i + 1))
      | none =>
        match m.rmid id with
        | some m => some (m, createFailed c num_locks)
        | none => some (m, .panicked)
    else
      match m.setval id 0 1 with
      | some m => some (m, created key c num_locks id)
      | none =>
        match m.rmid id with
        | some m => some (m, createFailed c num_locks)
        | none => some (m, .panicked)
  | .lookup c num_locks =>
    match m.semget key fails with
    | none => some (m, lookupFailed c num_locks)
    | some (m, id) => some (m, .waiting id)
  | .waiting id =>
    match m.val id with
    | none => some (m, .panicked)
    | some x => some (m, if 0 < x then .ready id else .waiting id)
  | .ready id =>
    match m.increment id with
    | none => some (m, .panicked)
    | some m => some (m, .live id)
  | .unusable id handle trycount num_locks =>
    some (m.decrement id, .dropped id handle (some (trycount, num_locks)))
  | .dropped id handle again =>
    match m.val id with
    | none => some (m, .panicked)
    | some x => some (m, if x = 0 then .removing id handle again else afterDrop again)
  | .removing id _ again => some ((m.rmid id).getD m, afterDrop again)
  | .none | .live _ | .default | .panicked => none

variable {υ : Type}

structure St (υ : Type) where
  ids : Ids
  value : υ → Phase

def St.set [DecidableEq υ] (s : St υ) (m : Ids) (v : υ) (x : Phase) : St υ :=
  ⟨m, Function.update s.value v x⟩

inductive Call (υ : Type)
  | sem_create (v : υ) (num_locks : ℕ)
  | sem_get (v : υ) (num_locks : ℕ)
  | new (v : υ) (num_locks : ℕ)
  | create_sys_semaphore (v : υ) (num_locks : ℕ)
  | clone (v v' : υ)
  | drop (v : υ)
  | step (v : υ) (fails : Bool)
  deriving DecidableEq, Repr

/-- A call starts, for a value that is not there yet. -/
def start [DecidableEq υ] (s : St υ) (v : υ) (x : Phase) : Option (St υ) :=
  if s.value v = .none then some (s.set s.ids v x) else none

def step [DecidableEq υ] (key : ℕ) (s : St υ) : Call υ → Option (St υ)
  | .sem_create v num_locks => start s v (.creating .sem_create num_locks)
  | .sem_get v num_locks => start s v (.lookup .sem_get num_locks)
  | .new v num_locks => start s v (.lookup .new num_locks)
  | .create_sys_semaphore v num_locks => start s v (nextTry 0 num_locks)
  | .clone v v' =>
    match s.value v with
    | .live id => start s v' (.live id)
    | .default => start s v' .default
    | _ => none
  | .drop v =>
    match s.value v with
    | .live id => some (s.set (s.ids.decrement id) v (.dropped id true none))
    | .default => some (s.set (s.ids.decrement 0) v (.dropped 0 false none))
    | _ => none
  | .step v fails => (advance key s.ids fails (s.value v)).map fun r => s.set r.1 v r.2

/-- The sets of other programs have the identifiers below `base`. -/
def init (base : ℕ) (foreign : ℕ → Option ℕ) : St υ :=
  ⟨⟨none, fun id => if id < base then foreign id else none, base⟩, fun _ => .none⟩

end MxApi.SemSet
