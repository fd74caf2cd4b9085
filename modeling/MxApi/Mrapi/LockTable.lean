/-
The lock table `mrapi_db->sems` (`mrapi_impl_spec_sem_abb.c`, `_mutex_abb.c`,
`_rwl_abb.c`): mutexes, semaphores and reader-writer locks share one kind of entry.

An entry has `shared_lock_limit` usable lock records, the first ones of `locks`,
and counts in `num_locks` how many of them are locked. The functions below are
those of the source with the entry as an argument; each is one critical section,
and [`clientStep`] strings them together to the calls.

An entry is guarded by its own member of `sems_semid`. Reading the attribute
`MRAPI_SPINLOCK_GUARD`, which says how the critical section is entered, is a
critical section of its own that changes nothing but the status, to
`MRAPI_SUCCESS`; it is left out, and the status after it is the one the calls
start with. Left out too is what only `mrapi_finalize` and the debug output read: the
reference counts, `num_sems`, the word `spin` and the attribute that says whether an
entry is shared across domains.
-/
import Mathlib.Data.Fintype.Prod
import Mathlib.Data.Int.Notation
import Mathlib.Logic.Equiv.Fin.Basic
import MxApi.Lib.Word

set_option autoImplicit false

namespace MxApi.LockTable

open Lib

/-! ## Data -/

def MRAPI_MAX_SEMS : ℕ := 4096

def MRAPI_MAX_SHARED_LOCKS : ℕ := 256

def MRAPI_MAX_DOMAINS : ℕ := 2

def MRAPI_MAX_NODES : ℕ := 16

def MRAPI_SEM_ID_ANY : ℕ := 0xffffffff

def MRAPI_TIMEOUT_INFINITE : ℕ := 0xffffffff

def MRAPI_TIMEOUT_IMMEDIATE : ℕ := 0

/-- Acquire all the locks. -/
def MRAPI_LOCKS_ALL : ℤ := -1

inductive lock_type
  | MRAPI_RWL
  | MRAPI_SEM
  | MRAPI_MUTEX
  deriving DecidableEq, Repr

inductive mrapi_rwl_mode_t
  | MRAPI_RWL_READER
  | MRAPI_RWL_WRITER
  deriving DecidableEq, Repr

/-- The statuses of the lock calls. The three kinds of lock have one each of most
of them. -/
inductive mrapi_status_t
  | MRAPI_SUCCESS
  | MRAPI_TIMEOUT
  | MRAPI_ERR_MUTEX_LOCKORDER
  | MRAPI_ERR_SEM_LOCKLIMIT
  | MRAPI_ERR_DELETED (t : lock_type)
  | MRAPI_ERR_EXISTS (t : lock_type)
  | MRAPI_ERR_INVALID (t : lock_type)
  | MRAPI_ERR_LIMIT (t : lock_type)
  | MRAPI_ERR_LOCKED (t : lock_type)
  | MRAPI_ERR_NOTLOCKED (t : lock_type)
  deriving DecidableEq, Repr

open lock_type mrapi_rwl_mode_t mrapi_status_t

/-- The caller of a function, as `mrapi_impl_whoami` reports it. -/
structure Node where
  dindex : ℕ
  nindex : ℕ
  dindex_lt : dindex < MRAPI_MAX_DOMAINS
  nindex_lt : nindex < MRAPI_MAX_NODES
  deriving DecidableEq, Repr

instance : Fintype Node :=
  Fintype.ofEquiv (Fin MRAPI_MAX_DOMAINS × Fin MRAPI_MAX_NODES)
    ⟨fun p => ⟨p.1, p.2, p.1.isLt, p.2.isLt⟩, fun c => (⟨c.dindex, c.dindex_lt⟩,
      ⟨c.nindex, c.nindex_lt⟩), fun _ => rfl, fun _ => rfl⟩

/-- Two nodes of the first domain. -/
def node0 : Node := ⟨0, 0, by decide, by decide⟩

def node1 : Node := ⟨0, 1, by decide, by decide⟩

structure mrapi_lock_t where
  lock_key : BitVec 32
  lock_holder_nindex : ℕ
  lock_holder_dindex : ℕ
  valid : Bool
  locked : Bool
  deriving DecidableEq, Repr

/-- A lock record of zeroed memory. -/
def mrapi_lock_t.zero : mrapi_lock_t := ⟨0, 0, 0, false, false⟩

structure mrapi_sem_attributes_t where
  recursive : Bool
  ext_error_checking : Bool
  deriving DecidableEq, Repr

structure mrapi_sem_t where
  handle : ℕ
  num_locks : ℤ
  locks : List mrapi_lock_t
  key : ℕ
  shared_lock_limit : ℤ
  type : lock_type
  attributes : mrapi_sem_attributes_t
  valid : Bool
  deleted : Bool
  deriving DecidableEq, Repr

/-- An entry of zeroed memory. -/
def mrapi_sem_t.zero : mrapi_sem_t where
  handle := 0
  num_locks := 0
  locks := List.replicate MRAPI_MAX_SHARED_LOCKS .zero
  key := 0
  shared_lock_limit := 0
  type := MRAPI_RWL
  attributes := ⟨false, false⟩
  valid := false
  deleted := false

/-- How many records the loops over `locks` visit. -/
def mrapi_sem_t.limit (sem : mrapi_sem_t) : ℕ := sem.shared_lock_limit.toNat

/-! ## Lock records -/

/-- The record counts as a lock taken. -/
def mrapi_lock_t.used (x : mrapi_lock_t) : Bool := x.valid && x.locked

/-- The record can be taken. -/
def mrapi_lock_t.free (x : mrapi_lock_t) : Bool := x.valid && !x.locked

/-- The record names the node as its holder. -/
def mrapi_lock_t.heldBy (c : Node) (x : mrapi_lock_t) : Bool :=
  x.lock_holder_dindex == c.dindex && x.lock_holder_nindex == c.nindex

/-- The record is a lock taken by the node. -/
def mrapi_lock_t.mine (c : Node) (x : mrapi_lock_t) : Bool := x.used && x.heldBy c

/-- The record after the node took it. The holder is kept in two bytes. -/
def mrapi_lock_t.take (c : Node) (x : mrapi_lock_t) : mrapi_lock_t :=
  { x with
    locked := true
    lock_holder_nindex := c.nindex % 2 ^ 8
    lock_holder_dindex := c.dindex % 2 ^ 8 }

/-- The record after it was released. The holder stays recorded. -/
def mrapi_lock_t.release (x : mrapi_lock_t) : mrapi_lock_t := { x with locked := false }

/-! ## Creating an entry -/

/-- The loop of `mrapi_impl_create_lock_locked` from record `l` on: the records and
how often `num_locks` is incremented. A record that is locked from the start has an
anonymous holder within the domain of the caller. -/
def createLoop (c : Node) (num_locks shared_lock_limit : ℕ) :
    ℕ → List mrapi_lock_t → List mrapi_lock_t × ℤ
  | _, [] => ([], 0)
  | l, x :: xs =>
    if l < shared_lock_limit then
      let rest := createLoop c num_locks shared_lock_limit (l + 1) xs
      if l < num_locks then
        ({ x with valid := true, locked := true, lock_holder_dindex := c.dindex % 2 ^ 8,
                  lock_holder_nindex := 2 ^ 8 - 1 } :: rest.1, rest.2 + 1)
      else ({ x with valid := true } :: rest.1, rest.2)
    else (x :: xs, 0)

/-- The entry that `mrapi_impl_create_lock_locked` makes of zeroed memory, with the
attributes that its three callers give it. -/
def createSem (c : Node) (handle key num_locks shared_lock_limit : ℕ) (t : lock_type)
    (attributes : mrapi_sem_attributes_t) : mrapi_sem_t :=
  let made := createLoop c num_locks shared_lock_limit 0 mrapi_sem_t.zero.locks
  { mrapi_sem_t.zero with
    handle := handle
    num_locks := made.2
    locks := made.1
    key := key
    shared_lock_limit := toInt32 (u32 shared_lock_limit)
    type := t
    attributes := attributes
    valid := true }

/-! ## Acquiring -/

/-- The loop of `mrapi_impl_acquire_lock_locked`: the records, `num_added`, and
whether it was left at "got the lock(s)". -/
def acquireLoop (c : Node) (num_locks : ℤ) :
    ℕ → ℤ → List mrapi_lock_t → List mrapi_lock_t × ℤ × Bool
  | 0, num_added, xs => (xs, num_added, false)
  | _ + 1, num_added, [] => ([], num_added, false)
  | l + 1, num_added, x :: xs =>
    let x' := if x.free then x.take c else x
    let num_added' := if x.free then num_added + 1 else num_added
    if num_added' = num_locks then (x' :: xs, num_added', true)
    else
      let rest := acquireLoop c num_locks l num_added' xs
      (x' :: rest.1, rest.2)

/-- The entry, the number of locks added and the status. -/
def mrapi_impl_acquire_lock_locked (c : Node) (sem : mrapi_sem_t) (num_locks : ℤ)
    (status : mrapi_status_t) : mrapi_sem_t × ℤ × mrapi_status_t :=
  if sem.shared_lock_limit - sem.num_locks - num_locks ≥ 0 then
    let got := acquireLoop c num_locks sem.limit 0 sem.locks
    ({ sem with locks := got.1, num_locks := sem.num_locks + got.2.1 }, got.2.1,
      if got.2.2 then MRAPI_SUCCESS else status)
  else (sem, 0, MRAPI_ERR_LOCKED sem.type)

/-! ## Releasing -/

/-- The second loop of `mrapi_impl_release_lock` and of `mrapi_impl_signal_lock`: the
records and `num_removed`. The counter `r` of the locks to be released is a
`uint16_t` that is decremented before it is compared. -/
def removeLoop (mine : mrapi_lock_t → Bool) :
    ℕ → ℕ → ℕ → List mrapi_lock_t → List mrapi_lock_t × ℕ
  | 0, _, num_removed, xs => (xs, num_removed)
  | _ + 1, _, num_removed, [] => ([], num_removed)
  | l + 1, r, num_removed, x :: xs =>
    if mine x then
      let r' := u16 (r + (2 ^ 16 - 1))
      if r' ≤ 0 then (x.release :: xs, num_removed + 1)
      else
        let rest := removeLoop mine l r' (num_removed + 1) xs
        (x.release :: rest.1, rest.2)
    else
      let rest := removeLoop mine l r num_removed xs
      (x :: rest.1, rest.2)

/-- What a call of `mrapi_impl_release_lock` leaves: `asserted` says that its
assertion, `num_removed == num_locks`, held. -/
structure Removed where
  sem : mrapi_sem_t
  rc : Bool
  status : mrapi_status_t
  asserted : Bool

/-- `mrapi_impl_release_lock` and `mrapi_impl_signal_lock`, which differ in the
records that they count and release. `num_locks` is signed and `my_locks`,
`num_removed` are not. -/
def removeLocks (mine : mrapi_lock_t → Bool) (sem : mrapi_sem_t) (num_locks : ℤ) : Removed :=
  if sem.valid = false then ⟨sem, false, MRAPI_ERR_INVALID sem.type, true⟩
  else
    let my_locks := (sem.locks.take sem.limit).countP mine
    if my_locks < ofInt32 num_locks then ⟨sem, false, MRAPI_ERR_NOTLOCKED sem.type, true⟩
    else
      let freed := removeLoop mine sem.limit (u16 (ofInt32 num_locks)) 0 sem.locks
      ⟨{ sem with num_locks := sem.num_locks - num_locks, locks := freed.1 }, true, MRAPI_SUCCESS,
        freed.2 == ofInt32 num_locks⟩

/-- Only the owner can unlock a semaphore. -/
def mrapi_impl_release_lock (c : Node) : mrapi_sem_t → ℤ → Removed :=
  removeLocks (mrapi_lock_t.mine c)

/-- Regardless of ownership. -/
def mrapi_impl_signal_lock : mrapi_sem_t → ℤ → Removed := removeLocks mrapi_lock_t.used

/-! ## Deleting -/

/-- The record is held by the node, or by an anonymous owner within its domain. -/
def mrapi_lock_t.deletable (c : Node) (x : mrapi_lock_t) : Bool :=
  x.used && x.lock_holder_dindex == c.dindex &&
    (x.lock_holder_nindex == c.nindex || x.lock_holder_nindex == 2 ^ 8 - 1)

def mrapi_impl_sem_delete (c : Node) (sem : mrapi_sem_t) : mrapi_sem_t × Bool :=
  let my_locks := (sem.locks.take sem.limit).countP (mrapi_lock_t.deletable c)
  if my_locks ≠ ofInt32 sem.shared_lock_limit then (sem, false)
  else if sem.valid then
    ({ sem with valid := false, deleted := sem.deleted || sem.attributes.ext_error_checking }, true)
  else (sem, true)

/-! ## Mutexes -/

/-- `locks[0]` -/
def mrapi_sem_t.lock0 (sem : mrapi_sem_t) : mrapi_lock_t := sem.locks.headD .zero

def mrapi_sem_t.setKey (sem : mrapi_sem_t) (key : BitVec 32) : mrapi_sem_t :=
  { sem with locks := sem.locks.modifyHead fun x => { x with lock_key := key } }

/-- How the first critical section of `mrapi_impl_mutex_lock` ends: the lock is taken
once more, it is refused to its holder, or it has to be acquired. -/
inductive LockStart
  | again (lock_key : BitVec 32)
  | refused
  | acquire
  deriving DecidableEq, Repr

/-- The first critical section of `mrapi_impl_mutex_lock`. -/
def mutexLockStart (c : Node) (sem : mrapi_sem_t) : mrapi_sem_t × LockStart :=
  if sem.lock0.locked && sem.lock0.heldBy c then
    if sem.attributes.recursive then
      let key := sem.lock0.lock_key + 1
      (sem.setKey key, .again key)
    else (sem, .refused)
  else (sem, .acquire)

/-- How the first critical section of `mrapi_impl_mutex_unlock` ends: one level is
left, the call fails, or the lock has to be released. -/
inductive UnlockStart
  | left
  | order
  | release
  deriving DecidableEq, Repr

/-- `mrapi_boolean_t recursively_locked = lock_key`: a `mrapi_boolean_t` is one byte. -/
def recursively_locked (lock_key : BitVec 32) : Bool := lock_key.setWidth 8 != 0

/-- The first critical section of `mrapi_impl_mutex_unlock`. That the record is locked
is not asked. -/
def mutexUnlockStart (c : Node) (sem : mrapi_sem_t) (lock_key : BitVec 32) :
    mrapi_sem_t × UnlockStart :=
  if sem.lock0.heldBy c && lock_key == sem.lock0.lock_key && lock_key != 0 then
    (sem.setKey (sem.lock0.lock_key - 1), .left)
  else if recursively_locked sem.lock0.lock_key then (sem, .order)
  else (sem, .release)

/-! ## Calls -/

/-- What a call returns: `rc`, the status, and the lock key if it sets one. -/
structure Ret where
  rc : Bool
  status : mrapi_status_t
  lock_key : Option (BitVec 32)
  deriving DecidableEq, Repr

/-- The call that acquires. `mrapi_mutex_delete` takes the locks before it deletes. -/
inductive Acquirer
  | sem
  | rwl (mode : mrapi_rwl_mode_t)
  | mutex
  | mutexDelete
  deriving DecidableEq, Repr

/-- The call that releases. -/
inductive Releaser
  | sem
  | rwl (mode : mrapi_rwl_mode_t)
  | mutex (lock_key : BitVec 32)
  deriving DecidableEq, Repr

/-- Where a call on an entry stands, before which critical section. -/
inductive Pc
  /-- no call, or one that has returned -/
  | done (ret : Option Ret)
  /-- a turn of the loop of `mrapi_impl_sem_lock` -/
  | acquire (who : Acquirer) (num_locks : ℤ) (timeout time : ℕ) (status : mrapi_status_t)
  /-- `mrapi_impl_release_lock` -/
  | release (who : Releaser) (num_locks : ℤ)
  /-- `mrapi_impl_signal_lock` -/
  | signal (num_locks : ℤ)
  /-- `n = shared_lock_limit` in `mrapi_impl_rwl_lock` -/
  | limitLock (timeout : ℕ)
  /-- `n = shared_lock_limit` in `mrapi_impl_rwl_unlock` -/
  | limitUnlock
  | mutexLock (timeout : ℕ)
  | mutexUnlock (lock_key : BitVec 32)
  | delete (t : lock_type)
  deriving DecidableEq, Repr

/-- The calls that take a handle. -/
inductive Op
  | sem_lock (timeout : ℕ)
  | sem_unlock
  | sem_post
  | rwl_lock (mode : mrapi_rwl_mode_t) (timeout : ℕ)
  | rwl_unlock (mode : mrapi_rwl_mode_t)
  | mutex_lock (timeout : ℕ)
  | mutex_unlock (lock_key : BitVec 32)
  | delete (t : lock_type)
  deriving DecidableEq, Repr

/-- `mrapi_sem_trylock` -/
def Op.sem_trylock : Op := .sem_lock 1

/-- `mrapi_rwl_trylock` -/
def Op.rwl_trylock (mode : mrapi_rwl_mode_t) : Op := .rwl_lock mode 1

/-- `mrapi_mutex_trylock` -/
def Op.mutex_trylock : Op := .mutex_lock 1

/-- Whose handle check the call makes. -/
def Op.type : Op → lock_type
  | .sem_lock _ | .sem_unlock | .sem_post => MRAPI_SEM
  | .rwl_lock _ _ | .rwl_unlock _ => MRAPI_RWL
  | .mutex_lock _ | .mutex_unlock _ => MRAPI_MUTEX
  | .delete t => t

/-- The beginning of `mrapi_impl_sem_lock`. -/
def semLock (who : Acquirer) (num_locks : ℤ) (timeout : ℕ) : Pc :=
  .acquire who num_locks timeout 0 MRAPI_SUCCESS

/-- Where a call begins, once its handle is found valid. -/
def Op.start : Op → Pc
  | .sem_lock timeout => semLock .sem 1 timeout
  | .sem_unlock => .release .sem 1
  | .sem_post => .signal 1
  | .rwl_lock MRAPI_RWL_READER timeout => semLock (.rwl MRAPI_RWL_READER) 1 timeout
  | .rwl_lock MRAPI_RWL_WRITER timeout => .limitLock timeout
  | .rwl_unlock MRAPI_RWL_READER => .release (.rwl MRAPI_RWL_READER) 1
  | .rwl_unlock MRAPI_RWL_WRITER => .limitUnlock
  | .mutex_lock timeout => .mutexLock timeout
  | .mutex_unlock lock_key => .mutexUnlock lock_key
  | .delete MRAPI_MUTEX => semLock .mutexDelete MRAPI_LOCKS_ALL MRAPI_TIMEOUT_IMMEDIATE
  | .delete t => .delete t

/-- Where a call goes on after `mrapi_impl_sem_lock` returned `rc`. The first lock of a
mutex sets the key 0. -/
def Acquirer.resume (who : Acquirer) (rc : Bool) (status : mrapi_status_t) : Pc :=
  match who with
  | .sem | .rwl _ => .done (some ⟨rc, status, none⟩)
  | .mutex => .done (some ⟨rc, status, if rc then some 0 else none⟩)
  | .mutexDelete => .delete MRAPI_MUTEX

/-- The entry and the call after a critical section, and whether its assertions
held. -/
structure Outcome where
  sem : mrapi_sem_t
  pc : Pc
  asserted : Bool

/-- A turn of the loop of `mrapi_impl_sem_lock`. After a turn that failed it yields,
and gives up when the time is over. -/
def acquireStep (c : Node) (sem : mrapi_sem_t) (who : Acquirer) (num_locks : ℤ)
    (timeout time : ℕ) (status : mrapi_status_t) : Outcome :=
  let time' := u32 (time + 1)
  let got := mrapi_impl_acquire_lock_locked c sem num_locks status
  if got.2.1 = num_locks then ⟨got.1, who.resume true MRAPI_SUCCESS, true⟩
  else if timeout ≠ MRAPI_TIMEOUT_INFINITE ∧ time' ≥ timeout then
    -- the status of a trylock is not overwritten
    ⟨got.1, who.resume false (if timeout ≠ 1 then MRAPI_TIMEOUT else got.2.2), true⟩
  else ⟨got.1, .acquire who num_locks timeout time' got.2.2, true⟩

def removeStep (removed : Removed) : Outcome :=
  ⟨removed.sem, .done (some ⟨removed.rc, removed.status, none⟩), removed.asserted⟩

def mutexLockStep (c : Node) (sem : mrapi_sem_t) (timeout : ℕ) : Outcome :=
  let start := mutexLockStart c sem
  match start.2 with
  | .again key => ⟨start.1, .done (some ⟨true, MRAPI_SUCCESS, some key⟩), true⟩
  | .refused => ⟨start.1, .done (some ⟨false, MRAPI_SUCCESS, none⟩), true⟩
  | .acquire => ⟨start.1, semLock .mutex 1 timeout, true⟩

def mutexUnlockStep (c : Node) (sem : mrapi_sem_t) (lock_key : BitVec 32) : Outcome :=
  let start := mutexUnlockStart c sem lock_key
  match start.2 with
  | .left => ⟨start.1, .done (some ⟨true, MRAPI_SUCCESS, none⟩), true⟩
  | .order => ⟨start.1, .done (some ⟨false, MRAPI_ERR_MUTEX_LOCKORDER, none⟩), true⟩
  | .release => ⟨start.1, .release (.mutex lock_key) 1, true⟩

/-- The next critical section of a call. -/
def clientStep (c : Node) (sem : mrapi_sem_t) : Pc → Option Outcome
  | .done _ => none
  | .acquire who num_locks timeout time status =>
    some (acquireStep c sem who num_locks timeout time status)
  | .release _ num_locks => some (removeStep (mrapi_impl_release_lock c sem num_locks))
  | .signal num_locks => some (removeStep (mrapi_impl_signal_lock sem num_locks))
  | .limitLock timeout =>
    some ⟨sem, semLock (.rwl MRAPI_RWL_WRITER) sem.shared_lock_limit timeout, true⟩
  | .limitUnlock => some ⟨sem, .release (.rwl MRAPI_RWL_WRITER) sem.shared_lock_limit, true⟩
  | .mutexLock timeout => some (mutexLockStep c sem timeout)
  | .mutexUnlock lock_key => some (mutexUnlockStep c sem lock_key)
  | .delete t =>
    let deleted := mrapi_impl_sem_delete c sem
    some ⟨deleted.1,
      .done (some ⟨deleted.2, if deleted.2 then MRAPI_SUCCESS else MRAPI_ERR_LOCKED t, none⟩),
      true⟩

end MxApi.LockTable
