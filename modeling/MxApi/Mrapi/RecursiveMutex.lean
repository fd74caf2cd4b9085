/-
Recursive mutexes: `mrapi_impl_mutex_lock` and `mrapi_impl_mutex_unlock` on one entry,
by all nodes and with any keys.

The nesting depth is kept in `locks[0].lock_key`, which is one less than the depth and
at the same time the key of the innermost level. All levels but the first are left by
decrementing it; the first is left by `mrapi_impl_release_lock`, after the critical
section that looked at the key has ended, and nothing there asks for the key. Whether
a call may be one that leaves the first level is decided from the counter squeezed
into a `mrapi_boolean_t`, a byte.

So a node that is nested `n` deep, where `n - 1` is a multiple of 256, releases the
mutex with whatever key it passes; where it passes the right one, and nobody nests
`2^32` deep, the mutex is a recursive one ([`recursive_mutex_ok`]).

The history of a run is kept beside the entry: who owns the mutex, and the keys of its
locks that have not been unlocked yet.
-/
import Mathlib.Logic.Function.Basic
import MxApi.Lib.Run
import MxApi.Mrapi.LockEntry

set_option autoImplicit false

namespace MxApi.RecursiveMutex

open Lib LockTable lock_type mrapi_status_t

/-- Who owns the mutex, and the keys its locks returned, the most recent one first. -/
structure History where
  owner : Option Node
  keys : List (BitVec 32)
  deriving DecidableEq, Repr

/-- A lock returned a key. -/
def History.locked (hist : History) (c : Node) (key : BitVec 32) : History :=
  ⟨some c, key :: hist.keys⟩

/-- An unlock succeeded. -/
def History.unlocked (hist : History) : History :=
  ⟨if hist.keys.tail.isEmpty then none else hist.owner, hist.keys.tail⟩

/-- What a node's step from one place in a call to another says about the mutex: that
a lock or an unlock has returned `MRAPI_TRUE`. -/
def History.note (hist : History) (c : Node) : Pc → Pc → History
  | .mutexLock _, .done (some ⟨true, _, some key⟩) => hist.locked c key
  | .acquire .mutex _ _ _ _, .done (some ⟨true, _, some key⟩) => hist.locked c key
  | .mutexUnlock _, .done (some ⟨true, _, _⟩) => hist.unlocked
  | .release (.mutex _) _, .done (some ⟨true, _, _⟩) => hist.unlocked
  | _, _ => hist

/-- The entry, the clients and the history. -/
structure St where
  sem : mrapi_sem_t
  pc : Node → Pc
  hist : History

/-- A node locks, unlocks, or takes its next step. A trylock is a lock with the
timeout 1. -/
inductive Label
  | lock (c : Node) (timeout : ℕ)
  | unlock (c : Node) (lock_key : BitVec 32)
  | step (c : Node)
  deriving DecidableEq, Repr

/-- A node that is in no call starts one. -/
def St.start (s : St) (c : Node) (op : Op) : Option St :=
  match s.pc c with
  | .done _ => some { s with pc := Function.update s.pc c op.start }
  | _ => none

/-- One step of the system. -/
def step (s : St) : Label → Option St
  | .lock c timeout => s.start c (.mutex_lock timeout)
  | .unlock c lock_key => s.start c (.mutex_unlock lock_key)
  | .step c =>
    (clientStep c s.sem (s.pc c)).map fun o =>
      ⟨o.sem, Function.update s.pc c o.pc, s.hist.note c (s.pc c) o.pc⟩

/-- A recursive mutex that has just been created, as `mrapi_impl_mutex_create` does it. -/
def init (creator : Node) (handle key : ℕ) (ext_error_checking : Bool) : St :=
  ⟨createSem creator handle key 0 1 MRAPI_MUTEX ⟨true, ext_error_checking⟩,
    fun _ => .done none, ⟨none, []⟩⟩

/-! ## What a recursive mutex does -/

/-- The point is in an unlock with the key. -/
def Unlocking (key : BitVec 32) : Pc → Prop
  | .mutexUnlock lock_key => lock_key = key
  | .release (.mutex lock_key) _ => lock_key = key
  | _ => False

/-- The call has returned `ret`. -/
def Returned (pc : Pc) (ret : Ret) : Prop := pc = .done (some ret)

/-- What a node's step does. An unlock succeeds if and only if the caller owns the
mutex and the key is that of the most recent lock not yet unlocked; its status says
which; and until it succeeds it changes nothing. An attempt to acquire succeeds if and
only if every lock has been unlocked. -/
structure StepOk (c : Node) (s s' : St) : Prop where
  succeeds : ∀ key ret, Unlocking key (s.pc c) → Returned (s'.pc c) ret →
    (ret.rc = true ↔ s.hist.owner = some c ∧ s.hist.keys.head? = some key)
  status : ∀ key ret, Unlocking key (s.pc c) → Returned (s'.pc c) ret →
    (ret.status = MRAPI_SUCCESS ↔ ret.rc = true)
  unchanged : ∀ key, Unlocking key (s.pc c) → (∀ ret, Returned (s'.pc c) ret → ret.rc = false) →
    s'.sem = s.sem ∧ s'.hist = s.hist
  acquires : ∀ m timeout time status, s.pc c = .acquire .mutex m timeout time status →
    ((∃ ret, Returned (s'.pc c) ret ∧ ret.rc = true) ↔ s.hist.keys = [])

/-- What is true between the steps: the mutex is owned while there is a key, it is
locked for the same time, and its record names the owner. -/
structure MutexOk (s : St) : Prop where
  owned : s.hist.owner = none ↔ s.hist.keys = []
  available : s.sem.lock0.locked = false ↔ s.hist.keys = []
  holder : ∀ c, s.hist.owner = some c → s.sem.lock0.heldBy c = true

/-- The owner passes the right key where the depth is one more than a multiple of 256,
and does not lock when the depth is `2^32`. -/
def Disciplined (s : St) : Label → Prop
  | .step c =>
    match s.pc c with
    | .mutexUnlock lock_key => s.hist.owner = some c → s.hist.keys.length % 256 = 1 →
        s.hist.keys.head? = some lock_key
    | .mutexLock _ => s.hist.owner = some c → s.hist.keys.length < 2 ^ 32
    | _ => True
  | _ => True

instance (s : St) (a : Label) : Decidable (Disciplined s a) := by
  unfold Disciplined
  split
  · split <;> infer_instance
  · infer_instance

/-! ## An entry with one lock -/

/-- The entry of a recursive mutex whose record is `x`. -/
structure MutexEntry (sem : mrapi_sem_t) (x : mrapi_lock_t) : Prop where
  locks : ∃ xs, sem.locks = x :: xs
  limit : sem.shared_lock_limit = 1
  record : x.valid = true
  count : sem.num_locks = if x.locked then 1 else 0
  valid : sem.valid = true
  recursive : sem.attributes.recursive = true

section
variable {sem : mrapi_sem_t} {x : mrapi_lock_t} {c c' : Node}

theorem MutexEntry.lock0 (h : MutexEntry sem x) : sem.lock0 = x := by
  obtain ⟨xs, hxs⟩ := h.locks
  rw [mrapi_sem_t.lock0, hxs, List.headD_cons]

theorem MutexEntry.limit_eq (h : MutexEntry sem x) : sem.limit = 1 := by
  rw [mrapi_sem_t.limit, h.limit]
  rfl

theorem MutexEntry.setKey (h : MutexEntry sem x) (key : BitVec 32) :
    MutexEntry (sem.setKey key) { x with lock_key := key } := by
  obtain ⟨xs, hxs⟩ := h.locks
  refine ⟨⟨xs, ?_⟩, h.limit, h.record, h.count, h.valid, h.recursive⟩
  rw [mrapi_sem_t.setKey, hxs]
  rfl

/-- A free mutex is acquired. -/
theorem MutexEntry.acquire (h : MutexEntry sem x) (hfree : x.locked = false) (c : Node)
    (status : mrapi_status_t) :
    MutexEntry (mrapi_impl_acquire_lock_locked c sem 1 status).1 (x.take c) ∧
      (mrapi_impl_acquire_lock_locked c sem 1 status).2.1 = 1 := by
  obtain ⟨xs, hxs⟩ := h.locks
  have hcount : sem.num_locks = 0 := by
    rw [h.count, hfree]
    rfl
  have hx : x.free = true := by
    rw [mrapi_lock_t.free, h.record, hfree]
    rfl
  have hloop : acquireLoop c 1 sem.limit 0 sem.locks = (x.take c :: xs, 1, true) := by
    rw [h.limit_eq, hxs, acquireLoop, hx]
    rfl
  unfold mrapi_impl_acquire_lock_locked
  rw [hloop, h.limit, hcount, if_pos (by decide)]
  exact ⟨⟨⟨xs, rfl⟩, rfl, h.record, rfl, h.valid, h.recursive⟩, rfl⟩

/-- A locked one is not. -/
theorem MutexEntry.acquire_locked (h : MutexEntry sem x) (hlocked : x.locked = true) (c : Node)
    (status : mrapi_status_t) :
    mrapi_impl_acquire_lock_locked c sem 1 status = (sem, 0, MRAPI_ERR_LOCKED sem.type) := by
  have hcount : sem.num_locks = 1 := by
    rw [h.count, hlocked]
    rfl
  unfold mrapi_impl_acquire_lock_locked
  rw [h.limit, hcount, if_neg (by decide)]

/-- How many locks of a mutex a node holds. -/
theorem MutexEntry.countP_take (h : MutexEntry sem x) (p : mrapi_lock_t → Bool) :
    (sem.locks.take sem.limit).countP p = if p x = true then 1 else 0 := by
  obtain ⟨xs, hxs⟩ := h.locks
  rw [h.limit_eq, hxs, List.take_succ_cons, List.take_zero, List.countP_singleton]

/-- The holder's release succeeds. -/
theorem MutexEntry.release (h : MutexEntry sem x) (hlocked : x.locked = true)
    (hheld : x.heldBy c = true) :
    MutexEntry (mrapi_impl_release_lock c sem 1).sem x.release ∧
      (mrapi_impl_release_lock c sem 1).rc = true ∧
      (mrapi_impl_release_lock c sem 1).status = MRAPI_SUCCESS := by
  obtain ⟨xs, hxs⟩ := h.locks
  have hcount : sem.num_locks = 1 := by
    rw [h.count, hlocked]
    rfl
  have hmine : x.mine c = true := by
    rw [mrapi_lock_t.mine, mrapi_lock_t.used, h.record, hlocked, hheld]
    rfl
  have hloop : removeLoop (mrapi_lock_t.mine c) sem.limit (u16 (ofInt32 1)) 0 sem.locks =
      (x.release :: xs, 1) := by
    rw [h.limit_eq, hxs, removeLoop, hmine]
    rfl
  have hmany : ¬ (if x.mine c = true then 1 else 0) < ofInt32 1 := by
    rw [hmine]
    decide
  unfold mrapi_impl_release_lock removeLocks
  rw [if_neg (by rw [h.valid]; decide), h.countP_take, if_neg hmany, hloop, hcount]
  exact ⟨⟨⟨xs, rfl⟩, h.limit, h.record, rfl, h.valid, h.recursive⟩, rfl, rfl⟩

/-- Nobody else's does. -/
theorem MutexEntry.release_refused (h : MutexEntry sem x) (hmine : x.mine c = false) :
    mrapi_impl_release_lock c sem 1 = ⟨sem, false, MRAPI_ERR_NOTLOCKED sem.type, true⟩ := by
  have hfew : (if x.mine c = true then 1 else 0) < ofInt32 1 := by
    rw [hmine]
    decide
  unfold mrapi_impl_release_lock removeLocks
  rw [if_neg (by rw [h.valid]; decide), h.countP_take, if_pos hfew]

end

/-! ## The counter -/

/-- The keys of a mutex that is nested `n` deep. -/
def keysOf : ℕ → List (BitVec 32)
  | 0 => []
  | n + 1 => BitVec.ofNat 32 n :: keysOf n

theorem length_keysOf (n : ℕ) : (keysOf n).length = n := by
  induction n with
  | zero => rfl
  | succ n ih => rw [keysOf, List.length_cons, ih]

/-- The byte of the counter is zero where the counter is a multiple of 256. -/
theorem recursively_locked_ofNat (n : ℕ) :
    recursively_locked (BitVec.ofNat 32 n) = true ↔ n % 256 ≠ 0 := by
  rw [recursively_locked, bne_iff_ne, Ne, Ne, not_iff_not]
  rw [← BitVec.toNat_inj, BitVec.toNat_setWidth, BitVec.toNat_ofNat]
  change n % 2 ^ 32 % 2 ^ 8 = 0 ↔ _
  omega

theorem ofNat_eq_zero {n : ℕ} (hn : n < 2 ^ 32) : BitVec.ofNat 32 n = 0 ↔ n = 0 := by
  rw [← BitVec.toNat_inj, BitVec.toNat_ofNat, Nat.mod_eq_of_lt hn]
  rfl

theorem ofNat_succ_sub_one (n : ℕ) : BitVec.ofNat 32 (n + 1) - 1 = BitVec.ofNat 32 n := by
  rw [BitVec.ofNat_add]
  exact BitVec.add_sub_cancel _ _

/-! ## The invariant -/

/-- The record against the history. -/
def Owned (x : mrapi_lock_t) (hist : History) : Prop :=
  match hist.owner with
  | none => x.locked = false ∧ x.lock_key = 0 ∧ hist.keys = []
  | some c => x.locked = true ∧ x.heldBy c = true ∧
      ∃ n, n < 2 ^ 32 ∧ hist.keys = keysOf (n + 1) ∧ x.lock_key = BitVec.ofNat 32 n

/-- What is true of a node in a call: it acquires only what it does not own, and comes
to the release of what it owns only with the last key. -/
def CallInv (c : Node) (hist : History) : Pc → Prop
  | .done _ | .mutexLock _ | .mutexUnlock _ => True
  | .acquire .mutex m _ _ _ => m = 1 ∧ hist.owner ≠ some c
  | .release (.mutex key) m => m = 1 ∧ (hist.owner = some c → hist.keys = [key])
  | _ => False

structure MutexInv (s : St) : Prop where
  entry : ∃ x, MutexEntry s.sem x ∧ Owned x s.hist
  call : ∀ c, CallInv c s.hist (s.pc c)

theorem MutexInv.init (creator : Node) (handle key : ℕ) (ext_error_checking : Bool) :
    MutexInv (init creator handle key ext_error_checking) where
  entry := ⟨⟨0, 0, 0, true, false⟩, ⟨⟨_, rfl⟩, rfl, rfl, rfl, rfl, rfl⟩, rfl, rfl, rfl⟩
  call := fun _ => trivial

/-! ## One critical section -/

/-- What one critical section of `c` leaves: the entry and the call in order, and a
history that another node can be the owner in only if nothing happened. -/
structure Effect (c : Node) (hist : History) (sem' : mrapi_sem_t) (pc' : Pc) (hist' : History) :
    Prop where
  entry : ∃ x, MutexEntry sem' x ∧ Owned x hist'
  call : CallInv c hist' pc'
  others : ∀ c', c' ≠ c → hist'.owner = some c' → hist' = hist

section
variable {c : Node} {sem : mrapi_sem_t} {x : mrapi_lock_t} {hist : History}

/-- The record of a mutex names its caller as the holder, and is locked, exactly if
the caller owns it. -/
theorem Owned.locked_heldBy (h : Owned x hist) (c : Node) :
    (x.locked && x.heldBy c) = true ↔ hist.owner = some c := by
  unfold Owned at h
  rw [Bool.and_eq_true]
  cases howner : hist.owner with
  | none =>
    rw [howner] at h
    simp [h.1]
  | some c' =>
    rw [howner] at h
    obtain ⟨hlocked, hheld, -⟩ := h
    rw [Option.some.injEq]
    constructor
    · intro hc
      exact heldBy_unique hheld hc.2
    · rintro rfl
      exact ⟨hlocked, hheld⟩

theorem Owned.locked_iff (h : Owned x hist) : x.locked = false ↔ hist.keys = [] := by
  unfold Owned at h
  cases howner : hist.owner with
  | none =>
    rw [howner] at h
    simp [h.1, h.2.2]
  | some c =>
    rw [howner] at h
    obtain ⟨hlocked, -, n, -, hkeys, -⟩ := h
    simp [hlocked, hkeys, keysOf]

theorem Owned.owner_iff (h : Owned x hist) : hist.owner = none ↔ hist.keys = [] := by
  unfold Owned at h
  cases howner : hist.owner with
  | none =>
    rw [howner] at h
    simp [h.2.2]
  | some c =>
    rw [howner] at h
    obtain ⟨-, -, n, -, hkeys, -⟩ := h
    simp [hkeys, keysOf]

/-- What the owner's depth and key are. -/
theorem Owned.depth (h : Owned x hist) (howner : hist.owner = some c) :
    x.locked = true ∧ x.heldBy c = true ∧
      ∃ n, n < 2 ^ 32 ∧ hist.keys = keysOf (n + 1) ∧ x.lock_key = BitVec.ofNat 32 n := by
  unfold Owned at h
  rw [howner] at h
  exact h

/-- A call that is not the owner's finds the record not its own. -/
theorem Owned.mine (h : Owned x hist) (hvalid : x.valid = true) :
    x.mine c = true ↔ hist.owner = some c := by
  rw [← h.locked_heldBy c, mrapi_lock_t.mine, mrapi_lock_t.used, hvalid, Bool.true_and]

/-- The first critical section of a lock: the owner is one level deeper, everybody
else goes on to acquire. -/
theorem mutexLockStep_effect (hentry : MutexEntry sem x) (howned : Owned x hist)
    (hdepth : hist.owner = some c → hist.keys.length < 2 ^ 32) (timeout : ℕ) :
    Effect c hist (mutexLockStep c sem timeout).sem (mutexLockStep c sem timeout).pc
      (hist.note c (.mutexLock timeout) (mutexLockStep c sem timeout).pc) := by
  unfold mutexLockStep mutexLockStart
  rw [hentry.lock0, hentry.recursive]
  by_cases howner : hist.owner = some c
  · rw [if_pos ((howned.locked_heldBy c).mpr howner)]
    obtain ⟨hlocked, hheld, n, hn, hkeys, hkey⟩ := howned.depth howner
    have hlt := hdepth howner
    rw [hkeys, length_keysOf] at hlt
    have hkey' : x.lock_key + 1 = BitVec.ofNat 32 (n + 1) := by
      rw [hkey, BitVec.ofNat_add]
      rfl
    refine ⟨⟨_, hentry.setKey _, hlocked, hheld, n + 1, hlt, ?_, hkey'⟩, trivial, ?_⟩
    · change (x.lock_key + 1) :: hist.keys = keysOf (n + 1 + 1)
      rw [hkey', hkeys]
      rfl
    · intro c' hne howner'
      exact absurd (Option.some.inj howner').symm hne
  · rw [if_neg (mt (howned.locked_heldBy c).mp howner)]
    exact ⟨⟨x, hentry, howned⟩, ⟨rfl, howner⟩, fun _ _ _ => rfl⟩

/-- A turn of the loop that acquires. -/
theorem acquireStep_effect (hentry : MutexEntry sem x) (howned : Owned x hist)
    (howner : hist.owner ≠ some c) (timeout time : ℕ) (status : mrapi_status_t) :
    Effect c hist (acquireStep c sem .mutex 1 timeout time status).sem
        (acquireStep c sem .mutex 1 timeout time status).pc
        (hist.note c (.acquire .mutex 1 timeout time status)
          (acquireStep c sem .mutex 1 timeout time status).pc) ∧
      ((∃ ret, Returned (acquireStep c sem .mutex 1 timeout time status).pc ret ∧
        ret.rc = true) ↔ hist.keys = []) := by
  unfold acquireStep
  cases hlocked : x.locked with
  | false =>
    have hkeys := howned.locked_iff.mp hlocked
    obtain ⟨hentry', hgot⟩ := hentry.acquire hlocked c status
    dsimp only
    rw [if_pos hgot]
    refine ⟨⟨⟨_, hentry', rfl, take_heldBy.mpr rfl, 0, by decide, ?_, ?_⟩, trivial, ?_⟩,
      ⟨fun _ => hkeys, fun _ => ⟨_, rfl, rfl⟩⟩⟩
    · change (0 : BitVec 32) :: hist.keys = keysOf 1
      rw [hkeys]
      rfl
    · have hnone := howned.owner_iff.mpr hkeys
      unfold Owned at howned
      rw [hnone] at howned
      exact howned.2.1
    · intro c' hne howner'
      exact absurd (Option.some.inj howner').symm hne
  | true =>
    have hkeys : hist.keys ≠ [] := by
      intro hnil
      rw [howned.locked_iff.mpr hnil] at hlocked
      cases hlocked
    rw [hentry.acquire_locked hlocked c status]
    dsimp only
    rw [if_neg (by decide)]
    split
    · refine ⟨⟨⟨x, hentry, howned⟩, trivial, fun _ _ _ => rfl⟩, ?_⟩
      refine ⟨?_, fun hnil => absurd hnil hkeys⟩
      rintro ⟨ret, hret, hrc⟩
      cases hret
      cases hrc
    · refine ⟨⟨⟨x, hentry, howned⟩, ⟨rfl, howner⟩, fun _ _ _ => rfl⟩, ?_⟩
      refine ⟨?_, fun hnil => absurd hnil hkeys⟩
      rintro ⟨ret, hret, -⟩
      cases hret

/-- What a critical section of an unlock with the key does, as its caller sees it. -/
structure UnlockOk (c : Node) (key : BitVec 32) (sem : mrapi_sem_t) (hist : History)
    (sem' : mrapi_sem_t) (pc' : Pc) (hist' : History) : Prop where
  succeeds : ∀ ret, Returned pc' ret →
    (ret.rc = true ↔ hist.owner = some c ∧ hist.keys.head? = some key)
  status : ∀ ret, Returned pc' ret → (ret.status = MRAPI_SUCCESS ↔ ret.rc = true)
  unchanged : (∀ ret, Returned pc' ret → ret.rc = false) → sem' = sem ∧ hist' = hist

/-- An unlock that fails. -/
theorem UnlockOk.fails {key : BitVec 32} {status : mrapi_status_t}
    (hnot : ¬ (hist.owner = some c ∧ hist.keys.head? = some key))
    (hstatus : status ≠ MRAPI_SUCCESS) :
    UnlockOk c key sem hist sem (.done (some ⟨false, status, none⟩)) hist := by
  refine ⟨?_, ?_, fun _ => ⟨rfl, rfl⟩⟩
  · intro ret hret
    cases hret
    exact ⟨(fun h => by cases h), fun h => absurd h hnot⟩
  · intro ret hret
    cases hret
    exact ⟨fun h => absurd h hstatus, (fun h => by cases h)⟩

/-- An unlock that succeeds. -/
theorem UnlockOk.succeeded {key : BitVec 32} {sem' : mrapi_sem_t} {hist' : History}
    (howner : hist.owner = some c) (hhead : hist.keys.head? = some key) :
    UnlockOk c key sem hist sem' (.done (some ⟨true, MRAPI_SUCCESS, none⟩)) hist' := by
  refine ⟨?_, ?_, ?_⟩
  · intro ret hret
    cases hret
    exact ⟨fun _ => ⟨howner, hhead⟩, fun _ => rfl⟩
  · intro ret hret
    cases hret
    exact ⟨fun _ => rfl, fun _ => rfl⟩
  · intro hfalse
    cases hfalse _ rfl

/-- The first critical section of the owner's unlock: below the first level the right
key leaves a level and a wrong one is refused; at the first level only the right key
comes to the release. -/
theorem mutexUnlockStep_owner (hentry : MutexEntry sem x) (howned : Owned x hist)
    {key : BitVec 32} (howner : hist.owner = some c)
    (hkeyed : hist.keys.length % 256 = 1 → hist.keys.head? = some key) :
    Effect c hist (mutexUnlockStep c sem key).sem (mutexUnlockStep c sem key).pc
        (hist.note c (.mutexUnlock key) (mutexUnlockStep c sem key).pc) ∧
      UnlockOk c key sem hist (mutexUnlockStep c sem key).sem (mutexUnlockStep c sem key).pc
        (hist.note c (.mutexUnlock key) (mutexUnlockStep c sem key).pc) := by
  obtain ⟨hlocked, hheld, n, hn, hkeys, hkey⟩ := howned.depth howner
  have hhead : hist.keys.head? = some x.lock_key := by
    rw [hkeys, hkey]
    rfl
  rw [hkeys, length_keysOf] at hkeyed
  unfold mutexUnlockStep mutexUnlockStart
  rw [hentry.lock0, hheld, Bool.true_and]
  by_cases hmatch : key = x.lock_key ∧ key ≠ 0
  · -- one level is left
    obtain ⟨rfl, hne⟩ := hmatch
    rw [if_pos (by rw [beq_self_eq_true, Bool.true_and, bne_iff_ne]; exact hne)]
    have hn0 : n ≠ 0 := by
      intro h0
      rw [hkey] at hne
      exact hne ((ofNat_eq_zero hn).mpr h0)
    obtain ⟨m, rfl⟩ := Nat.exists_eq_succ_of_ne_zero hn0
    have hkey' : x.lock_key - 1 = BitVec.ofNat 32 m := by
      rw [hkey]
      exact ofNat_succ_sub_one m
    have hunlocked : hist.unlocked = ⟨some c, keysOf (m + 1)⟩ := by
      rw [History.unlocked, hkeys, howner]
      rfl
    refine ⟨⟨⟨_, hentry.setKey _, ?_⟩, trivial, ?_⟩, .succeeded howner hhead⟩
    · change Owned _ hist.unlocked
      rw [hunlocked]
      exact ⟨hlocked, hheld, m, Nat.lt_of_succ_lt hn, rfl, hkey'⟩
    · intro c' hne' howner'
      change hist.unlocked.owner = some c' at howner'
      rw [hunlocked] at howner'
      exact absurd (Option.some.inj howner').symm hne'
  · have hcond : ¬ ((key == x.lock_key && key != 0) = true) := by
      rw [Bool.and_eq_true, beq_iff_eq, bne_iff_ne]
      exact hmatch
    rw [if_neg hcond]
    by_cases hrec : recursively_locked x.lock_key = true
    · rw [if_pos hrec]
      refine ⟨⟨⟨x, hentry, howned⟩, trivial, fun _ _ _ => rfl⟩, .fails ?_ (fun h => by cases h)⟩
      rintro ⟨-, hhead'⟩
      rw [hhead, Option.some.injEq] at hhead'
      have hzero : key = 0 := by
        by_contra hne
        exact hmatch ⟨hhead'.symm, hne⟩
      rw [hhead', hzero] at hrec
      exact absurd hrec (by decide)
    · rw [if_neg hrec]
      have hmod : n % 256 = 0 := by
        by_contra hne
        rw [hkey] at hrec
        exact hrec ((recursively_locked_ofNat n).mpr hne)
      have hright : keysOf (n + 1) = [key] := by
        have hhead' := hkeyed (by omega)
        have hzero : BitVec.ofNat 32 n = 0 := by
          by_contra hne
          rw [keysOf, List.head?_cons, Option.some.injEq] at hhead'
          rw [hkey] at hmatch
          exact hmatch ⟨hhead'.symm, hhead' ▸ hne⟩
        obtain rfl := (ofNat_eq_zero hn).mp hzero
        rw [keysOf, List.head?_cons, Option.some.injEq] at hhead'
        rw [keysOf, hhead']
        rfl
      refine ⟨⟨⟨x, hentry, howned⟩, ⟨rfl, fun _ => hkeys.trans hright⟩, fun _ _ _ => rfl⟩, ?_⟩
      exact ⟨(fun ret hret => by cases hret), (fun ret hret => by cases hret), fun _ => ⟨rfl, rfl⟩⟩

/-- The first critical section of another node's unlock: refused, or on to the release.
A node that held the mutex before is still recorded in a free one, whose counter is 0. -/
theorem mutexUnlockStep_other (hentry : MutexEntry sem x) (howned : Owned x hist)
    {key : BitVec 32} (howner : hist.owner ≠ some c) :
    Effect c hist (mutexUnlockStep c sem key).sem (mutexUnlockStep c sem key).pc
        (hist.note c (.mutexUnlock key) (mutexUnlockStep c sem key).pc) ∧
      UnlockOk c key sem hist (mutexUnlockStep c sem key).sem (mutexUnlockStep c sem key).pc
        (hist.note c (.mutexUnlock key) (mutexUnlockStep c sem key).pc) := by
  have hcond : ¬ ((x.heldBy c && key == x.lock_key && key != 0) = true) := by
    rw [Bool.and_eq_true, Bool.and_eq_true, beq_iff_eq, bne_iff_ne]
    rintro ⟨⟨hheld, hkey⟩, hne⟩
    unfold Owned at howned
    cases howner' : hist.owner with
    | none =>
      rw [howner'] at howned
      exact hne (hkey.trans howned.2.1)
    | some c' =>
      rw [howner'] at howned
      rw [heldBy_unique howned.2.1 hheld] at howner'
      exact howner howner'
  unfold mutexUnlockStep mutexUnlockStart
  rw [hentry.lock0, if_neg hcond]
  split_ifs
  · refine ⟨⟨⟨x, hentry, howned⟩, trivial, fun _ _ _ => rfl⟩, .fails ?_ (fun h => by cases h)⟩
    exact fun h => howner h.1
  · refine ⟨⟨⟨x, hentry, howned⟩, ⟨rfl, fun h => absurd h howner⟩, fun _ _ _ => rfl⟩, ?_⟩
    exact ⟨(fun ret hret => by cases hret), (fun ret hret => by cases hret), fun _ => ⟨rfl, rfl⟩⟩

/-- The release of an unlock: it is the owner's with its last key, or refused. -/
theorem releaseStep_effect (hentry : MutexEntry sem x) (howned : Owned x hist)
    {key : BitVec 32} (hlast : hist.owner = some c → hist.keys = [key]) :
    Effect c hist (removeStep (mrapi_impl_release_lock c sem 1)).sem
        (removeStep (mrapi_impl_release_lock c sem 1)).pc
        (hist.note c (.release (.mutex key) 1) (removeStep (mrapi_impl_release_lock c sem 1)).pc) ∧
      UnlockOk c key sem hist (removeStep (mrapi_impl_release_lock c sem 1)).sem
        (removeStep (mrapi_impl_release_lock c sem 1)).pc
        (hist.note c (.release (.mutex key) 1)
          (removeStep (mrapi_impl_release_lock c sem 1)).pc) := by
  by_cases howner : hist.owner = some c
  · obtain ⟨hlocked, hheld, n, hn, hkeys, hkey⟩ := howned.depth howner
    obtain ⟨hentry', hrc, hstatus⟩ := hentry.release hlocked hheld
    have hone := hlast howner
    have hn0 : n = 0 := by
      have hlen := congrArg List.length (hkeys.symm.trans hone)
      rw [length_keysOf, List.length_singleton] at hlen
      omega
    have hunlocked : hist.unlocked = ⟨none, []⟩ := by
      rw [History.unlocked, hone]
      rfl
    unfold removeStep
    rw [hrc, hstatus]
    refine ⟨⟨⟨_, hentry', ?_⟩, trivial, ?_⟩, .succeeded howner (by rw [hone]; rfl)⟩
    · change Owned _ hist.unlocked
      rw [hunlocked]
      refine ⟨rfl, ?_, rfl⟩
      change x.lock_key = 0
      rw [hkey, hn0]
      rfl
    · intro c' _ howner'
      change hist.unlocked.owner = some c' at howner'
      rw [hunlocked] at howner'
      cases howner'
  · have hmine : x.mine c = false := by
      rw [Bool.eq_false_iff]
      exact fun h => howner ((howned.mine hentry.record).mp h)
    rw [hentry.release_refused hmine]
    refine ⟨⟨⟨x, hentry, howned⟩, trivial, fun _ _ _ => rfl⟩, .fails ?_ (fun h => by cases h)⟩
    exact fun h => howner h.1

end

/-- What a critical section does, by where its caller stands. -/
structure SectionOk (s : St) (c : Node) (o : Outcome) : Prop where
  effect : Effect c s.hist o.sem o.pc (s.hist.note c (s.pc c) o.pc)
  unlock : ∀ key, Unlocking key (s.pc c) →
    UnlockOk c key s.sem s.hist o.sem o.pc (s.hist.note c (s.pc c) o.pc)
  acquires : ∀ m timeout time status, s.pc c = .acquire .mutex m timeout time status →
    ((∃ ret, Returned o.pc ret ∧ ret.rc = true) ↔ s.hist.keys = [])

/-- **One critical section** of a disciplined run. -/
theorem MutexInv.clientStep {s : St} {c : Node} {o : Outcome} (h : MutexInv s)
    (hdisciplined : Disciplined s (.step c)) (ho : clientStep c s.sem (s.pc c) = some o) :
    SectionOk s c o := by
  obtain ⟨x, hentry, howned⟩ := h.entry
  have hcall := h.call c
  simp only [Disciplined] at hdisciplined
  cases hpc : s.pc c with
  | done ret =>
    rw [hpc] at ho
    cases ho
  | mutexLock timeout =>
    rw [hpc] at ho hdisciplined
    obtain rfl := Option.some.inj ho
    have heffect := mutexLockStep_effect hentry howned hdisciplined timeout
    refine ⟨?_, ?_, ?_⟩
    · rw [hpc]
      exact heffect
    · intro key hkey
      rw [hpc] at hkey
      exact hkey.elim
    · intro m timeout time status hacquire
      rw [hpc] at hacquire
      cases hacquire
  | acquire who m timeout time status =>
    rw [hpc] at ho hcall
    cases who with
    | mutex =>
      obtain rfl := Option.some.inj ho
      obtain ⟨rfl, howner⟩ := hcall
      obtain ⟨heffect, hiff⟩ := acquireStep_effect hentry howned howner timeout time status
      refine ⟨?_, ?_, ?_⟩
      · rw [hpc]
        exact heffect
      · intro key hkey
        rw [hpc] at hkey
        exact hkey.elim
      · intro m timeout time status _
        exact hiff
    | _ => exact hcall.elim
  | mutexUnlock key =>
    rw [hpc] at ho hdisciplined
    obtain rfl := Option.some.inj ho
    have hboth : Effect c s.hist (mutexUnlockStep c s.sem key).sem (mutexUnlockStep c s.sem key).pc
          (s.hist.note c (.mutexUnlock key) (mutexUnlockStep c s.sem key).pc) ∧
        UnlockOk c key s.sem s.hist (mutexUnlockStep c s.sem key).sem
          (mutexUnlockStep c s.sem key).pc
          (s.hist.note c (.mutexUnlock key) (mutexUnlockStep c s.sem key).pc) := by
      by_cases howner : s.hist.owner = some c
      · exact mutexUnlockStep_owner hentry howned howner (hdisciplined howner)
      · exact mutexUnlockStep_other hentry howned howner
    refine ⟨?_, ?_, ?_⟩
    · rw [hpc]
      exact hboth.1
    · intro key' hkey
      rw [hpc] at hkey ⊢
      obtain rfl : key = key' := hkey
      exact hboth.2
    · intro m timeout time status hacquire
      rw [hpc] at hacquire
      cases hacquire
  | release who m =>
    rw [hpc] at ho hcall
    cases who with
    | mutex key =>
      obtain rfl := Option.some.inj ho
      obtain ⟨rfl, hlast⟩ := hcall
      have hboth := releaseStep_effect hentry howned hlast
      refine ⟨?_, ?_, ?_⟩
      · rw [hpc]
        exact hboth.1
      · intro key' hkey
        rw [hpc] at hkey ⊢
        obtain rfl : key = key' := hkey
        exact hboth.2
      · intro m timeout time status hacquire
        rw [hpc] at hacquire
        cases hacquire
    | _ => exact hcall.elim
  | _ =>
    rw [hpc] at hcall
    exact hcall.elim

/-- What the owner of a call relies on is not changed by another node. -/
theorem CallInv.others {c : Node} {hist hist' : History} {pc : Pc} (h : CallInv c hist pc)
    (hsame : hist'.owner = some c → hist' = hist) : CallInv c hist' pc := by
  cases pc with
  | acquire who m timeout time status =>
    cases who with
    | mutex =>
      refine ⟨h.1, ?_⟩
      intro howner
      rw [hsame howner] at howner
      exact h.2 howner
    | _ => exact h
  | release who m =>
    cases who with
    | mutex key =>
      refine ⟨h.1, ?_⟩
      intro howner
      have heq := hsame howner
      rw [heq] at howner ⊢
      exact h.2 howner
    | _ => exact h
  | _ => exact h

/-- A node moves, and the call of every other node stays as it was. -/
theorem MutexInv.update {s : St} (h : MutexInv s) {c : Node} {sem' : mrapi_sem_t} {pc' : Pc}
    {hist' : History} (heffect : Effect c s.hist sem' pc' hist') :
    MutexInv ⟨sem', Function.update s.pc c pc', hist'⟩ := by
  refine ⟨heffect.entry, ?_⟩
  intro c'
  change CallInv c' hist' (Function.update s.pc c pc' c')
  by_cases hc : c' = c
  · rw [hc, Function.update_self]
    exact heffect.call
  · rw [Function.update_of_ne hc]
    exact (h.call c').others (heffect.others c' hc)

theorem MutexInv.start {s s' : St} {c : Node} {op : Op} (h : MutexInv s)
    (hop : CallInv c s.hist op.start) (hstart : s.start c op = some s') : MutexInv s' := by
  unfold St.start at hstart
  split at hstart
  · obtain rfl := Option.some.inj hstart
    exact h.update ⟨h.entry, hop, fun _ _ _ => rfl⟩
  · cases hstart

/-- **One step** keeps the invariant. -/
theorem MutexInv.step {s s' : St} {a : Label} (h : MutexInv s) (hstep : step s a = some s')
    (hdisciplined : Disciplined s a) : MutexInv s' := by
  cases a with
  | lock c timeout =>
    have hop : CallInv c s.hist (Op.mutex_lock timeout).start := trivial
    exact h.start hop hstep
  | unlock c key =>
    have hop : CallInv c s.hist (Op.mutex_unlock key).start := trivial
    exact h.start hop hstep
  | step c =>
    obtain ⟨o, ho, rfl⟩ := Option.map_eq_some_iff.mp hstep
    exact h.update (h.clientStep hdisciplined ho).effect

/-! ## Recursive mutexes -/

theorem MutexInv.mutexOk {s : St} (h : MutexInv s) : MutexOk s := by
  obtain ⟨x, hentry, howned⟩ := h.entry
  refine ⟨howned.owner_iff, ?_, ?_⟩
  · rw [hentry.lock0]
    exact howned.locked_iff
  · intro c howner
    rw [hentry.lock0]
    exact (howned.depth howner).2.1

theorem MutexInv.stepOk {s s' : St} {c : Node} (h : MutexInv s)
    (hdisciplined : Disciplined s (.step c)) (hs : RecursiveMutex.step s (.step c) = some s') :
    StepOk c s s' := by
  obtain ⟨o, ho, rfl⟩ := Option.map_eq_some_iff.mp hs
  have hsection := h.clientStep hdisciplined ho
  have hself : (Function.update s.pc c o.pc) c = o.pc := Function.update_self ..
  refine ⟨?_, ?_, ?_, ?_⟩
  · intro key ret hkey hret
    exact (hsection.unlock key hkey).succeeds ret (hself.symm.trans hret)
  · intro key ret hkey hret
    exact (hsection.unlock key hkey).status ret (hself.symm.trans hret)
  · intro key hkey hfails
    exact (hsection.unlock key hkey).unchanged fun ret hret => hfails ret (hself.trans hret)
  · intro m timeout time status hpc
    change ((∃ ret, Returned (Function.update s.pc c o.pc c) ret ∧ ret.rc = true) ↔ _)
    rw [hself]
    exact hsection.acquires m timeout time status hpc

/-- **Recursive mutexes are disciplined where their callers are**: in every run in
which the owner passes the right key where the depth is one more than a multiple of
256, and nests less than `2^32` deep, unlocks succeed and fail as they should, and the
mutex is free when and only when all its locks have been unlocked. -/
theorem recursive_mutex_ok {creator : Node} {handle key : ℕ} {ext_error_checking : Bool} {s : St}
    (h : Run step (fun s a _ => Disciplined s a) (init creator handle key ext_error_checking) s) :
    MutexOk s ∧ ∀ c s', step s (.step c) = some s' → Disciplined s (.step c) → StepOk c s s' := by
  have hinv : MutexInv s :=
    Run.invariant (fun _ _ _ hI hstep hguard => hI.step hstep hguard) h (.init ..)
  exact ⟨hinv.mutexOk, fun c s' hs hdisciplined => hinv.stepOk hdisciplined hs⟩

/-- A node nests two deep; a wrong key and another node are refused; the mutex is left
level by level. -/
theorem recursive_mutex_ok_two :
    ∃ s : St, Run step (fun s a _ => Disciplined s a) (init node0 0 7 false) s ∧
      s.hist = ⟨some node0, [0]⟩ ∧ MutexOk s ∧
        ∀ c s', step s (.step c) = some s' → Disciplined s (.step c) → StepOk c s s' := by
  have hexec : (exec step (fun s a _ => decide (Disciplined s a)) (init node0 0 7 false)
      [.lock node0 1, .step node0, .step node0, .lock node0 1, .step node0,
        .unlock node0 5, .step node0, .unlock node1 1, .step node1,
        .lock node1 1, .step node1, .step node1, .unlock node0 1, .step node0]).any
      (fun s => s.hist == ⟨some node0, [0]⟩) = true := by
    decide +kernel
  obtain ⟨s, hrun, hs⟩ := exec_run_of_any hexec
  have hrun' : Run step (fun s a _ => Disciplined s a) (init node0 0 7 false) s :=
    hrun.mono fun _ _ _ hg => of_decide_eq_true hg
  exact ⟨s, hrun', beq_iff_eq.mp hs, recursive_mutex_ok hrun'⟩

/-- **A wrong key unlocks**: a node that has locked a recursive mutex once, and was
given the key 0, passes the key 7 and is told that the unlock succeeded. -/
theorem wrong_key_unlocks :
    ∃ s s' : St, Run step (fun _ _ _ => True) (init node0 0 7 false) s ∧
      step s (.step node0) = some s' ∧ s.pc node0 = .release (.mutex 7) 1 ∧
      s.hist = ⟨some node0, [0]⟩ ∧ s'.pc node0 = .done (some ⟨true, MRAPI_SUCCESS, none⟩) ∧
      ¬ StepOk node0 s s' := by
  have hexec : (exec step (fun _ _ _ => true) (init node0 0 7 false)
      [.lock node0 1, .step node0, .step node0, .unlock node0 7, .step node0]).any
      (fun s => s.pc node0 == .release (.mutex 7) 1 && s.hist == ⟨some node0, [0]⟩ &&
        (step s (.step node0)).any
          (fun s' => s'.pc node0 == .done (some ⟨true, MRAPI_SUCCESS, none⟩))) = true := by
    decide +kernel
  obtain ⟨s, hrun, hs⟩ := exec_run_of_any hexec
  simp only [Bool.and_eq_true, beq_iff_eq, Option.any_eq_true] at hs
  obtain ⟨⟨hpc, hhist⟩, s', hstep, hdone⟩ := hs
  refine ⟨s, s', hrun.mono fun _ _ _ _ => trivial, hstep, hpc, hhist, hdone, ?_⟩
  intro hok
  have hunlocking : Unlocking 7 (s.pc node0) := by
    rw [hpc]
    rfl
  have hright := ((hok.succeeds 7 _ hunlocking hdone).mp rfl).2
  rw [hhist] at hright
  exact absurd hright (by decide)

end MxApi.RecursiveMutex
