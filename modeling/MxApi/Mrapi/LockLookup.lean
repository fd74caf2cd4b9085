/-
Lookup by key in the lock table (`mrapi_sem_get`, `mrapi_mutex_get`, `mrapi_rwl_get`).

The three calls share `mrapi_impl_sem_get`, which returns the first entry whose key is
the one asked for. It does not ask whether the entry is valid nor of which kind it is: an
unused entry has the key 0, a deleted entry keeps its key, and one table holds all three
kinds. A create asks for the key among the valid entries of all kinds, unless it is told
to choose the key itself; then the key is the address of the entry in the memory of the
caller, and nothing is compared.

What follows is in two halves. The keys of the valid entries differ in every run in which
no address that a create chooses as a key is the key of a valid entry already
([`KeysUnique`]). And where the keys differ, a lookup is right exactly if the first entry
with the key is a valid object of the kind asked for ([`get_agrees_iff`]). That a lookup
logs the caller as a user of the entry is left out here.
-/
import Mathlib.Data.List.Range
import MxApi.Mrapi.LockTableSafety

set_option autoImplicit false

namespace MxApi.LockTable

open Lib lock_type mrapi_rwl_mode_t mrapi_status_t

/-! ## The lookup -/

/-- The handle and `rc`. Without an entry the handle is that of the index past the last. -/
def mrapi_impl_sem_get (db : Db) (key : ℕ) : ℕ × Bool :=
  match db.find fun sem => key == sem.key with
  | some s => (mrapi_impl_encode_hndl s, true)
  | none => (mrapi_impl_encode_hndl MRAPI_MAX_SEMS, false)

def mrapi_impl_mutex_get (db : Db) (key : ℕ) : ℕ × Bool := mrapi_impl_sem_get db key

def mrapi_impl_rwl_get (db : Db) (key : ℕ) : ℕ × Bool := mrapi_impl_sem_get db key

/-- The handle that a lookup returns with `MRAPI_SUCCESS`. Where there is none the status is
that the key is invalid. -/
def reported (got : ℕ × Bool) : Option ℕ := if got.2 then some got.1 else none

def mrapi_sem_get (db : Db) (key : ℕ) : Option ℕ := reported (mrapi_impl_sem_get db key)

def mrapi_mutex_get (db : Db) (key : ℕ) : Option ℕ := reported (mrapi_impl_mutex_get db key)

def mrapi_rwl_get (db : Db) (key : ℕ) : Option ℕ := reported (mrapi_impl_rwl_get db key)

/-- The lookup of each kind. -/
def getByKey : lock_type → Db → ℕ → Option ℕ
  | MRAPI_SEM => mrapi_sem_get
  | MRAPI_MUTEX => mrapi_mutex_get
  | MRAPI_RWL => mrapi_rwl_get

/-! ## What a lookup is for -/

/-- Entry `s` holds a valid object of kind `t` with that key. -/
structure IsObject (db : Db) (t : lock_type) (key s : ℕ) : Prop where
  lt : s < MRAPI_MAX_SEMS
  valid : (db.sems s).valid = true
  type : (db.sems s).type = t
  key : (db.sems s).key = key

/-- At most one valid object has any given key. -/
def KeysUnique (db : Db) : Prop :=
  ∀ s s', s < MRAPI_MAX_SEMS → s' < MRAPI_MAX_SEMS → (db.sems s).valid = true →
    (db.sems s').valid = true → (db.sems s).key = (db.sems s').key → s = s'

/-- The lookup succeeds exactly when there is such an object, and returns its handle. -/
def GetAgrees (db : Db) (t : lock_type) (key : ℕ) : Prop :=
  ∀ hndl, getByKey t db key = some hndl ↔
    ∃ s, IsObject db t key s ∧ hndl = mrapi_impl_encode_hndl s

/-- The first entry with the key, if there is one, is a valid object of the kind. -/
def FirstIsObject (db : Db) (t : lock_type) (key : ℕ) : Prop :=
  ∀ s, (db.find fun sem => key == sem.key) = some s →
    (db.sems s).valid = true ∧ (db.sems s).type = t

/-! ## The table and the handles -/

/-- What a search finds is in the table and has the property. -/
theorem Db.find_some {db : Db} {p : mrapi_sem_t → Bool} {s : ℕ} (h : db.find p = some s) :
    s < MRAPI_MAX_SEMS ∧ p (db.sems s) = true := by
  have hmem := List.mem_of_find?_eq_some h
  have hp := List.find?_some h
  exact ⟨List.mem_range.mp hmem, hp⟩

theorem Db.find_none {db : Db} {p : mrapi_sem_t → Bool} (h : db.find p = none) {s : ℕ}
    (hs : s < MRAPI_MAX_SEMS) : p (db.sems s) = false := by
  have hnone := List.find?_eq_none.mp h s (List.mem_range.mpr hs)
  simpa using hnone

/-- A handle leads back to the entry it was made for. -/
theorem decode_encode_hndl {s : ℕ} (hs : s < 2 ^ 16) :
    mrapi_impl_decode_hndl (mrapi_impl_encode_hndl s) = (s, true) := by
  unfold mrapi_impl_decode_hndl mrapi_impl_encode_hndl MCA_HANDLE_MASK
  rw [Nat.mod_eq_of_lt hs]
  have hlow : (0xC0000000 ||| s) &&& 0x00ffffff = s := by
    rw [Nat.and_or_distrib_right]
    have hmask : (0xC0000000 : ℕ) &&& 0x00ffffff = 0 := by decide
    rw [hmask, Nat.zero_or]
    have hbits : (0x00ffffff : ℕ) = 2 ^ 24 - 1 := by decide
    rw [hbits, Nat.and_two_pow_sub_one_eq_mod]
    exact Nat.mod_eq_of_lt (by omega)
  have hhigh : (0xC0000000 ||| s) &&& 0xC0000000 = 0xC0000000 := by
    apply Nat.eq_of_testBit_eq
    intro i
    rw [Nat.testBit_and, Nat.testBit_or]
    cases Nat.testBit 0xC0000000 i <;> simp
  rw [hlow, hhigh, Nat.mod_eq_of_lt hs]
  rfl

theorem encode_hndl_inj {s s' : ℕ} (hs : s < MRAPI_MAX_SEMS) (hs' : s' < MRAPI_MAX_SEMS)
    (h : mrapi_impl_encode_hndl s = mrapi_impl_encode_hndl s') : s = s' := by
  have hmax : MRAPI_MAX_SEMS < 2 ^ 16 := by decide
  have hdecode := decode_encode_hndl (hs.trans hmax)
  rw [h, decode_encode_hndl (hs'.trans hmax)] at hdecode
  exact (Prod.mk.inj hdecode).1.symm

/-! ## When a lookup is right -/

/-- The three lookups are one function. -/
theorem getByKey_eq (t : lock_type) (db : Db) (key : ℕ) :
    getByKey t db key =
      (db.find fun sem => key == sem.key).map mrapi_impl_encode_hndl := by
  have hsem : mrapi_sem_get db key =
      (db.find fun sem => key == sem.key).map mrapi_impl_encode_hndl := by
    unfold mrapi_sem_get reported mrapi_impl_sem_get
    cases db.find fun sem => key == sem.key <;> rfl
  cases t <;> exact hsem

/-- **A lookup is right exactly if the first entry with the key is a valid object of the
kind asked for**, or there is no entry with the key. -/
theorem get_agrees_iff {db : Db} (huniq : KeysUnique db) (t : lock_type) (key : ℕ) :
    GetAgrees db t key ↔ FirstIsObject db t key := by
  unfold GetAgrees FirstIsObject
  rw [getByKey_eq]
  cases hfind : db.find fun sem => key == sem.key with
  | none =>
    refine ⟨(fun _ s hs => nomatch hs), ?_⟩
    intro _ hndl
    refine ⟨(fun h => nomatch h), ?_⟩
    rintro ⟨s, hobj, -⟩
    have hkey := Db.find_none hfind hobj.lt
    rw [hobj.key, beq_self_eq_true] at hkey
    cases hkey
  | some s =>
    obtain ⟨hs, hkey⟩ := Db.find_some hfind
    have hkey' : key = (db.sems s).key := eq_of_beq hkey
    constructor
    · intro h s' hs'
      obtain rfl := Option.some.inj hs'
      obtain ⟨u, hobj, hhndl⟩ := (h (mrapi_impl_encode_hndl s)).mp rfl
      obtain rfl := encode_hndl_inj hs hobj.lt hhndl
      exact ⟨hobj.valid, hobj.type⟩
    · intro h hndl
      obtain ⟨hvalid, htype⟩ := h s rfl
      constructor
      · intro hgot
        exact ⟨s, ⟨hs, hvalid, htype, hkey'.symm⟩, (Option.some.inj hgot).symm⟩
      · rintro ⟨u, hobj, rfl⟩
        have hsame : s = u :=
          huniq s u hs hobj.lt hvalid hobj.valid (hkey'.symm.trans hobj.key.symm)
        rw [hsame]
        rfl

/-! ## Who an entry is -/

/-- The entry holds the same object, as valid as before. -/
structure SameObject (sem sem' : mrapi_sem_t) : Prop where
  key : sem'.key = sem.key
  type : sem'.type = sem.type
  handle : sem'.handle = sem.handle
  valid : sem'.valid = sem.valid

theorem SameObject.refl (sem : mrapi_sem_t) : SameObject sem sem := ⟨rfl, rfl, rfl, rfl⟩

theorem acquireStep_sameObject (c : Node) (sem : mrapi_sem_t) (who : Acquirer) (m : ℤ)
    (timeout time : ℕ) (status : mrapi_status_t) :
    SameObject sem (acquireStep c sem who m timeout time status).sem := by
  have hgot : SameObject sem (mrapi_impl_acquire_lock_locked c sem m status).1 := by
    unfold mrapi_impl_acquire_lock_locked
    split
    · exact ⟨rfl, rfl, rfl, rfl⟩
    · exact .refl sem
  unfold acquireStep
  dsimp only
  split_ifs <;> exact hgot

theorem removeLocks_sameObject (mine : mrapi_lock_t → Bool) (sem : mrapi_sem_t) (m : ℤ) :
    SameObject sem (removeLocks mine sem m).sem := by
  unfold removeLocks
  dsimp only
  split_ifs
  · exact .refl sem
  · exact .refl sem
  · exact ⟨rfl, rfl, rfl, rfl⟩

theorem mutexLockStep_sameObject (c : Node) (sem : mrapi_sem_t) (timeout : ℕ) :
    SameObject sem (mutexLockStep c sem timeout).sem := by
  unfold mutexLockStep mutexLockStart
  split_ifs
  · exact ⟨rfl, rfl, rfl, rfl⟩
  · exact .refl sem
  · exact .refl sem

theorem mutexUnlockStep_sameObject (c : Node) (sem : mrapi_sem_t) (key : BitVec 32) :
    SameObject sem (mutexUnlockStep c sem key).sem := by
  unfold mutexUnlockStep mutexUnlockStart
  split_ifs
  · exact ⟨rfl, rfl, rfl, rfl⟩
  · exact .refl sem
  · exact .refl sem

/-- Every critical section but a delete leaves the object of its entry. -/
theorem clientStep_sameObject {c : Node} {sem : mrapi_sem_t} {pc : Pc} {o : Outcome}
    (hstep : clientStep c sem pc = some o) (hpc : ∀ t, pc ≠ .delete t) :
    SameObject sem o.sem := by
  cases pc with
  | done ret => cases hstep
  | acquire who m timeout time status =>
    obtain rfl := Option.some.inj hstep
    exact acquireStep_sameObject c sem who m timeout time status
  | release who m =>
    obtain rfl := Option.some.inj hstep
    exact removeLocks_sameObject _ sem m
  | signal m =>
    obtain rfl := Option.some.inj hstep
    exact removeLocks_sameObject _ sem m
  | limitLock timeout =>
    obtain rfl := Option.some.inj hstep
    exact .refl sem
  | limitUnlock =>
    obtain rfl := Option.some.inj hstep
    exact .refl sem
  | mutexLock timeout =>
    obtain rfl := Option.some.inj hstep
    exact mutexLockStep_sameObject c sem timeout
  | mutexUnlock key =>
    obtain rfl := Option.some.inj hstep
    exact mutexUnlockStep_sameObject c sem key
  | delete t => exact absurd rfl (hpc t)

/-- What no critical section of a call changes of an entry; it may only cease to be
valid. -/
structure Occupied (sem sem' : mrapi_sem_t) : Prop where
  key : sem'.key = sem.key
  type : sem'.type = sem.type
  handle : sem'.handle = sem.handle
  valid : sem'.valid = true → sem.valid = true

theorem Occupied.refl (sem : mrapi_sem_t) : Occupied sem sem := ⟨rfl, rfl, rfl, id⟩

theorem SameObject.occupied {sem sem' : mrapi_sem_t} (h : SameObject sem sem') :
    Occupied sem sem' :=
  ⟨h.key, h.type, h.handle, fun hvalid => h.valid ▸ hvalid⟩

theorem delete_occupied (c : Node) (sem : mrapi_sem_t) :
    Occupied sem (mrapi_impl_sem_delete c sem).1 := by
  unfold mrapi_impl_sem_delete
  dsimp only
  split_ifs
  · exact .refl sem
  · exact ⟨rfl, rfl, rfl, fun h => by cases h⟩
  · exact .refl sem

/-- **A critical section of a call** leaves the key, the kind and the handle of its entry,
and makes no entry valid. -/
theorem clientStep_occupied {c : Node} {sem : mrapi_sem_t} {pc : Pc} {o : Outcome}
    (hstep : clientStep c sem pc = some o) : Occupied sem o.sem := by
  by_cases hpc : ∃ t, pc = .delete t
  · obtain ⟨t, rfl⟩ := hpc
    obtain rfl := Option.some.inj hstep
    exact delete_occupied c sem
  · exact (clientStep_sameObject hstep fun t ht => hpc ⟨t, ht⟩).occupied

/-! ## The keys -/

/-- A key that a create chooses itself is not the key of a valid entry. -/
def FreshAddress (db : Db) : Label → Prop
  | .step c =>
    match db.pc c, db.find fun sem => !sem.valid && !sem.deleted with
    | .create args, some s => args.key = MRAPI_SEM_ID_ANY →
        (db.find fun sem => sem.valid && sem.key == db.address c s) = none
    | _, _ => True
  | .call _ _ => True

instance (db : Db) : DecidablePred (FreshAddress db) := by
  intro a
  unfold FreshAddress
  split
  · split <;> infer_instance
  · infer_instance

/-- The steps of the runs below: the limits of reader-writer locks are within the array, and
the keys that are chosen for the caller are fresh. -/
def KeyGuard (db : Db) (a : Label) (_ : Db) : Prop := Within a ∧ FreshAddress db a

instance (db : Db) (a : Label) (db' : Db) : Decidable (KeyGuard db a db') := by
  unfold KeyGuard
  infer_instance

theorem KeysUnique.init (address : Node → ℕ → ℕ) : KeysUnique (init address) := by
  intro s s' _ _ hvalid
  cases hvalid

/-- A call that goes on with an entry. -/
theorem KeysUnique.update {db : Db} (h : KeysUnique db) {s : ℕ} {sem : mrapi_sem_t}
    (hsem : Occupied (db.sems s) sem) {db' : Db}
    (hsems : db'.sems = Function.update db.sems s sem) : KeysUnique db' := by
  have hall : ∀ u, Occupied (db.sems u) (db'.sems u) := by
    intro u
    rw [hsems]
    by_cases hu : u = s
    · rw [hu, Function.update_self]
      exact hsem
    · rw [Function.update_of_ne hu]
      exact .refl _
  intro u u' hu hu' hvalid hvalid' hkey
  rw [(hall u).key, (hall u').key] at hkey
  exact h u u' hu hu' ((hall u).valid hvalid) ((hall u').valid hvalid') hkey

/-- A create gives the entry a key that no valid entry has. -/
theorem KeysUnique.create {db : Db} (h : KeysUnique db) {c : Node} {args : Creation}
    (hfresh : args.key = MRAPI_SEM_ID_ANY →
      ∀ s, (db.find fun sem => !sem.valid && !sem.deleted) = some s →
        (db.find fun sem => sem.valid && sem.key == db.address c s) = none) :
    KeysUnique (mrapi_impl_create db c args) := by
  unfold mrapi_impl_create
  split
  · exact h
  · rename_i hexists
    split
    · exact h
    · rename_i s hs
      set key := if args.key = MRAPI_SEM_ID_ANY then db.address c s else args.key with hkeydef
      have hnone : (db.find fun sem => sem.valid && sem.key == key) = none := by
        by_cases hany : args.key = MRAPI_SEM_ID_ANY
        · rw [hkeydef, if_pos hany]
          exact hfresh hany s hs
        · rw [hkeydef, if_neg hany]
          by_contra hsome
          exact hexists ⟨hany, Option.isSome_iff_ne_none.mpr hsome⟩
      have hnew : ∀ u, u < MRAPI_MAX_SEMS → (db.sems u).valid = true → (db.sems u).key ≠ key := by
        intro u hu hvalid hkey
        have hu' := Db.find_none hnone hu
        rw [hvalid, hkey, beq_self_eq_true] at hu'
        cases hu'
      intro u u' hu hu' hvalid hvalid' hkey
      dsimp only at hvalid hvalid' hkey
      by_cases hus : u = s
      · by_cases hus' : u' = s
        · rw [hus, hus']
        · rw [hus, Function.update_self, Function.update_of_ne hus'] at hkey
          rw [Function.update_of_ne hus'] at hvalid'
          exact absurd hkey.symm (hnew u' hu' hvalid')
      · rw [Function.update_of_ne hus] at hvalid hkey
        by_cases hus' : u' = s
        · rw [hus', Function.update_self] at hkey
          exact absurd hkey (hnew u hu hvalid)
        · rw [Function.update_of_ne hus'] at hvalid' hkey
          exact h u u' hu hu' hvalid hvalid' hkey

/-- **One step** leaves the keys of the valid entries different. -/
theorem KeysUnique.step {db db' : Db} {a : Label} (h : KeysUnique db)
    (hstep : step db a = some db') (hfresh : FreshAddress db a) : KeysUnique db' := by
  unfold LockTable.step at hstep
  split at hstep
  · cases hstep
  · cases a with
    | call c call =>
      dsimp only at hstep
      split at hstep
      · obtain rfl := Option.some.inj hstep
        exact h
      · cases hstep
    | step c =>
      dsimp only [nodeStep] at hstep
      cases hpc : db.pc c with
      | create args =>
        rw [hpc] at hstep
        obtain rfl := Option.some.inj hstep
        refine h.create ?_
        intro hany s hs
        rw [FreshAddress, hpc, hs] at hfresh
        exact hfresh hany
      | check hndl op =>
        rw [hpc] at hstep
        dsimp only at hstep
        split_ifs at hstep <;> (obtain rfl := Option.some.inj hstep; exact h)
      | scan hndl t =>
        rw [hpc] at hstep
        dsimp only at hstep
        split at hstep <;> (obtain rfl := Option.some.inj hstep; exact h)
      | run s pc =>
        rw [hpc] at hstep
        obtain ⟨o, ho, rfl⟩ := Option.map_eq_some_iff.mp hstep
        exact h.update (clientStep_occupied ho) rfl

/-- **Lookup by key**: in every run of creates, deletes and lock calls whose automatically
chosen keys are fresh, the valid objects have different keys, and a lookup is right
exactly if the first entry with the key is a valid object of the kind asked for. -/
theorem lookup_agrees {address : Node → ℕ → ℕ} {db : Db}
    (h : Run step KeyGuard (init address) db) :
    KeysUnique db ∧ ∀ t key, GetAgrees db t key ↔ FirstIsObject db t key := by
  have huniq : KeysUnique db :=
    Run.invariant (fun _ _ _ hI hstep hguard => hI.step hstep hguard.2) h (.init address)
  exact ⟨huniq, fun t key => get_agrees_iff huniq t key⟩

/-- A semaphore and a mutex of which the second got its key from its address; the semaphore is
deleted and its key given to a new one. -/
theorem lookup_agrees_recreated :
    ∃ db : Db, Run step KeyGuard (init fun _ s => 4096 + s) db ∧
      mrapi_sem_get db 7 = some 0xC0000000 ∧ mrapi_mutex_get db 4097 = some 0xC0000001 ∧
      KeysUnique db ∧ GetAgrees db MRAPI_SEM 7 := by
  have hexec : (exec step (fun db a db' => decide (KeyGuard db a db')) (init fun _ s => 4096 + s)
      [.call node0 (.sem_create 7 0 1 none), .step node0,
        .call node1 (.mutex_create MRAPI_SEM_ID_ANY none), .step node1,
        .call node0 (.use 0xC0000000 .sem_trylock), .step node0, .step node0,
        .call node0 (.use 0xC0000000 (.delete MRAPI_SEM)), .step node0, .step node0,
        .call node1 (.sem_create 7 0 3 none), .step node1]).any
      (fun db => mrapi_sem_get db 7 == some 0xC0000000 &&
        mrapi_mutex_get db 4097 == some 0xC0000001 &&
        (db.find fun sem => 7 == sem.key) == some 0 && (db.sems 0).valid &&
        (db.sems 0).type == MRAPI_SEM) = true := by
    decide +kernel
  obtain ⟨db, hrun, hdb⟩ := exec_run_of_any hexec
  simp only [Bool.and_eq_true, beq_iff_eq] at hdb
  obtain ⟨⟨⟨⟨hsem, hmutex⟩, hfind⟩, hvalid⟩, htype⟩ := hdb
  have hrun' : Run step KeyGuard (init fun _ s => 4096 + s) db :=
    hrun.mono fun _ _ _ hg => of_decide_eq_true hg
  obtain ⟨huniq, hagrees⟩ := lookup_agrees hrun'
  refine ⟨db, hrun', hsem, hmutex, huniq, (hagrees MRAPI_SEM 7).mpr ?_⟩
  intro s hs
  obtain rfl : 0 = s := Option.some.inj (hfind.symm.trans hs)
  exact ⟨hvalid, htype⟩

/-- **A lookup finds what is not there**: the key of a deleted semaphore still leads to its
handle. And a semaphore can be created with the address of a later one as its key, so that
two valid objects have the same key. -/
theorem lookup_of_deleted_key :
    (∃ db : Db, Run step (fun _ _ _ => True) (init fun _ s => 4096 + s) db ∧
        (db.sems 0).valid = false ∧ mrapi_sem_get db 7 = some (mrapi_impl_encode_hndl 0) ∧
        ¬ GetAgrees db MRAPI_SEM 7) ∧
      ∃ db : Db, Run step (fun _ _ _ => True) (init fun _ s => 4096 + s) db ∧
        ¬ KeysUnique db := by
  constructor
  · have hexec : (exec step (fun _ _ _ => true) (init fun _ s => 4096 + s)
        [.call node0 (.sem_create 7 1 1 none), .step node0,
          .call node0 (.use 0xC0000000 (.delete MRAPI_SEM)), .step node0, .step node0]).any
        (fun db => !(db.sems 0).valid &&
          mrapi_sem_get db 7 == some (mrapi_impl_encode_hndl 0)) = true := by
      decide +kernel
    obtain ⟨db, hrun, hdb⟩ := exec_run_of_any hexec
    simp only [Bool.and_eq_true, Bool.not_eq_true', beq_iff_eq] at hdb
    obtain ⟨hdeleted, hget⟩ := hdb
    refine ⟨db, hrun.mono fun _ _ _ _ => trivial, hdeleted, hget, ?_⟩
    intro hagrees
    obtain ⟨s, hobj, hhndl⟩ := (hagrees _).mp hget
    obtain rfl := encode_hndl_inj (by decide) hobj.lt hhndl
    have hvalid := hobj.valid
    rw [hdeleted] at hvalid
    cases hvalid
  · have hexec : (exec step (fun _ _ _ => true) (init fun _ s => 4096 + s)
        [.call node0 (.sem_create 4097 0 1 none), .step node0,
          .call node1 (.sem_create MRAPI_SEM_ID_ANY 0 1 none), .step node1]).any
        (fun db => (db.sems 0).valid && (db.sems 1).valid &&
          (db.sems 0).key == (db.sems 1).key) = true := by
      decide +kernel
    obtain ⟨db, hrun, hdb⟩ := exec_run_of_any hexec
    simp only [Bool.and_eq_true, beq_iff_eq] at hdb
    obtain ⟨⟨hvalid, hvalid'⟩, hkey⟩ := hdb
    refine ⟨db, hrun.mono fun _ _ _ _ => trivial, ?_⟩
    intro huniq
    have hsame := huniq 0 1 (by decide) (by decide) hvalid hvalid' hkey
    cases hsame

end MxApi.LockTable
