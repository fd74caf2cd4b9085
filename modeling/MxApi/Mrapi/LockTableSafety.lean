/-
The whole lock table under the calls of all nodes.

A call first checks its handle, without a critical section, and then runs on the
entry that the handle names; in between the entry may be deleted and created anew.
A create runs in a critical section of its own, on the global semaphore. Each node
performs one call at a time, and the critical sections of different nodes follow one
another in any order.

`mrapi_rwl_create` passes its limit on unchecked, where `mrapi_sem_create` rejects
one beyond the array `locks`. A create with such a limit writes past the array
(`overrun`), and nothing is said of what happens then; without it the counters are
right in every run ([`lock_table_ok`]).
-/
import Mathlib.Logic.Function.Basic
import MxApi.Lib.Run
import MxApi.Mrapi.LockEntry

set_option autoImplicit false

namespace MxApi.LockTable

open Lib lock_type mrapi_rwl_mode_t mrapi_status_t

/-! ## Handles -/

def MCA_HANDLE_MASK : ℕ := 0xC0000000

def mrapi_impl_encode_hndl (type_index : ℕ) : ℕ := MCA_HANDLE_MASK ||| type_index % 2 ^ 16

/-- The index of a handle, and whether its valid bits are set. -/
def mrapi_impl_decode_hndl (handle : ℕ) : ℕ × Bool :=
  ((handle &&& 0x00ffffff) % 2 ^ 16, handle &&& MCA_HANDLE_MASK == MCA_HANDLE_MASK)

/-! ## Calls -/

/-- The arguments of `mrapi_impl_create_lock_locked`, with the attributes that its
caller gives the entry. -/
structure Creation where
  type : lock_type
  key : ℕ
  num_locks : ℕ
  shared_lock_limit : ℕ
  attributes : mrapi_sem_attributes_t
  deriving DecidableEq, Repr

/-- The user-specified attributes or the default ones. Only a mutex can be
recursive. -/
def entryAttributes (t : lock_type) : Option mrapi_sem_attributes_t → mrapi_sem_attributes_t
  | some attributes => ⟨t == MRAPI_MUTEX && attributes.recursive, attributes.ext_error_checking⟩
  | none => ⟨false, false⟩

/-- The calls. -/
inductive Call
  | sem_create (sem_id num_locks shared_lock_limit : ℕ)
      (attributes : Option mrapi_sem_attributes_t)
  | rwl_create (rwl_id reader_lock_limit : ℕ) (attributes : Option mrapi_sem_attributes_t)
  | mutex_create (mutex_id : ℕ) (attributes : Option mrapi_sem_attributes_t)
  | use (hndl : ℕ) (op : Op)
  deriving DecidableEq, Repr

/-- Where a client stands: before the critical section of a create, before the check
of its handle, before the search for a deleted entry with that handle, or in a call
on entry `s`. -/
inductive ClientPc
  | create (args : Creation)
  | check (hndl : ℕ) (op : Op)
  | scan (hndl : ℕ) (t : lock_type)
  | run (s : ℕ) (pc : Pc)
  deriving DecidableEq, Repr

/-- Where a call begins. -/
def Call.start : Call → ClientPc
  | .sem_create sem_id num_locks shared_lock_limit attributes =>
    if shared_lock_limit = 0 ∨ shared_lock_limit > MRAPI_MAX_SHARED_LOCKS then
      .run 0 (.done (some ⟨false, MRAPI_ERR_SEM_LOCKLIMIT, none⟩))
    else .create ⟨MRAPI_SEM, sem_id, num_locks, shared_lock_limit,
      entryAttributes MRAPI_SEM attributes⟩
  | .rwl_create rwl_id reader_lock_limit attributes =>
    .create ⟨MRAPI_RWL, rwl_id, 0, reader_lock_limit, entryAttributes MRAPI_RWL attributes⟩
  | .mutex_create mutex_id attributes =>
    .create ⟨MRAPI_MUTEX, mutex_id, 0, 1, entryAttributes MRAPI_MUTEX attributes⟩
  | .use hndl op => .check hndl op

/-! ## The system -/

/-- The table, the clients, and the addresses at which each process sees the entries,
which are never changed. `overrun` says that memory past an array has been written,
`asserted` that no assertion has failed. -/
structure Db where
  sems : ℕ → mrapi_sem_t
  pc : Node → ClientPc
  address : Node → ℕ → ℕ
  overrun : Bool
  asserted : Bool

/-- A node starts a call, or takes its next step. -/
inductive Label
  | call (c : Node) (call : Call)
  | step (c : Node)
  deriving DecidableEq, Repr

/-- The index of the first entry with a property. -/
def Db.find (db : Db) (p : mrapi_sem_t → Bool) : Option ℕ :=
  (List.range MRAPI_MAX_SEMS).find? fun s => p (db.sems s)

/-- A client moves, and nothing else. -/
def Db.goto (db : Db) (c : Node) (pc : ClientPc) : Db :=
  { db with pc := Function.update db.pc c pc }

/-- A call without an entry returns. -/
def Db.fail (db : Db) (c : Node) (status : mrapi_status_t) : Db :=
  db.goto c (.run 0 (.done (some ⟨false, status, none⟩)))

/-- The critical section of a create. A mutex that cannot be created is assumed to
exist already. The handle returned is that of the entry the client is left at. -/
def mrapi_impl_create (db : Db) (c : Node) (args : Creation) : Db :=
  if args.key ≠ MRAPI_SEM_ID_ANY ∧
      (db.find fun sem => sem.valid && sem.key == args.key).isSome then
    db.fail c (MRAPI_ERR_EXISTS args.type)
  else
    match db.find fun sem => !sem.valid && !sem.deleted with
    | none =>
      db.fail c (if args.type = MRAPI_MUTEX then MRAPI_ERR_EXISTS MRAPI_MUTEX
        else MRAPI_ERR_LIMIT args.type)
    | some s =>
      let key := if args.key = MRAPI_SEM_ID_ANY then db.address c s else args.key
      { db with
        sems := Function.update db.sems s (createSem c (mrapi_impl_encode_hndl s) key
          args.num_locks args.shared_lock_limit args.type args.attributes)
        pc := Function.update db.pc c (.run s (.done (some ⟨true, MRAPI_SUCCESS, none⟩)))
        overrun := db.overrun || decide (args.shared_lock_limit > MRAPI_MAX_SHARED_LOCKS) }

/-- The next step of a client. -/
def nodeStep (db : Db) (c : Node) : Option Db :=
  match db.pc c with
  | .create args => some (mrapi_impl_create db c args)
  | .check hndl op =>
    let s := mrapi_impl_decode_hndl hndl
    if s.2 = false ∨ s.1 ≥ MRAPI_MAX_SEMS then some (db.fail c (MRAPI_ERR_INVALID op.type))
    else if (db.sems s.1).valid then some (db.goto c (.run s.1 op.start))
    else some (db.goto c (.scan hndl op.type))
  | .scan hndl t =>
    match db.find fun sem => sem.deleted && sem.handle == hndl with
    | some s => some (db.fail c (MRAPI_ERR_DELETED (db.sems s).type))
    | none => some (db.fail c (MRAPI_ERR_INVALID t))
  | .run s pc =>
    (clientStep c (db.sems s) pc).map fun o =>
      { db with
        sems := Function.update db.sems s o.sem
        pc := Function.update db.pc c (.run s o.pc)
        asserted := db.asserted && o.asserted }

/-- One step of the system. There is none after a failed assertion or a write past an
array. -/
def step (db : Db) (a : Label) : Option Db :=
  if db.overrun || !db.asserted then none
  else
    match a with
    | .call c call =>
      match db.pc c with
      | .run _ (.done _) => some (db.goto c call.start)
      | _ => none
    | .step c => nodeStep db c

/-- Zeroed memory, and nobody in a call. -/
def init (address : Node → ℕ → ℕ) : Db :=
  ⟨fun _ => .zero, fun _ => .run 0 (.done none), address, false, true⟩

/-! ## The invariant -/

/-- What is true of a client. -/
def ClientInv (c : Node) (sems : ℕ → mrapi_sem_t) : ClientPc → Prop
  | .create args => args.shared_lock_limit ≤ MRAPI_MAX_SHARED_LOCKS
  | .run s pc => PcInv c (sems s) pc
  | _ => True

/-- Every entry is counted, and so is every call. -/
structure TableInv (db : Db) : Prop where
  counted : ∀ s, Counted (db.sems s)
  client : ∀ c, ClientInv c db.sems (db.pc c)
  asserted : db.asserted = true
  within : db.overrun = false

/-- The limits given to `mrapi_rwl_create` are within the array. -/
def Within : Label → Prop
  | .call _ (.rwl_create _ reader_lock_limit _) => reader_lock_limit ≤ MRAPI_MAX_SHARED_LOCKS
  | _ => True

instance : DecidablePred Within := by
  intro a
  unfold Within
  split <;> infer_instance

theorem TableInv.init (address : Node → ℕ → ℕ) : TableInv (init address) :=
  ⟨fun _ => Counted.zero, fun _ => trivial, rfl, rfl⟩

/-- The limits of the other two kinds are within the array by themselves. -/
theorem start_inv {c : Node} {sems : ℕ → mrapi_sem_t} {call : Call}
    (hwithin : Within (.call c call)) : ClientInv c sems call.start := by
  cases call with
  | sem_create sem_id num_locks limit attributes =>
    simp only [Call.start]
    split
    · exact trivial
    · rename_i hlimit
      exact Nat.le_of_not_lt fun h => hlimit (.inr h)
  | rwl_create rwl_id limit attributes => exact hwithin
  | mutex_create mutex_id attributes =>
    change 1 ≤ MRAPI_MAX_SHARED_LOCKS
    decide
  | use hndl op => exact trivial

theorem Op.start_inv (c : Node) (sem : mrapi_sem_t) (op : Op) : PcInv c sem op.start := by
  cases op with
  | sem_unlock => exact ⟨1, rfl, by decide, (fun h => by cases h)⟩
  | sem_post => exact rfl
  | rwl_lock mode timeout => cases mode <;> exact trivial
  | rwl_unlock mode =>
    cases mode with
    | MRAPI_RWL_READER => exact ⟨1, rfl, by decide, (fun h => by cases h)⟩
    | MRAPI_RWL_WRITER => exact trivial
  | delete t => cases t <;> exact trivial
  | _ => exact trivial

/-- A client moves and the table stays. -/
theorem TableInv.goto {db : Db} (h : TableInv db) {c : Node} {pc : ClientPc}
    (hpc : ClientInv c db.sems pc) : TableInv (db.goto c pc) := by
  refine ⟨h.counted, ?_, h.asserted, h.within⟩
  intro c'
  change ClientInv c' db.sems (Function.update db.pc c pc c')
  by_cases hc : c' = c
  · rw [hc, Function.update_self]
    exact hpc
  · rw [Function.update_of_ne hc]
    exact h.client c'

/-- A client's step on entry `s`: the entry stays counted, and the other clients have
no more locks of it than before. -/
theorem TableInv.update {db : Db} (h : TableInv db) {c : Node} {s : ℕ} {sem : mrapi_sem_t}
    (hcounted : Counted sem) (pc : Pc) (hpc : PcInv c sem pc)
    (hothers : ∀ c', c' ≠ c → sem.own c' ≤ (db.sems s).own c') :
    (∀ t, Counted (Function.update db.sems s sem t)) ∧
      ∀ c', ClientInv c' (Function.update db.sems s sem)
        (Function.update db.pc c (.run s pc) c') := by
  constructor
  · intro t
    by_cases ht : t = s
    · rw [ht, Function.update_self]
      exact hcounted
    · rw [Function.update_of_ne ht]
      exact h.counted t
  · intro c'
    by_cases hc : c' = c
    · rw [hc, Function.update_self]
      change PcInv c (Function.update db.sems s sem s) pc
      rw [Function.update_self]
      exact hpc
    · rw [Function.update_of_ne hc]
      have hclient := h.client c'
      cases hpc' : db.pc c' with
      | run t pc' =>
        rw [hpc'] at hclient
        change PcInv c' (Function.update db.sems s sem t) pc'
        by_cases ht : t = s
        · subst ht
          rw [Function.update_self]
          exact hclient.others (hothers c' hc)
        · rw [Function.update_of_ne ht]
          exact hclient
      | create args =>
        rw [hpc'] at hclient
        exact hclient
      | check hndl op => exact trivial
      | scan hndl t => exact trivial

theorem TableInv.create {db : Db} (h : TableInv db) {c : Node} {args : Creation}
    (hlimit : args.shared_lock_limit ≤ MRAPI_MAX_SHARED_LOCKS) :
    TableInv (mrapi_impl_create db c args) := by
  unfold mrapi_impl_create
  split
  · exact h.goto trivial
  · split
    · exact h.goto trivial
    · rename_i s _
      obtain ⟨hcounted, hclient⟩ := h.update (s := s) (c := c)
        (Counted.create hlimit c (mrapi_impl_encode_hndl s)
          (if args.key = MRAPI_SEM_ID_ANY then db.address c s else args.key) args.num_locks
          args.type args.attributes)
        (.done (some ⟨true, MRAPI_SUCCESS, none⟩)) trivial
        (fun c' _ => by
          rw [own_create]
          exact Nat.zero_le _)
      refine ⟨hcounted, hclient, h.asserted, ?_⟩
      rw [h.within, Bool.false_or]
      exact decide_eq_false (Nat.not_lt_of_le hlimit)

theorem TableInv.nodeStep {db db' : Db} {c : Node} (h : TableInv db)
    (hstep : nodeStep db c = some db') : TableInv db' := by
  have hclient := h.client c
  unfold LockTable.nodeStep at hstep
  cases hpc : db.pc c with
  | create args =>
    rw [hpc] at hstep hclient
    obtain rfl := Option.some.inj hstep
    exact h.create hclient
  | check hndl op =>
    rw [hpc] at hstep
    dsimp only at hstep
    split_ifs at hstep
    · obtain rfl := Option.some.inj hstep
      exact h.goto trivial
    · obtain rfl := Option.some.inj hstep
      exact h.goto (op.start_inv c _)
    · obtain rfl := Option.some.inj hstep
      exact h.goto trivial
  | scan hndl t =>
    rw [hpc] at hstep
    dsimp only at hstep
    split at hstep <;> (obtain rfl := Option.some.inj hstep; exact h.goto trivial)
  | run s pc =>
    rw [hpc] at hstep hclient
    obtain ⟨o, ho, rfl⟩ := Option.map_eq_some_iff.mp hstep
    have hkept := clientStep_kept (h.counted s) hclient ho
    obtain ⟨hcounted, hclients⟩ := h.update hkept.counted o.pc hkept.pc hkept.others
    exact ⟨hcounted, hclients, by rw [h.asserted, hkept.asserted]; rfl, h.within⟩

/-- Nothing stops a counted table. -/
theorem TableInv.step_eq {db : Db} (h : TableInv db) (a : Label) :
    LockTable.step db a =
      match a with
      | .call c call =>
        match db.pc c with
        | .run _ (.done _) => some (db.goto c call.start)
        | _ => none
      | .step c => LockTable.nodeStep db c := by
  unfold LockTable.step
  rw [h.within, h.asserted, if_neg (by decide)]

/-- **One step** keeps the table. -/
theorem TableInv.step {db db' : Db} {a : Label} (h : TableInv db) (hstep : step db a = some db')
    (hwithin : Within a) : TableInv db' := by
  rw [h.step_eq] at hstep
  cases a with
  | call c call =>
    dsimp only at hstep
    split at hstep
    · obtain rfl := Option.some.inj hstep
      exact h.goto (start_inv hwithin)
    · cases hstep
  | step c => exact h.nodeStep hstep

/-! ## The counters -/

/-- What an entry promises: the counter counts, it is within its limits, the limit is
within the array, and every locked record has one holder. -/
structure EntryOk (sem : mrapi_sem_t) : Prop where
  count : sem.num_locks = sem.locks.countP fun x => x.valid && x.locked
  nonneg : 0 ≤ sem.num_locks
  le_limit : sem.num_locks ≤ sem.shared_lock_limit
  limit_le : sem.shared_lock_limit ≤ MRAPI_MAX_SHARED_LOCKS
  holder : ∀ x ∈ sem.locks, x.locked = true → ∃! h : Holder, h.Recorded x

/-- What a step of a node in an unlock does: it leaves the other entries alone, and a
lock that it frees is one of the node's own. -/
def FreesOwn (c : Node) (db db' : Db) : Prop :=
  ∀ s who num_locks, db.pc c = .run s (.release who num_locks) →
    (∀ t, t ≠ s → db'.sems t = db.sems t) ∧
      ∀ (l : ℕ) x x', (db.sems s).locks[l]? = some x → (db'.sems s).locks[l]? = some x' →
        x.locked = true → x'.locked = false → x.heldBy c = true

/-- The lock table: the valid entries are as they should be, no assertion has failed,
and what the next unlock frees is the caller's. -/
structure LockTableOk (db : Db) : Prop where
  entries : ∀ s, s < MRAPI_MAX_SEMS → (db.sems s).valid = true → EntryOk (db.sems s)
  asserted : db.asserted = true
  unlock : ∀ c db', step db (.step c) = some db' → FreesOwn c db db'

theorem Counted.entryOk {sem : mrapi_sem_t} (h : Counted sem) : EntryOk sem := by
  have hcount := h.count
  have htaken := h.taken_le
  have hcast := h.limit_cast
  have hmax := h.le_max
  refine ⟨hcount, by omega, by omega, by omega, ?_⟩
  intro x hx hlocked
  obtain ⟨holder, hrecorded⟩ := h.holders x hx hlocked
  exact ⟨holder, hrecorded, fun _ hr => recorded_unique hr hrecorded⟩

theorem TableInv.freesOwn {db db' : Db} {c : Node} (h : TableInv db)
    (hstep : LockTable.step db (.step c) = some db') : FreesOwn c db db' := by
  intro s who num_locks hpc
  rw [h.step_eq] at hstep
  simp only [LockTable.nodeStep, hpc] at hstep
  obtain ⟨o, ho, rfl⟩ := Option.map_eq_some_iff.mp hstep
  obtain rfl := Option.some.inj ho
  refine ⟨fun t ht => Function.update_of_ne ht _ _, ?_⟩
  intro l x x' hx hx' hlocked hfreed
  have hclient := h.client c
  rw [hpc] at hclient
  obtain ⟨n, rfl, hn, hzero⟩ := hclient
  have hsem : (Function.update db.sems s
      (removeStep (mrapi_impl_release_lock c (db.sems s) n)).sem s).locks[l]? = some x' := hx'
  rw [Function.update_self] at hsem
  have hsame : x' ≠ x := by
    rintro rfl
    rw [hlocked] at hfreed
    cases hfreed
  rcases removeLocks_cases (h.counted s) (fun _ => mine_used) hn hzero with
    ⟨-, heq, -, -, -⟩ | ⟨-, -, -, -, -, ys, hchanged, heq⟩
  · change (removeLocks (mrapi_lock_t.mine c) (db.sems s) n).sem.locks[l]? = some x' at hsem
    rw [heq, hx] at hsem
    exact absurd (Option.some.inj hsem).symm hsame
  · change (removeLocks (mrapi_lock_t.mine c) (db.sems s) n).sem.locks[l]? = some x' at hsem
    rw [heq] at hsem
    rcases hchanged.getElem? hx hsem with rfl | ⟨hmine, -⟩
    · exact absurd rfl hsame
    · simp only [mrapi_lock_t.mine, Bool.and_eq_true] at hmine
      exact hmine.2

/-- **The lock table is right**, in every run in which no reader-writer lock is created
with a limit beyond the array. -/
theorem lock_table_ok {address : Node → ℕ → ℕ} {db : Db}
    (h : Run step (fun _ a _ => Within a) (init address) db) : LockTableOk db := by
  have hinv : TableInv db :=
    Run.invariant (fun _ _ _ hI hstep hguard => hI.step hstep hguard) h (.init address)
  exact ⟨fun s _ _ => (hinv.counted s).entryOk, hinv.asserted,
    fun _ _ hstep => hinv.freesOwn hstep⟩

/-- A semaphore with three locks, one of them taken from the start, of which two nodes
take one each; the first gives its lock back. -/
theorem lock_table_ok_three :
    ∃ db : Db, Run step (fun _ a _ => Within a) (init fun _ _ => 0) db ∧
      (db.sems 0).valid = true ∧ (db.sems 0).num_locks = 2 ∧ LockTableOk db := by
  have hexec : (exec step (fun _ a _ => decide (Within a)) (init fun _ _ => 0)
      [.call node0 (.sem_create 7 1 3 none), .step node0,
        .call node0 (.use 0xC0000000 (.sem_lock 5)), .step node0, .step node0,
        .call node1 (.use 0xC0000000 .sem_trylock), .step node1, .step node1,
        .call node0 (.use 0xC0000000 .sem_unlock), .step node0, .step node0]).any
      (fun db => (db.sems 0).valid && (db.sems 0).num_locks == 2) = true := by
    decide +kernel
  obtain ⟨db, hrun, hdb⟩ := exec_run_of_any hexec
  simp only [Bool.and_eq_true, beq_iff_eq] at hdb
  have hrun' : Run step (fun _ a _ => Within a) (init fun _ _ => 0) db :=
    hrun.mono fun _ _ _ hg => of_decide_eq_true hg
  exact ⟨db, hrun', hdb.1, hdb.2, lock_table_ok hrun'⟩

/-- **A limit beyond the array is accepted**: `mrapi_rwl_create` with 257 readers makes
a valid entry of it. -/
theorem rwl_limit_beyond_array :
    ∃ db : Db, Run step (fun _ _ _ => True) (init fun _ _ => 0) db ∧
      (db.sems 0).valid = true ∧ (db.sems 0).shared_lock_limit = 257 ∧ ¬ LockTableOk db := by
  have hexec : (exec step (fun _ _ _ => true) (init fun _ _ => 0)
      [.call node0 (.rwl_create 7 257 none), .step node0]).any
      (fun db => (db.sems 0).valid && (db.sems 0).shared_lock_limit == 257) = true := by
    decide +kernel
  obtain ⟨db, hrun, hdb⟩ := exec_run_of_any hexec
  simp only [Bool.and_eq_true, beq_iff_eq] at hdb
  refine ⟨db, hrun.mono fun _ _ _ _ => trivial, hdb.1, hdb.2, ?_⟩
  intro hok
  have hle := (hok.entries 0 (by decide) hdb.1).limit_le
  rw [hdb.2] at hle
  exact absurd hle (by decide)

end MxApi.LockTable
