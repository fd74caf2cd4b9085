/-
Stale handles of the lock table.

A handle names an entry of the table and nothing else, so the handle of a deleted object is
also that of the object created in its entry afterwards. Which object a caller means is
recorded beside the table here ([`Traced`]): `gen s` counts the objects that entry `s` has
held, and a call with a handle carries the number of the object that the handle was issued
for. The program sees neither.

Two things go wrong. The check of the handle asks whether the entry is valid, not whose it
is nor of which kind. And it is made once: `mrapi_impl_release_lock` and
`mrapi_impl_signal_lock` ask again in their critical section, the calls that acquire, and
those that look at the entry before they go on, do not. Without the two, the law holds
([`stale_handles_ok`]).
-/
import MxApi.Mrapi.LockLookup

set_option autoImplicit false

namespace MxApi.LockTable

open Lib lock_type mrapi_rwl_mode_t mrapi_status_t

/-! ## Objects -/

/-- A call with a handle: the call, the entry that the handle names, and the object of that
entry that the handle was issued for. -/
structure Use where
  op : Op
  s : ℕ
  gen : ℕ
  deriving DecidableEq, Repr

/-- The table, how many objects each entry has held, and the use of a handle that each
node's last call is. -/
structure Traced where
  db : Db
  gen : ℕ → ℕ
  use : Node → Option Use

/-- A node starts a call, with a handle that was issued for object `gen` of its entry, or
takes its next step. -/
inductive Move
  | call (c : Node) (call : Call) (gen : ℕ)
  | step (c : Node)
  deriving DecidableEq, Repr

def Call.handleUse (gen : ℕ) : Call → Option Use
  | .use hndl op => some ⟨op, (mrapi_impl_decode_hndl hndl).1, gen⟩
  | _ => none

/-- The entry that a create takes. -/
def Creation.entry (db : Db) (args : Creation) : Option ℕ :=
  if args.key ≠ MRAPI_SEM_ID_ANY ∧
      (db.find fun sem => sem.valid && sem.key == args.key).isSome then none
  else db.find fun sem => !sem.valid && !sem.deleted

/-- The entry that gets a new object by the next step of a node. -/
def Db.taken (db : Db) (c : Node) : Option ℕ :=
  match db.pc c with
  | .create args => args.entry db
  | _ => none

/-- The objects after a step that takes an entry or none. -/
def countObject (gen : ℕ → ℕ) : Option ℕ → ℕ → ℕ
  | some s => Function.update gen s (gen s + 1)
  | none => gen

/-- The step of the table, and what it does to the objects. -/
def Traced.step (x : Traced) : Move → Option Traced
  | .call c call gen =>
    (LockTable.step x.db (.call c call)).map fun db =>
      { x with db := db, use := Function.update x.use c (call.handleUse gen) }
  | .step c =>
    (LockTable.step x.db (.step c)).map fun db =>
      { x with db := db, gen := countObject x.gen (x.db.taken c) }

def Traced.init (address : Node → ℕ → ℕ) : Traced :=
  ⟨LockTable.init address, fun _ => 0, fun _ => none⟩

/-! ## The law -/

/-- The object is the one in its entry, and valid. -/
def Alive (x : Traced) (u : Use) : Prop :=
  x.gen u.s = u.gen ∧ (x.db.sems u.s).valid = true

/-- The status of a call on an object that is no more. -/
def mrapi_status_t.Gone (status : mrapi_status_t) : Prop :=
  ∃ t, status = MRAPI_ERR_INVALID t ∨ status = MRAPI_ERR_DELETED t

/-- A call has returned that its object is no more. -/
def Reports : ClientPc → Prop
  | .run _ (.done (some ret)) => ret.rc = false ∧ ret.status.Gone
  | _ => False

/-- How many critical sections a call that will be refused has left. A call that acquires
has none: it must not be waiting for an object that is no more. -/
def ClientPc.left : ClientPc → ℕ
  | .check _ _ => 4
  | .scan _ _ => 1
  | .run _ (.mutexUnlock _) | .run _ .limitUnlock => 2
  | .run _ (.release _ _) | .run _ (.signal _) => 1
  | _ => 0

/-- What the law asks of a step of a node in a call with a handle. If the call returns
successfully, then the object of the handle is still valid and of the kind of the call. If
the object is no more, then no lock record is changed, and the call reports it or has fewer
critical sections left. -/
structure HandleOk (x x' : Traced) (c : Node) : Prop where
  success : ∀ u s ret, x.use c = some u → x'.db.pc c = .run s (.done (some ret)) →
    ret.rc = true → Alive x u ∧ (x.db.sems u.s).type = u.op.type
  gone : ∀ u, x.use c = some u → ¬ Alive x u →
    (∀ s, (x'.db.sems s).locks = (x.db.sems s).locks) ∧
      (Reports (x'.db.pc c) ∨ (x'.db.pc c).left < (x.db.pc c).left)

/-! ## The condition -/

/-- The call finds out by itself that its entry is not valid any more: its critical section
asks, or the one after it. An unlock of a mutex gets there only if the lock is not the
caller's and not locked recursively. -/
def Rechecks (c : Node) (sem : mrapi_sem_t) : Pc → Prop
  | .done _ | .release _ _ | .signal _ | .limitUnlock => True
  | .mutexUnlock _ =>
    sem.lock0.heldBy c = false ∧ recursively_locked sem.lock0.lock_key = false
  | _ => False

instance (c : Node) (sem : mrapi_sem_t) : DecidablePred (Rechecks c sem) := by
  intro pc
  unfold Rechecks
  split <;> infer_instance

/-- Every lock of the entry is the caller's or an anonymous one of its domain, so that the
caller can delete it. -/
def mrapi_sem_t.HeldAll (c : Node) (sem : mrapi_sem_t) : Prop :=
  (sem.locks.take sem.limit).countP (mrapi_lock_t.deletable c) = ofInt32 sem.shared_lock_limit

/-- The call is at work on entry `s`. -/
def ClientPc.At (s : ℕ) : ClientPc → Prop
  | .run _ (.done _) => False
  | .run s' _ => s' = s
  | _ => False

instance (s : ℕ) : DecidablePred (ClientPc.At s) := by
  intro pc
  unfold ClientPc.At
  split <;> infer_instance

/-- What a client's next step needs of its call with a handle and of the others.
A handle is used while its entry is not valid, or holds the object that it was issued for,
of the kind of the call; an object is deleted while no other call on it is beyond the point
at which it would notice; and an entry is given to a new object while no call is at work on
it. -/
def StepGuard (x : Traced) (c : Node) : Prop :=
  match x.db.pc c, x.use c with
  | .create args, _ => ∀ s, args.entry x.db = some s → ∀ c', ¬ (x.db.pc c').At s
  | .check _ _, some u => (x.db.sems u.s).valid = true →
      x.gen u.s = u.gen ∧ (x.db.sems u.s).type = u.op.type
  | .run s (.delete _), _ => (x.db.sems s).HeldAll c ∧ (x.db.sems s).valid = true →
      ∀ c', c' ≠ c →
        match x.db.pc c' with
        | .run s' pc' => s' = s → Rechecks c' (x.db.sems s) pc'
        | _ => True
  | _, _ => True

def HandleGuard (x : Traced) : Move → Traced → Prop
  | .call _ _ _, _ => True
  | .step c, _ => StepGuard x c

instance (c : Node) (sem : mrapi_sem_t) : Decidable (sem.HeldAll c) := by
  unfold mrapi_sem_t.HeldAll
  infer_instance

instance (x : Traced) (c : Node) : Decidable (StepGuard x c) := by
  unfold StepGuard
  split
  · rename_i args _
    cases hentry : args.entry x.db with
    | none => exact isTrue fun s hs => nomatch hs
    | some s =>
      exact decidable_of_iff (∀ c', ¬ (x.db.pc c').At s)
        ⟨fun h _ hs => Option.some.inj hs ▸ h, fun h => h s rfl⟩
  · infer_instance
  · have hmatch : ∀ (s : ℕ) (c' : Node), Decidable
        (match x.db.pc c' with
          | .run s' pc' => s' = s → Rechecks c' (x.db.sems s) pc'
          | _ => True) := by
      intro s c'
      split <;> infer_instance
    infer_instance
  · infer_instance

instance (x : Traced) (a : Move) (x' : Traced) : Decidable (HandleGuard x a x') := by
  unfold HandleGuard
  split <;> infer_instance

/-! ## One critical section -/

/-- Only a delete makes an entry invalid, and it has all the locks then. -/
theorem clientStep_valid {c : Node} {sem : mrapi_sem_t} {pc : Pc} {o : Outcome}
    (hstep : clientStep c sem pc = some o) (hvalid : sem.valid = true)
    (hinvalid : o.sem.valid = false) :
    (∃ t, pc = .delete t) ∧ (∃ ret, o.pc = .done ret) ∧ sem.HeldAll c ∧
      o.sem.locks = sem.locks := by
  by_cases hpc : ∃ t, pc = .delete t
  · obtain ⟨t, rfl⟩ := hpc
    obtain rfl := Option.some.inj hstep
    refine ⟨⟨t, rfl⟩, ⟨_, rfl⟩, ?_, delete_locks c sem⟩
    by_contra hheld
    have hsem : (mrapi_impl_sem_delete c sem).1 = sem := by
      unfold mrapi_impl_sem_delete
      dsimp only
      exact congrArg Prod.fst (if_pos hheld)
    change (mrapi_impl_sem_delete c sem).1.valid = false at hinvalid
    rw [hsem, hvalid] at hinvalid
    cases hinvalid
  · have hsame := clientStep_sameObject hstep fun t ht => hpc ⟨t, ht⟩
    rw [hsame.valid, hvalid] at hinvalid
    cases hinvalid

/-- **A call on an entry that is no more** leaves it as it is; it reports that, or goes on
to a critical section that will. -/
theorem rechecks_step {c : Node} {sem : mrapi_sem_t} {pc : Pc} {o : Outcome}
    (hstep : clientStep c sem pc = some o) (hinvalid : sem.valid = false)
    (hpc : Rechecks c sem pc) (s : ℕ) :
    o.sem = sem ∧ (Reports (.run s o.pc) ∨
      (Rechecks c sem o.pc ∧ (∀ ret, o.pc ≠ .done ret) ∧
        (ClientPc.run s o.pc).left < (ClientPc.run s pc).left)) := by
  have hrefused : ∀ mine m, removeLocks mine sem m =
      ⟨sem, false, MRAPI_ERR_INVALID sem.type, true⟩ := by
    intro mine m
    unfold removeLocks
    rw [if_pos hinvalid]
  cases pc with
  | release who m =>
    obtain rfl := Option.some.inj hstep
    rw [mrapi_impl_release_lock, hrefused]
    exact ⟨rfl, .inl ⟨rfl, sem.type, .inl rfl⟩⟩
  | signal m =>
    obtain rfl := Option.some.inj hstep
    rw [mrapi_impl_signal_lock, hrefused]
    exact ⟨rfl, .inl ⟨rfl, sem.type, .inl rfl⟩⟩
  | limitUnlock =>
    obtain rfl := Option.some.inj hstep
    exact ⟨rfl, .inr ⟨trivial, (fun ret h => nomatch h), Nat.lt_succ_self 1⟩⟩
  | mutexUnlock key =>
    obtain rfl := Option.some.inj hstep
    have hstart : mutexUnlockStart c sem key = (sem, .release) := by
      unfold mutexUnlockStart
      rw [hpc.1, hpc.2]
      rfl
    have ho : mutexUnlockStep c sem key = ⟨sem, .release (.mutex key) 1, true⟩ := by
      unfold mutexUnlockStep
      rw [hstart]
    rw [ho]
    exact ⟨rfl, .inr ⟨trivial, (fun ret h => nomatch h), Nat.lt_succ_self 1⟩⟩
  | done ret => cases hstep
  | acquire who m timeout time status => exact hpc.elim
  | limitLock timeout => exact hpc.elim
  | mutexLock timeout => exact hpc.elim
  | delete t => exact hpc.elim

/-! ## The invariant -/

/-- The entry holds an object of kind `t`, or the call will notice. -/
def Fits (c : Node) (sem : mrapi_sem_t) (t : lock_type) (pc : Pc) : Prop :=
  (sem.valid = true → sem.type = t) ∧ (sem.valid = false → Rechecks c sem pc)

/-- A call at work on entry `s` means the object in it. -/
def AtWork (c : Node) (sem : mrapi_sem_t) (gen : ℕ) (u : Option Use) (s : ℕ) (pc : Pc) : Prop :=
  (∃ ret, pc = .done ret) ∨ ∃ op, u = some ⟨op, s, gen⟩ ∧ Fits c sem op.type pc

/-- What is true of a call and the object that it means. -/
def CallOk (c : Node) (sems : ℕ → mrapi_sem_t) (gen : ℕ → ℕ) (u : Option Use) :
    ClientPc → Prop
  | .create _ => u = none
  | .check hndl op => ∃ g, u = some ⟨op, (mrapi_impl_decode_hndl hndl).1, g⟩
  | .scan _ _ => True
  | .run s pc => AtWork c (sems s) (gen s) u s pc

def HandleInv (x : Traced) : Prop := ∀ c, CallOk c x.db.sems x.gen (x.use c) (x.db.pc c)

theorem HandleInv.init (address : Node → ℕ → ℕ) : HandleInv (.init address) :=
  fun _ => .inl ⟨none, rfl⟩

/-- A call that is refused without an entry. -/
theorem CallOk.failed (c : Node) (sems : ℕ → mrapi_sem_t) (gen : ℕ → ℕ) (u : Option Use)
    (ret : Ret) : CallOk c sems gen u (.run 0 (.done (some ret))) :=
  .inl ⟨some ret, rfl⟩

/-- What the step of another client needs to leave a call: either the entry holds the same
object, or the call is not at work on it, or it will notice. -/
theorem Fits.others {c : Node} {sem sem' : mrapi_sem_t} {t : lock_type} {pc : Pc}
    (h : Fits c sem t pc) (hsem : Occupied sem sem')
    (hdelete : sem.valid = true → sem'.valid = false →
      Rechecks c sem pc ∧ sem'.locks = sem.locks)
    (hgone : sem.valid = false → sem' = sem) : Fits c sem' t pc := by
  constructor
  · intro hvalid
    rw [hsem.type]
    exact h.1 (hsem.valid hvalid)
  · intro hinvalid
    cases hvalid : sem.valid with
    | false =>
      rw [hgone hvalid]
      exact h.2 hvalid
    | true =>
      obtain ⟨hrechecks, hlocks⟩ := hdelete hvalid hinvalid
      have hlock : sem'.lock0 = sem.lock0 := by
        unfold mrapi_sem_t.lock0
        rw [hlocks]
      cases pc with
      | mutexUnlock key =>
        unfold Rechecks
        rw [hlock]
        exact hrechecks
      | _ => exact hrechecks

/-- The entry of the first search is not the entry of a call at work, if the guard says
so. -/
theorem CallOk.recreated {c : Node} {sems : ℕ → mrapi_sem_t} {gen : ℕ → ℕ} {u : Option Use}
    {pc : ClientPc} (h : CallOk c sems gen u pc) {s : ℕ} (hat : ¬ pc.At s)
    (sem : mrapi_sem_t) :
    CallOk c (Function.update sems s sem) (Function.update gen s (gen s + 1)) u pc := by
  cases pc with
  | create args => exact h
  | check hndl op => exact h
  | scan hndl t => exact trivial
  | run s' pc' =>
    rcases h with hdone | ⟨op, hu, hfits⟩
    · exact .inl hdone
    · by_cases hdone : ∃ ret, pc' = .done ret
      · exact .inl hdone
      · have hne : s' ≠ s := by
          intro hs
          apply hat
          unfold ClientPc.At
          split
          · rename_i hpc
            cases hpc
            exact hdone ⟨_, rfl⟩
          · rename_i hpc
            cases hpc
            exact hs
          · rename_i hpc
            exact hpc _ _ rfl
        refine .inr ⟨op, ?_, ?_⟩
        · rw [Function.update_of_ne hne]
          exact hu
        · rw [Function.update_of_ne hne]
          exact hfits

/-! ## The steps of a client -/

/-- What a create does: it fails, or it makes an object of an entry. -/
theorem mrapi_impl_create_cases (db : Db) (c : Node) (args : Creation) :
    (args.entry db = none ∧ ∃ status, mrapi_impl_create db c args = db.fail c status) ∨
      ∃ s sem, args.entry db = some s ∧
        (mrapi_impl_create db c args).sems = Function.update db.sems s sem ∧
        (mrapi_impl_create db c args).pc =
          Function.update db.pc c (.run s (.done (some ⟨true, MRAPI_SUCCESS, none⟩))) := by
  unfold mrapi_impl_create Creation.entry
  split
  · exact .inl ⟨rfl, _, rfl⟩
  · split
    · rename_i hnone
      exact .inl ⟨hnone, _, rfl⟩
    · rename_i s hsome
      exact .inr ⟨s, _, hsome, rfl, rfl⟩

/-- The next step of a client, by where it stands. -/
inductive Steps (x x' : Traced) (c : Node) : Prop
  | refused (status : mrapi_status_t) (hgone : (∃ args, x.db.pc c = .create args) ∨ status.Gone)
      (hleft : (∃ s pc, x.db.pc c = .run s pc) → False)
      (heq : x' = { x with db := x.db.fail c status })
  | create (args : Creation) (s : ℕ) (sem : mrapi_sem_t) (hpc : x.db.pc c = .create args)
      (hentry : args.entry x.db = some s)
      (hsems : x'.db.sems = Function.update x.db.sems s sem)
      (hpcs : x'.db.pc =
        Function.update x.db.pc c (.run s (.done (some ⟨true, MRAPI_SUCCESS, none⟩))))
      (hgen : x'.gen = Function.update x.gen s (x.gen s + 1)) (huse : x'.use = x.use)
  | start (hndl : ℕ) (op : Op) (hpc : x.db.pc c = .check hndl op)
      (hvalid : (x.db.sems (mrapi_impl_decode_hndl hndl).1).valid = true)
      (heq : x' = { x with db := x.db.goto c (.run (mrapi_impl_decode_hndl hndl).1 op.start) })
  | scan (hndl : ℕ) (op : Op) (hpc : x.db.pc c = .check hndl op)
      (heq : x' = { x with db := x.db.goto c (.scan hndl op.type) })
  | run (s : ℕ) (pc : Pc) (o : Outcome) (hpc : x.db.pc c = .run s pc)
      (ho : clientStep c (x.db.sems s) pc = some o)
      (hsems : x'.db.sems = Function.update x.db.sems s o.sem)
      (hpcs : x'.db.pc = Function.update x.db.pc c (.run s o.pc))
      (hgen : x'.gen = x.gen) (huse : x'.use = x.use)

theorem Traced.step_cases {x x' : Traced} {c : Node} (h : x.step (.step c) = some x') :
    Steps x x' c := by
  obtain ⟨db, hdb, rfl⟩ := Option.map_eq_some_iff.mp h
  unfold LockTable.step at hdb
  split at hdb
  · cases hdb
  · dsimp only [nodeStep] at hdb
    cases hpc : x.db.pc c with
    | create args =>
      rw [hpc] at hdb
      obtain rfl := Option.some.inj hdb
      have htaken : x.db.taken c = args.entry x.db := by
        unfold Db.taken
        rw [hpc]
      rcases mrapi_impl_create_cases x.db c args with
        ⟨hnone, status, heq⟩ | ⟨s, sem, hsome, hsems, hpcs⟩
      · refine .refused status (.inl ⟨args, hpc⟩) ?_ ?_
        · rintro ⟨s, pc, hrun⟩
          rw [hpc] at hrun
          cases hrun
        · rw [htaken, hnone, heq]
          rfl
      · refine .create args s sem hpc hsome hsems hpcs ?_ rfl
        rw [htaken, hsome]
        rfl
    | check hndl op =>
      rw [hpc] at hdb
      have htaken : x.db.taken c = none := by
        unfold Db.taken
        rw [hpc]
      rw [htaken]
      dsimp only at hdb
      split_ifs at hdb with hbad hvalid
      · obtain rfl := Option.some.inj hdb
        refine .refused _ (.inr ⟨op.type, .inl rfl⟩) ?_ rfl
        rintro ⟨s, pc, hrun⟩
        rw [hpc] at hrun
        cases hrun
      · obtain rfl := Option.some.inj hdb
        exact .start hndl op hpc hvalid rfl
      · obtain rfl := Option.some.inj hdb
        exact .scan hndl op hpc rfl
    | scan hndl t =>
      rw [hpc] at hdb
      have htaken : x.db.taken c = none := by
        unfold Db.taken
        rw [hpc]
      rw [htaken]
      have hnot : (∃ s pc, x.db.pc c = .run s pc) → False := by
        rintro ⟨s, pc, hrun⟩
        rw [hpc] at hrun
        cases hrun
      dsimp only at hdb
      split at hdb
      · rename_i s _
        obtain rfl := Option.some.inj hdb
        exact .refused _ (.inr ⟨(x.db.sems s).type, .inr rfl⟩) hnot rfl
      · obtain rfl := Option.some.inj hdb
        exact .refused _ (.inr ⟨t, .inl rfl⟩) hnot rfl
    | run s pc =>
      rw [hpc] at hdb
      obtain ⟨o, ho, rfl⟩ := Option.map_eq_some_iff.mp hdb
      refine .run s pc o hpc ho rfl rfl ?_ rfl
      have htaken : x.db.taken c = none := by
        unfold Db.taken
        rw [hpc]
      dsimp only
      rw [htaken]
      rfl

/-! ## The invariant is kept -/

/-- Only client `c` moves. -/
theorem HandleInv.moved {x : Traced} (h : HandleInv x) {c : Node} {pc : ClientPc}
    {u : Option Use} (hpc : CallOk c x.db.sems x.gen u pc) :
    ∀ c', CallOk c' x.db.sems x.gen (Function.update x.use c u c')
      (Function.update x.db.pc c pc c') := by
  intro c'
  by_cases hc : c' = c
  · rw [hc, Function.update_self, Function.update_self]
    exact hpc
  · rw [Function.update_of_ne hc, Function.update_of_ne hc]
    exact h c'

theorem HandleInv.goto {x : Traced} (h : HandleInv x) {c : Node} {pc : ClientPc}
    (hpc : CallOk c x.db.sems x.gen (x.use c) pc) :
    HandleInv { x with db := x.db.goto c pc } := by
  have hmoved := h.moved hpc
  rw [Function.update_eq_self] at hmoved
  exact hmoved

theorem Call.start_ok (c : Node) (sems : ℕ → mrapi_sem_t) (gen : ℕ → ℕ) (call : Call) (g : ℕ) :
    CallOk c sems gen (call.handleUse g) call.start := by
  cases call with
  | sem_create sem_id num_locks limit attributes =>
    simp only [Call.start]
    split
    · exact .inl ⟨_, rfl⟩
    · exact rfl
  | rwl_create rwl_id limit attributes => exact rfl
  | mutex_create mutex_id attributes => exact rfl
  | use hndl op => exact ⟨g, rfl⟩

/-- The entry that a call at work was started on, for as long as the call lasts. -/
theorem AtWork.of_step {c : Node} {sem : mrapi_sem_t} {gen s : ℕ} {u : Option Use} {pc : Pc}
    {o : Outcome} (h : AtWork c sem gen u s pc) (hstep : clientStep c sem pc = some o) :
    ∃ op, u = some ⟨op, s, gen⟩ ∧ Fits c sem op.type pc := by
  rcases h with ⟨ret, rfl⟩ | h
  · cases hstep
  · exact h

/-- A call at work, after its own critical section. -/
theorem AtWork.step {c : Node} {sem : mrapi_sem_t} {gen s : ℕ} {u : Option Use} {pc : Pc}
    {o : Outcome} (h : AtWork c sem gen u s pc) (hstep : clientStep c sem pc = some o) :
    AtWork c o.sem gen u s o.pc := by
  obtain ⟨op, hu, hfits⟩ := h.of_step hstep
  by_cases hdone : ∃ ret, o.pc = .done ret
  · exact .inl hdone
  · refine .inr ⟨op, hu, ?_, ?_⟩
    · intro hvalid
      have hoccupied := clientStep_occupied hstep
      rw [hoccupied.type]
      exact hfits.1 (hoccupied.valid hvalid)
    · intro hinvalid
      cases hvalid : sem.valid with
      | true => exact absurd (clientStep_valid hstep hvalid hinvalid).2.1 hdone
      | false =>
        obtain ⟨hsem, hreports | ⟨hrechecks, -, -⟩⟩ :=
          rechecks_step hstep hvalid (hfits.2 hvalid) s
        · exfalso
          apply hdone
          revert hreports
          cases o.pc with
          | done ret => exact fun _ => ⟨ret, rfl⟩
          | _ => exact False.elim
        · rw [hsem]
          exact hrechecks

/-- **One step** keeps the calls and their objects together. -/
theorem HandleInv.step {x x' : Traced} {a : Move} (h : HandleInv x)
    (hstep : x.step a = some x') (hguard : HandleGuard x a x') : HandleInv x' := by
  cases a with
  | call c call g =>
    obtain ⟨db, hdb, rfl⟩ := Option.map_eq_some_iff.mp hstep
    unfold LockTable.step at hdb
    split at hdb
    · cases hdb
    · dsimp only at hdb
      split at hdb
      · obtain rfl := Option.some.inj hdb
        exact h.moved (call.start_ok c _ _ g)
      · cases hdb
  | step c =>
    have hclient := h c
    replace hguard : StepGuard x c := hguard
    unfold StepGuard at hguard
    cases Traced.step_cases hstep with
    | refused status _ _ heq =>
      rw [heq]
      exact h.goto (CallOk.failed c _ _ _ _)
    | create args s sem hpc hentry hsems hpcs hgen huse =>
      rw [hpc] at hguard
      intro c'
      rw [hsems, hpcs, hgen, huse]
      by_cases hc : c' = c
      · rw [hc, Function.update_self]
        exact .inl ⟨_, rfl⟩
      · rw [Function.update_of_ne hc]
        exact (h c').recreated (hguard s hentry c') sem
    | start hndl op hpc hvalid heq =>
      rw [hpc] at hclient
      obtain ⟨g, hu⟩ := hclient
      rw [hpc, hu] at hguard
      obtain ⟨hgen, htype⟩ := hguard hvalid
      rw [heq]
      refine h.goto (.inr ⟨op, ?_, fun _ => htype, ?_⟩)
      · obtain rfl : x.gen (mrapi_impl_decode_hndl hndl).1 = g := hgen
        exact hu
      · intro hinvalid
        rw [hvalid] at hinvalid
        cases hinvalid
    | scan hndl op hpc heq =>
      rw [heq]
      exact h.goto trivial
    | run s pc o hpc ho hsems hpcs hgen huse =>
      rw [hpc] at hclient
      obtain ⟨op, hu, hfits⟩ := AtWork.of_step hclient ho
      intro c'
      rw [hsems, hpcs, hgen, huse]
      by_cases hc : c' = c
      · rw [hc, Function.update_self]
        change AtWork c (Function.update x.db.sems s o.sem s) (x.gen s) (x.use c) s o.pc
        rw [Function.update_self]
        exact AtWork.step hclient ho
      · rw [Function.update_of_ne hc]
        have hother := h c'
        cases hpc' : x.db.pc c' with
        | create args =>
          rw [hpc'] at hother
          exact hother
        | check hndl op' =>
          rw [hpc'] at hother
          exact hother
        | scan hndl t => exact trivial
        | run s' pc' =>
          rw [hpc'] at hother
          change AtWork c' (Function.update x.db.sems s o.sem s') (x.gen s') (x.use c') s' pc'
          by_cases hs : s' = s
          · subst hs
            rw [Function.update_self]
            rcases hother with hdone | ⟨op', hu', hfits'⟩
            · exact .inl hdone
            · refine .inr ⟨op', hu', hfits'.others (clientStep_occupied ho) ?_ ?_⟩
              · intro hvalid hinvalid
                obtain ⟨⟨t, rfl⟩, -, hheld, hlocks⟩ := clientStep_valid ho hvalid hinvalid
                rw [hpc] at hguard
                have hnotices := hguard ⟨hheld, hvalid⟩ c' hc
                rw [hpc'] at hnotices
                exact ⟨hnotices rfl, hlocks⟩
              · intro hinvalid
                exact (rechecks_step ho hinvalid (hfits.2 hinvalid) s').1
          · rw [Function.update_of_ne hs]
            exact hother

/-! ## The law holds -/

/-- What an admitted step of a node in a call with a handle does. -/
theorem HandleInv.handleOk {x x' : Traced} {c : Node} (h : HandleInv x)
    (hstep : x.step (.step c) = some x') (hguard : HandleGuard x (.step c) x') :
    HandleOk x x' c := by
  have hclient := h c
  replace hguard : StepGuard x c := hguard
  unfold StepGuard at hguard
  cases Traced.step_cases hstep with
  | refused status hgone hleft heq =>
    have hpc' : x'.db.pc c = .run 0 (.done (some ⟨false, status, none⟩)) := by
      rw [heq]
      exact Function.update_self ..
    constructor
    · intro u s ret _ hret hrc
      rw [hpc'] at hret
      cases hret
      cases hrc
    · intro u hu _
      refine ⟨fun s => by rw [heq]; rfl, .inl ?_⟩
      rw [hpc']
      rcases hgone with ⟨args, hpc⟩ | hgone
      · rw [hpc] at hclient
        have hnone : x.use c = none := hclient
        rw [hnone] at hu
        cases hu
      · exact ⟨rfl, hgone⟩
  | create args s sem hpc hentry hsems hpcs hgen huse =>
    rw [hpc] at hclient
    have hnone : x.use c = none := hclient
    constructor
    · intro u _ _ hu
      rw [hnone] at hu
      cases hu
    · intro u hu
      rw [hnone] at hu
      cases hu
  | start hndl op hpc hvalid heq =>
    rw [hpc] at hclient
    obtain ⟨g, hg⟩ := hclient
    rw [hpc, hg] at hguard
    obtain ⟨hgen, -⟩ := hguard hvalid
    have hpc' : x'.db.pc c = .run (mrapi_impl_decode_hndl hndl).1 op.start := by
      rw [heq]
      exact Function.update_self ..
    constructor
    · intro u s ret _ hret
      rw [hpc'] at hret
      exfalso
      cases op with
      | rwl_lock mode timeout => cases mode <;> cases hret
      | rwl_unlock mode => cases mode <;> cases hret
      | delete t => cases t <;> cases hret
      | _ => cases hret
    · intro u hu hdead
      obtain rfl := Option.some.inj (hg.symm.trans hu)
      exact absurd ⟨hgen, hvalid⟩ hdead
  | scan hndl op hpc heq =>
    have hpc' : x'.db.pc c = .scan hndl op.type := by
      rw [heq]
      exact Function.update_self ..
    constructor
    · intro u s ret _ hret
      rw [hpc'] at hret
      cases hret
    · intro u _ _
      refine ⟨fun s => by rw [heq]; rfl, .inr ?_⟩
      rw [hpc', hpc]
      change 1 < 4
      omega
  | run s pc o hpc ho hsems hpcs hgen huse =>
    rw [hpc] at hclient
    obtain ⟨op, hu, hfits⟩ := AtWork.of_step hclient ho
    have hpc' : x'.db.pc c = .run s o.pc := by
      rw [hpcs]
      exact Function.update_self ..
    constructor
    · intro u s' ret hu' hret hrc
      obtain rfl := Option.some.inj (hu.symm.trans hu')
      cases hvalid : (x.db.sems s).valid with
      | true => exact ⟨⟨rfl, hvalid⟩, hfits.1 hvalid⟩
      | false =>
        exfalso
        rw [hpc'] at hret
        rcases (rechecks_step ho hvalid (hfits.2 hvalid) s).2 with hreports | ⟨-, hgoes, -⟩
        · rw [hret] at hreports
          have hfailed := hreports.1
          rw [hrc] at hfailed
          cases hfailed
        · exact hgoes _ (ClientPc.run.inj hret).2
    · intro u hu' hdead
      obtain rfl := Option.some.inj (hu.symm.trans hu')
      have hinvalid : (x.db.sems s).valid = false := by
        rw [← Bool.not_eq_true]
        exact fun hvalid => hdead ⟨rfl, hvalid⟩
      obtain ⟨hsem, hnext⟩ := rechecks_step ho hinvalid (hfits.2 hinvalid) s
      constructor
      · intro t
        rw [hsems, hsem, Function.update_eq_self]
      · rw [hpc', hpc]
        exact hnext.imp id fun hgoes => hgoes.2.2

end MxApi.LockTable
