/-
Deletion of lock objects (`mrapi_sem_delete`, `mrapi_mutex_delete`, `mrapi_rwl_delete`).

All three end in `mrapi_impl_sem_delete`, which asks for an exclusive lock: every usable
lock of the entry is the caller's, or is held by nobody in particular within its domain.
`mrapi_mutex_delete` first takes what is free: it asks for `MRAPI_LOCKS_ALL`, a number that
the loop never gets to, with a timeout of 0, and does not look at the result. A mutex has
one lock. So either it was free and can be deleted now, or nothing was taken and nothing is
to be given back. The other two calls take nothing, and a lock that nobody holds is refused
to them ([`unheld_rwl_refused`]).

[`delete_right`] is about the whole call, in every state that the table can reach. Other
nodes may be at work meanwhile, on other entries or on this one, as long as they do not
change it.
-/
import MxApi.Mrapi.LockHandles

set_option autoImplicit false

namespace MxApi.LockTable

open Lib lock_type mrapi_rwl_mode_t mrapi_status_t

/-! ## Who holds an entry -/

/-- Every usable lock of the entry is held by the node, or by an anonymous owner within its
domain. -/
def mrapi_sem_t.Exclusive (c : Node) (sem : mrapi_sem_t) : Prop :=
  ∀ x ∈ sem.locks.take sem.limit, x.deletable c = true

/-- No lock of the entry is taken. -/
def mrapi_sem_t.Unheld (sem : mrapi_sem_t) : Prop := ∀ x ∈ sem.locks, x.used = false

/-- Some lock of the entry is another node's. -/
def mrapi_sem_t.HeldByOther (c : Node) (sem : mrapi_sem_t) : Prop :=
  ∃ c', c' ≠ c ∧ ∃ x ∈ sem.locks, x.mine c' = true

instance (c : Node) (sem : mrapi_sem_t) : Decidable (sem.Exclusive c) := by
  unfold mrapi_sem_t.Exclusive
  infer_instance

instance (sem : mrapi_sem_t) : Decidable sem.Unheld := by
  unfold mrapi_sem_t.Unheld
  infer_instance

variable {c c' : Node} {x : mrapi_lock_t} {sem : mrapi_sem_t}

theorem mine_deletable (h : x.mine c = true) : x.deletable c = true := by
  simp only [mrapi_lock_t.mine, mrapi_lock_t.heldBy, Bool.and_eq_true, beq_iff_eq] at h
  simp [mrapi_lock_t.deletable, h.1, h.2.1, h.2.2]

/-- A lock that a node holds can be in the way of every other node only. -/
theorem mine_not_deletable (hne : c' ≠ c) (h : x.mine c' = true) : x.deletable c = false := by
  rw [Bool.eq_false_iff]
  intro hdel
  have hheld : x.heldBy c' = true := by
    simp only [mrapi_lock_t.mine, Bool.and_eq_true] at h
    exact h.2
  simp only [mrapi_lock_t.deletable, Bool.and_eq_true, Bool.or_eq_true, beq_iff_eq] at hdel
  obtain ⟨⟨-, hd⟩, hn | hn⟩ := hdel
  · refine hne (heldBy_unique hheld ?_)
    simp only [mrapi_lock_t.heldBy, Bool.and_eq_true, beq_iff_eq]
    exact ⟨hd, hn⟩
  · -- the anonymous owner is no node
    have hanonymous : Holder.Recorded x (.anonymous c.dindex c.dindex_lt) := ⟨hd, hn⟩
    have hboth := recorded_unique (h := .node c') hheld hanonymous
    cases hboth

theorem Counted.length_take (h : Counted sem) :
    (sem.locks.take sem.limit).length = sem.limit := by
  have hlength := congrArg List.length h.valids
  have hmax := h.le_max
  simp only [List.length_map, List.length_append, List.length_replicate] at hlength
  rw [List.length_take]
  omega

/-- A count of records up to the limit is the limit exactly if all of them count. -/
theorem Counted.countP_eq_limit (h : Counted sem) (p : mrapi_lock_t → Bool) :
    (sem.locks.take sem.limit).countP p = sem.limit ↔
      ∀ x ∈ sem.locks.take sem.limit, p x = true := by
  have hiff := List.countP_eq_length (p := p) (l := sem.locks.take sem.limit)
  rwa [h.length_take] at hiff

theorem Counted.heldAll_iff (h : Counted sem) : sem.HeldAll c ↔ sem.Exclusive c := by
  have hof : ofInt32 sem.shared_lock_limit = sem.limit := by
    rw [← h.limit_cast]
    exact ofInt32_of_nonneg (Nat.lt_of_le_of_lt h.le_max (by decide))
  unfold mrapi_sem_t.HeldAll
  rw [hof]
  exact h.countP_eq_limit _

/-- What another node holds is not exclusively the caller's. -/
theorem Counted.not_exclusive (h : Counted sem) (hheld : sem.HeldByOther c) :
    ¬ sem.Exclusive c := by
  intro hexclusive
  obtain ⟨c', hne, x, hx, hmine⟩ := hheld
  rw [← List.take_append_drop sem.limit sem.locks, List.mem_append] at hx
  rcases hx with hx | hx
  · have hdel := hexclusive x hx
    rw [mine_not_deletable hne hmine] at hdel
    cases hdel
  · have hvalid := used_valid (mine_used hmine)
    rw [h.drop_invalid x hx] at hvalid
    cases hvalid

theorem unheld_iff (sem : mrapi_sem_t) : sem.Unheld ↔ sem.taken = 0 := by
  unfold mrapi_sem_t.Unheld mrapi_sem_t.taken
  rw [List.countP_eq_zero]
  simp only [Bool.not_eq_true]

/-! ## Taking all the locks -/

/-- The loop never gets to the number `MRAPI_LOCKS_ALL` and takes what is free. -/
theorem acquireLoop_all (c : Node) (l : ℕ) (a : ℕ) (xs : List mrapi_lock_t) :
    (acquireLoop c MRAPI_LOCKS_ALL l a xs).2.1 =
      (a + (xs.take l).countP mrapi_lock_t.free : ℕ) := by
  induction l generalizing a xs with
  | zero => rfl
  | succ l ih =>
    cases xs with
    | nil => rfl
    | cons x xs =>
      rw [acquireLoop]
      cases hx : x.free with
      | true =>
        rw [countP_take_succ_of_pos l xs hx]
        simp only [if_true]
        have hne : ¬ (a : ℤ) + 1 = MRAPI_LOCKS_ALL := by
          unfold MRAPI_LOCKS_ALL
          omega
        rw [if_neg hne]
        have hrest := ih (a + 1) xs
        push_cast at hrest ⊢
        rw [hrest]
        omega
      | false =>
        rw [countP_take_succ_of_neg l xs hx]
        simp only [Bool.false_eq_true, if_false]
        have hne : ¬ (a : ℤ) = MRAPI_LOCKS_ALL := by
          unfold MRAPI_LOCKS_ALL
          omega
        rw [if_neg hne]
        exact ih a xs

/-- **Taking all the locks** takes those that are free, for the caller, and fails. -/
theorem acquire_all (h : Counted sem) (c : Node) (status : mrapi_status_t) :
    ∃ (n : ℕ) (ys : List mrapi_lock_t),
      Changed mrapi_lock_t.free (mrapi_lock_t.take c) n sem.locks ys ∧ n + sem.taken = sem.limit ∧
      (mrapi_impl_acquire_lock_locked c sem MRAPI_LOCKS_ALL status).1 =
        { sem with num_locks := sem.num_locks + n, locks := ys } ∧
      (mrapi_impl_acquire_lock_locked c sem MRAPI_LOCKS_ALL status).2.1 = n := by
  obtain ⟨n, ys, hchanged, heq, hn⟩ := acquire_eq c sem MRAPI_LOCKS_ALL status
  refine ⟨n, ys, hchanged, ?_, heq, hn⟩
  have hcount := h.count
  have hcast := h.limit_cast
  have hfree := h.free_add_taken
  have hloop := acquireLoop_all c sem.limit 0 sem.locks
  have hroom : sem.shared_lock_limit - sem.num_locks - MRAPI_LOCKS_ALL ≥ 0 := by
    unfold MRAPI_LOCKS_ALL
    omega
  unfold mrapi_impl_acquire_lock_locked at hn
  rw [if_pos hroom] at hn
  have hfound : ((0 + (sem.locks.take sem.limit).countP mrapi_lock_t.free : ℕ) : ℤ) = n :=
    hloop.symm.trans hn
  omega

/-! ## The three calls on an entry -/

/-- The entry that `mrapi_impl_sem_delete` comes to: `mrapi_mutex_delete` has taken what was
free of it. -/
def mrapi_sem_t.met (c : Node) (sem : mrapi_sem_t) : mrapi_sem_t :=
  if sem.type = MRAPI_MUTEX then
    (mrapi_impl_acquire_lock_locked c sem MRAPI_LOCKS_ALL MRAPI_SUCCESS).1
  else sem

/-- What the delete call of the object's kind leaves of an entry, and what it returns. -/
def deleteEntry (c : Node) (sem : mrapi_sem_t) : mrapi_sem_t × Ret :=
  let deleted := mrapi_impl_sem_delete c (sem.met c)
  (deleted.1,
    ⟨deleted.2, if deleted.2 then MRAPI_SUCCESS else MRAPI_ERR_LOCKED sem.type, none⟩)

/-- What a delete of the valid entry `sem` by `c` may leave. It succeeds, and the entry is
invalid, or it reports that the entry is locked and has not touched it. A mutex has to be
free or the caller's; of the other kinds every lock has to be the caller's. What another
node holds is never deleted. -/
structure DeleteOk (c : Node) (sem : mrapi_sem_t) (ret : Ret) (sem' : mrapi_sem_t) : Prop where
  deleted : ret.rc = true → ret.status = MRAPI_SUCCESS ∧ sem'.valid = false
  refused : ret.rc = false → ret.status = MRAPI_ERR_LOCKED sem.type ∧ sem' = sem
  mutex : sem.type = MRAPI_MUTEX → (ret.rc = true ↔ sem.Unheld ∨ sem.Exclusive c)
  others : sem.type ≠ MRAPI_MUTEX → (ret.rc = true ↔ sem.Exclusive c)
  held : sem.HeldByOther c → ret.rc = false

theorem sem_delete_exclusive (h : Counted sem) (hvalid : sem.valid = true)
    (hexclusive : sem.Exclusive c) :
    (mrapi_impl_sem_delete c sem).2 = true ∧ (mrapi_impl_sem_delete c sem).1.valid = false := by
  have hall : (sem.locks.take sem.limit).countP (mrapi_lock_t.deletable c) =
      ofInt32 sem.shared_lock_limit := h.heldAll_iff.mpr hexclusive
  unfold mrapi_impl_sem_delete
  dsimp only
  rw [if_neg (not_not_intro hall), hvalid, if_pos rfl]
  exact ⟨rfl, rfl⟩

theorem sem_delete_refused (h : Counted sem) (hexclusive : ¬ sem.Exclusive c) :
    mrapi_impl_sem_delete c sem = (sem, false) := by
  have hall : ¬ sem.HeldAll c := fun hall => hexclusive (h.heldAll_iff.mp hall)
  unfold mrapi_impl_sem_delete
  dsimp only
  exact if_pos hall

theorem met_valid (c : Node) (sem : mrapi_sem_t) : (sem.met c).valid = sem.valid := by
  unfold mrapi_sem_t.met
  split
  · obtain ⟨n, ys, -, heq, -⟩ := acquire_eq c sem MRAPI_LOCKS_ALL MRAPI_SUCCESS
    rw [heq]
  · rfl

theorem Counted.met (h : Counted sem) (c : Node) : Counted (sem.met c) := by
  unfold mrapi_sem_t.met
  split
  · exact h.acquire c MRAPI_LOCKS_ALL MRAPI_SUCCESS
  · exact h

/-- Where nobody holds a mutex, the caller gets it. -/
theorem Counted.met_unheld (h : Counted sem) (hmutex : sem.type = MRAPI_MUTEX)
    (hunheld : sem.Unheld) : (sem.met c).Exclusive c := by
  obtain ⟨n, ys, hchanged, hall, heq, -⟩ := acquire_all h c MRAPI_SUCCESS
  have hmet : sem.met c = { sem with num_locks := sem.num_locks + n, locks := ys } := by
    unfold mrapi_sem_t.met
    rw [if_pos hmutex, heq]
  rw [(unheld_iff sem).mp hunheld, Nat.add_zero] at hall
  have hcounted := h.met c
  have hlimit : (sem.met c).limit = sem.limit := by
    rw [hmet]
    rfl
  have hown : (sem.met c).own c = sem.own c + n := by
    rw [hmet]
    exact own_acquire hchanged
  have hle := (own_le_taken c (sem.met c)).trans hcounted.taken_le
  have htake : ((sem.met c).locks.take (sem.met c).limit).countP (mrapi_lock_t.mine c) =
      (sem.met c).own c := hcounted.countP_take fun _ hx => used_valid (mine_used hx)
  -- as many locks are the caller's as the entry has
  have hmine := (hcounted.countP_eq_limit (mrapi_lock_t.mine c)).mp (by omega)
  exact fun x hx => mine_deletable (hmine x hx)

/-- Where somebody does, nothing is left to take, if the mutex has one lock. -/
theorem Counted.met_eq (h : Counted sem)
    (hsingle : sem.type = MRAPI_MUTEX → sem.shared_lock_limit = 1)
    (hheld : sem.type = MRAPI_MUTEX → ¬ sem.Unheld) : sem.met c = sem := by
  unfold mrapi_sem_t.met
  split
  · rename_i hmutex
    obtain ⟨n, ys, hchanged, hall, heq, -⟩ := acquire_all h c MRAPI_SUCCESS
    have htaken := hheld hmutex
    rw [unheld_iff] at htaken
    have hone := hsingle hmutex
    have hcast := h.limit_cast
    obtain rfl : n = 0 := by omega
    rw [heq, hchanged.eq_of_zero, Nat.cast_zero, Int.add_zero]
  · rfl

/-- The lock is exclusive when it is asked for, if it was so before or is that of a mutex
that nobody held. -/
theorem Counted.met_exclusive_iff (h : Counted sem)
    (hsingle : sem.type = MRAPI_MUTEX → sem.shared_lock_limit = 1) :
    (sem.met c).Exclusive c ↔ sem.type = MRAPI_MUTEX ∧ sem.Unheld ∨ sem.Exclusive c := by
  by_cases hfree : sem.type = MRAPI_MUTEX ∧ sem.Unheld
  · exact ⟨fun _ => .inl hfree, fun _ => h.met_unheld hfree.1 hfree.2⟩
  · rw [h.met_eq hsingle fun hmutex hunheld => hfree ⟨hmutex, hunheld⟩]
    exact ⟨.inr, fun hor => hor.resolve_left hfree⟩

/-- **The delete of a valid entry**, of whichever kind and in whatever state. -/
theorem deleteEntry_ok (h : Counted sem) (hvalid : sem.valid = true)
    (hsingle : sem.type = MRAPI_MUTEX → sem.shared_lock_limit = 1) (c : Node) :
    DeleteOk c sem (deleteEntry c sem).2 (deleteEntry c sem).1 := by
  have hiff := h.met_exclusive_iff (c := c) hsingle
  -- what another node holds is neither free nor the caller's
  have hother : sem.HeldByOther c → ¬ (sem.met c).Exclusive c := by
    intro hheld hexclusive
    rcases hiff.mp hexclusive with ⟨-, hunheld⟩ | hexclusive
    · obtain ⟨c', -, x, hx, hmine⟩ := hheld
      have hused := mine_used hmine
      rw [hunheld x hx] at hused
      cases hused
    · exact h.not_exclusive hheld hexclusive
  unfold deleteEntry
  by_cases hexclusive : (sem.met c).Exclusive c
  · have hvalid' : (sem.met c).valid = true := (met_valid c sem).trans hvalid
    obtain ⟨hrc, hinvalid⟩ := sem_delete_exclusive (h.met c) hvalid' hexclusive
    dsimp only
    rw [hrc]
    refine ⟨fun _ => ⟨rfl, hinvalid⟩, (fun hrc => by cases hrc), ?_, ?_, ?_⟩
    · intro hmutex
      refine ⟨fun _ => ?_, fun _ => rfl⟩
      exact (hiff.mp hexclusive).imp_left And.right
    · intro hkind
      refine ⟨fun _ => ?_, fun _ => rfl⟩
      exact (hiff.mp hexclusive).resolve_left fun hfree => hkind hfree.1
    · exact fun hheld => absurd hexclusive (hother hheld)
  · have hmet : sem.met c = sem := by
      refine h.met_eq hsingle ?_
      exact fun hmutex hunheld => hexclusive (hiff.mpr (.inl ⟨hmutex, hunheld⟩))
    rw [sem_delete_refused (h.met c) hexclusive]
    refine ⟨(fun hrc => by cases hrc), fun _ => ⟨rfl, hmet⟩, ?_, ?_, fun _ => rfl⟩
    · intro hmutex
      refine ⟨(fun hrc => by cases hrc), fun hor => ?_⟩
      exact absurd (hiff.mpr (hor.imp_left fun hunheld => ⟨hmutex, hunheld⟩)) hexclusive
    · intro _
      refine ⟨(fun hrc => by cases hrc), fun hown => ?_⟩
      exact absurd (hiff.mpr (.inr hown)) hexclusive

/-! ## A mutex has one lock -/

/-- Every mutex has one lock, and so will every mutex that is about to be created. -/
structure OneLock (db : Db) : Prop where
  sems : ∀ s, (db.sems s).type = MRAPI_MUTEX → (db.sems s).shared_lock_limit = 1
  creates : ∀ c args, db.pc c = .create args → args.type = MRAPI_MUTEX →
    args.shared_lock_limit = 1

theorem OneLock.init (address : Node → ℕ → ℕ) : OneLock (init address) where
  sems := fun _ hmutex => by cases hmutex
  creates := fun _ _ hpc => by cases hpc

theorem removeLocks_limit (mine : mrapi_lock_t → Bool) (sem : mrapi_sem_t) (m : ℤ) :
    (removeLocks mine sem m).sem.shared_lock_limit = sem.shared_lock_limit := by
  unfold removeLocks
  dsimp only
  split_ifs <;> rfl

/-- No critical section of a call changes the limit of its entry. -/
theorem clientStep_limit {pc : Pc} {o : Outcome} (hstep : clientStep c sem pc = some o) :
    o.sem.shared_lock_limit = sem.shared_lock_limit := by
  cases pc with
  | done ret => cases hstep
  | acquire who m timeout time status =>
    obtain rfl := Option.some.inj hstep
    have hgot : (mrapi_impl_acquire_lock_locked c sem m status).1.shared_lock_limit =
        sem.shared_lock_limit := by
      obtain ⟨n, ys, -, heq, -⟩ := acquire_eq c sem m status
      rw [heq]
    unfold acquireStep
    dsimp only
    split_ifs <;> exact hgot
  | release who m =>
    obtain rfl := Option.some.inj hstep
    exact removeLocks_limit _ sem m
  | signal m =>
    obtain rfl := Option.some.inj hstep
    exact removeLocks_limit _ sem m
  | limitLock timeout =>
    obtain rfl := Option.some.inj hstep
    rfl
  | limitUnlock =>
    obtain rfl := Option.some.inj hstep
    rfl
  | mutexLock timeout =>
    obtain rfl := Option.some.inj hstep
    unfold mutexLockStep mutexLockStart
    split_ifs <;> rfl
  | mutexUnlock key =>
    obtain rfl := Option.some.inj hstep
    unfold mutexUnlockStep mutexUnlockStart
    split_ifs <;> rfl
  | delete t =>
    obtain rfl := Option.some.inj hstep
    unfold mrapi_impl_sem_delete
    dsimp only
    split_ifs <;> rfl

/-- A client moves to `pc`, and the table stays. -/
theorem OneLock.goto {db : Db} (h : OneLock db) {pc : ClientPc}
    (hpc : ∀ args, pc = .create args → args.type = MRAPI_MUTEX → args.shared_lock_limit = 1) :
    OneLock (db.goto c pc) := by
  refine ⟨h.sems, ?_⟩
  intro c' args hc'
  change Function.update db.pc c pc c' = _ at hc'
  by_cases hc : c' = c
  · rw [hc, Function.update_self] at hc'
    exact hpc args hc'
  · rw [Function.update_of_ne hc] at hc'
    exact h.creates c' args hc'

/-- A client moves on to entry `s`, and changes it. -/
theorem OneLock.update {db db' : Db} (h : OneLock db) {s : ℕ} {pc : Pc}
    (hsem : sem.type = MRAPI_MUTEX → sem.shared_lock_limit = 1)
    (hsems : db'.sems = Function.update db.sems s sem)
    (hpcs : db'.pc = Function.update db.pc c (.run s pc)) : OneLock db' := by
  have hgoto : OneLock (db.goto c (.run s pc)) := h.goto fun _ hpc => by cases hpc
  refine ⟨?_, hpcs ▸ hgoto.creates⟩
  intro t
  rw [hsems]
  by_cases ht : t = s
  · rw [ht, Function.update_self]
    exact hsem
  · rw [Function.update_of_ne ht]
    exact h.sems t

theorem OneLock.nodeStep {db db' : Db} (h : OneLock db) (hstep : nodeStep db c = some db') :
    OneLock db' := by
  unfold LockTable.nodeStep at hstep
  cases hpc : db.pc c with
  | create args =>
    rw [hpc] at hstep
    obtain rfl := Option.some.inj hstep
    unfold mrapi_impl_create
    split
    · exact h.goto fun _ hcreate => by cases hcreate
    · split
      · exact h.goto fun _ hcreate => by cases hcreate
      · rename_i s _
        refine h.update (s := s) ?_ rfl rfl
        intro hmutex
        change toInt32 (u32 args.shared_lock_limit) = 1
        rw [h.creates c args hpc hmutex]
        rfl
  | check hndl op =>
    rw [hpc] at hstep
    dsimp only at hstep
    split_ifs at hstep <;>
      (obtain rfl := Option.some.inj hstep; exact h.goto fun _ hcreate => by cases hcreate)
  | scan hndl t =>
    rw [hpc] at hstep
    dsimp only at hstep
    split at hstep <;>
      (obtain rfl := Option.some.inj hstep; exact h.goto fun _ hcreate => by cases hcreate)
  | run s pc =>
    rw [hpc] at hstep
    obtain ⟨o, ho, rfl⟩ := Option.map_eq_some_iff.mp hstep
    refine h.update (s := s) ?_ rfl rfl
    rw [clientStep_limit ho, (clientStep_occupied ho).type]
    exact h.sems s

/-- Only `mrapi_mutex_create` makes a mutex. -/
theorem start_oneLock {call : Call} {args : Creation} (hstart : call.start = .create args)
    (hmutex : args.type = MRAPI_MUTEX) : args.shared_lock_limit = 1 := by
  cases call with
  | sem_create sem_id num_locks limit attributes =>
    simp only [Call.start] at hstart
    split at hstart
    · cases hstart
    · cases hstart
      cases hmutex
  | rwl_create rwl_id limit attributes =>
    cases hstart
    cases hmutex
  | mutex_create mutex_id attributes =>
    cases hstart
    rfl
  | use hndl op => cases hstart

/-- **One step** of the system. -/
theorem OneLock.step {db db' : Db} {a : Label} (h : OneLock db) (hstep : step db a = some db') :
    OneLock db' := by
  unfold LockTable.step at hstep
  split at hstep
  · cases hstep
  · cases a with
    | call c call =>
      dsimp only at hstep
      split at hstep
      · obtain rfl := Option.some.inj hstep
        exact h.goto fun args hstart => start_oneLock hstart
      · cases hstep
    | step c => exact h.nodeStep hstep

/-! ## The call -/

/-- Who moves. -/
def Label.node : Label → Node
  | .call c _ | .step c => c

/-- The steps of a run while node `c` is in a call on entry `s`: its own, and those of the
others that leave the entry as it is. -/
def Undisturbed (c : Node) (s : ℕ) (db : Db) (a : Label) (db' : Db) : Prop :=
  Within a ∧ (a = .step c ∨ a.node ≠ c ∧ db'.sems s = db.sems s)

instance (c : Node) (s : ℕ) (db : Db) (a : Label) (db' : Db) :
    Decidable (Undisturbed c s db a db') := by
  unfold Undisturbed
  infer_instance

/-- Where the delete of entry `s` stands that was called when the entry was `sem`: what has
become of the entry, and how many steps are left. -/
inductive Deleting (c : Node) (s hndl : ℕ) (sem : mrapi_sem_t) : ClientPc → mrapi_sem_t → ℕ → Prop
  | check : Deleting c s hndl sem (.check hndl (.delete sem.type)) sem 3
  | take (hmutex : sem.type = MRAPI_MUTEX) :
      Deleting c s hndl sem
        (.run s (semLock .mutexDelete MRAPI_LOCKS_ALL MRAPI_TIMEOUT_IMMEDIATE)) sem 2
  | delete : Deleting c s hndl sem (.run s (.delete sem.type)) (sem.met c) 1
  | done :
      Deleting c s hndl sem (.run s (.done (some (deleteEntry c sem).2))) (deleteEntry c sem).1 0

/-- The first critical section of `mrapi_mutex_delete` goes on to the second, whatever it
got. -/
theorem acquireStep_delete (h : Counted sem) (c : Node) (hmutex : sem.type = MRAPI_MUTEX) :
    acquireStep c sem .mutexDelete MRAPI_LOCKS_ALL MRAPI_TIMEOUT_IMMEDIATE 0 MRAPI_SUCCESS =
      ⟨sem.met c, .delete MRAPI_MUTEX, true⟩ := by
  obtain ⟨n, ys, -, -, -, hn⟩ := acquire_all h c MRAPI_SUCCESS
  have hne : ¬ (n : ℤ) = MRAPI_LOCKS_ALL := by
    unfold MRAPI_LOCKS_ALL
    omega
  unfold acquireStep mrapi_sem_t.met
  dsimp only
  rw [hn, if_neg hne, if_pos ⟨by decide, Nat.zero_le _⟩, if_pos hmutex]
  rfl

/-- Where a delete begins once its handle is found valid. -/
theorem Deleting.start (c : Node) (s hndl : ℕ) (sem : mrapi_sem_t) :
    ∃ m ≤ 2, Deleting c s hndl sem (.run s (Op.delete sem.type).start) sem m := by
  by_cases hmutex : sem.type = MRAPI_MUTEX
  · rw [hmutex]
    exact ⟨2, Nat.le_refl 2, .take hmutex⟩
  · have hstart : (Op.delete sem.type).start = .delete sem.type := by
      cases htype : sem.type with
      | MRAPI_MUTEX => exact absurd htype hmutex
      | MRAPI_SEM => rfl
      | MRAPI_RWL => rfl
    have hmet : sem.met c = sem := if_neg hmutex
    have hdel : Deleting c s hndl sem (.run s (.delete sem.type)) (sem.met c) 1 := .delete
    rw [hmet, ← hstart] at hdel
    exact ⟨1, by decide, hdel⟩

/-- A step of a client at work on entry `s`. -/
theorem TableInv.run_step {db : Db} (h : TableInv db) {s : ℕ} {pc : Pc} {o : Outcome}
    (hpc : db.pc c = .run s pc) (ho : clientStep c (db.sems s) pc = some o) :
    ∃ db', LockTable.step db (.step c) = some db' ∧ db'.pc c = .run s o.pc ∧
      db'.sems s = o.sem := by
  rw [h.step_eq]
  unfold LockTable.nodeStep
  dsimp only
  rw [hpc]
  dsimp only
  rw [ho]
  exact ⟨_, rfl, Function.update_self .., Function.update_self ..⟩

/-- **A step of the caller** is possible until the call has returned, and brings it
closer. -/
theorem Deleting.step {db : Db} {s hndl n : ℕ} (h : TableInv db) (hs : s < MRAPI_MAX_SEMS)
    (hhndl : mrapi_impl_decode_hndl hndl = (s, true)) (hvalid : sem.valid = true)
    (hdel : Deleting c s hndl sem (db.pc c) (db.sems s) (n + 1)) :
    ∃ db' m, LockTable.step db (.step c) = some db' ∧ m ≤ n ∧
      Deleting c s hndl sem (db'.pc c) (db'.sems s) m := by
  generalize hpc : db.pc c = pc at hdel
  generalize hsem : db.sems s = sem' at hdel
  have hcounted : Counted sem' := hsem ▸ h.counted s
  cases hdel with
  | check =>
    obtain ⟨m, hm, hstart⟩ := Deleting.start c s hndl sem
    refine ⟨db.goto c (.run s (Op.delete sem.type).start), m, ?_, hm, ?_⟩
    · have hfound : ¬ (true = false ∨ s ≥ MRAPI_MAX_SEMS) := by
        simpa using hs
      rw [h.step_eq]
      unfold LockTable.nodeStep
      simp only [hpc, hhndl, hsem]
      rw [if_neg hfound, if_pos hvalid]
    · unfold Db.goto
      dsimp only
      rw [Function.update_self, hsem]
      exact hstart
  | take hmutex =>
    obtain ⟨db', hstep, hpc', hsem'⟩ := h.run_step hpc rfl
    rw [hsem, acquireStep_delete hcounted c hmutex] at hpc' hsem'
    refine ⟨db', 1, hstep, Nat.le_refl 1, ?_⟩
    rw [hpc', hsem', ← hmutex]
    exact .delete
  | delete =>
    obtain ⟨db', hstep, hpc', hsem'⟩ := h.run_step hpc rfl
    rw [hsem] at hpc' hsem'
    refine ⟨db', 0, hstep, Nat.le_refl 0, ?_⟩
    rw [hpc', hsem']
    exact .done

/-- A step of another node does not move the caller. -/
theorem step_pc_other {db db' : Db} {a : Label} (hstep : LockTable.step db a = some db')
    (hne : a.node ≠ c) : db'.pc c = db.pc c := by
  unfold LockTable.step at hstep
  split at hstep
  · cases hstep
  · cases a with
    | call d call =>
      dsimp only at hstep
      split at hstep
      · obtain rfl := Option.some.inj hstep
        exact Function.update_of_ne (Ne.symm hne) _ _
      · cases hstep
    | step d =>
      change LockTable.nodeStep db d = some db' at hstep
      change d ≠ c at hne
      unfold LockTable.nodeStep at hstep
      cases hpc : db.pc d with
      | create args =>
        rw [hpc] at hstep
        obtain rfl := Option.some.inj hstep
        unfold mrapi_impl_create
        split
        · exact Function.update_of_ne (Ne.symm hne) _ _
        · split <;> exact Function.update_of_ne (Ne.symm hne) _ _
      | check hndl op =>
        rw [hpc] at hstep
        dsimp only at hstep
        split_ifs at hstep <;>
          (obtain rfl := Option.some.inj hstep; exact Function.update_of_ne (Ne.symm hne) _ _)
      | scan hndl t =>
        rw [hpc] at hstep
        dsimp only at hstep
        split at hstep <;>
          (obtain rfl := Option.some.inj hstep; exact Function.update_of_ne (Ne.symm hne) _ _)
      | run s pc =>
        rw [hpc] at hstep
        obtain ⟨o, ho, rfl⟩ := Option.map_eq_some_iff.mp hstep
        exact Function.update_of_ne (Ne.symm hne) _ _

/-- The delete of entry `s` after an undisturbed step. -/
theorem Deleting.undisturbed {db db' : Db} {a : Label} {s hndl n : ℕ} (h : TableInv db)
    (hs : s < MRAPI_MAX_SEMS) (hhndl : mrapi_impl_decode_hndl hndl = (s, true))
    (hvalid : sem.valid = true) (hdel : Deleting c s hndl sem (db.pc c) (db.sems s) n)
    (hstep : LockTable.step db a = some db') (hguard : Undisturbed c s db a db') :
    ∃ m ≤ n, Deleting c s hndl sem (db'.pc c) (db'.sems s) m := by
  rcases hguard.2 with rfl | ⟨hne, hsame⟩
  · cases n with
    | zero =>
      -- a call that has returned takes no step
      generalize hpc : db.pc c = pc at hdel
      generalize hsem : db.sems s = sem' at hdel
      cases hdel
      rw [h.step_eq] at hstep
      simp only [LockTable.nodeStep, hpc, clientStep, Option.map_none] at hstep
      cases hstep
    | succ n =>
      obtain ⟨db'', m, hstep', hm, hdel'⟩ := hdel.step h hs hhndl hvalid
      obtain rfl := Option.some.inj (hstep'.symm.trans hstep)
      exact ⟨m, Nat.le_succ_of_le hm, hdel'⟩
  · rw [step_pc_other hstep hne, hsame]
    exact ⟨n, Nat.le_refl n, hdel⟩

/-- The caller alone comes to the end of the call. -/
theorem Deleting.returns {db : Db} {s hndl n : ℕ} (h : TableInv db) (hs : s < MRAPI_MAX_SEMS)
    (hhndl : mrapi_impl_decode_hndl hndl = (s, true)) (hvalid : sem.valid = true)
    (hdel : Deleting c s hndl sem (db.pc c) (db.sems s) n) :
    ∃ k ≤ n, ∃ db', exec LockTable.step (fun _ _ _ => true) db (List.replicate k (.step c)) =
        some db' ∧
      db'.pc c = .run s (.done (some (deleteEntry c sem).2)) ∧
      db'.sems s = (deleteEntry c sem).1 := by
  induction n using Nat.strong_induction_on generalizing db with
  | _ n ih =>
    cases n with
    | zero =>
      refine ⟨0, Nat.le_refl 0, db, rfl, ?_⟩
      generalize db.pc c = pc at hdel
      generalize db.sems s = sem' at hdel
      cases hdel
      exact ⟨rfl, rfl⟩
    | succ n =>
      obtain ⟨db₁, m, hstep, hm, hdel₁⟩ := hdel.step h hs hhndl hvalid
      have h₁ := h.step hstep trivial
      obtain ⟨k, hk, db', hexec, hend⟩ := ih m (Nat.lt_succ_of_le hm) h₁ hdel₁
      refine ⟨k + 1, by omega, db', ?_, hend⟩
      rw [List.replicate_succ, exec, hstep]
      exact hexec

/-- What the delete of entry `s` promises that `c` called when the entry was `sem`, at any
time after the call. By itself it returns after three steps at most; and when it has
returned, then as it may. -/
structure DeleteRight (c : Node) (s : ℕ) (sem : mrapi_sem_t) (db : Db) : Prop where
  returns : ∃ n ≤ 3, ∃ db' ret,
    exec step (fun _ _ _ => true) db (List.replicate n (.step c)) = some db' ∧
      db'.pc c = .run s (.done (some ret)) ∧ DeleteOk c sem ret (db'.sems s)
  returned : ∀ u r, db.pc c = .run u (.done r) →
    u = s ∧ ∃ ret, r = some ret ∧ DeleteOk c sem ret (db.sems s)

/-- **Deleting a lock object is right**, for every valid entry of the table in every state
that it can reach, and for every caller. -/
theorem delete_right {address : Node → ℕ → ℕ} {db db₀ db' : Db} {c : Node} {s hndl : ℕ}
    (hrun : Run step (fun _ a _ => Within a) (init address) db) (hs : s < MRAPI_MAX_SEMS)
    (hhndl : mrapi_impl_decode_hndl hndl = (s, true)) (hvalid : (db.sems s).valid = true)
    (hcall : step db (.call c (.use hndl (.delete (db.sems s).type))) = some db₀)
    (hrun' : Run step (Undisturbed c s) db₀ db') : DeleteRight c s (db.sems s) db' := by
  have hinv : TableInv db :=
    Run.invariant (fun _ _ _ hI hstep hguard => hI.step hstep hguard) hrun (.init address)
  have hone : OneLock db :=
    Run.invariant (fun _ _ _ hI hstep _ => hI.step hstep) hrun (.init address)
  have hok := deleteEntry_ok (hinv.counted s) hvalid (hone.sems s) c
  have hinv₀ : TableInv db₀ := hinv.step hcall trivial
  have hdel₀ : ∃ n ≤ 3, Deleting c s hndl (db.sems s) (db₀.pc c) (db₀.sems s) n := by
    rw [hinv.step_eq] at hcall
    dsimp only at hcall
    split at hcall
    · obtain rfl := Option.some.inj hcall
      refine ⟨3, Nat.le_refl 3, ?_⟩
      change Deleting c s hndl (db.sems s) (Function.update db.pc c _ c) (db.sems s) 3
      rw [Function.update_self]
      exact .check
    · cases hcall
  have hall : TableInv db' ∧
      ∃ n ≤ 3, Deleting c s hndl (db.sems s) (db'.pc c) (db'.sems s) n := by
    refine Run.invariant (I := fun d => TableInv d ∧
      ∃ n ≤ 3, Deleting c s hndl (db.sems s) (d.pc c) (d.sems s) n) ?_ hrun' ⟨hinv₀, hdel₀⟩
    rintro d a d' ⟨hd, n, hn, hdel⟩ hstep hguard
    obtain ⟨m, hm, hdel'⟩ := hdel.undisturbed hd hs hhndl hvalid hstep hguard
    exact ⟨hd.step hstep hguard.1, m, hm.trans hn, hdel'⟩
  obtain ⟨hinv', n, hn, hdel⟩ := hall
  constructor
  · obtain ⟨k, hk, db'', hexec, hpc, hsem⟩ := hdel.returns hinv' hs hhndl hvalid
    refine ⟨k, hk.trans hn, db'', _, hexec, hpc, ?_⟩
    rw [hsem]
    exact hok
  · intro u r hpc
    generalize db'.sems s = sem' at hdel
    rw [hpc] at hdel
    cases hdel
    exact ⟨rfl, _, rfl, hok⟩

/-- What a schedule leads to, and a call of its last state, and a schedule after that. -/
theorem exec_delete_of_any {as bs : List Label} {c : Node} {s hndl : ℕ} {p q : Db → Bool}
    (h : (exec step (fun _ a _ => decide (Within a)) (init fun _ _ => 0) as).any (fun db =>
      p db && ((step db (.call c (.use hndl (.delete (db.sems s).type)))).bind fun db₀ =>
        exec step (fun d a d' => decide (Undisturbed c s d a d')) db₀ bs).any q) = true) :
    ∃ db db₀ db', Run step (fun _ a _ => Within a) (init fun _ _ => 0) db ∧ p db = true ∧
      step db (.call c (.use hndl (.delete (db.sems s).type))) = some db₀ ∧
      Run step (Undisturbed c s) db₀ db' ∧ q db' = true := by
  obtain ⟨db, hrun, hdb⟩ := exec_run_of_any h
  rw [Bool.and_eq_true] at hdb
  obtain ⟨hp, hany⟩ := hdb
  cases hcall : step db (.call c (.use hndl (.delete (db.sems s).type))) with
  | none =>
    rw [hcall] at hany
    cases hany
  | some db₀ =>
    rw [hcall] at hany
    obtain ⟨db', hrun', hq⟩ := exec_run_of_any hany
    exact ⟨db, db₀, db', hrun.mono fun _ _ _ hg => of_decide_eq_true hg, hp, hcall,
      hrun'.mono fun _ _ _ hg => of_decide_eq_true hg, hq⟩

/-- A mutex that nobody holds is deleted by another node than its creator, which creates a
semaphore meanwhile. -/
theorem delete_right_mutex :
    ∃ db db' : Db, (db.sems 0).type = MRAPI_MUTEX ∧ (db.sems 0).Unheld ∧
      (db'.sems 0).valid = false ∧ (db'.sems 1).valid = true ∧
      DeleteRight node1 0 (db.sems 0) db' := by
  have hexec : (exec step (fun _ a _ => decide (Within a)) (init fun _ _ => 0)
      [.call node0 (.mutex_create 7 none), .step node0]).any (fun db =>
        decide ((db.sems 0).valid = true ∧ (db.sems 0).type = MRAPI_MUTEX ∧ (db.sems 0).Unheld) &&
        ((step db (.call node1 (.use 0xC0000000 (.delete (db.sems 0).type)))).bind fun db₀ =>
          exec step (fun d a d' => decide (Undisturbed node1 0 d a d')) db₀
            [.step node1, .call node0 (.sem_create 8 1 3 none), .step node1, .step node0,
              .step node1]).any fun db' =>
          decide ((db'.sems 0).valid = false ∧ (db'.sems 1).valid = true)) = true := by
    decide +kernel
  obtain ⟨db, db₀, db', hrun, hp, hcall, hrun', hq⟩ := exec_delete_of_any hexec
  obtain ⟨hvalid, hmutex, hunheld⟩ := of_decide_eq_true hp
  obtain ⟨hdeleted, hcreated⟩ := of_decide_eq_true hq
  exact ⟨db, db', hmutex, hunheld, hdeleted, hcreated,
    delete_right hrun (by decide) (by decide) hvalid hcall hrun'⟩

/-- **A reader-writer lock that nobody holds is not deleted**: its creator is told that it
is locked. -/
theorem unheld_rwl_refused :
    ∃ db db₀ db' : Db, Run step (fun _ a _ => Within a) (init fun _ _ => 0) db ∧
      ((db.sems 0).valid = true ∧ (db.sems 0).type = MRAPI_RWL ∧ (db.sems 0).Unheld) ∧
      step db (.call node0 (.use 0xC0000000 (.delete (db.sems 0).type))) = some db₀ ∧
      Run step (Undisturbed node0 0) db₀ db' ∧
      db'.pc node0 = .run 0 (.done (some ⟨false, MRAPI_ERR_LOCKED MRAPI_RWL, none⟩)) := by
  have hexec : (exec step (fun _ a _ => decide (Within a)) (init fun _ _ => 0)
      [.call node0 (.rwl_create 7 3 none), .step node0]).any (fun db =>
        decide ((db.sems 0).valid = true ∧ (db.sems 0).type = MRAPI_RWL ∧ (db.sems 0).Unheld) &&
        ((step db (.call node0 (.use 0xC0000000 (.delete (db.sems 0).type)))).bind fun db₀ =>
          exec step (fun d a d' => decide (Undisturbed node0 0 d a d')) db₀
            [.step node0, .step node0]).any fun db' =>
          decide (db'.pc node0 =
            .run 0 (.done (some ⟨false, MRAPI_ERR_LOCKED MRAPI_RWL, none⟩)))) = true := by
    decide +kernel
  obtain ⟨db, db₀, db', hrun, hp, hcall, hrun', hq⟩ := exec_delete_of_any hexec
  exact ⟨db, db₀, db', hrun, of_decide_eq_true hp, hcall, hrun', of_decide_eq_true hq⟩

end MxApi.LockTable
