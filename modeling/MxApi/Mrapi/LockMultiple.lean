/-
`mrapi_impl_sem_lock_multiple` is all or nothing: the locks that a caller has.

The guards of all the semaphores are held during an attempt, so only the caller's own
steps matter to how many locks it has. What it has gained is read off the place where it
stands ([`StageOk`]): with `waitall`, one lock on each of the semaphores before position
`i`; without, none; and at the end all or nothing.

The one place where this does not work is the revert. `mrapi_impl_sem_unlock` enters the
critical section of the semaphore by itself, whose guard the caller holds already, and
waits for it for ever. So a run is considered here in which an attempt with `waitall` fails
at its first position, or not at all ([`NoRevert`]), and no semaphore is listed twice, which
would wait for itself as well.
-/
import MxApi.Mrapi.LockGuardSafety

set_option autoImplicit false

namespace MxApi.LockGuard

open Lib LockTable LockTable.lock_type LockTable.mrapi_rwl_mode_t LockTable.mrapi_status_t

/-! ## The contract -/

/-- One lock more on each semaphore of a list than before, and on no other. -/
def Gained (before own : ℕ → ℕ) (l : List ℕ) : Prop :=
  ∀ s, own s = before s + if s ∈ l then 1 else 0

/-- All or nothing: with `waitall` a success has gained a lock on every listed semaphore,
without it on one of them, and a failure none. -/
def AllOrNothing (before own : ℕ → ℕ) (args : Multiple) (ret : Ret) : Prop :=
  if ret.rc then
    if args.waitall then Gained before own args.sems
    else ∃ s ∈ args.sems, Gained before own [s]
  else Gained before own []

/-- How many locks a node has on each entry. -/
def World.own (w : World) (c : Node) (s : ℕ) : ℕ := (w.sems s).own c

/-- Every call of `mrapi_impl_sem_lock_multiple` that has returned kept the contract. -/
def LockMultipleOk (x : Sys) : Prop :=
  ∀ c args time ret, x.pc c = .multiple args time (.returned ret) →
    AllOrNothing (x.before c) (x.w.own c) args ret

/-! ## The condition -/

/-- A lock and unlock call: neither a post nor a delete, nor a lock for a delete. -/
def Locks : Pc → Prop
  | .signal _ | .delete _ | .acquire .mutexDelete _ _ _ _ => False
  | _ => True

instance : DecidablePred Locks
  | .signal _ | .delete _ | .acquire .mutexDelete _ _ _ _ => isFalse id
  | .acquire .sem _ _ _ _ | .acquire (.rwl _) _ _ _ _ | .acquire .mutex _ _ _ _
  | .done _ | .release _ _ | .limitLock _ | .limitUnlock | .mutexLock _ | .mutexUnlock _ =>
    isTrue trivial

/-- The semaphore has a lock left. -/
def CanTake (sem : mrapi_sem_t) : Prop := sem.shared_lock_limit - sem.num_locks - 1 ≥ 0

instance : DecidablePred CanTake := fun _ => Int.decLe _ _

/-- Nobody is in another call than a lock or an unlock, no call lists a semaphore twice, and
no attempt with `waitall` has to give back a lock that it has taken. -/
def NoRevert (x : Sys) : Label → Prop
  | .call _ (.use _ op) _ => Locks op.start
  | .call _ (.sem_unlock_multiple _) _ => True
  | .call _ (.sem_lock_multiple sem _ _) _ =>
    (sem.map fun hndl => (mrapi_impl_decode_hndl hndl).1).Nodup
  | .call _ (.create _ _) _ => False
  | .step c _ =>
    match x.pc c with
    | .multiple args _ (.acquire i _) => args.waitall = true → 0 < i →
        ∀ s ∈ args.sems[i]?, CanTake (x.w.sems s)
    | _ => True

instance (x : Sys) : DecidablePred (NoRevert x)
  | .call _ (.use _ op) _ => inferInstanceAs (Decidable (Locks op.start))
  | .call _ (.sem_unlock_multiple _) _ => isTrue trivial
  | .call _ (.sem_lock_multiple sem _ _) _ =>
    inferInstanceAs (Decidable (sem.map fun hndl => (mrapi_impl_decode_hndl hndl).1).Nodup)
  | .call _ (.create _ _) _ => isFalse id
  | .step c _ => by
    unfold NoRevert
    dsimp only
    split <;> infer_instance

/-- The steps of the runs below. -/
def MultipleGuard (x : Sys) (a : Label) (x' : Sys) : Prop := PlainGuard x a x' ∧ NoRevert x a

instance (x : Sys) (a : Label) (x' : Sys) : Decidable (MultipleGuard x a x') := by
  unfold MultipleGuard
  infer_instance

/-! ## Lock and unlock calls -/

theorem Acquirer.resume_locks {who : Acquirer} (h : who ≠ .mutexDelete) (rc : Bool)
    (status : mrapi_status_t) : Locks (who.resume rc status) := by
  cases who with
  | mutexDelete => exact absurd rfl h
  | _ => exact trivial

theorem acquire_locks {who : Acquirer} {m : ℤ} {timeout time : ℕ} {status : mrapi_status_t} :
    Locks (.acquire who m timeout time status) ↔ who ≠ .mutexDelete := by
  cases who with
  | mutexDelete => exact ⟨False.elim, fun h => h rfl⟩
  | _ => exact ⟨(fun _ h => nomatch h), fun _ => trivial⟩

/-- A critical section of a lock or unlock call: the call stays one, and the locks of the
other nodes stay as they are. -/
theorem clientStep_locks {c : Node} {sem : mrapi_sem_t} {pc : Pc} {o : Outcome}
    (h : Counted sem) (hpc : PcInv c sem pc) (hlocks : Locks pc)
    (hstep : clientStep c sem pc = some o) :
    Locks o.pc ∧ ∀ c', c' ≠ c → o.sem.own c' = sem.own c' := by
  cases pc with
  | done ret => cases hstep
  | acquire who m timeout time status =>
    obtain rfl := Option.some.inj hstep
    have hwho := acquire_locks.mp hlocks
    have hothers : ∀ c', c' ≠ c →
        (mrapi_impl_acquire_lock_locked c sem m status).1.own c' = sem.own c' := by
      obtain ⟨n, ys, hchanged, heq, -⟩ := acquire_eq c sem m status
      intro c' hne
      rw [heq]
      exact own_acquire_other (Ne.symm hne) hchanged
    unfold acquireStep
    dsimp only
    split
    · exact ⟨Acquirer.resume_locks hwho _ _, hothers⟩
    · split
      · exact ⟨Acquirer.resume_locks hwho _ _, hothers⟩
      · exact ⟨acquire_locks.mpr hwho, hothers⟩
  | release who m =>
    obtain rfl := Option.some.inj hstep
    obtain ⟨n, rfl, hn, hzero⟩ := hpc
    refine ⟨trivial, ?_⟩
    intro c' hne
    change (removeLocks (mrapi_lock_t.mine c) sem n).sem.own c' = sem.own c'
    rcases removeLocks_cases h (fun _ => mine_used) hn hzero with
      ⟨-, hsem, -, -, -⟩ | ⟨-, -, -, -, -, ys, hchanged, hsem⟩
    · rw [hsem]
    · rw [hsem]
      exact own_release_other (Ne.symm hne) hchanged
  | signal m => exact hlocks.elim
  | limitLock timeout =>
    obtain rfl := Option.some.inj hstep
    exact ⟨trivial, fun _ _ => rfl⟩
  | limitUnlock =>
    obtain rfl := Option.some.inj hstep
    exact ⟨trivial, fun _ _ => rfl⟩
  | mutexLock timeout =>
    obtain rfl := Option.some.inj hstep
    unfold mutexLockStep mutexLockStart
    split_ifs
    · exact ⟨trivial, fun c' _ => own_setKey c' sem _⟩
    · exact ⟨trivial, fun _ _ => rfl⟩
    · exact ⟨trivial, fun _ _ => rfl⟩
  | mutexUnlock key =>
    obtain rfl := Option.some.inj hstep
    unfold mutexUnlockStep mutexUnlockStart
    split_ifs
    · exact ⟨trivial, fun c' _ => own_setKey c' sem _⟩
    · exact ⟨trivial, fun _ _ => rfl⟩
    · exact ⟨trivial, fun _ _ => rfl⟩
  | delete t => exact hlocks.elim

/-! ## One call on one entry -/

/-- The critical section that comes next, if the present one is over. -/
def Section.current (x : Section) : Pc :=
  match x.stage with
  | .yieldPost next | .yieldPre next | .post next => next
  | _ => x.pc

/-- The stages before the critical section of the call. -/
def Stage.early : Stage → Bool
  | .attrPost | .pre | .body => true
  | _ => false

/-- A lock or unlock call on an entry. -/
structure SectionOk (c : Node) (sems : ℕ → mrapi_sem_t) (x : Section) : Prop where
  locks : Locks x.current
  inv : PcInv c (sems x.s) x.current
  going : x.stage.early = true → ∀ ret, x.pc ≠ .done ret

theorem SectionOk.start {c : Node} {sems : ℕ → mrapi_sem_t} {s : ℕ} {pc : Pc}
    (hlocks : Locks pc) (hinv : PcInv c (sems s) pc) : SectionOk c sems (.start s pc) :=
  ⟨hlocks, hinv, fun h => nomatch h⟩

/-- The other nodes' locks. -/
structure OthersKept (c : Node) (w w' : World) : Prop where
  counted : (∀ s, Counted (w.sems s)) → ∀ s, Counted (w'.sems s)
  own : ∀ c', c' ≠ c → ∀ s, (w'.sems s).own c' = (w.sems s).own c'

theorem OthersKept.same {c : Node} {w w' : World} (h : w'.sems = w.sems) :
    OthersKept c w w' :=
  ⟨fun hcounted s => h ▸ hcounted s, fun _ _ s => by rw [h]⟩

/-- One entry is changed. -/
theorem OthersKept.setSem {c : Node} {w : World} {s : ℕ} {sem : mrapi_sem_t}
    (hcounted : Counted sem) (hown : ∀ c', c' ≠ c → sem.own c' = (w.sems s).own c') :
    OthersKept c w (w.setSem s sem) := by
  constructor
  · intro hall
    exact (Function.forall_update_iff w.sems fun _ sem => Counted sem).mpr
      ⟨hcounted, fun t _ => hall t⟩
  · intro c' hne t
    change (Function.update w.sems s sem t).own c' = (w.sems t).own c'
    by_cases ht : t = s
    · rw [ht, Function.update_self]
      exact hown c' hne
    · rw [Function.update_of_ne ht]

theorem pre_sems {c : Node} {w w' : World} {ref : mrapi_impl_sem_ref_t}
    (h : mrapi_impl_access_database_pre c w ref = some w') : w'.sems = w.sems := by
  unfold mrapi_impl_access_database_pre at h
  split_ifs at h <;> (obtain rfl := Option.some.inj h; rfl)

theorem post_sems (w : World) (ref : mrapi_impl_sem_ref_t) :
    (mrapi_impl_access_database_post w ref).sems = w.sems := by
  unfold mrapi_impl_access_database_post
  split <;> rfl

/-- **A step of a lock or unlock call.** -/
theorem Section.step_ok {c : Node} {garbage : Bool} {w : World} {x : Section}
    {y : World × Section} (h : x.step c garbage w = some y)
    (hcounted : ∀ s, Counted (w.sems s)) (hx : SectionOk c w.sems x) :
    SectionOk c y.1.sems y.2 ∧ OthersKept c w y.1 := by
  obtain ⟨s, pc, guard, stage⟩ := x
  obtain ⟨hlocks, hinv, hgoing⟩ := hx
  unfold Section.step at h
  cases stage with
  | attrPre =>
    dsimp only at h
    split at h
    · cases h
    · rename_i hnot
      obtain ⟨v, hv, rfl⟩ := Option.map_eq_some_iff.mp h
      refine ⟨⟨hlocks, ?_, ?_⟩, .same (pre_sems hv)⟩
      · rw [pre_sems hv]
        exact hinv
      · rintro - ret rfl
        exact hnot rfl
  | attrPost =>
    obtain rfl := Option.some.inj h
    refine ⟨⟨hlocks, ?_, fun _ => hgoing rfl⟩, .same (post_sems _ _)⟩
    dsimp only
    rw [post_sems]
    exact hinv
  | pre =>
    obtain ⟨v, hv, rfl⟩ := Option.map_eq_some_iff.mp h
    refine ⟨⟨hlocks, ?_, fun _ => hgoing rfl⟩, .same (pre_sems hv)⟩
    dsimp only
    rw [pre_sems hv]
    exact hinv
  | body =>
    obtain ⟨o, ho, rfl⟩ := Option.map_eq_some_iff.mp h
    have hkept := clientStep_kept (hcounted s) hinv ho
    obtain ⟨hlocks', hown⟩ := clientStep_locks (hcounted s) hinv hlocks ho
    have hinv' : PcInv c ((w.setSem s o.sem).sems s) o.pc := by
      change PcInv c (Function.update w.sems s o.sem s) o.pc
      rw [Function.update_self]
      exact hkept.pc
    refine ⟨?_, .setSem hkept.counted hown⟩
    dsimp only
    split
    · exact ⟨hlocks', hinv', fun h => nomatch h⟩
    · exact ⟨hlocks', hinv', fun h => nomatch h⟩
  | yieldPost next =>
    obtain rfl := Option.some.inj h
    refine ⟨⟨hlocks, ?_, fun h => nomatch h⟩, .same (post_sems _ _)⟩
    dsimp only
    rw [post_sems]
    exact hinv
  | yieldPre next =>
    obtain ⟨v, hv, rfl⟩ := Option.map_eq_some_iff.mp h
    refine ⟨?_, .same (pre_sems hv)⟩
    dsimp only
    rw [pre_sems hv]
    cases next with
    | acquire who m timeout time status => exact ⟨hlocks, hinv, fun _ ret h => nomatch h⟩
    | _ => exact ⟨hlocks, hinv, fun h => nomatch h⟩
  | post next =>
    obtain rfl := Option.some.inj h
    refine ⟨⟨hlocks, ?_, fun h => nomatch h⟩, .same (post_sems _ _)⟩
    dsimp only
    rw [post_sems]
    exact hinv

/-! ## The attempts -/

/-- What the caller of `mrapi_impl_sem_lock_multiple` has gained, by where it stands. -/
def StageOk (before own : ℕ → ℕ) (args : Multiple) (time : ℕ) : MultipleStage → Prop
  | .pre again | .spin again _ => (again = false → time = 0) ∧ Gained before own []
  | .acquire i total_added => i ≤ args.sems.length ∧
      if args.waitall then Gained before own (args.sems.take i) ∧ total_added = i
      else Gained before own [] ∧ total_added = 0
  | .yield _ => Gained before own []
  | .post _ ret | .returned ret => AllOrNothing before own args ret
  | .spinRevert _ _ _ | .revert _ _ => False

theorem AllOrNothing.all {before own : ℕ → ℕ} {args : Multiple} {status : mrapi_status_t}
    (hall : args.waitall = true) (h : Gained before own args.sems) :
    AllOrNothing before own args ⟨true, status, none⟩ := by
  unfold AllOrNothing
  rw [if_pos rfl, if_pos hall]
  exact h

theorem AllOrNothing.one {before own : ℕ → ℕ} {args : Multiple} {status : mrapi_status_t}
    {s : ℕ} (hall : ¬ args.waitall = true) (hs : s ∈ args.sems) (h : Gained before own [s]) :
    AllOrNothing before own args ⟨true, status, none⟩ := by
  unfold AllOrNothing
  rw [if_pos rfl, if_neg hall]
  exact ⟨s, hs, h⟩

/-- A lock on semaphore `s` is gained. -/
theorem Gained.lock {before own own' : ℕ → ℕ} {l l' : List ℕ} {s : ℕ} (h : Gained before own l)
    (hs : s ∉ l) (hl : ∀ t, t ∈ l' ↔ t ∈ l ∨ t = s) (hself : own' s = own s + 1)
    (hother : ∀ t, t ≠ s → own' t = own t) : Gained before own' l' := by
  intro t
  by_cases ht : t = s
  · subst ht
    have hmem : t ∈ l' := (hl t).mpr (.inr rfl)
    rw [hself, h t, if_neg hs, if_pos hmem]
  · rw [hother t ht, h t]
    have hiff : t ∈ l' ↔ t ∈ l := by rw [hl t, or_iff_left ht]
    by_cases hmem : t ∈ l
    · rw [if_pos hmem, if_pos (hiff.mpr hmem)]
    · rw [if_neg hmem, if_neg fun h' => hmem (hiff.mp h')]

/-- The lock of one semaphore: it is gained, or nothing has happened. -/
theorem acquire_one {c : Node} {sem : mrapi_sem_t} (h : Counted sem) :
    (CanTake sem ∧
      (mrapi_impl_acquire_lock_locked c sem 1 MRAPI_SUCCESS).2.1 = 1 ∧
      (mrapi_impl_acquire_lock_locked c sem 1 MRAPI_SUCCESS).1.own c = sem.own c + 1) ∨
    (¬ CanTake sem ∧
      (mrapi_impl_acquire_lock_locked c sem 1 MRAPI_SUCCESS).2.1 = 0 ∧
      (mrapi_impl_acquire_lock_locked c sem 1 MRAPI_SUCCESS).1.own c = sem.own c) := by
  have hexact := acquire_exact h c Nat.one_pos MRAPI_SUCCESS
  obtain ⟨n, ys, hchanged, heq, hn⟩ := acquire_eq c sem 1 MRAPI_SUCCESS
  have hown := own_acquire hchanged
  have hcount := h.count
  have hcast := h.limit_cast
  rw [Nat.cast_one] at hexact
  by_cases hle : sem.taken + 1 ≤ sem.limit
  · rw [if_pos hle] at hexact
    left
    refine ⟨?_, hexact, ?_⟩
    · unfold CanTake
      omega
    · have hone : n = 1 := by omega
      rw [heq]
      change ys.countP (mrapi_lock_t.mine c) = sem.own c + 1
      rw [hown, hone]
  · rw [if_neg hle] at hexact
    right
    refine ⟨?_, hexact, ?_⟩
    · unfold CanTake
      omega
    · have hzero : n = 0 := by omega
      rw [heq]
      change ys.countP (mrapi_lock_t.mine c) = sem.own c
      rw [hown, hzero, Nat.add_zero]

theorem acquire_othersKept {c : Node} {w : World} (h : ∀ s, Counted (w.sems s)) (s : ℕ) :
    OthersKept c w
      (w.setSem s (mrapi_impl_acquire_lock_locked c (w.sems s) 1 MRAPI_SUCCESS).1) := by
  refine .setSem ((h s).acquire c 1 MRAPI_SUCCESS) ?_
  obtain ⟨n, ys, hchanged, heq, -⟩ := acquire_eq c (w.sems s) 1 MRAPI_SUCCESS
  intro c' hne
  rw [heq]
  exact own_acquire_other (Ne.symm hne) hchanged

theorem World.own_setSem (w : World) (c : Node) (s : ℕ) (sem : mrapi_sem_t) :
    (w.setSem s sem).own c s = sem.own c ∧
      ∀ t, t ≠ s → (w.setSem s sem).own c t = w.own c t := by
  constructor
  · change (Function.update w.sems s sem s).own c = sem.own c
    rw [Function.update_self]
  · intro t ht
    change (Function.update w.sems s sem t).own c = (w.sems t).own c
    rw [Function.update_of_ne ht]

theorem World.own_congr {w w' : World} (h : w'.sems = w.sems) (c : Node) :
    w'.own c = w.own c := by
  funext s
  rw [World.own, World.own, h]

/-- After the guards: the caller has nothing yet. -/
theorem Multiple.entered_ok {before own : ℕ → ℕ} {args : Multiple} {time : ℕ} {again : Bool}
    (h : Gained before own []) :
    StageOk before own args (args.entered time again).1 (args.entered time again).2 := by
  unfold Multiple.entered
  split
  · exact h
  · refine ⟨Nat.zero_le _, ?_⟩
    split
    · exact ⟨h, rfl⟩
    · exact ⟨h, rfl⟩

/-- An attempt that got nothing, while something is asked for. -/
theorem Multiple.attempted_zero {before own : ℕ → ℕ} {args : Multiple} {time : ℕ}
    (hlen : args.waitall = true → 0 < args.sems.length) (h : Gained before own []) :
    StageOk before own args time (args.attempted 0) := by
  unfold Multiple.attempted
  split
  · rename_i hdone
    exfalso
    rcases hdone with ⟨hall, hzero⟩ | ⟨-, hpos⟩
    · have hpos := hlen hall
      omega
    · exact Int.lt_irrefl 0 hpos
  · exact h

/-- Without garbage the spin words guard the empty list only. -/
theorem Multiple.spin_nil {args : Multiple} (hgarbage : args.garbage = false)
    (hguard : args.spinlock_guard = true) (i : ℕ) : args.sems[i]? = none := by
  unfold Multiple.spinlock_guard at hguard
  rw [hgarbage] at hguard
  cases hsems : args.sems with
  | nil => rfl
  | cons s sems =>
    rw [hsems] at hguard
    cases hguard

/-- Under the condition an attempt that fails is at its first position. -/
theorem Multiple.fails_first {c : Node} {sem : mrapi_sem_t} {i : ℕ} (h : Counted sem)
    (hfailed : (mrapi_impl_acquire_lock_locked c sem 1 MRAPI_SUCCESS).2.1 ≠ 1)
    (htake : 0 < i → CanTake sem) : i = 0 := by
  by_contra hpos
  rcases acquire_one (c := c) h with ⟨-, hone, -⟩ | ⟨hcannot, -, -⟩
  · exact hfailed hone
  · exact hcannot (htake (Nat.pos_of_ne_zero hpos))

/-- **A step of `mrapi_impl_sem_lock_multiple`** under the condition. -/
theorem Multiple.step_ok {c : Node} {w : World} {args : Multiple} {time : ℕ}
    {stage : MultipleStage} {y : World × ℕ × MultipleStage} {before : ℕ → ℕ}
    (h : args.step c false w time stage = some y) (hcounted : ∀ s, Counted (w.sems s))
    (hgarbage : args.garbage = false)
    (hspin : stage.spinning = true → args.spinlock_guard = true)
    (hnodup : args.sems.Nodup) (hstage : StageOk before (w.own c) args time stage)
    (htake : ∀ i n, stage = .acquire i n → args.waitall = true → 0 < i →
      ∀ s ∈ args.sems[i]?, CanTake (w.sems s)) :
    StageOk before (y.1.own c) args y.2.1 y.2.2 ∧ OthersKept c w y.1 := by
  cases stage with
  | pre again =>
    dsimp only [Multiple.step] at h
    split at h
    · obtain rfl := Option.some.inj h
      exact ⟨hstage, .same rfl⟩
    · obtain ⟨v, hv, rfl⟩ := Option.map_eq_some_iff.mp h
      have hsems : v.sems = w.sems := by
        unfold sys_sem_lock_multiple at hv
        split at hv
        · obtain rfl := Option.some.inj hv
          rfl
        · cases hv
      refine ⟨?_, .same hsems⟩
      dsimp only
      rw [World.own_congr hsems]
      exact Multiple.entered_ok hstage.2
  | spin again i =>
    -- the guard is the spin words of an empty list
    have hnone : args.sems[i]? = none := Multiple.spin_nil hgarbage (hspin rfl) i
    dsimp only [Multiple.step] at h
    rw [hnone] at h
    obtain rfl := Option.some.inj h
    exact ⟨Multiple.entered_ok hstage.2, .same rfl⟩
  | spinRevert again i j => exact hstage.elim
  | acquire i total_added =>
    obtain ⟨hi, hgained⟩ := hstage
    dsimp only [Multiple.step] at h
    cases hs : args.sems[i]? with
    | none =>
      rw [hs] at h
      obtain rfl := Option.some.inj h
      refine ⟨?_, .same rfl⟩
      have hlen : i = args.sems.length := Nat.le_antisymm hi (List.getElem?_eq_none_iff.mp hs)
      dsimp only
      cases hall : args.waitall with
      | true =>
        rw [hall, if_pos rfl] at hgained
        obtain ⟨hgained, rfl⟩ := hgained
        unfold Multiple.attempted
        rw [if_pos (.inl ⟨hall, by rw [hlen]⟩)]
        rw [hlen, List.take_length] at hgained
        exact AllOrNothing.all hall hgained
      | false =>
        rw [hall, if_neg Bool.false_ne_true] at hgained
        obtain ⟨hgained, rfl⟩ := hgained
        exact Multiple.attempted_zero (fun h' => by rw [hall] at h'; cases h') hgained
    | some s =>
      rw [hs] at h
      dsimp only at h
      obtain ⟨hilt, hsi⟩ := List.getElem?_eq_some_iff.mp hs
      have hkept := acquire_othersKept (c := c) hcounted s
      obtain ⟨hself, hother⟩ := w.own_setSem c s
        (mrapi_impl_acquire_lock_locked c (w.sems s) 1 MRAPI_SUCCESS).1
      rcases acquire_one (c := c) (hcounted s) with ⟨hcan, hone, hown⟩ | ⟨hcannot, hzero, hown⟩
      · -- the lock is gained
        rw [if_neg (not_not.mpr hone), hone] at h
        rw [hown] at hself
        split at h
        · rename_i hall
          obtain rfl := Option.some.inj h
          rw [hall, if_pos rfl] at hgained
          obtain ⟨hgained, rfl⟩ := hgained
          refine ⟨⟨hilt, ?_⟩, hkept⟩
          rw [hall, if_pos rfl]
          refine ⟨hgained.lock (s := s) ?_ ?_ hself hother, by push_cast; rfl⟩
          · intro hmem
            obtain ⟨j, hj, hjs⟩ := List.mem_take_iff_getElem.mp hmem
            have hji := (hnodup.getElem_inj_iff).mp (hjs.trans hsi.symm)
            omega
          · intro t
            rw [List.take_add_one, hs, List.mem_append]
            exact or_congr Iff.rfl (by simp [eq_comm])
        · rename_i hall
          obtain rfl := Option.some.inj h
          rw [if_neg hall] at hgained
          obtain ⟨hgained, rfl⟩ := hgained
          refine ⟨?_, hkept⟩
          have hdone : args.attempted (0 + 1) = .post 0 ⟨true, MRAPI_SUCCESS, none⟩ := by
            unfold Multiple.attempted
            exact if_pos (.inr ⟨hall, by omega⟩)
          dsimp only
          rw [hdone]
          refine AllOrNothing.one hall (List.mem_of_getElem? hs)
            (hgained.lock List.not_mem_nil ?_ hself hother)
          intro t
          simp
      · -- there is none left
        have hsame : (w.setSem s
            (mrapi_impl_acquire_lock_locked c (w.sems s) 1 MRAPI_SUCCESS).1).own c = w.own c := by
          funext t
          by_cases ht : t = s
          · rw [ht, hself, hown]
            rfl
          · exact hother t ht
        rw [if_pos (by rw [hzero]; decide)] at h
        split at h
        · rename_i hall
          obtain rfl := Option.some.inj h
          have hfirst := Multiple.fails_first (c := c) (hcounted s) (by rw [hzero]; decide)
            (fun hpos => htake i total_added rfl hall hpos s hs)
          rw [hall, if_pos rfl] at hgained
          obtain ⟨hgained, -⟩ := hgained
          rw [hfirst, List.take_zero] at hgained
          refine ⟨?_, hkept⟩
          dsimp only
          rw [hsame, hfirst, List.take_zero]
          exact Multiple.attempted_zero (fun _ => by omega) hgained
        · rename_i hall
          obtain rfl := Option.some.inj h
          rw [if_neg hall] at hgained
          refine ⟨⟨hilt, ?_⟩, hkept⟩
          dsimp only
          rw [hsame, if_neg hall]
          exact ⟨hgained.1, rfl⟩
  | revert todo x => exact hstage.elim
  | yield k =>
    dsimp only [Multiple.step] at h
    split at h
    · obtain rfl := Option.some.inj h
      have hsems := post_sems w
      refine ⟨?_, .same (hsems _)⟩
      dsimp only
      rw [World.own_congr (hsems _)]
      exact hstage
    · obtain rfl := Option.some.inj h
      exact ⟨⟨(fun h => nomatch h), hstage⟩, .same rfl⟩
  | post k ret =>
    dsimp only [Multiple.step] at h
    split at h
    · obtain rfl := Option.some.inj h
      have hsems := post_sems w
      refine ⟨?_, .same (hsems _)⟩
      dsimp only
      rw [World.own_congr (hsems _)]
      exact hstage
    · obtain rfl := Option.some.inj h
      exact ⟨hstage, .same rfl⟩
  | returned ret => cases h

/-! ## Every call -/

/-- What is true of a thread, by the call that it is in. -/
def ThreadOk (c : Node) (w : World) (before : ℕ → ℕ) : ThreadPc → Prop
  | .single x => SectionOk c w.sems x
  | .unlockMultiple _ _ x => SectionOk c w.sems x ∧ x.returned = none
  | .multiple args time stage => args.sems.Nodup ∧ StageOk before (w.own c) args time stage
  | .create _ _ _ => False

structure MultipleInv (x : Sys) : Prop where
  plain : PlainInv x
  counted : ∀ s, Counted (x.w.sems s)
  thread : ∀ c, ThreadOk c x.w (x.before c) (x.pc c)

theorem MultipleInv.init {sems : ℕ → mrapi_sem_t} (hsems : ∀ s, Counted (sems s))
    (address : Node → ℕ → ℕ) : MultipleInv (init sems (fun _ => false) address) :=
  ⟨.init sems address, hsems, fun _ => .start trivial trivial⟩

/-- A thread is not concerned by the steps of another one. -/
theorem ThreadOk.others {c c' : Node} {w w' : World} {before : ℕ → ℕ} {pc : ThreadPc}
    (h : ThreadOk c' w before pc) (hkept : OthersKept c w w') (hne : c' ≠ c) :
    ThreadOk c' w' before pc := by
  have hsection : ∀ x, SectionOk c' w.sems x → SectionOk c' w'.sems x := by
    intro x hx
    exact ⟨hx.locks, hx.inv.others (hkept.own c' hne x.s).le, hx.going⟩
  cases pc with
  | single x => exact hsection x h
  | unlockMultiple todo rc x => exact ⟨hsection x h.1, h.2⟩
  | multiple args time stage =>
    have hown : w'.own c' = w.own c' := funext (hkept.own c' hne)
    refine ⟨h.1, ?_⟩
    rw [hown]
    exact h.2
  | create args guard stage => exact h.elim

theorem unlockFrom_ok (c : Node) (w : World) (before : ℕ → ℕ) (todo : List ℕ) (rc : Bool)
    (status : mrapi_status_t) : ThreadOk c w before (unlockFrom todo rc status) := by
  induction todo generalizing rc status with
  | nil => exact .start trivial trivial
  | cons hndl todo ih =>
    unfold unlockFrom
    dsimp only
    split
    · exact ⟨.start trivial ⟨1, rfl, by decide, by simp⟩, rfl⟩
    · exact ih false status

/-- A call begins. -/
theorem Call.start_ok {c : Node} {w : World} {call : Call} {x : Sys}
    (hguard : NoRevert x (.call c call false)) :
    ThreadOk c w (w.own c) (call.start false) := by
  cases call with
  | use hndl op =>
    simp only [Call.start]
    split
    · exact .start hguard (op.start_inv c _)
    · exact .start trivial trivial
  | sem_unlock_multiple sem => exact unlockFrom_ok _ _ _ _ _ _
  | sem_lock_multiple sem waitall timeout =>
    simp only [Call.start]
    split
    · exact ⟨hguard, fun _ => rfl, fun s => by rw [if_neg List.not_mem_nil, Nat.add_zero]⟩
    · exact .start trivial trivial
  | create args guard => exact hguard.elim

/-- **A step of a thread** under the condition. -/
theorem threadStep_ok {c : Node} {w : World} {pc : ThreadPc} {y : World × ThreadPc}
    {before : ℕ → ℕ} (h : threadStep c false w pc = some y)
    (hcounted : ∀ s, Counted (w.sems s)) (hplain : pc.Plain) (hspin : pc.spinning = false)
    (hpc : ThreadOk c w before pc)
    (htake : ∀ args time i n, pc = .multiple args time (.acquire i n) → args.waitall = true →
      0 < i → ∀ s ∈ args.sems[i]?, CanTake (w.sems s)) :
    ThreadOk c y.1 before y.2 ∧ OthersKept c w y.1 := by
  cases pc with
  | single x =>
    obtain ⟨v, hv, rfl⟩ := Option.map_eq_some_iff.mp h
    exact Section.step_ok hv hcounted hpc
  | unlockMultiple todo rc x =>
    obtain ⟨v, hv, rfl⟩ := Option.map_eq_some_iff.mp h
    obtain ⟨hx, hkept⟩ := Section.step_ok hv hcounted hpc.1
    refine ⟨?_, hkept⟩
    dsimp only
    split
    · exact unlockFrom_ok _ _ _ _ _ _
    · exact unlockFrom_ok _ _ _ _ _ _
    · rename_i hgoing
      exact ⟨hx, hgoing⟩
  | multiple args time stage =>
    obtain ⟨v, hv, rfl⟩ := Option.map_eq_some_iff.mp h
    have hspin' : stage.spinning = true → args.spinlock_guard = true := by
      intro hstage
      change (stage.spinning && !args.spinlock_guard) = false at hspin
      rw [hstage] at hspin
      simpa using hspin
    obtain ⟨hstage, hkept⟩ := Multiple.step_ok hv hcounted hplain.1 hspin' hpc.1 hpc.2
      (fun i n hs => htake args time i n (by rw [hs]))
    exact ⟨⟨hpc.1, hstage⟩, hkept⟩
  | create args guard stage => exact hpc.elim

/-- **One step** of the system under the condition. -/
theorem MultipleInv.step {x x' : Sys} {a : Label} (h : MultipleInv x)
    (hstep : step x a = some x') (hguard : MultipleGuard x a x') : MultipleInv x' := by
  have hplain' := h.plain.step hstep hguard.1
  obtain ⟨hplain, hnorevert⟩ := hguard
  cases a with
  | call c call garbage =>
    have hgarbage : garbage = false := by
      cases call with
      | create args guard => exact hplain.2
      | _ => exact hplain
    subst hgarbage
    simp only [LockGuard.step] at hstep
    split at hstep
    · obtain rfl := Option.some.inj hstep
      refine ⟨hplain', h.counted, ?_⟩
      intro c'
      dsimp only
      by_cases hc : c' = c
      · rw [hc, Function.update_self, Function.update_self]
        exact Call.start_ok hnorevert
      · rw [Function.update_of_ne hc, Function.update_of_ne hc]
        exact h.thread c'
    · cases hstep
  | step c garbage =>
    obtain rfl : garbage = false := hplain
    obtain ⟨y, hy, rfl⟩ := Option.map_eq_some_iff.mp hstep
    have htake : ∀ args time i n, x.pc c = .multiple args time (.acquire i n) →
        args.waitall = true → 0 < i → ∀ s ∈ args.sems[i]?, CanTake (x.w.sems s) := by
      intro args time i n hpc
      unfold NoRevert at hnorevert
      dsimp only at hnorevert
      rw [hpc] at hnorevert
      exact hnorevert
    obtain ⟨hthread, hkept⟩ := threadStep_ok hy h.counted (h.plain.plain c)
      (h.plain.guards.spins c) (h.thread c) htake
    refine ⟨hplain', hkept.counted h.counted, ?_⟩
    intro c'
    dsimp only
    by_cases hc : c' = c
    · rw [hc, Function.update_self]
      exact hthread
    · rw [Function.update_of_ne hc]
      exact (h.thread c').others hkept hc

/-- A call that has returned is all or nothing. -/
theorem MultipleInv.lockMultipleOk {x : Sys} (h : MultipleInv x) : LockMultipleOk x := by
  intro c args time ret hpc
  have hthread := h.thread c
  rw [hpc] at hthread
  exact hthread.2

end MxApi.LockGuard
