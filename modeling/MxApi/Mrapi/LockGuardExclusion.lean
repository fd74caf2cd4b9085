/-
Who is in a critical section of the lock table, and by which guard.

[`ThreadPc.uses`] lists the entries that a thread is between the "pre" and the "post" of.
The system semaphores are held by exactly the threads that are in a critical section by
them, in every run ([`GuardInv.step`]). That is not yet exclusion, for a thread that uses
the word `spin` is let in beside them.
-/
import MxApi.Lib.Holders
import MxApi.Mrapi.LockGuard

set_option autoImplicit false

namespace MxApi.LockGuard

open Lib LockTable LockTable.lock_type LockTable.mrapi_status_t

/-! ## Critical sections -/

/-- The entry whose critical section a call is in, and whether by the word `spin`. -/
def Section.uses (x : Section) : List (ℕ × Bool) :=
  match x.stage with
  | .attrPost => [(x.s, false)]
  | .body | .yieldPost _ | .post _ => [(x.s, x.spinlock_guard)]
  | _ => []

/-- The guards of a list of entries. -/
def Multiple.usesOf (args : Multiple) (sems : List ℕ) : List (ℕ × Bool) :=
  sems.map fun s => (s, args.spinlock_guard)

def Multiple.uses (args : Multiple) : MultipleStage → List (ℕ × Bool)
  | .acquire _ _ => args.usesOf args.sems
  | .revert _ x => args.usesOf args.sems ++ x.uses
  | .yield k | .post k _ => args.usesOf (args.sems.drop k)
  | _ => []

/-- The entries that a thread is between the "pre" and the "post" of, each with the
guard. -/
def ThreadPc.uses : ThreadPc → List (ℕ × Bool)
  | .single x | .unlockMultiple _ _ x => x.uses
  | .multiple args _ stage => args.uses stage
  | .create _ _ _ => []

/-- The system semaphores among them. -/
def sysSems (uses : List (ℕ × Bool)) : List ℕ :=
  (uses.filter fun u => !u.2).map Prod.fst

@[simp] theorem sysSems_append (us us' : List (ℕ × Bool)) :
    sysSems (us ++ us') = sysSems us ++ sysSems us' := by
  rw [sysSems, List.filter_append, List.map_append]
  rfl

theorem mem_sysSems {us : List (ℕ × Bool)} {s : ℕ} : s ∈ sysSems us ↔ (s, false) ∈ us := by
  unfold sysSems
  constructor
  · intro h
    obtain ⟨u, hu, rfl⟩ := List.mem_map.mp h
    obtain ⟨hmem, hguard⟩ := List.mem_filter.mp hu
    obtain ⟨s, guard⟩ := u
    obtain rfl : guard = false := by simpa using hguard
    exact hmem
  · intro h
    exact List.mem_map.mpr ⟨(s, false), List.mem_filter.mpr ⟨h, rfl⟩, rfl⟩

/-- A list of entries under one guard. -/
theorem sysSems_usesOf (args : Multiple) (sems : List ℕ) :
    sysSems (args.usesOf sems) = if args.spinlock_guard then [] else sems := by
  unfold sysSems Multiple.usesOf
  cases args.spinlock_guard with
  | true =>
    rw [if_pos rfl, List.filter_eq_nil_iff.mpr, List.map_nil]
    intro u hu
    obtain ⟨s, -, rfl⟩ := List.mem_map.mp hu
    exact Bool.false_ne_true
  | false =>
    rw [if_neg (by decide), List.filter_eq_self.mpr, List.map_map]
    · exact List.map_id sems
    · intro u hu
      obtain ⟨s, -, rfl⟩ := List.mem_map.mp hu
      rfl

/-! ## One step and the system semaphores -/

/-- A thread goes from the guards `us` to the guards `us'`. -/
abbrev Moves (c : Node) (w w' : World) (us us' : List (ℕ × Bool)) : Prop :=
  Transfer c w.sysSem w'.sysSem (sysSems us) (sysSems us')

/-- The guard of one entry is got, beside those that the thread has already. -/
theorem pre_moves {c : Node} {w w' : World} {ref : mrapi_impl_sem_ref_t}
    (h : mrapi_impl_access_database_pre c w ref = some w') (us : List (ℕ × Bool)) :
    Moves c w w' us (us ++ [(ref.member, ref.spinlock_guard)]) := by
  unfold mrapi_impl_access_database_pre at h
  rw [Moves, sysSems_append]
  split at h
  · rename_i hguard
    split at h
    · obtain rfl := Option.some.inj h
      rw [hguard]
      change Transfer c w.sysSem w.sysSem (sysSems us) (sysSems us ++ [])
      rw [List.append_nil]
      exact .same _ _ _
    · cases h
  · rename_i hguard
    rw [Bool.not_eq_true] at hguard
    split at h
    · rename_i hfree
      obtain rfl := Option.some.inj h
      rw [hguard]
      exact .lock hfree
    · cases h

/-- And given back. -/
theorem post_moves (c : Node) (w : World) (ref : mrapi_impl_sem_ref_t)
    {us us' : List (ℕ × Bool)}
    (hus : us.Perm ((ref.member, ref.spinlock_guard) :: us')) :
    Moves c w (mrapi_impl_access_database_post w ref) us us' := by
  have hperm : (sysSems us).Perm (sysSems ((ref.member, ref.spinlock_guard) :: us')) :=
    (hus.filter _).map _
  unfold mrapi_impl_access_database_post
  cases hguard : ref.spinlock_guard with
  | true =>
    rw [hguard] at hperm
    rw [if_pos rfl]
    refine ⟨fun hown => ⟨fun r => ?_, hperm.nodup_iff.mp hown.2⟩, fun _ _ _ _ => Iff.rfl⟩
    exact (hown.1 r).trans hperm.mem_iff
  | false =>
    rw [hguard] at hperm
    rw [if_neg (by decide)]
    exact .unlock hperm

/-- A call on one entry, beside the guards `us` that the thread has already. -/
theorem Section.step_moves {c : Node} {garbage : Bool} {w w' : World} {x x' : Section}
    (h : x.step c garbage w = some (w', x')) (us : List (ℕ × Bool)) :
    Moves c w w' (us ++ x.uses) (us ++ x'.uses) := by
  obtain ⟨s, pc, guard, stage⟩ := x
  unfold Section.step at h
  cases stage with
  | attrPre =>
    dsimp only at h
    split at h
    · cases h
    · obtain ⟨v, hv, heq⟩ := Option.map_eq_some_iff.mp h
      cases heq
      have hmoves := pre_moves hv us
      change Moves c w w' (us ++ []) (us ++ [(s, false)])
      rw [List.append_nil]
      exact hmoves
  | attrPost =>
    cases h
    refine post_moves c w ⟨s, false⟩ ?_
    change (us ++ [(s, false)]).Perm ((s, false) :: (us ++ []))
    rw [List.append_nil]
    exact List.perm_append_singleton (s, false) us
  | pre =>
    obtain ⟨v, hv, heq⟩ := Option.map_eq_some_iff.mp h
    cases heq
    have hmoves := pre_moves hv us
    change Moves c w w' (us ++ []) (us ++ [(s, guard)])
    rw [List.append_nil]
    exact hmoves
  | body =>
    obtain ⟨o, ho, heq⟩ := Option.map_eq_some_iff.mp h
    cases heq
    have huses : ∀ b : Bool, Section.uses ⟨s, pc, guard,
        if b then .yieldPost o.pc else .post o.pc⟩ = [(s, guard)] := by
      intro b
      cases b <;> rfl
    rw [huses]
    exact .same _ _ _
  | yieldPost next =>
    cases h
    refine post_moves c w ⟨s, guard⟩ ?_
    change (us ++ [(s, guard)]).Perm ((s, guard) :: (us ++ []))
    rw [List.append_nil]
    exact List.perm_append_singleton (s, guard) us
  | yieldPre next =>
    obtain ⟨v, hv, heq⟩ := Option.map_eq_some_iff.mp h
    cases heq
    have hmoves := pre_moves hv us
    have huses : (Section.resume ⟨s, pc, guard, .yieldPre next⟩ next).uses = [(s, guard)] := by
      cases next <;> rfl
    rw [huses]
    change Moves c w w' (us ++ []) (us ++ [(s, guard)])
    rw [List.append_nil]
    exact hmoves
  | post next =>
    cases h
    refine post_moves c w ⟨s, guard⟩ ?_
    change (us ++ [(s, guard)]).Perm ((s, guard) :: (us ++ []))
    rw [List.append_nil]
    exact List.perm_append_singleton (s, guard) us

/-! ## One step of `mrapi_impl_sem_lock_multiple` -/

theorem Multiple.attempted_uses (args : Multiple) (n : ℤ) :
    args.uses (args.attempted n) = args.usesOf args.sems := by
  unfold Multiple.attempted
  split <;> rfl

theorem Multiple.reverting_uses (args : Multiple) (todo : List ℕ) :
    args.uses (args.reverting todo) = args.usesOf args.sems := by
  cases todo with
  | nil => exact args.attempted_uses 0
  | cons s todo =>
    change args.usesOf args.sems ++ [] = args.usesOf args.sems
    rw [List.append_nil]

theorem Multiple.entered_uses (args : Multiple) (time : ℕ) (again : Bool) :
    args.uses (args.entered time again).2 = args.usesOf args.sems := by
  unfold Multiple.entered
  split <;> rfl

/-- Guard `k` is given back. -/
theorem Multiple.drop_moves (c : Node) (w : World) (args : Multiple) {k s : ℕ}
    (hs : args.sems[k]? = some s) :
    Moves c w (mrapi_impl_access_database_post w (args.ref s)) (args.usesOf (args.sems.drop k))
      (args.usesOf (args.sems.drop (k + 1))) := by
  obtain ⟨hk, rfl⟩ := List.getElem?_eq_some_iff.mp hs
  refine post_moves c w (args.ref args.sems[k]) ?_
  rw [List.drop_eq_getElem_cons hk]
  exact .refl _

/-- The stages of the loops over the spin words. -/
def MultipleStage.spinning : MultipleStage → Bool
  | .spin _ _ | .spinRevert _ _ _ => true
  | _ => false

theorem Multiple.attempted_spinning (args : Multiple) (n : ℤ) :
    (args.attempted n).spinning = false := by
  unfold Multiple.attempted
  split <;> rfl

theorem Multiple.reverting_spinning (args : Multiple) (todo : List ℕ) :
    (args.reverting todo).spinning = false := by
  cases todo with
  | nil => exact args.attempted_spinning 0
  | cons s todo => rfl

theorem Multiple.entered_spinning (args : Multiple) (time : ℕ) (again : Bool) :
    (args.entered time again).2.spinning = false := by
  unfold Multiple.entered
  split <;> rfl

/-- The spin words are tried only where all references say so. -/
theorem Multiple.step_spinning {c : Node} {garbage : Bool} {w : World} {args : Multiple}
    {time : ℕ} {stage : MultipleStage} {y : World × ℕ × MultipleStage}
    (h : args.step c garbage w time stage = some y)
    (hspin : stage.spinning = true → args.spinlock_guard = true) :
    y.2.2.spinning = true → args.spinlock_guard = true := by
  cases stage with
  | pre again =>
    dsimp only [Multiple.step] at h
    split at h
    · rename_i hguard
      exact fun _ => hguard
    · obtain ⟨v, -, rfl⟩ := Option.map_eq_some_iff.mp h
      intro hy
      rw [args.entered_spinning] at hy
      cases hy
  | spin again i => exact fun _ => hspin rfl
  | spinRevert again i j => exact fun _ => hspin rfl
  | acquire i total_added =>
    have hnot : y.2.2.spinning = false := by
      dsimp only [Multiple.step] at h
      split at h
      · obtain rfl := Option.some.inj h
        exact args.attempted_spinning _
      · split_ifs at h <;> obtain rfl := Option.some.inj h
        · exact args.reverting_spinning _
        · rfl
        · rfl
        · exact args.attempted_spinning _
    intro hy
    rw [hnot] at hy
    cases hy
  | revert todo x =>
    obtain ⟨v, -, rfl⟩ := Option.map_eq_some_iff.mp h
    intro hy
    dsimp only at hy
    split at hy
    · rw [args.reverting_spinning] at hy
      cases hy
    · cases hy
  | yield k =>
    dsimp only [Multiple.step] at h
    split at h <;> (obtain rfl := Option.some.inj h; exact fun hy => nomatch hy)
  | post k ret =>
    dsimp only [Multiple.step] at h
    split at h <;> (obtain rfl := Option.some.inj h; exact fun hy => nomatch hy)
  | returned ret => cases h

/-- A call that has returned is in no critical section. -/
theorem Section.uses_of_returned {x : Section} (h : x.returned.isSome = true) : x.uses = [] := by
  obtain ⟨s, pc, guard, stage⟩ := x
  cases stage with
  | attrPre => rfl
  | _ => cases h

theorem Multiple.step_moves {c : Node} {garbage : Bool} {w : World} {args : Multiple}
    {time : ℕ} {stage : MultipleStage} {y : World × ℕ × MultipleStage}
    (h : args.step c garbage w time stage = some y)
    (hspin : stage.spinning = true → args.spinlock_guard = true) :
    Moves c w y.1 (args.uses stage) (args.uses y.2.2) := by
  cases stage with
  | pre again =>
    dsimp only [Multiple.step] at h
    split at h
    · obtain rfl := Option.some.inj h
      exact .same _ _ _
    · rename_i hguard
      obtain ⟨v, hv, rfl⟩ := Option.map_eq_some_iff.mp h
      unfold sys_sem_lock_multiple at hv
      split at hv
      · rename_i hfree
        obtain rfl := Option.some.inj hv
        rw [Moves, args.entered_uses, sysSems_usesOf, if_neg hguard]
        exact .take hfree.1 hfree.2
      · cases hv
  | spin again i =>
    have hguard : args.spinlock_guard = true := hspin rfl
    dsimp only [Multiple.step] at h
    split at h
    · obtain rfl := Option.some.inj h
      rw [Moves, args.entered_uses, sysSems_usesOf, if_pos hguard]
      exact .same _ _ _
    · split at h
      · rename_i v hv
        obtain rfl := Option.some.inj h
        have hsame : v.sysSem = w.sysSem := by
          unfold mrapi_impl_access_database_pre at hv
          rw [if_pos rfl] at hv
          split at hv
          · obtain rfl := Option.some.inj hv
            rfl
          · cases hv
        change Transfer c w.sysSem v.sysSem [] []
        rw [hsame]
        exact .same _ _ _
      · obtain rfl := Option.some.inj h
        exact .same _ _ _
  | spinRevert again i j =>
    dsimp only [Multiple.step] at h
    split at h <;> (obtain rfl := Option.some.inj h; exact .same _ _ _)
  | acquire i total_added =>
    dsimp only [Multiple.step] at h
    split at h
    · obtain rfl := Option.some.inj h
      rw [args.attempted_uses]
      exact .same _ _ _
    · split_ifs at h <;> obtain rfl := Option.some.inj h
      · rw [args.reverting_uses]
        exact .same _ _ _
      · exact .same _ _ _
      · exact .same _ _ _
      · rw [args.attempted_uses]
        exact .same _ _ _
  | revert todo x =>
    obtain ⟨⟨v, x'⟩, hx, rfl⟩ := Option.map_eq_some_iff.mp h
    have hmoves := Section.step_moves hx (args.usesOf args.sems)
    dsimp only
    split
    · rename_i hreturned
      rw [args.reverting_uses]
      rw [Section.uses_of_returned hreturned, List.append_nil] at hmoves
      exact hmoves
    · exact hmoves
  | yield k =>
    dsimp only [Multiple.step] at h
    split at h
    · rename_i s hs
      obtain rfl := Option.some.inj h
      exact args.drop_moves c w hs
    · rename_i hnone
      obtain rfl := Option.some.inj h
      change Moves c w w (args.usesOf (args.sems.drop k)) []
      rw [List.drop_eq_nil_of_le (List.getElem?_eq_none_iff.mp hnone)]
      exact .same _ _ _
  | post k ret =>
    dsimp only [Multiple.step] at h
    split at h
    · rename_i s hs
      obtain rfl := Option.some.inj h
      exact args.drop_moves c w hs
    · rename_i hnone
      obtain rfl := Option.some.inj h
      change Moves c w w (args.usesOf (args.sems.drop k)) []
      rw [List.drop_eq_nil_of_le (List.getElem?_eq_none_iff.mp hnone)]
      exact .same _ _ _
  | returned ret => cases h

/-! ## One step of the system -/

def ThreadPc.spinning : ThreadPc → Bool
  | .multiple args _ stage => stage.spinning && !args.spinlock_guard
  | _ => false

/-- A create touches no guard of `sems_semid`. -/
theorem createStep_sysSem {c : Node} {w : World} {args : Creation} {guard : Bool}
    {stage : CreateStage} {y : World × CreateStage}
    (h : createStep c w args guard stage = some y) : y.1.sysSem = w.sysSem := by
  cases stage with
  | pre =>
    dsimp only [createStep] at h
    split at h
    · obtain rfl := Option.some.inj h
      rfl
    · cases h
  | search =>
    dsimp only [createStep] at h
    split at h
    · obtain rfl := Option.some.inj h
      rfl
    · split at h <;> (obtain rfl := Option.some.inj h; rfl)
  | clear s spin =>
    obtain rfl := Option.some.inj h
    rfl
  | restore s spin =>
    obtain rfl := Option.some.inj h
    dsimp only
    split <;> rfl
  | post ret =>
    obtain rfl := Option.some.inj h
    rfl
  | returned ret => cases h

theorem unlockFrom_uses (todo : List ℕ) (rc : Bool) (status : mrapi_status_t) :
    (unlockFrom todo rc status).uses = [] := by
  induction todo generalizing rc status with
  | nil => rfl
  | cons hndl todo ih =>
    unfold unlockFrom
    dsimp only
    split
    · rfl
    · exact ih false status

theorem unlockFrom_spinning (todo : List ℕ) (rc : Bool) (status : mrapi_status_t) :
    (unlockFrom todo rc status).spinning = false := by
  induction todo generalizing rc status with
  | nil => rfl
  | cons hndl todo ih =>
    unfold unlockFrom
    dsimp only
    split
    · rfl
    · exact ih false status

theorem threadStep_moves {c : Node} {garbage : Bool} {w : World} {pc : ThreadPc}
    {y : World × ThreadPc} (h : threadStep c garbage w pc = some y)
    (hspin : pc.spinning = false) :
    Moves c w y.1 pc.uses y.2.uses ∧ y.2.spinning = false := by
  cases pc with
  | single x =>
    obtain ⟨⟨v, x'⟩, hx, rfl⟩ := Option.map_eq_some_iff.mp h
    exact ⟨Section.step_moves hx [], rfl⟩
  | unlockMultiple todo rc x =>
    obtain ⟨⟨v, x'⟩, hx, rfl⟩ := Option.map_eq_some_iff.mp h
    have hmoves := Section.step_moves hx []
    dsimp only
    split
    · rename_i hreturned
      rw [List.nil_append, List.nil_append,
        Section.uses_of_returned (Option.isSome_iff_exists.mpr ⟨_, hreturned⟩)] at hmoves
      rw [unlockFrom_uses]
      exact ⟨hmoves, unlockFrom_spinning _ _ _⟩
    · rename_i hreturned
      rw [List.nil_append, List.nil_append,
        Section.uses_of_returned (Option.isSome_iff_exists.mpr ⟨_, hreturned⟩)] at hmoves
      rw [unlockFrom_uses]
      exact ⟨hmoves, unlockFrom_spinning _ _ _⟩
    · exact ⟨hmoves, rfl⟩
  | multiple args time stage =>
    obtain ⟨v, hv, rfl⟩ := Option.map_eq_some_iff.mp h
    have hspin' : stage.spinning = true → args.spinlock_guard = true := by
      intro hstage
      change (stage.spinning && !args.spinlock_guard) = false at hspin
      rw [hstage] at hspin
      simpa using hspin
    refine ⟨Multiple.step_moves hv hspin', ?_⟩
    have hnext := Multiple.step_spinning hv hspin'
    change (v.2.2.spinning && !args.spinlock_guard) = false
    cases hstage : v.2.2.spinning with
    | false => rfl
    | true =>
      rw [hnext hstage]
      rfl
  | create args guard stage =>
    obtain ⟨v, hv, rfl⟩ := Option.map_eq_some_iff.mp h
    refine ⟨?_, rfl⟩
    change Transfer c w.sysSem v.1.sysSem [] []
    rw [createStep_sysSem hv]
    exact .same _ _ _

/-- A call begins outside of every critical section. -/
theorem Call.start_uses (call : Call) (garbage : Bool) :
    (call.start garbage).uses = [] ∧ (call.start garbage).spinning = false := by
  cases call with
  | use hndl op =>
    simp only [Call.start]
    split <;> exact ⟨rfl, rfl⟩
  | sem_unlock_multiple sem => exact ⟨unlockFrom_uses _ _ _, unlockFrom_spinning _ _ _⟩
  | sem_lock_multiple sem waitall timeout =>
    simp only [Call.start]
    split <;> exact ⟨rfl, rfl⟩
  | create args guard => exact ⟨rfl, rfl⟩

/-- Nor is there a critical section that an idle thread is in. -/
theorem ThreadPc.uses_of_idle {pc : ThreadPc} (h : pc.idle = true) : pc.uses = [] := by
  cases pc with
  | single x => exact Section.uses_of_returned h
  | unlockMultiple todo rc x => cases h
  | multiple args time stage =>
    cases stage with
    | returned ret => rfl
    | _ => cases h
  | create args guard stage => rfl

/-- Every thread holds the system semaphores of the critical sections that it is in by
them. -/
structure GuardInv (x : Sys) : Prop where
  owns : ∀ c, Owns x.w.sysSem c (sysSems (x.pc c).uses)
  spins : ∀ c, (x.pc c).spinning = false

theorem GuardInv.init (sems : ℕ → mrapi_sem_t) (wanted : ℕ → Bool) (address : Node → ℕ → ℕ) :
    GuardInv (init sems wanted address) := by
  refine ⟨fun c => ⟨fun s => ?_, List.nodup_nil⟩, fun _ => rfl⟩
  constructor <;> (intro h; cases h)

/-- **One step** moves the system semaphores along with the threads, in every run. -/
theorem GuardInv.step {x x' : Sys} {a : Label} (h : GuardInv x) (hstep : step x a = some x') :
    GuardInv x' := by
  cases a with
  | call c call garbage =>
    simp only [LockGuard.step] at hstep
    split at hstep
    · rename_i hidle
      obtain rfl := Option.some.inj hstep
      obtain ⟨huses, hspins⟩ := call.start_uses garbage
      constructor
      · intro c'
        dsimp only
        by_cases hc : c' = c
        · rw [hc, Function.update_self, huses, ← ThreadPc.uses_of_idle hidle]
          exact h.owns c
        · rw [Function.update_of_ne hc]
          exact h.owns c'
      · intro c'
        dsimp only
        by_cases hc : c' = c
        · rw [hc, Function.update_self]
          exact hspins
        · rw [Function.update_of_ne hc]
          exact h.spins c'
    · cases hstep
  | step c garbage =>
    obtain ⟨y, hy, rfl⟩ := Option.map_eq_some_iff.mp hstep
    obtain ⟨hmoves, hspins⟩ := threadStep_moves hy (h.spins c)
    constructor
    · intro c'
      have hall := Transfer.all h.owns hmoves c'
      dsimp only
      by_cases hc : c' = c
      · rw [hc, Function.update_self] at hall ⊢
        exact hall
      · rw [Function.update_of_ne hc] at hall ⊢
        exact hall
    · intro c'
      dsimp only
      by_cases hc : c' = c
      · rw [hc, Function.update_self]
        exact hspins
      · rw [Function.update_of_ne hc]
        exact h.spins c'

end MxApi.LockGuard
