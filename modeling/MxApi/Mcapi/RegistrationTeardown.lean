/-
The last one out.

A thread that finalizes looks for other nodes after it has given up its entry,
and deletes the memory if it finds none. In the runs that meet the guard nobody
comes back between the search and the deletion, so every memory is deleted once,
by the one thread that found itself the last one.
-/
import MxApi.Mcapi.RegistrationRuns

set_option autoImplicit false

namespace MxApi

open Lib

/-! ## The guard -/

/-- A thread has found itself the last one and has not deleted the memory yet. -/
def RegPc.lastOne : RegPc → Bool
  | .readNode (.rundown last _) _ => last
  | .xchgNode (.rundown last _) _ _ => last
  | .swapNode (.rundown last _) _ _ _ => last
  | .release last _ => last
  | _ => false

section

variable {τ : Type} [DecidableEq τ] (pid : τ → ℕ)

/-- Nobody attaches to a memory that is about to be deleted; a thread creates the
memory while its process points to no other one; a search for other nodes finds
none while no other thread needs the memory; and a process drops its pointer
while none of its other threads needs the memory. -/
def TeardownOk (s : RegSys τ) (t : τ) (s' : RegSys τ) : Prop :=
  match s.pc t with
  | .attach _ => s'.pc t ≠ .idle → ∀ t', (s.pc t').lastOne = false
  | .point _ m true => s.mcapi_db (pid t) = none ∨ s.mcapi_db (pid t) = some m
  | .scan _ _ _ _ _ =>
    (s'.pc t).lastOne = true → ∀ t', t' ≠ t → (s.pc t').uses (s.whoami t') = false
  | .detach true => ∀ t', t' ≠ t → pid t' = pid t → (s.pc t').uses (s.whoami t') = false
  | _ => True

/-- The guard of the runs with registrations and removals. -/
def FinalizeGuard (s : RegSys τ) (l : RegLabel τ) (s' : RegSys τ) : Prop :=
  match l with
  | .step t _ =>
    (∀ m ∈ s.mcapi_db (pid t), StepOk (s.memories m) (s.pc t)) ∧ TeardownOk pid s t s'
  | _ => True

end

/-! ## What a step does to the needs of its thread -/

/-- The thread has given up its entry, and its search for other nodes has not met
anybody yet. -/
def RegPc.unmet : RegPc → Bool
  | .decNodes _ => true
  | .scan _ _ _ last _ => last
  | _ => false

/-- The thread holds an entry, or will find itself the last one unless it meets
somebody, or has done so. -/
def RegPc.remains (who : Option Whoami) (pc : RegPc) : Bool :=
  (pc.held who).isSome || pc.unmet || pc.lastOne

section

variable {who : Option Whoami} {pc : RegPc}

theorem remains_of_held {w : Whoami} (h : pc.held who = some w) : pc.remains who = true := by
  unfold RegPc.remains
  rw [h]
  rfl

theorem remains_of_lastOne (h : pc.lastOne = true) : pc.remains who = true := by
  unfold RegPc.remains
  rw [h, Bool.or_true]

theorem uses_of_lastOne (h : pc.lastOne = true) : pc.uses who = true := by
  cases pc with
  | readNode u | xchgNode u | swapNode u =>
    cases u with
    | rundown => exact h
    | _ => cases h
  | release => exact h
  | _ => cases h

theorem uses_of_remains (h : pc.remains who = true) : pc.uses who = true := by
  unfold RegPc.remains at h
  rcases Bool.or_eq_true_iff.mp h with h | h
  · rcases Bool.or_eq_true_iff.mp h with h | h
    · obtain ⟨w, hw⟩ := Option.isSome_iff_exists.mp h
      exact RegPc.uses_of_held hw
    · cases pc with
      | decNodes | scan => rfl
      | _ => cases h
  · exact uses_of_lastOne h

theorem nextScan_cases (w : Whoami) (d i : ℕ) (last lastHere : Bool) :
    (∃ d' i', nextScan w d i last lastHere = .scan w d' i' last lastHere) ∨
      nextScan w d i last lastHere = .readNode (.rundown last lastHere) w := by
  unfold nextScan
  split
  · exact Or.inl ⟨d, i + 1, rfl⟩
  · split
    · exact Or.inl ⟨d + 1, 0, rfl⟩
    · exact Or.inr rfl

variable {p : ℕ} {db : mcapi_database}

/-- A step on the memory by a thread that needs none does not make it need one. -/
theorem regProgram_uses (hacc : pc.accesses = true)
    (h : (regProgram p db pc).2.uses (RegSys.identity who pc) = true) : pc.uses who = true := by
  cases pc with
  | idle | attach | point | release | detach | failed => cases hacc
  | readNode u | xchgNode u | swapNode u =>
    cases u with
    | rundown => exact h
    | _ => rfl
  | _ => rfl

/-- Only a search for other nodes changes whether a thread is the last one. -/
theorem regProgram_lastOne (hacc : pc.accesses = true)
    (h : RegSys.observes pc (regProgram p db pc).2 = false) :
    (regProgram p db pc).2.lastOne = pc.lastOne := by
  cases pc with
  | idle | attach | point | release | detach | failed => cases hacc
  | clearNodeSwap a d n =>
    show (nextClear a d n).lastOne = false
    unfold nextClear
    split
    · rfl
    · split <;> rfl
  | findDomain | findNode | casDomain | casNode =>
    rw [regProgram]
    split
    · rfl
    · split <;> rfl
  | readNode u | xchgNode u => cases u <;> rfl
  | swapNode u =>
    cases u with
    | clearRundown start => cases start <;> rfl
    | _ => rfl
  | scan w d i last lastHere =>
    rw [regProgram] at h ⊢
    split at h
    · rename_i halloc
      rw [if_pos halloc]
      rfl
    · rename_i halloc
      rw [if_neg halloc]
      rcases nextScan_cases w d i last lastHere with ⟨d', i', heq⟩ | heq
      · rw [heq]
        rfl
      · rw [heq] at h ⊢
        cases last with
        | true => cases h
        | false => rfl
  | scanPid w d i lastHere =>
    show (nextScan w d i false _).lastOne = false
    rcases nextScan_cases w d i false (lastHere && (db.node d i).pid != p) with
      ⟨d', i', heq⟩ | heq
    · rw [heq]
      rfl
    · rw [heq]
      rfl
  | _ => rfl

/-- Who ends a search for other nodes without having met anybody is the last one. -/
theorem scan_of_observes {pc' : RegPc} (h : RegSys.observes pc pc' = true) :
    (∃ w d i last lastHere, pc = .scan w d i last lastHere) ∧ pc'.lastOne = true := by
  unfold RegSys.observes at h
  split at h
  · exact ⟨⟨_, _, _, _, _, rfl⟩, rfl⟩
  · cases h

/-- Who takes an entry holds it. -/
theorem held_of_takes {pc' : RegPc} (h : RegSys.takes pc pc' = true) :
    ∃ w, pc'.held who = some w := by
  unfold RegSys.takes at h
  split at h
  · exact ⟨_, rfl⟩
  · cases h

/-- A thread remains until its search for other nodes meets an entry that is
allocated. -/
theorem regProgram_remains (hok : pc.Ok who) (h : pc.remains who = true)
    (hacc : pc.accesses = true) :
    (regProgram p db pc).2.remains (RegSys.identity who pc) = true ∨
      ∃ w d i lastHere, pc = .scan w d i true lastHere ∧ (db.node d i).state.allocated = true := by
  cases pc with
  | scan w d i last lastHere =>
    obtain rfl : last = true := by
      cases last with
      | true => rfl
      | false => cases h
    rw [regProgram]
    split
    · rename_i halloc
      exact Or.inr ⟨w, d, i, lastHere, rfl, halloc⟩
    · refine Or.inl ?_
      rcases nextScan_cases w d i true lastHere with ⟨d', i', heq⟩ | heq
      · rw [heq]
        rfl
      · rw [heq]
        rfl
  | readNode u w => cases u <;> first | exact Or.inl rfl | exact Or.inl h
  | xchgNode u w newstate => cases u <;> first | exact Or.inl rfl | exact Or.inl h
  | swapNode u w newstate previous =>
    refine Or.inl ?_
    cases u with
    | invalidate | remove => rfl
    | trans_start =>
      obtain ⟨-, rfl⟩ := hok rfl
      rfl
    | clearRundown start =>
      obtain ⟨-, rfl⟩ := hok rfl
      cases start <;> rfl
    | rundown => exact h
  | readDomain | xchgDomain | swapDomain | setCaller | incNodes | zeroEndpoints => exact Or.inl rfl
  | decNodes => exact Or.inl rfl
  | idle | attach | point | release | detach | failed => cases hacc
  | _ => cases h

end

/-! ## The invariant -/

section

variable {τ : Type} [DecidableEq τ] (pid : τ → ℕ)

/-- The last one is alone; a memory is deleted by its one observer; and while a
memory in which a node was taken exists, somebody remains to delete it. -/
structure TeardownInv (s : RegSys τ) : Prop where
  alone : ∀ t, (s.pc t).lastOne = true → ∀ t', t' ≠ t → (s.pc t').uses (s.whoami t') = false
  shm : ∀ t, (s.pc t).uses (s.whoami t) = true → s.shm (pid t) = s.key
  observers_key : ∀ m, s.key = some m →
    (∃ t, (s.pc t).lastOne = true) ∧ s.observers m = 1 ∨
      (∀ t, (s.pc t).lastOne = false) ∧ s.observers m = 0
  observers_old : ∀ m < s.created, s.key ≠ some m → s.observers m = 1
  fresh : ∀ m, s.created ≤ m → s.observers m = 0 ∧ s.used m = false
  remains : ∀ m, s.key = some m → s.used m = true →
    ∃ t, (s.pc t).remains (s.whoami t) = true

variable {pid} {s s' : RegSys τ} {t : τ}

omit [DecidableEq τ] in
theorem TeardownInv.initial : TeardownInv pid (RegSys.initial τ) :=
  ⟨fun _ h => (by cases h), fun _ h => (by cases h), fun _ h => (by cases h),
    fun _ h => absurd h (Nat.not_lt_zero _), fun _ _ => ⟨rfl, rfl⟩, fun _ h => (by cases h)⟩

omit [DecidableEq τ] in
/-- A step of a thread that does not make it need the memory or be the last one,
and leaves the memories there are. -/
theorem TeardownInv.stay (h : TeardownInv pid s)
    (hpc : ∀ t', t' ≠ t → s'.pc t' = s.pc t') (hwho : ∀ t', t' ≠ t → s'.whoami t' = s.whoami t')
    (hkey : s'.key = s.key) (hcreated : s'.created = s.created) (hshm : s'.shm = s.shm)
    (hobservers : s'.observers = s.observers)
    (huses : (s'.pc t).uses (s'.whoami t) = true → (s.pc t).uses (s.whoami t) = true)
    (hlast : (s'.pc t).lastOne = (s.pc t).lastOne)
    (hfresh : ∀ m, s.created ≤ m → s'.used m = s.used m)
    (hremains : ∀ m, s.key = some m → s'.used m = true →
      ∃ t, (s'.pc t).remains (s'.whoami t) = true) : TeardownInv pid s' := by
  have huses' : ∀ t', (s'.pc t').uses (s'.whoami t') = true →
      (s.pc t').uses (s.whoami t') = true := by
    intro t' hu
    by_cases htt : t' = t
    · subst htt
      exact huses hu
    · rw [hpc t' htt, hwho t' htt] at hu
      exact hu
  have hlast' : ∀ t', (s'.pc t').lastOne = (s.pc t').lastOne := by
    intro t'
    by_cases htt : t' = t
    · rw [htt]
      exact hlast
    · rw [hpc t' htt]
  refine ⟨fun t₁ h₁ t₂ hne => ?_, fun t₁ hu => ?_, fun m hm => ?_, ?_, fun m hm => ?_,
    fun m hm hu => ?_⟩
  · rw [hlast'] at h₁
    cases hu : (s'.pc t₂).uses (s'.whoami t₂) with
    | false => rfl
    | true => cases (h.alone t₁ h₁ t₂ hne).symm.trans (huses' t₂ hu)
  · rw [hshm, hkey]
    exact h.shm t₁ (huses' t₁ hu)
  · rw [hkey] at hm
    rw [hobservers]
    refine (h.observers_key m hm).imp (fun hex => ?_) fun hall => ?_
    · obtain ⟨⟨t₁, h₁⟩, hobs⟩ := hex
      exact ⟨⟨t₁, (hlast' t₁).trans h₁⟩, hobs⟩
    · exact ⟨fun t₁ => (hlast' t₁).trans (hall.1 t₁), hall.2⟩
  · rw [hkey, hcreated, hobservers]
    exact h.observers_old
  · rw [hcreated] at hm
    rw [hobservers, hfresh m hm]
    exact h.fresh m hm
  · rw [hkey] at hm
    exact hremains m hm hu

omit [DecidableEq τ] in
/-- If the thread still remains, or has not remained before, somebody does. -/
theorem TeardownInv.remains_stay (h : TeardownInv pid s)
    (hpc : ∀ t', t' ≠ t → s'.pc t' = s.pc t') (hwho : ∀ t', t' ≠ t → s'.whoami t' = s.whoami t')
    (hremains : (s.pc t).remains (s.whoami t) = true → (s'.pc t).remains (s'.whoami t) = true)
    {m : ℕ} (hkey : s.key = some m) (hused : s.used m = true) :
    ∃ t, (s'.pc t).remains (s'.whoami t) = true := by
  obtain ⟨t₁, h₁⟩ := h.remains m hkey hused
  refine ⟨t₁, ?_⟩
  by_cases htt : t₁ = t
  · subst htt
    exact hremains h₁
  · rw [hpc t₁ htt, hwho t₁ htt]
    exact h₁

omit [DecidableEq τ] in
/-- Who is the last one has the memory's key. -/
theorem TeardownInv.observers_one (h : TeardownInv pid s) (hlast : (s.pc t).lastOne = true)
    {m : ℕ} (hkey : s.key = some m) : s.observers m = 1 := by
  rcases h.observers_key m hkey with ⟨-, hone⟩ | ⟨hnone, -⟩
  · exact hone
  · cases (hnone t).symm.trans hlast

/-! ## The steps of the system -/

theorem TeardownInv.goto (h : TeardownInv pid s) {pc' : RegPc}
    (huses : pc'.uses (s.whoami t) = true → (s.pc t).uses (s.whoami t) = true)
    (hlast : pc'.lastOne = (s.pc t).lastOne)
    (hremains : (s.pc t).remains (s.whoami t) = true → pc'.remains (s.whoami t) = true) :
    TeardownInv pid (s.goto t pc') := by
  have hself : (s.goto t pc').pc t = pc' := Function.update_self ..
  have hpc : ∀ t', t' ≠ t → (s.goto t pc').pc t' = s.pc t' := fun t' htt =>
    Function.update_of_ne htt ..
  refine h.stay hpc (fun _ _ => rfl) rfl rfl rfl rfl (fun hu => ?_) ?_ (fun _ _ => rfl)
    fun m hm hused => h.remains_stay hpc (fun _ _ => rfl) (fun hr => ?_) hm hused
  · rw [hself] at hu
    exact huses hu
  · rw [hself]
    exact hlast
  · rw [hself]
    exact hremains hr

/-- A thread attaches to the memory there is. -/
theorem TeardownInv.attach (h : TeardownInv pid s) {a : InitArgs} {m : ℕ}
    (hp : s.pc t = .attach a) (hkey : s.key = some m)
    (hnone : ∀ t', (s.pc t').lastOne = false) : TeardownInv pid (s.doAttach pid t a) := by
  rw [doAttach_of_some hkey]
  have hlast : ∀ t', (Function.update s.pc t (.point a m false) t').lastOne = false := by
    intro t'
    by_cases htt : t' = t
    · rw [htt, Function.update_self]
      rfl
    · rw [Function.update_of_ne htt]
      exact hnone t'
  refine ⟨fun t₁ h₁ => ?_, fun t₁ hu => ?_, fun k hk => Or.inr ⟨hlast, ?_⟩, h.observers_old,
    h.fresh, fun k hk hused => ?_⟩
  · cases (hlast t₁).symm.trans h₁
  · change Function.update s.shm (pid t) (some m) (pid t₁) = s.key
    by_cases hpp : pid t₁ = pid t
    · rw [hpp, Function.update_self, hkey]
    · have htt : t₁ ≠ t := fun htt => hpp (by rw [htt])
      change (Function.update s.pc t (.point a m false) t₁).uses (s.whoami t₁) = true at hu
      rw [Function.update_of_ne htt] at hu
      rw [Function.update_of_ne hpp]
      exact h.shm t₁ hu
  · rcases h.observers_key k hk with ⟨⟨t₁, h₁⟩, -⟩ | ⟨-, hzero⟩
    · cases (hnone t₁).symm.trans h₁
    · exact hzero
  · obtain ⟨t₁, h₁⟩ := h.remains k hk hused
    have htt : t₁ ≠ t := by
      rintro rfl
      rw [hp] at h₁
      cases h₁
    refine ⟨t₁, ?_⟩
    change (Function.update s.pc t (.point a m false) t₁).remains (s.whoami t₁) = true
    rw [Function.update_of_ne htt]
    exact h₁

/-- A thread creates a memory. -/
theorem TeardownInv.create (h : TeardownInv pid s)
    (hinv : RegistrationInv pid s.toRegistry s.pc) {a : InitArgs} (hkey : s.key = none) :
    TeardownInv pid (s.doAttach pid t a) := by
  rw [doAttach_of_none hkey]
  have huses := hinv.uses_false hkey
  have hlast : ∀ t', (Function.update s.pc t (.point a s.created true) t').lastOne = false := by
    intro t'
    by_cases htt : t' = t
    · rw [htt, Function.update_self]
      rfl
    · rw [Function.update_of_ne htt]
      cases hl : (s.pc t').lastOne with
      | false => rfl
      | true => cases (huses t').symm.trans (uses_of_lastOne hl)
  refine ⟨fun t₁ h₁ => ?_, fun t₁ hu => ?_, fun k hk => Or.inr ⟨hlast, ?_⟩, fun k hlt hne => ?_,
    fun k hle => h.fresh k (Nat.le_of_succ_le hle), fun k hk hused => ?_⟩
  · cases (hlast t₁).symm.trans h₁
  · change Function.update s.shm (pid t) (some s.created) (pid t₁) = some s.created
    have htt : t₁ = t := by
      by_contra htt
      change (Function.update s.pc t (.point a s.created true) t₁).uses (s.whoami t₁) = true at hu
      rw [Function.update_of_ne htt] at hu
      cases (huses t₁).symm.trans hu
    rw [htt, Function.update_self]
  · obtain rfl := Option.some.inj hk
    exact (h.fresh s.created le_rfl).1
  · have hlt' : k < s.created := by
      rcases Nat.lt_succ_iff_lt_or_eq.mp hlt with hlt' | rfl
      · exact hlt'
      · exact absurd rfl hne
    refine h.observers_old k hlt' fun hk => ?_
    cases hkey.symm.trans hk
  · obtain rfl := Option.some.inj hk
    cases (h.fresh s.created le_rfl).2.symm.trans hused

/-- The last one deletes the memory. -/
theorem TeardownInv.release (h : TeardownInv pid s) {last lastHere : Bool}
    (hp : s.pc t = .release last lastHere) :
    TeardownInv pid (s.doRelease pid t last lastHere) := by
  have hself : (s.doRelease pid t last lastHere).pc t = .detach lastHere :=
    Function.update_self ..
  have hpc : ∀ t', t' ≠ t → (s.doRelease pid t last lastHere).pc t' = s.pc t' := fun t' htt =>
    Function.update_of_ne htt ..
  cases last with
  | false =>
    refine h.stay hpc (fun _ _ => rfl) ?_ rfl rfl rfl (fun hu => ?_) ?_ (fun _ _ => rfl)
      fun m hm hused => h.remains_stay hpc (fun _ _ => rfl) (fun hr => ?_) hm hused
    · change (if false = true ∧ s.key = s.shm (pid t) then none else s.key) = s.key
      rw [if_neg fun hl => Bool.false_ne_true hl.1]
    · rw [hself] at hu
      cases hu
    · rw [hself, hp]
      rfl
    · rw [hp] at hr
      cases hr
  | true =>
    have hu : (s.pc t).uses (s.whoami t) = true := by rw [hp]; rfl
    have hlast : (s.pc t).lastOne = true := by rw [hp]; rfl
    have hkey' : (s.doRelease pid t true lastHere).key = none :=
      if_pos ⟨rfl, (h.shm t hu).symm⟩
    -- nobody else needs the memory
    have huses : ∀ t', ((s.doRelease pid t true lastHere).pc t').uses (s.whoami t') = false := by
      intro t'
      by_cases htt : t' = t
      · rw [htt, hself]
        rfl
      · rw [hpc t' htt]
        exact h.alone t hlast t' htt
    refine ⟨fun t₁ h₁ => ?_, fun t₁ h₁ => ?_, fun m hm => ?_, fun m hlt hne => ?_, h.fresh,
      fun m hm => ?_⟩
    · cases (huses t₁).symm.trans (uses_of_lastOne h₁)
    · cases (huses t₁).symm.trans h₁
    · cases hkey'.symm.trans hm
    · by_cases hkey : s.key = some m
      · exact h.observers_one hlast hkey
      · exact h.observers_old m hlt hkey
    · cases hkey'.symm.trans hm

/-- A thread returns. -/
theorem TeardownInv.detach (h : TeardownInv pid s) {lastHere : Bool}
    (hp : s.pc t = .detach lastHere) : TeardownInv pid (s.doDetach pid t lastHere) := by
  have hself : (s.doDetach pid t lastHere).pc t = .idle := Function.update_self ..
  have hnone : (s.doDetach pid t lastHere).whoami t = none := Function.update_self ..
  have hpc : ∀ t', t' ≠ t → (s.doDetach pid t lastHere).pc t' = s.pc t' := fun t' htt =>
    Function.update_of_ne htt ..
  have hwho : ∀ t', t' ≠ t → (s.doDetach pid t lastHere).whoami t' = s.whoami t' :=
    fun t' htt => Function.update_of_ne htt ..
  refine h.stay hpc hwho rfl rfl rfl rfl (fun hu => ?_) ?_ (fun _ _ => rfl)
    fun m hm hused => h.remains_stay hpc hwho (fun hr => ?_) hm hused
  · rw [hself, hnone] at hu
    cases hu
  · rw [hself, hp]
    rfl
  · rw [hp] at hr
    cases hr

theorem TeardownInv.point (h : TeardownInv pid s) {a : InitArgs} {m : ℕ} {created : Bool}
    (hp : s.pc t = .point a m created) : TeardownInv pid (s.doPoint pid t a m created) := by
  have hself : (s.doPoint pid t a m created).pc t =
      if created then .clearDomain a 0 else .findDomain a 0 := Function.update_self ..
  have hpc : ∀ t', t' ≠ t → (s.doPoint pid t a m created).pc t' = s.pc t' := fun t' htt =>
    Function.update_of_ne htt ..
  refine h.stay hpc (fun _ _ => rfl) rfl rfl rfl rfl (fun _ => ?_) ?_ (fun _ _ => rfl)
    fun k hk hused => h.remains_stay hpc (fun _ _ => rfl) (fun hr => ?_) hk hused
  · rw [hp]
    rfl
  · rw [hself, hp]
    cases created <;> rfl
  · rw [hp] at hr
    cases hr

/-! ## The steps on the memory -/

section

variable {m : ℕ}

theorem doProgram_pc_self :
    (s.doProgram pid t m).pc t = (regProgram (pid t) (s.memories m) (s.pc t)).2 :=
  Function.update_self ..

theorem doProgram_pc_of_ne {t' : τ} (h : t' ≠ t) : (s.doProgram pid t m).pc t' = s.pc t' :=
  Function.update_of_ne h ..

theorem doProgram_whoami_self :
    (s.doProgram pid t m).whoami t = RegSys.identity (s.whoami t) (s.pc t) :=
  Function.update_self ..

theorem doProgram_whoami_of_ne {t' : τ} (h : t' ≠ t) :
    (s.doProgram pid t m).whoami t' = s.whoami t' :=
  Function.update_of_ne h ..

/-- A thread ends its search for other nodes without having met anybody. -/
theorem TeardownInv.observe (h : TeardownInv pid s)
    (hinv : RegistrationInv pid s.toRegistry s.pc) (hkey : s.key = some m)
    (hobs : RegSys.observes (s.pc t) (regProgram (pid t) (s.memories m) (s.pc t)).2 = true)
    (hothers : ∀ t', t' ≠ t → (s.pc t').uses (s.whoami t') = false) :
    TeardownInv pid (s.doProgram pid t m) := by
  obtain ⟨⟨w, d, i, last, lastHere, hp⟩, hlast⟩ := scan_of_observes hobs
  have hself : ((s.doProgram pid t m).pc t).lastOne = true := by
    rw [doProgram_pc_self]
    exact hlast
  have huses : ∀ t', t' ≠ t →
      ((s.doProgram pid t m).pc t').uses ((s.doProgram pid t m).whoami t') = false := by
    intro t' htt
    rw [doProgram_pc_of_ne htt, doProgram_whoami_of_ne htt]
    exact hothers t' htt
  have hobservers : (s.doProgram pid t m).observers =
      Function.update s.observers m (s.observers m + 1) := if_pos hobs
  have hused : (s.doProgram pid t m).used = s.used := by
    refine if_neg fun htakes => ?_
    rw [hp] at htakes
    cases htakes
  refine ⟨fun t₁ h₁ t₂ hne => ?_, fun t₁ h₁ => ?_, fun k hk => Or.inl ⟨⟨t, hself⟩, ?_⟩,
    fun k hlt hne => ?_, fun k hk => ?_, fun k hk hused => ⟨t, remains_of_lastOne hself⟩⟩
  · have htt : t₁ = t := by
      by_contra htt
      cases (huses t₁ htt).symm.trans (uses_of_lastOne h₁)
    subst htt
    exact huses t₂ hne
  · have htt : t₁ = t := by
      by_contra htt
      cases (huses t₁ htt).symm.trans h₁
    subst htt
    refine h.shm t₁ ?_
    rw [hp]
    rfl
  · -- nobody has been the last one before
    obtain rfl := Option.some.inj (hkey.symm.trans hk)
    rw [hobservers, Function.update_self]
    rcases h.observers_key m hkey with ⟨⟨t₁, h₁⟩, -⟩ | ⟨-, hzero⟩
    · have htt : t₁ ≠ t := by
        rintro rfl
        rw [hp] at h₁
        cases h₁
      cases (hothers t₁ htt).symm.trans (uses_of_lastOne h₁)
    · rw [hzero]
  · have hkm : k ≠ m := by
      rintro rfl
      exact hne hkey
    rw [hobservers, Function.update_of_ne hkm]
    exact h.observers_old k hlt hne
  · have hkm : k ≠ m := by
      rintro rfl
      exact Nat.lt_irrefl _ ((hinv.key_lt k hkey).trans_le hk)
    rw [hobservers, hused, Function.update_of_ne hkm]
    exact h.fresh k hk

/-- A step on the memory that is not the end of a search without others. -/
theorem TeardownInv.program (h : TeardownInv pid s)
    (hinv : RegistrationInv pid s.toRegistry s.pc) (hdb : s.mcapi_db (pid t) = some m)
    (hacc : (s.pc t).accesses = true)
    (hobs : RegSys.observes (s.pc t) (regProgram (pid t) (s.memories m) (s.pc t)).2 = false) :
    TeardownInv pid (s.doProgram pid t m) := by
  have hpc : ∀ t', t' ≠ t → (s.doProgram pid t m).pc t' = s.pc t' := fun t' htt =>
    doProgram_pc_of_ne htt
  have hwho : ∀ t', t' ≠ t → (s.doProgram pid t m).whoami t' = s.whoami t' := fun t' htt =>
    doProgram_whoami_of_ne htt
  have hobservers : (s.doProgram pid t m).observers = s.observers :=
    if_neg (by rw [hobs]; exact Bool.false_ne_true)
  have hused : (s.doProgram pid t m).used =
      if RegSys.takes (s.pc t) (regProgram (pid t) (s.memories m) (s.pc t)).2 then
        Function.update s.used m true else s.used := rfl
  refine h.stay hpc hwho rfl rfl rfl hobservers (fun hu => ?_) ?_ (fun k hk => ?_)
    fun k hk hk' => ?_
  · rw [doProgram_pc_self, doProgram_whoami_self] at hu
    exact regProgram_uses hacc hu
  · rw [doProgram_pc_self]
    exact regProgram_lastOne hacc hobs
  · have hkm : k ≠ m := by
      rintro rfl
      exact Nat.lt_irrefl _ ((hinv.mcapi_db_lt _ k hdb).trans_le hk)
    rw [hused]
    split
    · rw [Function.update_of_ne hkm]
    · rfl
  · rw [hused] at hk'
    split at hk'
    · -- the thread has taken an entry
      rename_i htakes
      obtain ⟨w, hw⟩ := held_of_takes htakes
      refine ⟨t, ?_⟩
      rw [doProgram_pc_self]
      exact remains_of_held hw
    · obtain ⟨t₁, h₁⟩ := h.remains k hk hk'
      by_cases htt : t₁ = t
      · subst htt
        rcases regProgram_remains (hinv.ok t₁) h₁ hacc with
          hr | ⟨w, d, i, lastHere, hp, halloc⟩
        · refine ⟨t₁, ?_⟩
          rw [doProgram_pc_self, doProgram_whoami_self]
          exact hr
        · -- the thread has met the holder of the entry
          have hkey := hinv.key_eq hdb hp rfl rfl
          obtain ⟨t₂, w₂, hw₂, -⟩ := hinv.held_of_allocated hkey (c := (d, i)) halloc
          have hne : t₂ ≠ t₁ := by
            rintro rfl
            rw [hp] at hw₂
            cases hw₂
          refine ⟨t₂, ?_⟩
          rw [hpc t₂ hne, hwho t₂ hne]
          exact remains_of_held hw₂
      · refine ⟨t₁, ?_⟩
        rw [hpc t₁ htt, hwho t₁ htt]
        exact h₁

end

/-! ## Runs -/

omit [DecidableEq τ] in
/-- The guard keeps the other threads out of the way. -/
theorem FinalizeGuard.regGuard {l : RegLabel τ} (hg : FinalizeGuard pid s l s')
    (h : TeardownInv pid s) : RegGuard pid s l := by
  cases l with
  | init | finalize => trivial
  | step t ok =>
    obtain ⟨hmem, hothers⟩ := hg
    refine ⟨hmem, ?_⟩
    unfold TeardownOk at hothers
    unfold OthersOk
    split
    · rename_i hp
      rw [hp] at hothers
      exact hothers
    · rename_i hp
      exact h.alone t (by rw [hp]; rfl)
    · rename_i hp
      rw [hp] at hothers
      exact hothers
    · trivial

/-- **Every admitted step of a thread keeps the last one alone.** -/
theorem TeardownInv.step (h : TeardownInv pid s) (hinv : RegistrationInv pid s.toRegistry s.pc)
    {l : RegLabel τ} (hs : s.step pid l = some s') (hg : FinalizeGuard pid s l s') :
    TeardownInv pid s' := by
  cases l with
  | init t a =>
    obtain ⟨hp, hnone, rfl⟩ := init_cases hs
    refine h.goto (fun hu => by cases hu) (by rw [hp]; rfl) fun hr => ?_
    rw [hp, hnone] at hr
    cases hr
  | finalize t =>
    obtain ⟨w, hp, hw, rfl | rfl⟩ := finalize_cases hs
    · refine h.goto (fun _ => ?_) (by rw [hp]; rfl) fun _ => rfl
      rw [hp, hw]
      rfl
    · exact h
  | step t ok =>
    obtain ⟨-, hothers⟩ := hg
    unfold TeardownOk at hothers
    rcases doStep_cases hs with ⟨a, hp, rfl⟩ | ⟨a, m, created, hp, rfl⟩ |
      ⟨last, lastHere, hp, rfl⟩ | ⟨lastHere, hp, rfl⟩ | ⟨hacc, ⟨hnull, rfl⟩ | ⟨m, hdb, rfl⟩⟩
    · have hnone : s.whoami t = none := by
        have hok := hinv.ok t
        rw [hp] at hok
        exact hok
      cases ok with
      | false =>
        refine h.goto (fun hu => ?_) (by rw [hp]; rfl) fun hr => ?_
        · rw [hnone] at hu
          cases hu
        · rw [hp] at hr
          cases hr
      | true =>
        rw [if_pos rfl] at hothers ⊢
        rcases Option.eq_none_or_eq_some s.key with hkey | ⟨m, hkey⟩
        · exact h.create hinv hkey
        · rw [hp] at hothers
          refine h.attach hp hkey (hothers ?_)
          rw [doAttach_of_some hkey]
          change Function.update s.pc t (.point a m false) t ≠ .idle
          rw [Function.update_self]
          exact RegPc.noConfusion
    · exact h.point hp
    · exact h.release hp
    · exact h.detach hp
    · -- only a thread that does not need the memory can find it gone
      have huses := hinv.uses_false_of_null hacc hnull
      refine h.goto (fun hu => by cases hu) ?_ fun hr => ?_
      · cases hl : (s.pc t).lastOne with
        | false => rfl
        | true => cases huses.symm.trans (uses_of_lastOne hl)
      · cases huses.symm.trans (uses_of_remains hr)
    · cases hobs : RegSys.observes (s.pc t) (regProgram (pid t) (s.memories m) (s.pc t)).2 with
      | false => exact h.program hinv hdb hacc hobs
      | true =>
        obtain ⟨⟨w, d, i, last, lastHere, hp⟩, hlast⟩ := scan_of_observes hobs
        rw [← doProgram_pc_self] at hlast
        rw [hp] at hothers
        exact h.observe hinv (hinv.key_eq hdb hp rfl rfl) hobs (hothers hlast)

end

end MxApi
