/-
What the sequences of registrations and removals do to the nodes registered by
other threads.

A registered thread holds a domain entry and a node entry that carry its ids.
Domains are looked up by their id alone, while a free domain entry is recognised
by its flag. The two differ for the id 0: an entry never used already has it, so
the node of domain 0 is put into an entry that stays free. The calls behave as
expected as long as no such entry is taken for another domain, and no process
creates the memory while it still points to an old one.
-/
import MxApi.Lib.Agreement
import MxApi.Mcapi.RegistrationEntries

set_option autoImplicit false

namespace MxApi

open Lib

/-! ## What is expected of the calls -/

namespace Registry

variable {τ : Type*} [DecidableEq τ] (pid : τ → ℕ)

/-- Some thread has registered the pair. -/
def Taken (s : Registry τ) (domain_id node_id : ℕ) : Prop :=
  ∃ t w, s.whoami t = some w ∧ w.domain_id = domain_id ∧ w.node_num = node_id

/-- The thread has registered the pair, in the memory that all processes find. -/
def IsRegistered (s : Registry τ) (t : τ) (domain_id node_id : ℕ) : Prop :=
  ∃ w m, s.whoami t = some w ∧ w.domain_id = domain_id ∧ w.node_num = node_id ∧
    s.key = some m ∧ s.mcapi_db (pid t) = some m ∧ HoldsIds (s.memories m) w

/-- The other threads stay registered, with the entries they have. -/
def KeepsOthers (s : Registry τ) (t : τ) (s' : Registry τ) : Prop :=
  ∀ t', t' ≠ t → ∀ w, s.whoami t' = some w → s'.whoami t' = some w ∧
    ∀ m, s.key = some m → s'.key = some m ∧ SameEntries (s.memories m) (s'.memories m) w

/-- Registered nodes have the same domain entry exactly if they have the same
domain id. -/
def DistinctDomains (s : Registry τ) : Prop :=
  ∀ t₁ w₁ t₂ w₂, s.whoami t₁ = some w₁ → s.whoami t₂ = some w₂ →
    (w₁.dindex = w₂.dindex ↔ w₁.domain_id = w₂.domain_id)

/-- What a call may do. -/
def Expected (s : Registry τ) (c : RegistrationCall τ) (s' : Registry τ) (rc : Bool) : Prop :=
  DistinctDomains s' ∧
    match c with
    | .init t domain_id node_id _ _ =>
      KeepsOthers s t s' ∧
        (rc = true → ¬ Taken s domain_id node_id ∧ IsRegistered pid s' t domain_id node_id) ∧
        (Taken s domain_id node_id → rc = false ∧
          s'.memories = s.memories ∧ s'.key = s.key ∧ s'.whoami = s.whoami)
    | .finalize t _ _ => KeepsOthers s t s'

/-- The call does what is expected. -/
def CallOk (s : Registry τ) (c : RegistrationCall τ) : Prop :=
  ∀ s' rc, s.step pid c = some (s', rc) → Expected pid s c s' rc

/-- A memory is created by a process that points to no old one; and if a domain
is new, the entry it takes has no node registered in it. -/
def Separate (s : Registry τ) : RegistrationCall τ → Prop
  | .init t domain_id _ _ access =>
    match access with
    | .found true => s.whoami t = none → ∀ m d, s.key = some m →
        (s.memories m).findDomain domain_id = none → (s.memories m).freeDomain = some d →
          ∀ t' w, s.whoami t' = some w → w.dindex ≠ d
    | .made _ true => s.key = none → s.mcapi_db (pid t) = none
    | _ => True
  | .finalize _ _ _ => True

/-! ## The invariant -/

structure RegistryInv (s : Registry τ) : Prop where
  enrolled : ∀ t w, s.whoami t = some w →
    ∃ m, s.key = some m ∧ s.mcapi_db (pid t) = some m ∧ Enrolled (s.memories m) (pid t) w
  apart : ∀ t t' w w', t ≠ t' → s.whoami t = some w → s.whoami t' = some w' →
    ¬ (w.dindex = w'.dindex ∧ w.nindex = w'.nindex)
  key_lt : ∀ m, s.key = some m → m < s.created
  mcapi_db_lt : ∀ p m, s.mcapi_db p = some m → m < s.created

variable {pid} {s s' : Registry τ}

omit [DecidableEq τ] in
theorem RegistryInv.initial : RegistryInv pid (Registry.initial : Registry τ) :=
  ⟨fun _ _ h => (by cases h), fun _ _ _ _ _ h => (by cases h), fun _ h => (by cases h),
    fun _ _ h => (by cases h)⟩

omit [DecidableEq τ] in
/-- Under the invariant a domain's entry is determined by its id. -/
theorem RegistryInv.distinctDomains (h : RegistryInv pid s) : DistinctDomains s := by
  intro t₁ w₁ t₂ w₂ h₁ h₂
  obtain ⟨m, hm, -, hs₁⟩ := h.enrolled t₁ w₁ h₁
  obtain ⟨m', hm', -, hs₂⟩ := h.enrolled t₂ w₂ h₂
  obtain rfl := Option.some.inj (hm.symm.trans hm')
  constructor
  · intro hd
    rw [← hs₁.holds.domain_id, ← hs₂.holds.domain_id, hd]
  · intro hid
    apply Option.some.inj
    rw [← hs₁.found, ← hs₂.found, hid]

omit [DecidableEq τ] in
/-- Registered nodes are enrolled in the memory of the key. -/
theorem RegistryInv.enrolled_key (h : RegistryInv pid s) {m : ℕ} (hkey : s.key = some m) {t : τ}
    {w : Whoami} (hw : s.whoami t = some w) : Enrolled (s.memories m) (pid t) w := by
  obtain ⟨m', hm', -, hs⟩ := h.enrolled t w hw
  obtain rfl := Option.some.inj (hkey.symm.trans hm')
  exact hs

omit [DecidableEq τ] in
/-- Without a memory nobody is registered. -/
theorem RegistryInv.whoami_none (h : RegistryInv pid s) (hkey : s.key = none) (t : τ) :
    s.whoami t = none := by
  cases hw : s.whoami t with
  | none => rfl
  | some w =>
    obtain ⟨m, hm, -⟩ := h.enrolled t w hw
    rw [hkey] at hm
    cases hm

/-! ## Replacing a memory -/

/-- The memory is changed so that the other registered nodes stay enrolled, and
the thread is enrolled in a new entry or not registered. -/
theorem RegistryInv.write (h : RegistryInv pid s) {t : τ} {m : ℕ} (hkey : s.key = some m)
    {db : mcapi_database} {me : Option Whoami}
    (hothers : ∀ t' w, t' ≠ t → s.whoami t' = some w → Enrolled db (pid t') w)
    (hme : ∀ w, me = some w → s.mcapi_db (pid t) = some m ∧ Enrolled db (pid t) w ∧
      ∀ t' w', t' ≠ t → s.whoami t' = some w' →
        ¬ (w.dindex = w'.dindex ∧ w.nindex = w'.nindex)) :
    RegistryInv pid (s.write t m db me) := by
  refine ⟨?_, ?_, h.key_lt, h.mcapi_db_lt⟩
  · intro t' w hw
    by_cases htt : t' = t
    · subst htt
      rw [write_whoami_self] at hw
      obtain ⟨hdb, hs, -⟩ := hme w hw
      refine ⟨m, hkey, hdb, ?_⟩
      rw [write_memories_self]
      exact hs
    · rw [write_whoami_of_ne _ _ _ _ _ htt] at hw
      obtain ⟨m', hm', hdb', -⟩ := h.enrolled t' w hw
      obtain rfl := Option.some.inj (hkey.symm.trans hm')
      refine ⟨m, hkey, hdb', ?_⟩
      rw [write_memories_self]
      exact hothers t' w htt hw
  · intro t₁ t₂ w₁ w₂ hne h₁ h₂
    by_cases ht₁ : t₁ = t
    · subst ht₁
      rw [write_whoami_self] at h₁
      rw [write_whoami_of_ne _ _ _ _ _ hne.symm] at h₂
      exact (hme w₁ h₁).2.2 t₂ w₂ hne.symm h₂
    · rw [write_whoami_of_ne _ _ _ _ _ ht₁] at h₁
      by_cases ht₂ : t₂ = t
      · subst ht₂
        rw [write_whoami_self] at h₂
        rintro ⟨hd, hn⟩
        exact (hme w₂ h₂).2.2 t₁ w₁ ht₁ h₁ ⟨hd.symm, hn.symm⟩
      · rw [write_whoami_of_ne _ _ _ _ _ ht₂] at h₂
        exact h.apart t₁ t₂ w₁ w₂ hne h₁ h₂

theorem KeepsOthers.write {t : τ} {m : ℕ} (hkey : s.key = some m) {db : mcapi_database}
    {me : Option Whoami}
    (hothers : ∀ t' w, t' ≠ t → s.whoami t' = some w → SameEntries (s.memories m) db w) :
    KeepsOthers s t (s.write t m db me) := by
  intro t' htt w hw
  refine ⟨by rw [write_whoami_of_ne _ _ _ _ _ htt]; exact hw, fun m' hm' => ⟨hm', ?_⟩⟩
  obtain rfl := Option.some.inj (hkey.symm.trans hm')
  rw [write_memories_self]
  exact hothers t' w htt hw

/-! ## One call -/

omit [DecidableEq τ] in
/-- The invariant after the process is attached, and what has changed: without a
memory nobody was registered, and a memory that was there is not touched. -/
theorem RegistryInv.attach {s₁ : Registry τ} (h : RegistryInv pid s) {p : ℕ}
    {access : ShmAccess} {ok : Bool}
    (hsep : ∀ content, access = .made content true → s.key = none → s.mcapi_db p = none)
    (ha : s.attach p access = some (s₁, ok)) :
    RegistryInv pid s₁ ∧ s₁.whoami = s.whoami ∧
      (ok = true → ∃ m, s₁.key = some m ∧ s₁.mcapi_db p = some m) ∧
      ∀ m, s.key = some m → s₁.key = some m ∧ s₁.memories = s.memories := by
  cases access with
  | failed =>
    obtain ⟨rfl, rfl⟩ := Prod.mk.inj (Option.some.inj ha)
    exact ⟨h, rfl, fun hok => (by cases hok), fun m hm => ⟨hm, rfl⟩⟩
  | found attached =>
    obtain ⟨m, hm, heq⟩ := Option.map_eq_some_iff.mp ha
    obtain ⟨rfl, rfl⟩ := Prod.mk.inj heq
    cases attached with
    | false => exact ⟨⟨h.enrolled, h.apart, h.key_lt, h.mcapi_db_lt⟩, rfl,
        fun hok => (by cases hok), fun m hm => ⟨hm, rfl⟩⟩
    | true =>
      refine ⟨⟨fun t w hw => ?_, h.apart, h.key_lt, fun q m' hq => ?_⟩, rfl,
        fun _ => ⟨m, hm, Function.update_self ..⟩, fun m hm => ⟨hm, rfl⟩⟩
      · refine ⟨m, hm, ?_, h.enrolled_key hm hw⟩
        show Function.update s.mcapi_db p (some m) (pid t) = some m
        by_cases hp : pid t = p
        · rw [hp, Function.update_self]
        · rw [Function.update_of_ne hp]
          obtain ⟨m', hm', hdb, -⟩ := h.enrolled t w hw
          rw [hdb, ← hm', hm]
      · replace hq : Function.update s.mcapi_db p (some m) q = some m' := hq
        by_cases hqp : q = p
        · rw [hqp, Function.update_self, Option.some.injEq] at hq
          rw [← hq]
          exact h.key_lt m hm
        · rw [Function.update_of_ne hqp] at hq
          exact h.mcapi_db_lt q m' hq
  | made content attached =>
    by_cases hkey : s.key = none
    · rw [Registry.attach, if_pos hkey] at ha
      have hnobody := h.whoami_none hkey
      cases attached with
      | false =>
        obtain ⟨rfl, rfl⟩ := Prod.mk.inj (Option.some.inj ha)
        refine ⟨⟨fun t w hw => ?_, h.apart, fun m hm => ?_, fun q m hq => ?_⟩, rfl,
          fun hok => (by cases hok), fun m hm => ?_⟩
        · cases (hnobody t).symm.trans hw
        · obtain rfl := Option.some.inj hm
          exact Nat.lt_succ_self _
        · exact Nat.lt_succ_of_lt (h.mcapi_db_lt q m hq)
        · cases hkey.symm.trans hm
      | true =>
        obtain ⟨rfl, rfl⟩ := Prod.mk.inj (Option.some.inj ha)
        have hnull := hsep content rfl hkey
        refine ⟨⟨fun t w hw => ?_, h.apart, fun m hm => ?_, fun q m hq => ?_⟩, rfl,
          fun _ => ⟨s.created, rfl, ?_⟩, fun m hm => ?_⟩
        · cases (hnobody t).symm.trans hw
        · obtain rfl := Option.some.inj hm
          exact Nat.lt_succ_self _
        · replace hq : Function.update s.mcapi_db p (some ((s.mcapi_db p).getD s.created)) q
              = some m := hq
          show m < s.created + 1
          by_cases hqp : q = p
          · rw [hqp, Function.update_self, hnull, Option.getD_none, Option.some.injEq] at hq
            omega
          · rw [Function.update_of_ne hqp] at hq
            exact Nat.lt_succ_of_lt (h.mcapi_db_lt q m hq)
        · show Function.update s.mcapi_db p (some ((s.mcapi_db p).getD s.created)) p
            = some s.created
          rw [Function.update_self, hnull, Option.getD_none]
        · cases hkey.symm.trans hm
    · rw [Registry.attach, if_neg hkey] at ha
      cases ha

/-- Adding the caller to the memory that all processes find. -/
theorem RegistryInv.enter (h : RegistryInv pid s) {t : τ} {m domain_id node_id : ℕ}
    {start rc : Bool} (ht : s.whoami t = none) (hkey : s.key = some m)
    (hdb : s.mcapi_db (pid t) = some m)
    (hfree : (s.memories m).findDomain domain_id = none → ∀ d,
      (s.memories m).freeDomain = some d → ∀ t' w, s.whoami t' = some w → w.dindex ≠ d)
    (hs : s.enter t (pid t) domain_id node_id start = some (s', rc)) :
    RegistryInv pid s' ∧ KeepsOthers s t s' ∧
      (rc = true → ¬ Taken s domain_id node_id ∧ IsRegistered pid s' t domain_id node_id) ∧
      (Taken s domain_id node_id →
        rc = false ∧ s'.memories = s.memories ∧ s'.key = s.key ∧ s'.whoami = s.whoami) := by
  unfold Registry.enter at hs
  rw [hdb, Option.map_some, Option.some.injEq, Prod.mk.injEq] at hs
  obtain ⟨rfl, rfl⟩ := hs
  have hother : ∀ t' w, s.whoami t' = some w → _ := fun t' w hw =>
    (h.enrolled_key hkey hw).register node_id (pid t) start
      fun hnone d hd => hfree hnone d hd t' w hw
  refine ⟨?_, ?_, ?_, ?_⟩
  · refine h.write hkey (fun t' w _ hw => (hother t' w hw).1.1) fun me hme => ?_
    exact ⟨hdb, (register_enrolled hme).1, fun t' w _ hw => ((hother t' w hw).2 me hme).1⟩
  · exact KeepsOthers.write hkey fun t' w _ hw => (hother t' w hw).1.2
  · intro hrc
    obtain ⟨me, hme⟩ := Option.isSome_iff_exists.mp hrc
    obtain ⟨henrolled, hid, hnum⟩ := register_enrolled hme
    refine ⟨?_, me, m, ?_, hid, hnum, hkey, hdb, ?_⟩
    · rintro ⟨t', w, hw, hpair⟩
      exact ((hother t' w hw).2 me hme).2 hpair
    · rw [write_whoami_self]
      exact hme
    · rw [write_memories_self]
      exact henrolled.holds
  · rintro ⟨t', w, hw, rfl, rfl⟩
    rw [(h.enrolled_key hkey hw).refused start]
    refine ⟨rfl, Function.update_eq_self m s.memories, rfl, ?_⟩
    show Function.update s.whoami t none = s.whoami
    rw [← ht]
    exact Function.update_eq_self t s.whoami

/-- Removing the caller. -/
theorem RegistryInv.leave (h : RegistryInv pid s) {t : τ} {me : Whoami}
    (ht : s.whoami t = some me) (deleted released : Bool) :
    RegistryInv pid (s.leave t (pid t) me deleted released).1 ∧
      KeepsOthers s t (s.leave t (pid t) me deleted released).1 := by
  obtain ⟨m, hkey, hdb, hme⟩ := h.enrolled t me ht
  have hother : ∀ t' w, t' ≠ t → s.whoami t' = some w →
      ¬ (w.dindex = me.dindex ∧ w.nindex = me.nindex) :=
    fun t' w htt hw => h.apart t' t w me htt hw ht
  have hfin : ∀ t' w, t' ≠ t → s.whoami t' = some w → _ := fun t' w htt hw =>
    (h.enrolled_key hkey hw).finalize (q := pid t) (hother t' w htt hw)
  unfold Registry.leave
  rw [hdb]
  set db := (mcapi_trans_finalize (s.memories m) me (pid t)).1
  have hwrite : RegistryInv pid (s.write t m db none) :=
    h.write hkey (fun t' w htt hw => (hfin t' w htt hw).1) fun w hw => by cases hw
  have hkeep : KeepsOthers s t (s.write t m db none) :=
    KeepsOthers.write hkey fun t' w htt hw => (hfin t' w htt hw).2
  -- another registered node keeps the memory, and the pointer of its process
  refine ⟨⟨fun t' w hw => ?_, hwrite.apart, fun m' hm' => ?_, fun q m' hq => ?_⟩, ?_⟩
  · have htt : t' ≠ t := by
      rintro rfl
      cases (write_whoami_self s t' m db none).symm.trans hw
    have hw' : s.whoami t' = some w := (write_whoami_of_ne s t m db none htt).symm.trans hw
    obtain ⟨m', hm', hdb', hs⟩ := hwrite.enrolled t' w hw
    obtain ⟨hlast, hproc⟩ :=
      (h.enrolled_key hkey hw').not_last (q := pid t) (hother t' w htt hw')
    refine ⟨m', ?_, ?_, hs⟩
    · show (if _ then none else s.key) = some m'
      rw [hlast, Bool.false_and, Bool.false_and, if_neg Bool.false_ne_true]
      exact hm'
    · show (if _ then Function.update s.mcapi_db (pid t) none else s.mcapi_db) (pid t') = some m'
      by_cases hp : pid t' = pid t
      · rw [hproc hp, if_neg Bool.false_ne_true]
        exact hdb'
      · split
        · rw [Function.update_of_ne hp]
          exact hdb'
        · exact hdb'
  · replace hm' : (if _ then none else s.key) = some m' := hm'
    split at hm'
    · cases hm'
    · exact h.key_lt m' hm'
  · replace hq : (if _ then Function.update s.mcapi_db (pid t) none else s.mcapi_db) q
      = some m' := hq
    split at hq
    · by_cases hqp : q = pid t
      · rw [hqp, Function.update_self] at hq
        cases hq
      · rw [Function.update_of_ne hqp] at hq
        exact h.mcapi_db_lt q m' hq
    · exact h.mcapi_db_lt q m' hq
  · intro t' htt w hw
    obtain ⟨hw', hsame⟩ := hkeep t' htt w hw
    refine ⟨hw', fun m' hm' => ⟨?_, (hsame m' hm').2⟩⟩
    show (if _ then none else s.key) = some m'
    rw [((h.enrolled_key hkey hw).not_last (hother t' w htt hw)).1, Bool.false_and,
      Bool.false_and, if_neg Bool.false_ne_true]
    exact hm'

omit [DecidableEq τ] in
/-- The same threads are registered, with the same memory. -/
structure Undisturbed (s s₁ : Registry τ) : Prop where
  whoami : s₁.whoami = s.whoami
  memory : ∀ m, s.key = some m → s₁.key = some m ∧ s₁.memories = s.memories

section

variable {s₁ : Registry τ}

omit [DecidableEq τ] in
/-- What is expected of the rest of a call is expected of the whole call. -/
theorem Undisturbed.keepsOthers (hu : Undisturbed s s₁) {t : τ} (h : KeepsOthers s₁ t s') :
    KeepsOthers s t s' := by
  intro t' htt w hw
  obtain ⟨hw', hrest⟩ := h t' htt w (by rw [hu.whoami]; exact hw)
  refine ⟨hw', fun m hm => ?_⟩
  obtain ⟨hkey, hmemories⟩ := hu.memory m hm
  rw [← hmemories]
  exact hrest m hkey

omit [DecidableEq τ] in
theorem Undisturbed.taken (hu : Undisturbed s s₁) {domain_id node_id : ℕ} :
    Taken s₁ domain_id node_id ↔ Taken s domain_id node_id := by
  unfold Taken
  rw [hu.whoami]

omit [DecidableEq τ] in
theorem KeepsOthers.refl (s : Registry τ) (t : τ) : KeepsOthers s t s :=
  fun _ _ w hw => ⟨hw, fun m hm => ⟨hm, .refl (s.memories m) w⟩⟩

omit [DecidableEq τ] in
theorem Taken.key (h : RegistryInv pid s) {domain_id node_id : ℕ}
    (ht : Taken s domain_id node_id) : ∃ m, s.key = some m := by
  obtain ⟨t, w, hw, -⟩ := ht
  obtain ⟨m, hm, -⟩ := h.enrolled t w hw
  exact ⟨m, hm⟩

end

/-- A separate registration keeps the invariant and does what is expected. -/
theorem RegistryInv.init (h : RegistryInv pid s) {t : τ} {domain_id node_id : ℕ}
    {start rc : Bool} {access : ShmAccess}
    (hsep : Separate pid s (.init t domain_id node_id start access))
    (hs : s.step pid (.init t domain_id node_id start access) = some (s', rc)) :
    RegistryInv pid s' ∧ Expected pid s (.init t domain_id node_id start access) s' rc := by
  by_cases ht : s.whoami t = none
  · rw [Registry.step, if_pos ht] at hs
    obtain ⟨⟨s₁, ok⟩, ha, hs⟩ := Option.bind_eq_some_iff.mp hs
    obtain ⟨hinv, hwhoami, hattached, hsame⟩ :=
      h.attach (fun content hc hkey => by rw [hc] at hsep; exact hsep hkey) ha
    have hu : Undisturbed s s₁ := ⟨hwhoami, hsame⟩
    cases ok with
    | false =>
      obtain ⟨rfl, rfl⟩ := Prod.mk.inj (Option.some.inj hs)
      refine ⟨hinv, hinv.distinctDomains, hu.keepsOthers (.refl s₁ t),
        fun hrc => (by cases hrc), fun htaken => ?_⟩
      obtain ⟨m, hm⟩ := htaken.key h
      exact ⟨rfl, (hsame m hm).2, (hsame m hm).1.trans hm.symm, hwhoami⟩
    | true =>
      obtain ⟨m, hkey, hdb⟩ := hattached rfl
      have ht₁ : s₁.whoami t = none := by
        rw [hwhoami]
        exact ht
      -- somebody is registered only in a memory that was found
      have hfree : (s₁.memories m).findDomain domain_id = none → ∀ d,
          (s₁.memories m).freeDomain = some d → ∀ t' w, s₁.whoami t' = some w →
            w.dindex ≠ d := by
        intro hnone d hd t' w hw
        rw [hwhoami] at hw
        obtain ⟨m', hm', -⟩ := h.enrolled t' w hw
        obtain ⟨hkey', hmemories⟩ := hsame m' hm'
        obtain rfl := Option.some.inj (hkey.symm.trans hkey')
        rw [hmemories] at hnone hd
        cases access with
        | failed => cases ha
        | found attached =>
          obtain ⟨_, -, heq⟩ := Option.map_eq_some_iff.mp ha
          obtain rfl := (Prod.mk.inj heq).2
          exact hsep ht m d hm' hnone hd t' w hw
        | made content attached =>
          rw [Registry.attach, if_neg (by rw [hm']; exact Option.some_ne_none m)] at ha
          cases ha
      obtain ⟨hinv', hkeep, hreg, htaken⟩ := hinv.enter ht₁ hkey hdb hfree hs
      refine ⟨hinv', hinv'.distinctDomains, hu.keepsOthers hkeep, fun hrc => ?_, fun ht' => ?_⟩
      · rw [← hu.taken]
        exact hreg hrc
      · obtain ⟨m', hm'⟩ := ht'.key h
        obtain ⟨hrc, h₁, h₂, h₃⟩ := htaken (hu.taken.mpr ht')
        exact ⟨hrc, h₁.trans (hsame m' hm').2, h₂.trans ((hsame m' hm').1.trans hm'.symm),
          h₃.trans hwhoami⟩
  · rw [Registry.step, if_neg ht] at hs
    cases hs

/-- A separate call keeps the invariant and does what is expected. -/
theorem RegistryInv.step (h : RegistryInv pid s) {c : RegistrationCall τ} {rc : Bool}
    (hsep : Separate pid s c) (hs : s.step pid c = some (s', rc)) :
    RegistryInv pid s' ∧ Expected pid s c s' rc := by
  cases c with
  | init t domain_id node_id start access => exact h.init hsep hs
  | finalize t deleted released =>
    obtain ⟨me, ht, heq⟩ := Option.map_eq_some_iff.mp hs
    obtain ⟨hinv, hkeep⟩ := h.leave ht deleted released
    rw [heq] at hinv hkeep
    exact ⟨hinv, hinv.distinctDomains, hkeep⟩

/-! ## Calls that are not separate -/

/-- A registration in a process that got attached. -/
theorem step_init_attached {t : τ} {domain_id node_id m : ℕ} {start : Bool} {access : ShmAccess}
    {s₁ : Registry τ} (ht : s.whoami t = none) (ha : s.attach (pid t) access = some (s₁, true))
    (hdb : s₁.mcapi_db (pid t) = some m) :
    s.step pid (.init t domain_id node_id start access)
      = some (s₁.write t m
          ( mcapi_trans_initialize (s₁.memories m) domain_id node_id (pid t) start).1
          ( mcapi_trans_initialize (s₁.memories m) domain_id node_id (pid t) start).2,
        ( mcapi_trans_initialize (s₁.memories m) domain_id node_id (pid t) start).2.isSome) := by
  rw [Registry.step, if_pos ht, ha, Option.bind_some, if_pos rfl, Registry.enter, hdb]
  rfl

omit [DecidableEq τ] in
/-- A process that points to an old memory clears it when it creates a new one. -/
theorem attach_made_of_old {p m : ℕ} (hkey : s.key = none) (hdb : s.mcapi_db p = some m)
    (content : mcapi_database) :
    ∃ s₁ db, s.attach p (.made content true) = some (s₁, true) ∧ s₁.key = some s.created ∧
      s₁.mcapi_db p = some m ∧ s₁.memories m = mcapi_database.clear db := by
  have hm : (s.mcapi_db p).getD s.created = m := by
    rw [hdb, Option.getD_some]
  rw [Registry.attach, if_pos hkey]
  refine ⟨_, Function.update s.memories s.created content m, rfl, rfl, ?_, ?_⟩
  · show Function.update s.mcapi_db p (some ((s.mcapi_db p).getD s.created)) p = some m
    rw [Function.update_self, hm]
  · rw [← hm]
    exact Function.update_self ..

omit [DecidableEq τ] in
/-- A process that finds the memory points to it. -/
theorem attach_found {p m : ℕ} (hkey : s.key = some m) :
    ∃ s₁, s.attach p (.found true) = some (s₁, true) ∧ s₁.mcapi_db p = some m ∧
      s₁.memories = s.memories := by
  rw [Registry.attach, hkey]
  exact ⟨_, rfl, Function.update_self .., rfl⟩

/-- A call that is not separate does what is not expected. -/
theorem RegistryInv.separate (h : RegistryInv pid s) {c : RegistrationCall τ}
    (hc : CallOk pid s c) : Separate pid s c := by
  cases c with
  | finalize t deleted released => trivial
  | init t domain_id node_id start access =>
    cases access with
    | failed => trivial
    | found attached =>
      cases attached with
      | false => trivial
      | true =>
        -- a registered node's domain entry would get the new id
        intro ht m d hkey hnone hfree t' w hw hd
        subst hd
        have hs := h.enrolled_key hkey hw
        have htt : t' ≠ t := by
          rintro rfl
          rw [ht] at hw
          cases hw
        obtain ⟨s₁, ha, hdb, hmemories⟩ := attach_found (p := pid t) hkey
        obtain ⟨-, hkeep, -⟩ := hc _ _ (step_init_attached ht ha hdb)
        rw [hmemories] at hkeep
        have hsame := ((hkeep t' htt w hw).2 m hkey).2.1
        rw [write_memories_self, register_domain_id hnone hfree, hs.holds.domain_id] at hsame
        exact findDomain_eq_none_iff.mp hnone _ hs.holds.dindex_lt
          (hs.holds.domain_id.trans hsame.symm)
    | made content attached =>
      cases attached with
      | false => trivial
      | true =>
        -- the caller would be added to the old memory, not to the one of the key
        intro hkey
        have ht := h.whoami_none hkey t
        by_contra hne
        obtain ⟨m, hm⟩ := Option.ne_none_iff_exists'.mp hne
        have hlt := h.mcapi_db_lt _ m hm
        obtain ⟨s₁, db, ha, hkey₁, hdb₁, hclear⟩ := attach_made_of_old hkey hm content
        obtain ⟨-, -, hreg, -⟩ := hc _ _ (step_init_attached ht ha hdb₁)
        rw [hclear] at hreg
        obtain ⟨-, w, m', -, -, -, hkey', hdb', -⟩ := hreg (register_clear ..)
        obtain rfl := Option.some.inj (hkey₁.symm.trans hkey')
        obtain rfl := Option.some.inj (hdb₁.symm.trans hdb')
        exact Nat.lt_irrefl _ hlt

end Registry

open Registry

end MxApi
