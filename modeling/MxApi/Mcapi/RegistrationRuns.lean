/-
Runs of concurrent registrations and removals.

The guard of a step has two parts. The steps on the memory must not take the
branches of `StepOk`; the steps that share or free resources must find the other
threads out of the way.
-/
import MxApi.Mcapi.RegistrationProgram

set_option autoImplicit false

namespace MxApi

open Lib

/-! ## The guard -/

section

variable {τ : Type} [DecidableEq τ] (pid : τ → ℕ)

/-- A thread creates the memory while its process points to no other one; the
memory is deleted while no other thread needs it; and a process drops its
pointer while none of its threads needs the memory. -/
def OthersOk (s : RegSys τ) (t : τ) : Prop :=
  match s.pc t with
  | .point _ m true => s.mcapi_db (pid t) = none ∨ s.mcapi_db (pid t) = some m
  | .release true _ => ∀ t', t' ≠ t → (s.pc t').uses (s.whoami t') = false
  | .detach true => ∀ t', t' ≠ t → pid t' = pid t → (s.pc t').uses (s.whoami t') = false
  | _ => True

/-- The guard of the runs that meet the conditions. -/
def RegGuard (s : RegSys τ) (l : RegLabel τ) : Prop :=
  match l with
  | .step t _ =>
    (∀ m, s.mcapi_db (pid t) = some m → StepOk (s.memories m) (s.pc t)) ∧ OthersOk pid s t
  | _ => True

/-! ## The steps off the memory -/

variable {pid} {r : Registry τ} {pc : τ → RegPc} {t : τ}

/-- A thread goes elsewhere with what it holds. -/
theorem RegistrationInv.goto (h : RegistrationInv pid r pc) {pc' : RegPc}
    (halive : pc'.uses (r.whoami t) = true → ∃ m, r.key = some m ∧
      pc'.PointsTo (r.mcapi_db (pid t)) m)
    (hheld : pc'.held (r.whoami t) = (pc t).held (r.whoami t))
    (hcontent : ∀ w v, (pc t).Content w v → pc'.held (r.whoami t) = some w → pc'.Content w v)
    (hentered : pc'.entered (r.whoami t) = (pc t).entered (r.whoami t))
    (hok : pc'.Ok (r.whoami t)) :
    RegistrationInv pid r (Function.update pc t pc') := by
  refine ⟨fun t' ht' => ?_, h.key_lt, h.mcapi_db_lt, fun t' => ?_, fun m hm => ?_,
    fun m hm t' d id hid => ?_, h.distinct⟩
  · by_cases htt : t' = t
    · subst htt
      rw [Function.update_self] at ht' ⊢
      exact halive ht'
    · rw [Function.update_of_ne htt] at ht' ⊢
      exact h.alive t' ht'
  · by_cases htt : t' = t
    · subst htt
      rw [Function.update_self]
      exact hok
    · rw [Function.update_of_ne htt]
      exact h.ok t'
  · have hc := h.covers_read hm hheld fun w hw hc => hcontent w _ hc hw
    rw [Function.update_eq_self] at hc
    exact hc
  · by_cases htt : t' = t
    · subst htt
      rw [Function.update_self, hentered] at hid
      exact h.entered m hm t' d id hid
    · rw [Function.update_of_ne htt] at hid
      exact h.entered m hm t' d id hid

/-- A thread that holds nothing goes where it holds nothing. -/
theorem RegistrationInv.goto_free (h : RegistrationInv pid r pc) {pc' : RegPc}
    (halive : pc'.uses (r.whoami t) = true → ∃ m, r.key = some m ∧
      pc'.PointsTo (r.mcapi_db (pid t)) m)
    (hheld : (pc t).held (r.whoami t) = none) (hfound : (pc t).found = none)
    (hheld' : pc'.held (r.whoami t) = none) (hfound' : pc'.found = none)
    (hok : pc'.Ok (r.whoami t)) :
    RegistrationInv pid r (Function.update pc t pc') := by
  refine h.goto halive (hheld'.trans hheld.symm) (fun w v _ hw => ?_) ?_ hok
  · cases hheld'.symm.trans hw
  · rw [RegPc.entered, RegPc.entered, hfound, hfound', hheld, hheld']

omit [DecidableEq τ] in
/-- Without a memory nobody needs one. -/
theorem RegistrationInv.uses_false (h : RegistrationInv pid r pc) (hkey : r.key = none) (t : τ) :
    (pc t).uses (r.whoami t) = false := by
  cases hu : (pc t).uses (r.whoami t) with
  | false => rfl
  | true =>
    obtain ⟨m, hm, -⟩ := h.alive t hu
    cases hkey.symm.trans hm

omit [DecidableEq τ] in
/-- The resources of the processes are changed, and the memory of the key is
kept or given up. -/
theorem RegistrationInv.resources (h : RegistrationInv pid r pc) {key : Option ℕ}
    {mcapi_db shm : ℕ → Option ℕ} (hkey : key = r.key ∨ key = none)
    (hlt : ∀ p m, mcapi_db p = some m → m < r.created)
    (halive : ∀ t m, (pc t).uses (r.whoami t) = true → r.key = some m →
      (pc t).PointsTo (r.mcapi_db (pid t)) m →
        key = some m ∧ (pc t).PointsTo (mcapi_db (pid t)) m) :
    RegistrationInv pid { r with key := key, mcapi_db := mcapi_db, shm := shm } pc := by
  have hold : ∀ m, key = some m → r.key = some m := by
    rintro m hm
    rcases hkey with hk | hk
    · rw [← hk]
      exact hm
    · cases hk.symm.trans hm
  refine ⟨fun t ht => ?_, fun m hm => h.key_lt m (hold m hm), hlt, h.ok,
    fun m hm => h.covers m (hold m hm), fun m hm => h.entered m (hold m hm),
    fun m hm => h.distinct m (hold m hm)⟩
  obtain ⟨m, hm, hp⟩ := h.alive t ht
  exact ⟨m, halive t m ht hm hp⟩

/-- The pointer of a process is replaced by another one to the memory of the key. -/
theorem pointsTo_update {p : RegPc} {mcapi_db : ℕ → Option ℕ} {q q' m : ℕ}
    (h : p.PointsTo (mcapi_db q) m) : p.PointsTo (Function.update mcapi_db q' (some m) q) m := by
  cases p with
  | point => exact h
  | _ =>
    show Function.update mcapi_db q' (some m) q = some m
    by_cases hq : q = q'
    · rw [hq, Function.update_self]
    · rw [Function.update_of_ne hq]
      exact h

/-- A new memory is zero, and nobody holds an entry in it. -/
theorem RegistrationInv.create (h : RegistrationInv pid r pc) (a : InitArgs)
    (hnone : r.whoami t = none) (hkey : r.key = none) :
    RegistrationInv pid
      { r with
        memories := Function.update r.memories r.created .zero
        created := r.created + 1
        key := some r.created
        shm := Function.update r.shm (pid t) (some r.created) }
      (Function.update pc t (.point a r.created true)) := by
  -- nobody uses a memory, so nobody holds or has found anything
  have huses := h.uses_false hkey
  have hheld : ∀ t', (Function.update pc t (.point a r.created true) t').held (r.whoami t')
      = none := by
    intro t'
    by_cases htt : t' = t
    · subst htt
      rw [Function.update_self]
      rfl
    · rw [Function.update_of_ne htt]
      cases hw : (pc t').held (r.whoami t') with
      | none => rfl
      | some w => cases (huses t').symm.trans (RegPc.uses_of_held hw)
  have hmem : Function.update r.memories r.created .zero r.created = mcapi_database.zero :=
    Function.update_self ..
  refine ⟨fun t' ht' => ?_, fun m hm => ?_, fun p m hm => Nat.lt_succ_of_lt (h.mcapi_db_lt p m hm),
    fun t' => ?_, fun m hm => ?_, fun m hm t' d id hid => ?_, fun m hm => ?_⟩
  · by_cases htt : t' = t
    · subst htt
      refine ⟨r.created, rfl, ?_⟩
      rw [Function.update_self]
      rfl
    · rw [Function.update_of_ne htt] at ht'
      cases (huses t').symm.trans ht'
  · obtain rfl := Option.some.inj hm
    exact Nat.lt_succ_self _
  · by_cases htt : t' = t
    · subst htt
      rw [Function.update_self]
      exact hnone
    · rw [Function.update_of_ne htt]
      exact h.ok t'
  · obtain rfl := Option.some.inj hm
    show Covers NodeFree _ (Function.update r.memories r.created .zero r.created).nodeState
    rw [hmem]
    refine ⟨⟨fun {t₁} _ _ _ _ h₁ _ => ?_, fun {t₁} _ _ h₁ => ?_⟩, fun _ _ => rfl⟩
    · cases (RegPc.claim_of_held_none (hheld t₁)).symm.trans h₁
    · cases (RegPc.claim_of_held_none (hheld t₁)).symm.trans h₁
  · by_cases htt : t' = t
    · subst htt
      rw [Function.update_self] at hid
      cases hid
    · rw [Function.update_of_ne htt] at hid
      cases (huses t').symm.trans (RegPc.uses_of_entered hid)
  · obtain rfl := Option.some.inj hm
    show DistinctIds (Function.update r.memories r.created .zero r.created)
    rw [hmem]
    exact ⟨fun _ _ _ _ halloc => (by cases halloc), fun _ _ _ _ _ _ halloc => (by cases halloc)⟩

/-! ## The steps of the system -/

end

section

variable {τ : Type} [DecidableEq τ] {pid : τ → ℕ} {s s' : RegSys τ} {t : τ}

theorem doAttach_of_some {a : InitArgs} {m : ℕ} (hkey : s.key = some m) :
    s.doAttach pid t a =
      { s with
        shm := Function.update s.shm (pid t) (some m)
        pc := Function.update s.pc t (.point a m false) } := by
  unfold RegSys.doAttach
  rw [hkey]

theorem doAttach_of_none {a : InitArgs} (hkey : s.key = none) :
    s.doAttach pid t a =
      { s with
        memories := Function.update s.memories s.created .zero
        created := s.created + 1
        key := some s.created
        shm := Function.update s.shm (pid t) (some s.created)
        pc := Function.update s.pc t (.point a s.created true) } := by
  unfold RegSys.doAttach
  rw [hkey]

theorem registrationInv_doAttach (h : RegistrationInv pid s.toRegistry s.pc) {a : InitArgs}
    (hp : s.pc t = .attach a) :
    RegistrationInv pid (s.doAttach pid t a).toRegistry (s.doAttach pid t a).pc := by
  have hnone : s.whoami t = none := by
    have hok := h.ok t
    rw [hp] at hok
    exact hok
  rcases Option.eq_none_or_eq_some s.key with hkey | ⟨m, hkey⟩
  · rw [doAttach_of_none hkey]
    exact h.create a hnone hkey
  · rw [doAttach_of_some hkey]
    have hres : RegistrationInv pid
        { s.toRegistry with shm := Function.update s.shm (pid t) (some m) } s.pc :=
      h.resources (Or.inl rfl) h.mcapi_db_lt fun t' m' _ hm hpt => ⟨hm, hpt⟩
    refine hres.goto_free (fun _ => ⟨m, hkey, ?_⟩) (by rw [hp]; rfl) (by rw [hp]; rfl) ?_ ?_ ?_
    · rfl
    · rfl
    · rfl
    · exact hnone

theorem registrationInv_doPoint (h : RegistrationInv pid s.toRegistry s.pc) {a : InitArgs} {m : ℕ}
    {created : Bool} (hp : s.pc t = .point a m created)
    (hg : created = true → s.mcapi_db (pid t) = none ∨ s.mcapi_db (pid t) = some m) :
    RegistrationInv pid (s.doPoint pid t a m created).toRegistry
      (s.doPoint pid t a m created).pc := by
  have hnone : s.whoami t = none := by
    have hok := h.ok t
    rw [hp] at hok
    exact hok
  obtain ⟨m', hkey, hm⟩ := h.alive t (by rw [hp]; rfl)
  rw [hp] at hm
  obtain rfl : m = m' := hm
  -- in every case the pointer is to the memory found or created
  have hptr : (if created = true ∧ s.mcapi_db (pid t) ≠ none then s.mcapi_db
      else Function.update s.mcapi_db (pid t) (some m))
        = Function.update s.mcapi_db (pid t) (some m) := by
    split
    · rename_i hc
      rcases hg hc.1 with hnull | hsome
      · exact absurd hnull hc.2
      · rw [← hsome, Function.update_eq_self]
    · rfl
  unfold RegSys.doPoint
  rw [hptr]
  have hres : RegistrationInv pid
      { s.toRegistry with mcapi_db := Function.update s.mcapi_db (pid t) (some m) } s.pc := by
    refine h.resources (Or.inl rfl) (fun p k hk => ?_) fun t' k hu hk hpt => ⟨hk, ?_⟩
    · by_cases hpp : p = pid t
      · rw [hpp, Function.update_self, Option.some.injEq] at hk
        rw [← hk]
        exact h.key_lt m hkey
      · rw [Function.update_of_ne hpp] at hk
        exact h.mcapi_db_lt p k hk
    · obtain rfl := Option.some.inj (hkey.symm.trans hk)
      exact pointsTo_update hpt
  have hself : Function.update s.mcapi_db (pid t) (some m) (pid t) = some m :=
    Function.update_self ..
  cases created with
  | true =>
    refine hres.goto_free (fun _ => ⟨m, hkey, ?_⟩) (by rw [hp]; rfl) (by rw [hp]; rfl) ?_ ?_ ?_
    · exact hself
    · rfl
    · rfl
    · exact hnone
  | false =>
    refine hres.goto_free (fun _ => ⟨m, hkey, ?_⟩) (by rw [hp]; rfl) (by rw [hp]; rfl) ?_ ?_ ?_
    · exact hself
    · rfl
    · rfl
    · exact ⟨hnone, by decide⟩

theorem registrationInv_doRelease (h : RegistrationInv pid s.toRegistry s.pc)
    {last lastHere : Bool} (hp : s.pc t = .release last lastHere)
    (hg : last = true → ∀ t', t' ≠ t → (s.pc t').uses (s.whoami t') = false) :
    RegistrationInv pid (s.doRelease pid t last lastHere).toRegistry
      (s.doRelease pid t last lastHere).pc := by
  unfold RegSys.doRelease
  have hgoto : RegistrationInv pid s.toRegistry (Function.update s.pc t (.detach lastHere)) :=
    h.goto_free (fun hu => by cases hu) (by rw [hp]; rfl) (by rw [hp]; rfl) rfl rfl trivial
  refine hgoto.resources ?_ hgoto.mcapi_db_lt fun t' m hu hm hpt => ⟨?_, hpt⟩
  · split
    · exact Or.inr rfl
    · exact Or.inl rfl
  · have htt : t' ≠ t := by
      rintro rfl
      rw [Function.update_self] at hu
      cases hu
    rw [Function.update_of_ne htt] at hu
    split
    · rename_i hdel
      cases (hg hdel.1 t' htt).symm.trans hu
    · exact hm

theorem registrationInv_doDetach (h : RegistrationInv pid s.toRegistry s.pc) {lastHere : Bool}
    (hp : s.pc t = .detach lastHere)
    (hg : lastHere = true → ∀ t', t' ≠ t → pid t' = pid t →
      (s.pc t').uses (s.whoami t') = false) :
    RegistrationInv pid (s.doDetach pid t lastHere).toRegistry
      (s.doDetach pid t lastHere).pc := by
  unfold RegSys.doDetach
  -- the thread holds nothing any more
  have hwho : RegistrationInv pid { s.toRegistry with whoami := Function.update s.whoami t none }
      (Function.update s.pc t .idle) := by
    refine ⟨fun t' ht' => ?_, h.key_lt, h.mcapi_db_lt, fun t' => ?_, fun m hm => ?_,
      fun m hm t' d id hid => ?_, h.distinct⟩
    · change (Function.update s.pc t .idle t').uses (Function.update s.whoami t none t') = true
        at ht'
      by_cases htt : t' = t
      · subst htt
        rw [Function.update_self, Function.update_self] at ht'
        cases ht'
      · rw [Function.update_of_ne htt, Function.update_of_ne htt] at ht'
        rw [Function.update_of_ne htt]
        exact h.alive t' ht'
    · change (Function.update s.pc t .idle t').Ok (Function.update s.whoami t none t')
      by_cases htt : t' = t
      · subst htt
        rw [Function.update_self, Function.update_self]
        exact fun w hw => by cases hw
      · rw [Function.update_of_ne htt, Function.update_of_ne htt]
        exact h.ok t'
    · exact covers_same (h.covers m hm) (by rw [hp]; rfl) rfl
    · change (Function.update s.pc t .idle t').entered (Function.update s.whoami t none t') =
        some (d, id) at hid
      by_cases htt : t' = t
      · subst htt
        rw [Function.update_self, Function.update_self] at hid
        cases hid
      · rw [Function.update_of_ne htt, Function.update_of_ne htt] at hid
        exact h.entered m hm t' d id hid
  refine hwho.resources (Or.inl rfl) (fun p m hm => ?_) fun t' m hu hm hpt => ⟨hm, ?_⟩
  · split at hm
    · by_cases hpp : p = pid t
      · rw [hpp, Function.update_self] at hm
        cases hm
      · rw [Function.update_of_ne hpp] at hm
        exact h.mcapi_db_lt p m hm
    · exact h.mcapi_db_lt p m hm
  · have htt : t' ≠ t := by
      rintro rfl
      rw [Function.update_self] at hu
      change RegPc.uses (Function.update s.whoami t' none t') .idle = true at hu
      rw [Function.update_self] at hu
      cases hu
    have hu' : (s.pc t').uses (s.whoami t') = true := by
      change (Function.update s.pc t .idle t').uses (Function.update s.whoami t none t') = true
        at hu
      rw [Function.update_of_ne htt, Function.update_of_ne htt] at hu
      exact hu
    rw [Function.update_of_ne htt] at hpt ⊢
    split
    · rename_i hhere
      -- a thread of this process would be in the way
      have hpp : pid t' ≠ pid t := by
        intro hpp
        cases (hg hhere t' htt hpp).symm.trans hu'
      rw [Function.update_of_ne hpp]
      exact hpt
    · exact hpt

/-- What the step of a thread can do. -/
theorem doStep_cases {ok : Bool} (hs : s.doStep pid t ok = some s') :
    (∃ a, s.pc t = .attach a ∧ s' = if ok then s.doAttach pid t a else s.goto t .idle) ∨
    (∃ a m created, s.pc t = .point a m created ∧ s' = s.doPoint pid t a m created) ∨
    (∃ last lastHere, s.pc t = .release last lastHere ∧ s' = s.doRelease pid t last lastHere) ∨
    (∃ lastHere, s.pc t = .detach lastHere ∧ s' = s.doDetach pid t lastHere) ∨
    (s.pc t).accesses = true ∧
      (s.mcapi_db (pid t) = none ∧ s' = s.goto t .failed ∨
        ∃ m, s.mcapi_db (pid t) = some m ∧ s' = s.doProgram pid t m) := by
  unfold RegSys.doStep at hs
  cases hp : s.pc t with
  | idle | failed =>
    rw [hp] at hs
    cases hs
  | attach a =>
    rw [hp] at hs
    exact Or.inl ⟨a, rfl, (Option.some.inj hs).symm⟩
  | point a m created =>
    rw [hp] at hs
    exact Or.inr (Or.inl ⟨a, m, created, rfl, (Option.some.inj hs).symm⟩)
  | release last lastHere =>
    rw [hp] at hs
    exact Or.inr (Or.inr (Or.inl ⟨last, lastHere, rfl, (Option.some.inj hs).symm⟩))
  | detach lastHere =>
    rw [hp] at hs
    exact Or.inr (Or.inr (Or.inr (Or.inl ⟨lastHere, rfl, (Option.some.inj hs).symm⟩)))
  | _ =>
    rw [hp] at hs
    refine Or.inr (Or.inr (Or.inr (Or.inr ⟨rfl, ?_⟩)))
    cases hdb : s.mcapi_db (pid t) with
    | none =>
      rw [hdb] at hs
      exact Or.inl ⟨rfl, (Option.some.inj hs).symm⟩
    | some m =>
      rw [hdb] at hs
      exact Or.inr ⟨m, rfl, (Option.some.inj hs).symm⟩

omit [DecidableEq τ] in
/-- Whose process points to no memory needs none. -/
theorem RegistrationInv.uses_false_of_null {r : Registry τ} {pc : τ → RegPc}
    (h : RegistrationInv pid r pc) (hacc : (pc t).accesses = true)
    (hnull : r.mcapi_db (pid t) = none) : (pc t).uses (r.whoami t) = false := by
  cases hu : (pc t).uses (r.whoami t) with
  | false => rfl
  | true =>
    obtain ⟨m, -, hpoints⟩ := h.alive t hu
    rw [hnull] at hpoints
    cases hp : pc t with
    | point =>
      rw [hp] at hacc
      cases hacc
    | _ =>
      rw [hp] at hpoints
      cases hpoints

/-- **Every admitted step of a thread keeps the invariant.** -/
theorem registrationInv_doStep (h : RegistrationInv pid s.toRegistry s.pc) {ok : Bool}
    (hs : s.doStep pid t ok = some s')
    (hg : RegGuard pid s (.step t ok)) : RegistrationInv pid s'.toRegistry s'.pc := by
  obtain ⟨hmem, hothers⟩ := hg
  rcases doStep_cases hs with ⟨a, hp, rfl⟩ | ⟨a, m, created, hp, rfl⟩ | ⟨last, lastHere, hp, rfl⟩ |
    ⟨lastHere, hp, rfl⟩ | ⟨hacc, ⟨hnull, rfl⟩ | ⟨m, hdb, rfl⟩⟩
  · cases ok with
    | true => exact registrationInv_doAttach h hp
    | false =>
      have hnone : s.whoami t = none := by
        have hok := h.ok t
        rw [hp] at hok
        exact hok
      refine h.goto_free (fun hu => ?_) (by rw [hp]; rfl) (by rw [hp]; rfl) hnone rfl
        fun w hw => ?_
      · rw [RegPc.uses, hnone] at hu
        cases hu
      · cases hnone.symm.trans hw
  · refine registrationInv_doPoint h hp ?_
    rintro rfl
    unfold OthersOk at hothers
    rw [hp] at hothers
    exact hothers
  · refine registrationInv_doRelease h hp ?_
    rintro rfl
    unfold OthersOk at hothers
    rw [hp] at hothers
    exact hothers
  · refine registrationInv_doDetach h hp ?_
    rintro rfl
    unfold OthersOk at hothers
    rw [hp] at hothers
    exact hothers
  · -- only a thread that does not need the memory can find it gone
    have huses := h.uses_false_of_null hacc hnull
    have hentered : (s.pc t).entered (s.whoami t) = none := by
      cases he : (s.pc t).entered (s.whoami t) with
      | none => rfl
      | some e => cases huses.symm.trans (RegPc.uses_of_entered he)
    have hheld : (s.pc t).held (s.whoami t) = none := by
      cases hw : (s.pc t).held (s.whoami t) with
      | none => rfl
      | some w => cases huses.symm.trans (RegPc.uses_of_held hw)
    exact h.goto (fun hu => by cases hu) hheld.symm (fun w v _ hw => by cases hw) hentered.symm
      trivial
  · exact h.doProgram hdb hacc (hmem m hdb)

/-- What the call of a finalization can do. -/
theorem finalize_cases (hs : s.step pid (.finalize t) = some s') :
    ∃ w, s.pc t = .idle ∧ s.whoami t = some w ∧
      (s' = s.goto t (.readNode .remove w) ∨ s' = s) := by
  rw [RegSys.step] at hs
  split at hs
  · rename_i w m hp hw hdb
    exact ⟨w, hp, hw, Or.inl (Option.some.inj hs).symm⟩
  · rename_i w hp hw hdb
    exact ⟨w, hp, hw, Or.inr (Option.some.inj hs).symm⟩
  · cases hs

/-- What the call of an initialization can do. -/
theorem init_cases {a : InitArgs} (hs : s.step pid (.init t a) = some s') :
    s.pc t = .idle ∧ s.whoami t = none ∧ s' = s.goto t (.attach a) := by
  rw [RegSys.step] at hs
  obtain ⟨⟨hp, hnone⟩, hs⟩ := Option.ite_none_right_eq_some.mp hs
  exact ⟨hp, hnone, (Option.some.inj hs).symm⟩

/-- **Every admitted step keeps the invariant.** -/
theorem RegistrationInv.step {l : RegLabel τ} (h : RegistrationInv pid s.toRegistry s.pc)
    (hs : s.step pid l = some s') (hg : RegGuard pid s l) :
    RegistrationInv pid s'.toRegistry s'.pc := by
  cases l with
  | init t a =>
    obtain ⟨hp, hnone, rfl⟩ := init_cases hs
    exact h.goto_free (fun hu => by cases hu) (by rw [hp]; exact hnone) (by rw [hp]; rfl) rfl rfl
      hnone
  | finalize t =>
    obtain ⟨w, hp, hw, rfl | rfl⟩ := finalize_cases hs
    · have hu : (s.pc t).uses (s.whoami t) = true := by
        rw [hp, hw]
        rfl
      have hok := h.ok t
      rw [hp] at hok
      refine h.goto (fun _ => ?_) ?_ (fun w' v hc _ => ?_) ?_ fun _ => ⟨hok w hw, hw⟩
      · obtain ⟨k, hk, hpoints⟩ := h.alive t hu
        rw [hp] at hpoints
        exact ⟨k, hk, hpoints⟩
      · rw [hp]
        exact hw.symm
      · rw [hp] at hc
        exact hc
      · rw [hp, RegPc.entered, RegPc.entered]
        show _ = (none <|> Option.map _ (s.whoami t))
        rw [hw]
        rfl
    · exact h
  | step t ok => exact registrationInv_doStep h hs hg

omit [DecidableEq τ] in
theorem RegistrationInv.initial : RegistrationInv pid (RegSys.initial τ).toRegistry
    (RegSys.initial τ).pc :=
  ⟨fun _ h => (by cases h), fun _ h => (by cases h), fun _ _ h => (by cases h),
    fun _ _ h => (by cases h), fun _ h => (by cases h), fun _ h => (by cases h),
    fun _ h => (by cases h)⟩

end

end MxApi
