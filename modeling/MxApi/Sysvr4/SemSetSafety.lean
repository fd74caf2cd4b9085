/-
When the count of a semaphore set is the number of its handles.

A clone is not counted, so that the drop of one handle may remove the set under the other. A lookup
that fails leaves `SemRef::new` and `create_sys_semaphore` with the default value, whose drop goes to
the set with identifier 0. And a set can be removed while another call has found it or is about to
read its count. In the runs without these the handles are counted, the set is there while there is
one, and every drop reaches the set of its own handle ([`sem_set_ok`]).
-/
import MxApi.Lib.Run
import MxApi.Lib.Tally
import MxApi.Sysvr4.SemSet

set_option autoImplicit false

namespace MxApi.SemSet

open Lib

/-! ## The property -/

/-- The value is a handle of the set. -/
def Phase.holds (id : ℕ) : Phase → Prop
  | .live j | .unusable j true _ _ => j = id
  | _ => False

/-- The set is there for the value: it is a handle, or it is just becoming or ceasing to be one. -/
def Phase.uses (id : ℕ) : Phase → Prop
  | .initializing _ _ j _ | .live j | .unusable j true _ _ | .dropped j true _
  | .removing j true _ => j = id
  | _ => False

/-- A value is dropped that is no handle of the set. -/
def Phase.stray : Phase → Prop
  | .dropped _ false _ | .removing _ false _ => True
  | _ => False

variable {υ : Type}

structure SemSetOk (base : ℕ) (foreign : ℕ → Option ℕ) (s : St υ) : Prop where
  /-- The set of a handle is there. -/
  there : ∀ v id, (s.value v).holds id → base ≤ id ∧ ∃ n, s.ids.val id = some n
  /-- It is not there longer than its handles. -/
  used : ∀ id n, base ≤ id → s.ids.val id = some n → ∃ v, (s.value v).uses id
  /-- Member 0 is the number of the handles. -/
  count : ∀ id n, base ≤ id → s.ids.val id = some n → Tally (fun v => (s.value v).holds id) n
  no_panic : ∀ v, s.value v ≠ .panicked
  /-- Only handles are dropped. -/
  handles : ∀ v, ¬ (s.value v).stray
  /-- The sets of other programs are as they were. -/
  others : ∀ id, id < base → s.ids.val id = foreign id

/-! ## The condition -/

/-- The value is at work on the set, or has it. -/
def Phase.refers (id : ℕ) : Phase → Prop
  | .initializing _ _ j _ | .waiting j | .ready j | .live j | .unusable j _ _ _ | .dropped j _ _
  | .removing j _ _ => j = id
  | .none | .creating _ _ | .lookup _ _ | .default | .panicked => False

/-- The condition on the next system call of a value. A lookup is for a key that is not private, and
finds a set unless it is a plain `sem_get`; the count has room; and a set is removed when no other
value refers to it. -/
def goodNext (key : ℕ) (s : St υ) (v : υ) (fails : Bool) : Phase → Prop
  | .lookup c _ =>
    key ≠ IPC_PRIVATE ∧ (c = .sem_get ∨ fails = false ∧ s.ids.current.isSome = true)
  | .ready id => ∀ x ∈ s.ids.val id, x < SEMVMX
  | .removing id _ _ => ∀ v', (s.value v').refers id → v' = v
  | _ => True

def good (key : ℕ) (s : St υ) : Call υ → Prop
  | .clone _ _ => False
  | .step v fails => goodNext key s v fails (s.value v)
  | _ => True

instance (id : ℕ) : ∀ x : Phase, Decidable (x.refers id)
  | .initializing _ _ j _ | .waiting j | .ready j | .live j | .unusable j _ _ _ | .dropped j _ _
  | .removing j _ _ => inferInstanceAs (Decidable (j = id))
  | .none | .creating _ _ | .lookup _ _ | .default | .panicked => .isFalse fun h => h

instance [Fintype υ] [DecidableEq υ] (key : ℕ) (s : St υ) (v : υ) (fails : Bool) :
    ∀ x : Phase, Decidable (goodNext key s v fails x)
  | .lookup _ _ => inferInstanceAs (Decidable (_ ≠ _ ∧ (_ ∨ _ ∧ _)))
  | .ready id => inferInstanceAs (Decidable (∀ x ∈ s.ids.val id, x < SEMVMX))
  | .removing id _ _ => inferInstanceAs (Decidable (∀ v', (s.value v').refers id → v' = v))
  | .none | .creating _ _ | .initializing _ _ _ _ | .waiting _ | .live _ | .default
  | .unusable _ _ _ _ | .dropped _ _ _ | .panicked => .isTrue trivial

instance [Fintype υ] [DecidableEq υ] (key : ℕ) (s : St υ) :
    ∀ call : Call υ, Decidable (good key s call)
  | .clone _ _ => .isFalse fun h => h
  | .step v fails => inferInstanceAs (Decidable (goodNext key s v fails (s.value v)))
  | .sem_create _ _ | .sem_get _ _ | .new _ _ | .create_sys_semaphore _ _ | .drop _ =>
    .isTrue trivial

/-! ## The invariant -/

/-- The value is initializing the set. -/
def Phase.starts (id : ℕ) : Phase → Prop
  | .initializing _ _ j _ => j = id
  | _ => False

/-- The value went no wrong way. -/
def Phase.proper : Phase → Prop
  | .default | .panicked | .unusable _ false _ _ | .dropped _ false _ | .removing _ false _ => False
  | _ => True

structure Inv (base : ℕ) (foreign : ℕ → Option ℕ) (s : St υ) : Prop where
  there : ∀ v id, (s.value v).refers id → base ≤ id ∧ ∃ n, s.ids.val id = some n
  current : ∀ id, s.ids.current = some id → base ≤ id ∧ ∃ n, s.ids.val id = some n
  fresh : ∀ id, s.ids.next ≤ id → s.ids.val id = none
  base_le : base ≤ s.ids.next
  others : ∀ id, id < base → s.ids.val id = foreign id
  used : ∀ id n, base ≤ id → s.ids.val id = some n → ∃ v, (s.value v).uses id
  count : ∀ id n, base ≤ id → s.ids.val id = some n → Tally (fun v => (s.value v).holds id) n
  starts : ∀ v id, (s.value v).starts id → ∀ v', v' ≠ v → (s.value v').refers id →
    s.value v' = .waiting id
  proper : ∀ v, (s.value v).proper

variable {base : ℕ} {foreign : ℕ → Option ℕ} {s : St υ} {v : υ} {id n : ℕ}

theorem Phase.refers_of_uses {x : Phase} (h : x.uses id) : x.refers id := by
  unfold Phase.uses at h
  split at h <;> first | exact h | exact h.elim

theorem Phase.refers_of_holds {x : Phase} (h : x.holds id) : x.refers id := by
  unfold Phase.holds at h
  split at h <;> first | exact h | exact h.elim

theorem Phase.uses_of_holds {x : Phase} (h : x.holds id) : x.uses id := by
  unfold Phase.holds at h
  split at h <;> first | exact h | exact h.elim

theorem Inv.ok (hs : Inv base foreign s) : SemSetOk base foreign s := by
  refine ⟨?_, hs.used, hs.count, ?_, ?_, hs.others⟩
  · intro v id hv
    exact hs.there v id (Phase.refers_of_holds hv)
  · intro v hv
    have hproper := hs.proper v
    rw [hv] at hproper
    exact hproper
  · intro v hv
    have hproper := hs.proper v
    unfold Phase.stray at hv
    split at hv
    · rename_i hx
      rw [hx] at hproper
      exact hproper
    · rename_i hx
      rw [hx] at hproper
      exact hproper
    · exact hv

theorem init_inv : Inv base foreign (init base foreign : St υ) := by
  refine ⟨?_, ?_, ?_, le_rfl, ?_, ?_, ?_, ?_, fun v => trivial⟩
  · intro v id hv
    exact hv.elim
  · intro id hc
    cases hc
  · intro id hid
    exact if_neg (Nat.not_lt.mpr hid)
  · intro id hid
    exact if_pos hid
  · intro id n hid hn
    simp only [init, if_neg (Nat.not_lt.mpr hid)] at hn
    cases hn
  · intro id n hid hn
    simp only [init, if_neg (Nat.not_lt.mpr hid)] at hn
    cases hn
  · intro v id hv
    exact hv.elim

/-- A value refers to one set at most. -/
theorem Phase.refers_unique {x : Phase} {j k : ℕ} (hj : x.refers j) (hk : x.refers k) : j = k := by
  cases x with
  | none | creating | lookup | default | panicked => exact hj.elim
  | _ => exact Eq.trans (Eq.symm hj) hk

theorem Phase.refers_of_starts {x : Phase} (h : x.starts id) : x.refers id := by
  unfold Phase.starts at h
  split at h <;> first | exact h | exact h.elim

section Steps

variable [DecidableEq υ]

theorem set_value (s : St υ) (m : Ids) (v : υ) (y : Phase) (w : υ) :
    (s.set m v y).value w = if w = v then y else s.value w :=
  Function.update_apply ..

/-- A value moves on, and the table stays as it is. -/
theorem Inv.move {y : Phase} (hs : Inv base foreign s)
    (hrefers : ∀ id, y.refers id → (s.value v).refers id ∨ s.ids.current = some id)
    (hholds : ∀ id, y.holds id ↔ (s.value v).holds id)
    (huses : ∀ id, (s.value v).uses id → y.uses id ∨ ∃ w, w ≠ v ∧ (s.value w).uses id)
    (hstarts : ∀ id, y.starts id → (s.value v).starts id)
    (hwaits : ∀ id w, w ≠ v → (s.value w).starts id → y.refers id → y = .waiting id)
    (hproper : y.proper) : Inv base foreign (s.set s.ids v y) := by
  refine ⟨?_, hs.current, hs.fresh, hs.base_le, hs.others, ?_, ?_, ?_, ?_⟩
  · intro w id hw
    rw [set_value] at hw
    split at hw
    · rcases hrefers id hw with hold | hcurrent
      · exact hs.there v id hold
      · exact hs.current id hcurrent
    · exact hs.there w id hw
  · intro id n hid hn
    obtain ⟨w, hw⟩ := hs.used id n hid hn
    by_cases hwv : w = v
    · rw [hwv] at hw
      rcases huses id hw with hy | ⟨w', hne, hw'⟩
      · exact ⟨v, by rw [set_value, if_pos rfl]; exact hy⟩
      · exact ⟨w', by rw [set_value, if_neg hne]; exact hw'⟩
    · exact ⟨w, by rw [set_value, if_neg hwv]; exact hw⟩
  · intro id n hid hn
    refine (hs.count id n hid hn).congr fun w => ?_
    rw [set_value]
    split
    · rename_i hwv
      rw [hwv]
      exact hholds id
    · exact Iff.rfl
  · intro w id hw w' hne hw'
    rw [set_value] at hw hw' ⊢
    by_cases hwv : w = v
    · rw [if_pos hwv] at hw
      rw [if_neg (by rw [← hwv]; exact hne)] at hw' ⊢
      exact hs.starts v id (hstarts id hw) w' (by rw [← hwv]; exact hne) hw'
    · rw [if_neg hwv] at hw
      by_cases hwv' : w' = v
      · rw [if_pos hwv'] at hw' ⊢
        exact hwaits id w hwv hw hw'
      · rw [if_neg hwv'] at hw' ⊢
        exact hs.starts w id hw w' hne hw'
  · intro w
    rw [set_value]
    split
    · exact hproper
    · exact hs.proper w

/-- A value that refers to no set does the set no harm. -/
theorem Inv.leave {y : Phase} (hs : Inv base foreign s)
    (hrefers : ∀ id, ¬ y.refers id) (hnot : ∀ id, ¬ (s.value v).refers id)
    (hproper : y.proper) : Inv base foreign (s.set s.ids v y) := by
  apply hs.move
  · intro id hy
    exact absurd hy (hrefers id)
  · intro id
    constructor
    · intro hy
      exact absurd (Phase.refers_of_holds hy) (hrefers id)
    · intro hv
      exact absurd (Phase.refers_of_holds hv) (hnot id)
  · intro id hv
    exact absurd (Phase.refers_of_uses hv) (hnot id)
  · intro id hy
    exact absurd (Phase.refers_of_starts hy) (hrefers id)
  · intro id w _ _ hy
    exact absurd hy (hrefers id)
  · exact hproper

/-- A call sets the count of the set that its value refers to. -/
theorem Inv.setVal {y : Phase} (hs : Inv base foreign s) (hold : (s.value v).refers id)
    (hnew : y.refers id) (hwait : s.value v ≠ .waiting id)
    (hstarts : y.starts id → (s.value v).starts id)
    (hcount : Tally (fun w => ((s.set (s.ids.setVal id (some n)) v y).value w).holds id) n)
    (huses : ∃ w, ((s.set (s.ids.setVal id (some n)) v y).value w).uses id)
    (hproper : y.proper) : Inv base foreign (s.set (s.ids.setVal id (some n)) v y) := by
  obtain ⟨hbase, n₀, hn₀⟩ := hs.there v id hold
  have hself : (s.ids.setVal id (some n)).val id = some n := Function.update_self ..
  have hother : ∀ j, j ≠ id → (s.ids.setVal id (some n)).val j = s.ids.val j :=
    fun j hj => Function.update_of_ne hj _ _
  have hthere : ∀ j, (∃ n, s.ids.val j = some n) →
      ∃ n', (s.ids.setVal id (some n)).val j = some n' := by
    intro j hj
    by_cases hjid : j = id
    · rw [hjid]
      exact ⟨n, hself⟩
    · rw [hother j hjid]
      exact hj
  refine ⟨?_, ?_, ?_, hs.base_le, ?_, ?_, ?_, ?_, ?_⟩
  · intro w j hw
    rw [set_value] at hw
    split at hw
    · obtain rfl := Phase.refers_unique hw hnew
      exact ⟨hbase, n, hself⟩
    · exact ⟨(hs.there w j hw).1, hthere j (hs.there w j hw).2⟩
  · intro j hj
    exact ⟨(hs.current j hj).1, hthere j (hs.current j hj).2⟩
  · intro j hj
    have hnone := hs.fresh j hj
    have hjid : j ≠ id := by
      rintro rfl
      rw [hn₀] at hnone
      cases hnone
    exact (hother j hjid).trans hnone
  · intro j hj
    exact (hother j (by omega)).trans (hs.others j hj)
  · intro j k hj hk
    by_cases hjid : j = id
    · rw [hjid]
      exact huses
    · obtain ⟨w, hw⟩ := hs.used j k hj ((hother j hjid).symm.trans hk)
      refine ⟨w, ?_⟩
      rw [set_value, if_neg]
      · exact hw
      · rintro rfl
        exact hjid (Phase.refers_unique (Phase.refers_of_uses hw) hold)
  · intro j k hj hk
    by_cases hjid : j = id
    · subst hjid
      rw [show k = n from Option.some.inj (hk.symm.trans hself)]
      exact hcount
    · refine (hs.count j k hj ((hother j hjid).symm.trans hk)).congr fun w => ?_
      rw [set_value]
      split
      · rename_i hwv
        rw [hwv]
        constructor
        · intro hy
          exact absurd (Phase.refers_unique (Phase.refers_of_holds hy) hnew) hjid
        · intro hv
          exact absurd (Phase.refers_unique (Phase.refers_of_holds hv) hold) hjid
      · exact Iff.rfl
  · intro w j hw w' hne hw'
    rw [set_value] at hw hw' ⊢
    by_cases hwv : w = v
    · rw [if_pos hwv] at hw
      rw [if_neg (by rw [← hwv]; exact hne)] at hw' ⊢
      obtain rfl := Phase.refers_unique (Phase.refers_of_starts hw) hnew
      exact hs.starts v j (hstarts hw) w' (by rw [← hwv]; exact hne) hw'
    · rw [if_neg hwv] at hw
      by_cases hwv' : w' = v
      · rw [if_pos hwv'] at hw'
        obtain rfl := Phase.refers_unique hw' hnew
        exact absurd (hs.starts w j hw v (by rw [← hwv']; exact hne) hold) hwait
      · rw [if_neg hwv'] at hw' ⊢
        exact hs.starts w j hw w' hne hw'
  · intro w
    rw [set_value]
    split
    · exact hproper
    · exact hs.proper w

/-- A new set has one value, which is to initialize it. -/
theorem Inv.alloc (hs : Inv base foreign s) (hnot : ∀ id, ¬ (s.value v).refers id) (c : Caller)
    (num_locks : ℕ) {current : Option ℕ}
    (hcurrent : current = s.ids.current ∨ current = some s.ids.next) :
    Inv base foreign (s.set { s.ids.alloc with current := current } v
      (.initializing c num_locks s.ids.next 0)) := by
  have hnone := hs.fresh s.ids.next le_rfl
  have hbase := hs.base_le
  have hself : s.ids.alloc.val s.ids.next = some 0 := Function.update_self ..
  have hother : ∀ j, j ≠ s.ids.next → s.ids.alloc.val j = s.ids.val j :=
    fun j hj => Function.update_of_ne hj _ _
  have hnobody : ∀ w, ¬ (s.value w).refers s.ids.next := by
    intro w hw
    obtain ⟨-, n, hn⟩ := hs.there w _ hw
    rw [hnone] at hn
    cases hn
  have hthere : ∀ j, (∃ n, s.ids.val j = some n) → ∃ n, s.ids.alloc.val j = some n := by
    rintro j ⟨n, hn⟩
    have hj : j ≠ s.ids.next := by
      rintro rfl
      rw [hnone] at hn
      cases hn
    exact ⟨n, (hother j hj).trans hn⟩
  refine ⟨?_, ?_, ?_, ?_, ?_, ?_, ?_, ?_, ?_⟩
  · intro w j hw
    rw [set_value] at hw
    split at hw
    · obtain rfl : s.ids.next = j := hw
      exact ⟨hbase, 0, hself⟩
    · exact ⟨(hs.there w j hw).1, hthere j (hs.there w j hw).2⟩
  · intro j (hj : current = some j)
    rcases hcurrent with hc | hc
    · rw [hc] at hj
      exact ⟨(hs.current j hj).1, hthere j (hs.current j hj).2⟩
    · obtain rfl := Option.some.inj (hc.symm.trans hj)
      exact ⟨hbase, 0, hself⟩
  · intro j (hj : s.ids.next + 1 ≤ j)
    exact (hother j (by omega)).trans (hs.fresh j (by omega))
  · exact Nat.le_succ_of_le hbase
  · intro j hj
    exact (hother j (by omega)).trans (hs.others j hj)
  · intro j k hj hk
    by_cases hjn : j = s.ids.next
    · exact ⟨v, by rw [set_value, if_pos rfl, hjn]; exact rfl⟩
    · obtain ⟨w, hw⟩ := hs.used j k hj ((hother j hjn).symm.trans hk)
      refine ⟨w, ?_⟩
      rw [set_value, if_neg]
      · exact hw
      · rintro rfl
        exact hnot j (Phase.refers_of_uses hw)
  · intro j k hj hk
    by_cases hjn : j = s.ids.next
    · subst hjn
      rw [show k = 0 from Option.some.inj (hk.symm.trans hself)]
      apply Tally.none
      intro w hw
      rw [set_value] at hw
      split at hw
      · exact hw
      · exact hnobody w (Phase.refers_of_holds hw)
    · refine (hs.count j k hj ((hother j hjn).symm.trans hk)).congr fun w => ?_
      rw [set_value]
      split
      · rename_i hwv
        rw [hwv]
        exact ⟨fun hy => hy.elim, fun hv => absurd (Phase.refers_of_holds hv) (hnot j)⟩
      · exact Iff.rfl
  · intro w j hw w' hne hw'
    rw [set_value] at hw hw' ⊢
    by_cases hwv : w = v
    · rw [if_pos hwv] at hw
      rw [if_neg (by rw [← hwv]; exact hne)] at hw'
      obtain rfl : s.ids.next = j := hw
      exact absurd hw' (hnobody w')
    · rw [if_neg hwv] at hw
      by_cases hwv' : w' = v
      · rw [if_pos hwv'] at hw'
        obtain rfl : s.ids.next = j := hw'
        exact absurd (Phase.refers_of_starts hw) (hnobody w)
      · rw [if_neg hwv'] at hw' ⊢
        exact hs.starts w j hw w' hne hw'
  · intro w
    rw [set_value]
    split
    · trivial
    · exact hs.proper w

/-- A set that no other value refers to is removed. -/
theorem Inv.remove {y : Phase} (hs : Inv base foreign s) (hv : (s.value v).refers id)
    (halone : ∀ w, (s.value w).refers id → w = v) (hnot : ∀ j, ¬ y.refers j)
    (hproper : y.proper) {m : Ids} (hm : s.ids.rmid id = some m) :
    Inv base foreign (s.set m v y) := by
  obtain ⟨hbase, n, hn⟩ := hs.there v id hv
  unfold Ids.rmid at hm
  rw [hn] at hm
  obtain rfl := Option.some.inj hm
  have hself : (s.ids.setVal id none).val id = none := Function.update_self ..
  have hother : ∀ j, j ≠ id → (s.ids.setVal id none).val j = s.ids.val j :=
    fun j hj => Function.update_of_ne hj _ _
  have hne : ∀ {w j}, (s.value w).refers j → w ≠ v → j ≠ id := by
    rintro w j hw hwv rfl
    exact hwv (halone w hw)
  refine ⟨?_, ?_, ?_, hs.base_le, ?_, ?_, ?_, ?_, ?_⟩
  · intro w j hw
    rw [set_value] at hw
    split at hw
    · exact absurd hw (hnot j)
    · rename_i hwv
      obtain ⟨hle, k, hk⟩ := hs.there w j hw
      exact ⟨hle, k, (hother j (hne hw hwv)).trans hk⟩
  · intro j hj
    simp only [St.set] at hj
    split at hj
    · cases hj
    · rename_i hcurrent
      have hjid : j ≠ id := by
        rintro rfl
        exact hcurrent hj
      obtain ⟨hle, k, hk⟩ := hs.current j hj
      exact ⟨hle, k, (hother j hjid).trans hk⟩
  · intro j hj
    by_cases hjid : j = id
    · rw [hjid]
      exact hself
    · exact (hother j hjid).trans (hs.fresh j hj)
  · intro j hj
    exact (hother j (by omega)).trans (hs.others j hj)
  · intro j k hj hk
    have hjid : j ≠ id := by
      rintro rfl
      cases hself.symm.trans hk
    obtain ⟨w, hw⟩ := hs.used j k hj ((hother j hjid).symm.trans hk)
    refine ⟨w, ?_⟩
    rw [set_value, if_neg]
    · exact hw
    · rintro rfl
      exact hjid (Phase.refers_unique (Phase.refers_of_uses hw) hv)
  · intro j k hj hk
    have hjid : j ≠ id := by
      rintro rfl
      cases hself.symm.trans hk
    refine (hs.count j k hj ((hother j hjid).symm.trans hk)).congr fun w => ?_
    rw [set_value]
    split
    · rename_i hwv
      rw [hwv]
      constructor
      · intro hy
        exact absurd (Phase.refers_of_holds hy) (hnot j)
      · intro hold
        exact absurd (Phase.refers_unique (Phase.refers_of_holds hold) hv) hjid
    · exact Iff.rfl
  · intro w j hw w' hww hw'
    rw [set_value] at hw hw' ⊢
    split at hw
    · exact absurd (Phase.refers_of_starts hw) (hnot j)
    · split at hw'
      · exact absurd hw' (hnot j)
      · rename_i hwv'
        rw [if_neg hwv']
        exact hs.starts w j hw w' hww hw'
  · intro w
    rw [set_value]
    split
    · exact hproper
    · exact hs.proper w

/-- The count goes up with the handles. -/
theorem Inv.acquire {y : Phase} (hs : Inv base foreign s) (hold : (s.value v).refers id)
    (hn : s.ids.val id = some n) (hwait : s.value v ≠ .waiting id)
    (hnot : ¬ (s.value v).holds id) (hnew : y.holds id) (hstarts : ¬ y.starts id)
    (hproper : y.proper) : Inv base foreign (s.set (s.ids.setVal id (some (n + 1))) v y) := by
  apply hs.setVal hold (Phase.refers_of_holds hnew) hwait
  · intro hy
    exact absurd hy hstarts
  · apply (hs.count id n (hs.there v id hold).1 hn).enter (o := v)
    · exact hnot
    · rw [set_value, if_pos rfl]
      exact hnew
    · intro w hw
      rw [set_value, if_neg hw]
  · refine ⟨v, ?_⟩
    rw [set_value, if_pos rfl]
    exact Phase.uses_of_holds hnew
  · exact hproper

/-- The count goes down with the handles. -/
theorem Inv.release (hs : Inv base foreign s) (hold : (s.value v).holds id)
    (again : Option (ℕ × ℕ)) :
    Inv base foreign (s.set (s.ids.decrement id) v (.dropped id true again)) := by
  have hrefers := Phase.refers_of_holds hold
  obtain ⟨hbase, n, hn⟩ := hs.there v id hrefers
  obtain ⟨k, rfl, hcount⟩ : ∃ k, n = k + 1 ∧
      Tally (fun w => ((s.set (s.ids.decrement id) v (.dropped id true again)).value w).holds id)
        k := by
    apply (hs.count id n hbase hn).leave (o := v) hold
    · rw [set_value, if_pos rfl]
      exact fun hc => hc
    · intro w hw
      rw [set_value, if_neg hw]
  have hdecrement : s.ids.decrement id = s.ids.setVal id (some k) := by
    unfold Ids.decrement
    rw [hn]
  rw [hdecrement] at hcount ⊢
  have hnew : (Phase.dropped id true again).refers id := rfl
  apply hs.setVal hrefers hnew
  · intro hc
    rw [hc] at hold
    exact hold
  · intro hy
    exact hy.elim
  · exact hcount
  · exact ⟨v, by rw [set_value, if_pos rfl]; exact rfl⟩
  · trivial

/-! ## The calls -/

/-- What a failed or a finished call leaves refers to no set. -/
structure Phase.Idle (y : Phase) : Prop where
  refers : ∀ id, ¬ y.refers id
  proper : y.proper

theorem idle_none : Phase.Idle .none := ⟨fun _ hc => hc, trivial⟩

theorem idle_creating (c : Caller) (num_locks : ℕ) : (Phase.creating c num_locks).Idle :=
  ⟨fun _ hc => hc, trivial⟩

theorem idle_lookup (c : Caller) (num_locks : ℕ) : (Phase.lookup c num_locks).Idle :=
  ⟨fun _ hc => hc, trivial⟩

theorem idle_nextTry (trycount num_locks : ℕ) : (nextTry trycount num_locks).Idle := by
  unfold nextTry
  split
  · exact idle_creating _ _
  · exact idle_none

theorem idle_afterDrop (again : Option (ℕ × ℕ)) : (afterDrop again).Idle := by
  cases again with
  | none => exact idle_none
  | some r => exact idle_nextTry r.1 r.2

theorem idle_createFailed (c : Caller) (num_locks : ℕ) : (createFailed c num_locks).Idle := by
  unfold createFailed
  split
  · exact idle_lookup _ _
  · exact idle_none

theorem created_holds (key : ℕ) (c : Caller) (num_locks id : ℕ) :
    (created key c num_locks id).holds id ∧ ¬ (created key c num_locks id).starts id ∧
      (created key c num_locks id).proper := by
  unfold created
  split
  · split
    · exact ⟨rfl, fun hc => hc, trivial⟩
    · exact ⟨rfl, fun hc => hc, trivial⟩
  · exact ⟨rfl, fun hc => hc, trivial⟩

/-- While a set is initialized nobody has a handle to it. -/
theorem Inv.starting_count (hs : Inv base foreign s) (hv : (s.value v).starts id) :
    s.ids.val id = some 0 := by
  obtain ⟨hbase, n, hn⟩ := hs.there v id (Phase.refers_of_starts hv)
  have hzero : n = 0 := by
    apply (hs.count id n hbase hn).eq_zero
    intro w hw
    by_cases hwv : w = v
    · rw [hwv] at hw
      cases hx : s.value v with
      | initializing =>
        rw [hx] at hw
        exact hw
      | _ =>
        rw [hx] at hv
        exact hv
    · rw [hs.starts v id hv w hwv (Phase.refers_of_holds hw)] at hw
      exact hw
  rw [hn, hzero]

/-- A value that moves on at the same set, neither taking nor giving up a handle. -/
theorem Inv.stay {y : Phase} (hs : Inv base foreign s) (j : ℕ) (hold : (s.value v).refers j)
    (hnew : y.refers j) (hholds : ¬ (s.value v).holds j) (hholds' : ¬ y.holds j)
    (huses : (s.value v).uses j → y.uses j) (hstarts : y.starts j → (s.value v).starts j)
    (hwait : (∃ w, w ≠ v ∧ (s.value w).starts j) → y = .waiting j) (hproper : y.proper) :
    Inv base foreign (s.set s.ids v y) := by
  apply hs.move
  · intro k hk
    rw [Phase.refers_unique hk hnew]
    exact Or.inl hold
  · intro k
    constructor
    · intro hk
      obtain rfl := Phase.refers_unique (Phase.refers_of_holds hk) hnew
      exact absurd hk hholds'
    · intro hk
      obtain rfl := Phase.refers_unique (Phase.refers_of_holds hk) hold
      exact absurd hk hholds
  · intro k hk
    obtain rfl := Phase.refers_unique (Phase.refers_of_uses hk) hold
    exact Or.inl (huses hk)
  · intro k hk
    obtain rfl := Phase.refers_unique (Phase.refers_of_starts hk) hnew
    exact hstarts hk
  · intro k w hw hstart hk
    obtain rfl := Phase.refers_unique hk hnew
    exact hwait ⟨w, hw, hstart⟩
  · exact hproper

/-- **One system call** of a value. -/
theorem Inv.advance {key : ℕ} {fails : Bool} {m : Ids} {y : Phase} (hs : Inv base foreign s)
    (hstep : advance key s.ids fails (s.value v) = some (m, y))
    (hgood : goodNext key s v fails (s.value v)) : Inv base foreign (s.set m v y) := by
  have hproper := hs.proper v
  cases hx : s.value v with
  | none | live | default | panicked =>
    rw [hx] at hstep
    cases hstep
  | creating c num_locks =>
    have hnot : ∀ id, ¬ (s.value v).refers id := by
      intro id hc
      rw [hx] at hc
      exact hc
    have hfailed : Inv base foreign (s.set s.ids v (createFailed c num_locks)) :=
      hs.leave (idle_createFailed c num_locks).refers hnot (idle_createFailed c num_locks).proper
    rw [hx] at hstep
    simp only [SemSet.advance] at hstep
    split at hstep
    · obtain ⟨rfl, rfl⟩ := Prod.mk.inj (Option.some.inj hstep)
      exact hfailed
    · split at hstep
      · obtain ⟨rfl, rfl⟩ := Prod.mk.inj (Option.some.inj hstep)
        exact hfailed
      · rename_i m' id hget
        obtain ⟨rfl, rfl⟩ := Prod.mk.inj (Option.some.inj hstep)
        unfold Ids.semget_excl at hget
        split at hget
        · cases hget
        · split at hget
          · obtain ⟨rfl, rfl⟩ := Prod.mk.inj (Option.some.inj hget)
            exact hs.alloc hnot c num_locks (Or.inl rfl)
          · split at hget
            · cases hget
            · obtain ⟨rfl, rfl⟩ := Prod.mk.inj (Option.some.inj hget)
              exact hs.alloc hnot c num_locks (Or.inr rfl)
  | initializing c num_locks id i =>
    have hstart : (s.value v).starts id := by
      rw [hx]
      exact rfl
    have hrefers := Phase.refers_of_starts hstart
    have hzero := hs.starting_count hstart
    have hholds : ¬ (s.value v).holds id := by
      rw [hx]
      exact fun hc => hc
    rw [hx] at hstep
    simp only [SemSet.advance, Ids.setval, hzero] at hstep
    split at hstep
    · obtain ⟨rfl, rfl⟩ := Prod.mk.inj (Option.some.inj hstep)
      -- the count is zero already
      have hsame : (if i = 0 then s.ids.setVal id (some (if i = 0 then 0 else 1)) else s.ids) =
          s.ids := by
        split
        · have hval : Function.update s.ids.val id (some 0) = s.ids.val := by
            rw [← hzero, Function.update_eq_self]
          rw [Ids.setVal, hval]
        · rfl
      rw [hsame]
      refine hs.stay id hrefers rfl hholds (fun hc => hc) (fun _ => rfl) (fun _ => hstart)
        ?_ trivial
      rintro ⟨w, hw, hwstart⟩
      have hwait := hs.starts w id hwstart v (Ne.symm hw) hrefers
      rw [hx] at hwait
      cases hwait
    · obtain ⟨rfl, rfl⟩ := Prod.mk.inj (Option.some.inj hstep)
      obtain ⟨hnew, hstarts, hproper'⟩ := created_holds key c num_locks id
      rw [if_pos trivial]
      refine hs.acquire hrefers hzero ?_ hholds hnew hstarts hproper'
      rw [hx]
      exact fun hc => by cases hc
  | lookup c num_locks =>
    have hnot : ∀ id, ¬ (s.value v).refers id := by
      intro id hc
      rw [hx] at hc
      exact hc
    rw [hx] at hstep hgood
    obtain ⟨hkey, hfound⟩ := hgood
    simp only [SemSet.advance, Ids.semget, if_neg hkey] at hstep
    split at hstep
    · obtain ⟨rfl, rfl⟩ := Prod.mk.inj (Option.some.inj hstep)
      rename_i hnone
      have hc : c = .sem_get := by
        rcases hfound with hc | ⟨hfails, hcurrent⟩
        · exact hc
        · obtain ⟨id, hid⟩ := Option.isSome_iff_exists.mp hcurrent
          rw [hfails, hid, if_neg Bool.false_ne_true] at hnone
          cases hnone
      rw [hc]
      exact hs.leave idle_none.refers hnot idle_none.proper
    · rename_i m' id hget
      obtain ⟨rfl, rfl⟩ := Prod.mk.inj (Option.some.inj hstep)
      split at hget
      · cases hget
      · rw [Option.map_eq_some_iff] at hget
        obtain ⟨j, hcurrent, hj⟩ := hget
        obtain ⟨rfl, rfl⟩ := Prod.mk.inj hj
        apply hs.move
        · intro k hk
          obtain rfl : j = k := hk
          exact Or.inr hcurrent
        · intro k
          exact ⟨fun hc => hc.elim, fun hc => absurd (Phase.refers_of_holds hc) (hnot k)⟩
        · intro k hk
          exact absurd (Phase.refers_of_uses hk) (hnot k)
        · intro k hk
          exact hk.elim
        · intro k w _ _ hk
          obtain rfl : j = k := hk
          rfl
        · trivial
  | waiting id =>
    have hrefers : (s.value v).refers id := by
      rw [hx]
      exact rfl
    have hholds : ¬ (s.value v).holds id := by
      rw [hx]
      exact fun hc => hc
    have huses : ¬ (s.value v).uses id := by
      rw [hx]
      exact fun hc => hc
    obtain ⟨hbase, n, hn⟩ := hs.there v id hrefers
    rw [hx] at hstep
    simp only [SemSet.advance, hn] at hstep
    obtain ⟨rfl, rfl⟩ := Prod.mk.inj (Option.some.inj hstep)
    split
    · rename_i hpos
      refine hs.stay id hrefers rfl hholds (fun hc => hc) (fun hc => absurd hc huses)
        (fun hc => hc.elim) ?_ trivial
      rintro ⟨w, -, hw⟩
      rw [hs.starting_count hw] at hn
      obtain rfl := Option.some.inj hn
      exact absurd hpos (Nat.lt_irrefl 0)
    · exact hs.stay id hrefers rfl hholds (fun hc => hc) (fun hc => absurd hc huses)
        (fun hc => hc.elim) (fun _ => rfl) trivial
  | ready id =>
    have hrefers : (s.value v).refers id := by
      rw [hx]
      exact rfl
    obtain ⟨hbase, n, hn⟩ := hs.there v id hrefers
    rw [hx] at hstep hgood
    have hroom : n < SEMVMX := hgood n hn
    simp only [SemSet.advance, Ids.increment, hn, if_neg (Nat.not_lt.mpr hroom)] at hstep
    obtain ⟨rfl, rfl⟩ := Prod.mk.inj (Option.some.inj hstep)
    refine hs.acquire hrefers hn ?_ ?_ rfl (fun hc => hc) trivial
    · rw [hx]
      exact fun hc => by cases hc
    · rw [hx]
      exact fun hc => hc
  | unusable id handle trycount num_locks =>
    rw [hx] at hstep hproper
    obtain ⟨rfl, rfl⟩ := Prod.mk.inj (Option.some.inj hstep)
    cases handle with
    | false => exact hproper.elim
    | true =>
      apply hs.release
      rw [hx]
      exact rfl
  | dropped id handle again =>
    have hrefers : (s.value v).refers id := by
      rw [hx]
      exact rfl
    have hholds : ¬ (s.value v).holds id := by
      rw [hx]
      exact fun hc => hc
    obtain ⟨hbase, n, hn⟩ := hs.there v id hrefers
    rw [hx] at hstep hproper
    cases handle with
    | false => exact hproper.elim
    | true =>
      simp only [SemSet.advance, hn] at hstep
      obtain ⟨rfl, rfl⟩ := Prod.mk.inj (Option.some.inj hstep)
      split
      · refine hs.stay id hrefers rfl hholds (fun hc => hc) (fun _ => rfl)
          (fun hc => hc.elim) ?_ trivial
        rintro ⟨w, hw, hwstart⟩
        have hwait := hs.starts w id hwstart v (Ne.symm hw) hrefers
        rw [hx] at hwait
        cases hwait
      · rename_i hpos
        have hidle := idle_afterDrop again
        -- the count says that there is another handle
        have hsome : ∃ w, (s.value w).holds id := by
          by_contra hnone
          exact hpos ((hs.count id n hbase hn).eq_zero fun w hw => hnone ⟨w, hw⟩)
        obtain ⟨w, hw⟩ := hsome
        apply hs.move
        · intro j hj
          exact absurd hj (hidle.refers j)
        · intro j
          constructor
          · intro hj
            exact absurd (Phase.refers_of_holds hj) (hidle.refers j)
          · intro hj
            rw [hx] at hj
            exact hj.elim
        · intro j hj
          obtain rfl := Phase.refers_unique (Phase.refers_of_uses hj) hrefers
          refine Or.inr ⟨w, ?_, Phase.uses_of_holds hw⟩
          rintro rfl
          exact hholds hw
        · intro j hj
          exact absurd (Phase.refers_of_starts hj) (hidle.refers j)
        · intro j w _ _ hj
          exact absurd hj (hidle.refers j)
        · exact hidle.proper
  | removing id handle again =>
    have hrefers : (s.value v).refers id := by
      rw [hx]
      exact rfl
    obtain ⟨hbase, n, hn⟩ := hs.there v id hrefers
    rw [hx] at hstep hgood
    have hidle := idle_afterDrop again
    cases hm : s.ids.rmid id with
    | none =>
      unfold Ids.rmid at hm
      rw [hn] at hm
      cases hm
    | some m' =>
      simp only [SemSet.advance, hm, Option.getD_some] at hstep
      obtain ⟨rfl, rfl⟩ := Prod.mk.inj (Option.some.inj hstep)
      exact hs.remove hrefers hgood hidle.refers hidle.proper hm

/-- A call that starts. -/
theorem Inv.start {s' : St υ} {y : Phase} (hs : Inv base foreign s) (hy : y.Idle)
    (hstep : start s v y = some s') : Inv base foreign s' := by
  unfold SemSet.start at hstep
  split at hstep
  · rename_i hnone
    obtain rfl := Option.some.inj hstep
    apply hs.leave hy.refers _ hy.proper
    intro id hc
    rw [hnone] at hc
    exact hc
  · cases hstep

theorem Inv.step {key : ℕ} {s' : St υ} {call : Call υ} (hs : Inv base foreign s)
    (hstep : step key s call = some s') (hgood : good key s call) : Inv base foreign s' := by
  cases call with
  | sem_create v num_locks => exact hs.start (idle_creating _ _) hstep
  | sem_get v num_locks => exact hs.start (idle_lookup _ _) hstep
  | new v num_locks => exact hs.start (idle_lookup _ _) hstep
  | create_sys_semaphore v num_locks => exact hs.start (idle_nextTry 0 num_locks) hstep
  | clone v v' => exact hgood.elim
  | drop v =>
    simp only [SemSet.step] at hstep
    split at hstep
    · rename_i id hx
      obtain rfl := Option.some.inj hstep
      apply hs.release
      rw [hx]
      exact rfl
    · rename_i hx
      have hproper := hs.proper v
      rw [hx] at hproper
      exact hproper.elim
    · cases hstep
  | step v fails =>
    simp only [SemSet.step, Option.map_eq_some_iff] at hstep
    obtain ⟨⟨m, y⟩, hadvance, rfl⟩ := hstep
    exact hs.advance hadvance hgood

end Steps

/-! ## Runs -/

end MxApi.SemSet
