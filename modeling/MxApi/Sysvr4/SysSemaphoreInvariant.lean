/-
What one call of the processes that create, find, take and remove the system semaphore of a
key does, and what it keeps.

At most one set of the key is there. Its creator owns it until it has freed the first member,
and later the process that holds it does; in between the value of the member is 1 ([`Right`]).
A call moves one process, and it leaves the ownership as it is, gives or takes it through the
member, or creates or removes the set with it ([`Passes`]).
-/
import MxApi.Sysvr4.SysSemaphore

set_option autoImplicit false

namespace MxApi.SysSemaphore

/-! ## What a process knows -/

/-- The set that a process knows. -/
@[simp] def Phase.set : Phase → Option ℕ
  | .initializing _ _ id _ | .cleaning _ _ id | .polling _ _ id _ | .locking _ id | .ready id
  | .waiting id | .holding id => some id
  | .outside | .creating _ _ | .getting _ _ | .failed => none

/-- The set that a process owns: it holds it, or it created it and is about to free the first
member. -/
@[simp] def Phase.owned : Phase → Option ℕ
  | .initializing _ _ id k => if k = 0 then some id else none
  | .holding id => some id
  | _ => none

/-- The process knows set `id` at most, and does not own it. -/
structure Phase.Knows (id : ℕ) (y : Phase) : Prop where
  owned : y.owned = none
  set : ∀ j, y.set = some j → j = id
  cleaning : ∀ lock t j, y ≠ .cleaning lock t j
  counted : ∀ t j, y = .locking t j → t < max_tries

theorem knows_outside (id : ℕ) : Phase.outside.Knows id := by
  constructor <;> simp

theorem knows_getting (lock : Bool) (t id : ℕ) : (Phase.getting lock t).Knows id := by
  constructor <;> simp

theorem knows_polling (lock : Bool) (t id i : ℕ) : (Phase.polling lock t id i).Knows id := by
  constructor <;> simp

theorem knows_ready (id : ℕ) : (Phase.ready id).Knows id := by
  constructor <;> simp

theorem knows_waiting (id : ℕ) : (Phase.waiting id).Knows id := by
  constructor <;> simp

theorem knows_nextTry (lock : Bool) (t id : ℕ) : (nextTry lock t).Knows id := by
  rw [nextTry]
  split <;> constructor <;> simp

theorem set_nextTry (lock : Bool) (t : ℕ) : (nextTry lock t).set = none := by
  rw [nextTry]
  split <;> rfl

theorem knows_tryLock (t id : ℕ) : (tryLock t id).Knows id := by
  rw [tryLock]
  split
  · constructor <;> simp_all
  · constructor <;> simp

theorem knows_found (lock : Bool) (t id : ℕ) : (found lock t id).Knows id := by
  rw [found]
  split
  · exact knows_tryLock t id
  · exact knows_ready id

theorem set_of_owned {x : Phase} {id : ℕ} (h : x.owned = some id) : x.set = some id := by
  cases x <;> simp_all

/-! ## What a call does -/

/-- The table goes from `m` to another one, and the ownership of the process with it. -/
inductive Passes (m : Ids) : Ids → Option ℕ → Option ℕ → Prop
  | same (o : Option ℕ) : Passes m m o o
  | member {id k : ℕ} {v : SemSet} (n : ℕ) (o : Option ℕ) (hk : k ≠ 0)
      (hid : m.current = some id) (hv : m.sets id = some v) : Passes m (m.setVal id k n v) o o
  | creates {id : ℕ} {m' : Ids} (hm : m.semget_excl false = some (m', id)) :
      Passes m m' none (some id)
  | gives {id : ℕ} {v : SemSet} (hv : m.sets id = some v) :
      Passes m (m.setVal id 0 (v.val 0 + 1) v) (some id) none
  | takes {id : ℕ} {v : SemSet} (hid : m.current = some id) (hv : m.sets id = some v)
      (hpos : 0 < v.val 0) : Passes m (m.setVal id 0 (v.val 0 - 1) v) none (some id)
  | removes (id : ℕ) : Passes m (m.rmid id) (some id) none

/-- A process goes from `x` to `y` while the table goes from `m` to `m'`. -/
structure Move (m m' : Ids) (x y : Phase) : Prop where
  passes : Passes m m' x.owned y.owned
  set : ∀ id, y.set = some id → x.set = some id ∨ m'.current = some id
  cleaning : ∀ lock t id, y = .cleaning lock t id → m'.sets id = none
  counted : ∀ t id, y = .locking t id → t < max_tries

/-- The process does not come to own anything. -/
theorem Move.of_knows {m m' : Ids} {x y : Phase} {id : ℕ} (hy : y.Knows id)
    (hid : x.set = some id ∨ m'.current = some id ∨ y.set = none)
    (hpasses : Passes m m' x.owned none) : Move m m' x y where
  passes := by rwa [hy.owned]
  set j hj := by
    obtain hid | hid | hid := hid
    · exact .inl (hy.set j hj ▸ hid)
    · exact .inr (hy.set j hj ▸ hid)
    · rw [hid] at hj
      cases hj
  cleaning lock t j heq := absurd heq (hy.cleaning lock t j)
  counted := hy.counted

/-- Sets that are gone stay so. -/
def Later (m m' : Ids) : Prop :=
  m.next ≤ m'.next ∧ ∀ id, id < m.next → m.sets id = none → m'.sets id = none

theorem Later.setVal {m : Ids} {id k n : ℕ} {v : SemSet} (hv : m.sets id = some v) :
    Later m (m.setVal id k n v) := by
  refine ⟨Nat.le_refl _, fun j _ hj => ?_⟩
  show Function.update m.sets id _ j = none
  rw [Function.update_of_ne, hj]
  rintro rfl
  rw [hv] at hj
  cases hj

theorem semget_excl_eq {m m' : Ids} {id : ℕ} (hm : m.semget_excl false = some (m', id)) :
    m.current = none ∧ id = m.next ∧ m' = ⟨some m.next,
      Function.update m.sets m.next (some ⟨fun _ => 0, false⟩), m.next + 1⟩ := by
  simp only [Ids.semget_excl, Bool.false_eq_true, false_or, Option.ite_none_left_eq_some,
    Option.some.injEq, Prod.mk.injEq, Bool.not_eq_true, Option.isSome_eq_false_iff,
    Option.isNone_iff_eq_none] at hm
  exact ⟨hm.1, hm.2.2.symm, hm.2.1.symm⟩

theorem Passes.later {m m' : Ids} {o o' : Option ℕ} (h : Passes m m' o o') : Later m m' := by
  cases h with
  | same => exact ⟨Nat.le_refl _, fun _ _ hj => hj⟩
  | member n o hk hid hv => exact .setVal hv
  | creates hm =>
    obtain ⟨-, -, rfl⟩ := semget_excl_eq hm
    exact ⟨Nat.le_succ _, fun j hj hgone =>
      (Function.update_of_ne (Nat.ne_of_lt hj) _ _).trans hgone⟩
  | gives hv => exact .setVal hv
  | takes hid hv hpos => exact .setVal hv
  | removes id =>
    refine ⟨Nat.le_refl _, fun j _ hj => ?_⟩
    show Function.update m.sets id none j = none
    rw [Function.update_apply, hj, ite_self]

/-! ## The table -/

variable {base num_locks : ℕ} {foreign : ℕ → Option SemSet}

/-- The set of the key is the only one at or above `base`. -/
structure Ids.Ok (base : ℕ) (foreign : ℕ → Option SemSet) (m : Ids) : Prop where
  base_le : base ≤ m.next
  others : ∀ id, id < base → m.sets id = foreign id
  live : ∀ id, base ≤ id → (m.sets id ≠ none ↔ m.current = some id)
  current : ∀ id, m.current = some id → base ≤ id ∧ id < m.next

theorem Ids.Ok.setVal {m : Ids} {id k n : ℕ} {v : SemSet} (h : m.Ok base foreign)
    (hid : m.current = some id) : (m.setVal id k n v).Ok base foreign where
  base_le := h.base_le
  others j hj := by
    have hbase := (h.current id hid).1
    exact (Function.update_of_ne (by omega) _ _).trans (h.others j hj)
  live j hj := by
    show Function.update m.sets id _ j ≠ none ↔ m.current = some j
    by_cases hji : j = id
    · simp [hji, hid]
    · rw [Function.update_of_ne hji]
      exact h.live j hj
  current := h.current

theorem Passes.table {m m' : Ids} {o o' : Option ℕ} (h : Passes m m' o o')
    (hm : m.Ok base foreign) (ho : ∀ id, o = some id → m.current = some id) :
    m'.Ok base foreign := by
  have hbase := hm.base_le
  cases h with
  | same => exact hm
  | member n o hk hid hv => exact hm.setVal hid
  | gives hv => exact hm.setVal (ho _ rfl)
  | takes hid hv hpos => exact hm.setVal hid
  | creates hm' =>
    obtain ⟨hcurrent, -, rfl⟩ := semget_excl_eq hm'
    refine ⟨Nat.le_succ_of_le hbase, fun j hj => ?_, fun j hj => ?_, fun j hj => ?_⟩
    · exact (Function.update_of_ne (by omega) _ _).trans (hm.others j hj)
    · show Function.update m.sets m.next _ j ≠ none ↔ some m.next = some j
      by_cases hjn : j = m.next
      · simp [hjn]
      · -- there was no other set of the key
        have hlive := hm.live j hj
        rw [hcurrent] at hlive
        rw [Function.update_of_ne hjn, hlive]
        simp [Ne.symm hjn]
    · obtain rfl := Option.some.inj hj
      exact ⟨hbase, Nat.lt_succ_self _⟩
  | removes id =>
    have hcurrent := ho id rfl
    have hnone : (m.rmid id).current = none := if_pos hcurrent
    refine ⟨hbase, fun j hj => ?_, fun j hj => ?_, fun j hj => ?_⟩
    · have hbase' := (hm.current id hcurrent).1
      exact (Function.update_of_ne (by omega) _ _).trans (hm.others j hj)
    · rw [hnone]
      show Function.update m.sets id none j ≠ none ↔ _
      by_cases hji : j = id
      · simp [hji]
      · have hlive := hm.live j hj
        rw [hcurrent] at hlive
        rw [Function.update_of_ne hji, hlive]
        simp [Ne.symm hji]
    · rw [hnone] at hj
      cases hj

/-! ## The owner -/

variable {π : Type}

/-- Who owns the set of the key. -/
inductive Right (m : Ids) (own : π → Option ℕ) : Prop
  | gone (current : m.current = none) (nobody : ∀ p, own p = none)
  | free {id : ℕ} {v : SemSet} (current : m.current = some id) (there : m.sets id = some v)
      (value : v.val 0 = 1) (nobody : ∀ p, own p = none)
  | taken {id : ℕ} {v : SemSet} {p : π} (current : m.current = some id)
      (there : m.sets id = some v) (value : v.val 0 = 0) (owner : own p = some id)
      (others : ∀ q, q ≠ p → own q = none)

variable {m m' : Ids} {own : π → Option ℕ} {p q : π} {id : ℕ}

theorem Right.current (h : Right m own) (hp : own p = some id) : m.current = some id := by
  cases h with
  | gone _ nobody | free _ _ _ nobody => simp [nobody p] at hp
  | @taken j v r current there value owner others =>
    by_cases hpr : p = r
    · rw [← hp, hpr, owner, current]
    · simp [others p hpr] at hp

theorem Right.none_of_ne (h : Right m own) (hp : own p = some id) (hq : q ≠ p) :
    own q = none := by
  cases h with
  | gone _ nobody | free _ _ _ nobody => exact nobody q
  | @taken j v r current there value owner others =>
    have hpr : p = r := by
      by_contra hne
      simp [others p hne] at hp
    exact others q (hpr ▸ hq)

theorem Right.value {v : SemSet} (h : Right m own) (hid : m.current = some id)
    (hv : m.sets id = some v) : v.val 0 = 1 ∧ (∀ p, own p = none) ∨
      v.val 0 = 0 ∧ ∃ p, own p = some id := by
  cases h with
  | gone current _ => simp [current] at hid
  | free current there value nobody =>
    rw [current, Option.some.injEq] at hid
    rw [hid, hv, Option.some.injEq] at there
    exact .inl ⟨there ▸ value, nobody⟩
  | taken current there value owner _ =>
    rw [current, Option.some.injEq] at hid
    rw [hid, hv, Option.some.injEq] at there
    exact .inr ⟨there ▸ value, _, hid ▸ owner⟩

variable [DecidableEq π]

/-- Nobody owns a set after the owner has passed it on. -/
theorem Right.passed (h : Right m own) (hp : own p = some id) (q : π) :
    Function.update own p none q = none := by
  by_cases hq : q = p
  · rw [hq, Function.update_self]
  · rw [Function.update_of_ne hq, h.none_of_ne hp hq]

/-- **The ownership** follows what a call does. -/
theorem Passes.right {o : Option ℕ} (h : Passes m m' (own p) o) (hright : Right m own) :
    Right m' (Function.update own p o) := by
  generalize hp : own p = o₀ at h
  -- the member that changes, and what the others see
  have hset : ∀ {id k n : ℕ} {v : SemSet}, (m.setVal id k n v).sets id =
      some ⟨Function.update v.val k n, true⟩ := Function.update_self ..
  have hothers : ∀ {id q}, q ≠ p → (∀ p, own p = none) →
      Function.update own p (some id) q = none := by
    intro id q hq hnobody
    rw [Function.update_of_ne hq, hnobody]
  cases h with
  | same =>
    rwa [← hp, Function.update_eq_self]
  | member n o hk hid hv =>
    rw [← hp, Function.update_eq_self]
    obtain ⟨hval, hnobody⟩ | ⟨hval, q, hq⟩ := hright.value hid hv
    · exact .free hid hset ((Function.update_of_ne (Ne.symm hk) _ _).trans hval) hnobody
    · exact .taken hid hset ((Function.update_of_ne (Ne.symm hk) _ _).trans hval) hq
        fun r hr => hright.none_of_ne hq hr
  | creates hm =>
    obtain ⟨hcurrent, rfl, rfl⟩ := semget_excl_eq hm
    -- the key names no set, so that nobody owns one
    have hnobody : ∀ q, own q = none := by
      intro q
      by_contra hown
      obtain ⟨j, hj⟩ := Option.ne_none_iff_exists'.mp hown
      rw [hright.current hj] at hcurrent
      cases hcurrent
    exact .taken (p := p) rfl (Function.update_self ..) rfl (Function.update_self ..)
      fun q hq => hothers hq hnobody
  | gives hv =>
    obtain ⟨-, hnobody⟩ | ⟨hval, -⟩ := hright.value (hright.current hp) hv
    · rw [hnobody] at hp
      cases hp
    · refine .free (hright.current hp) hset ?_ (hright.passed hp)
      simp [hval]
  | takes hid hv hpos =>
    obtain ⟨hval, hnobody⟩ | ⟨hval, -⟩ := hright.value hid hv
    · refine .taken (p := p) hid hset ?_ (Function.update_self ..) fun q hq => hothers hq hnobody
      simp [hval]
    · omega
  | removes id =>
    exact .gone (if_pos (hright.current hp)) (hright.passed hp)

/-! ## The invariant -/

structure Inv (base : ℕ) (foreign : ℕ → Option SemSet) (s : St π) : Prop where
  table : s.ids.Ok base foreign
  right : Right s.ids (Phase.owned ∘ s.phase)
  set : ∀ p id, (s.phase p).set = some id → base ≤ id ∧ id < s.ids.next
  -- only another process can have made its `semop` fail
  cleaning : ∀ p lock t id, s.phase p = .cleaning lock t id → s.ids.sets id = none
  counted : ∀ p t id, s.phase p = .locking t id → t < max_tries

variable {s t : St π}

omit [DecidableEq π] in
theorem Inv.init : Inv base foreign (SysSemaphore.init π base foreign) := by
  refine ⟨⟨Nat.le_refl _, fun id hid => if_pos hid, fun id hid => ?_, fun _ h => by cases h⟩,
    .gone rfl fun _ => rfl, fun _ _ h => (by cases h), fun _ _ _ _ h => (by cases h),
    fun _ _ _ h => (by cases h)⟩
  simp [SysSemaphore.init, Nat.not_lt.mpr hid]

omit [DecidableEq π] in
/-- A set that a process knows is the one of the key as long as it is there. -/
theorem Inv.current_of_set (h : Inv base foreign s) (hp : (s.phase p).set = some id)
    (hlive : s.ids.sets id ≠ none) : s.ids.current = some id :=
  (h.table.live id (h.set p id hp).1).mp hlive

omit [DecidableEq π] in
theorem Inv.live_of_owned (h : Inv base foreign s) (hp : (s.phase p).owned = some id) :
    s.ids.sets id ≠ none :=
  (h.table.live id (h.set p id (set_of_owned hp)).1).mpr (h.right.current hp)

/-- **What one move preserves.** -/
theorem Inv.move (h : Inv base foreign s) {y : Phase} (hmove : Move s.ids m' (s.phase p) y) :
    Inv base foreign (s.set m' p y) := by
  have htable := hmove.passes.table h.table fun id hid => h.right.current hid
  have hlater := hmove.passes.later
  -- a property of the phases after the move
  have hall : ∀ {P : Phase → Prop}, P y → (∀ q, P (s.phase q)) →
      ∀ q, P ((s.set m' p y).phase q) := by
    intro P hp hq q
    show P (Function.update s.phase p y q)
    by_cases hqp : q = p
    · rwa [hqp, Function.update_self]
    · rw [Function.update_of_ne hqp]
      exact hq q
  refine ⟨htable, ?_, ?_, ?_, ?_⟩
  · have hown : Phase.owned ∘ (s.set m' p y).phase =
        Function.update (Phase.owned ∘ s.phase) p y.owned := Function.comp_update ..
    rw [hown]
    exact Passes.right hmove.passes h.right
  · refine hall (P := fun x => ∀ id, x.set = some id → base ≤ id ∧ id < m'.next) ?_ ?_
    · intro id hid
      obtain hold | hcurrent := hmove.set id hid
      · have hbound := h.set p id hold
        exact ⟨hbound.1, Nat.lt_of_lt_of_le hbound.2 hlater.1⟩
      · exact htable.current id hcurrent
    · intro q id hid
      have hbound := h.set q id hid
      exact ⟨hbound.1, Nat.lt_of_lt_of_le hbound.2 hlater.1⟩
  · refine hall (P := fun x => ∀ lock t id, x = .cleaning lock t id → m'.sets id = none)
      hmove.cleaning fun q lock t id hq => ?_
    exact hlater.2 id (h.set q id (by rw [hq]; rfl)).2 (h.cleaning q lock t id hq)
  · exact hall (P := fun x => ∀ t id, x = .locking t id → t < max_tries) hmove.counted h.counted

end MxApi.SysSemaphore
