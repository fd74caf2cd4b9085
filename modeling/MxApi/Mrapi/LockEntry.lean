/-
One entry of the lock table under its critical sections.

[`Counted`] is the invariant of an entry: `num_locks` counts the locked ones of the
first `shared_lock_limit` records, and every locked record has a holder. It says
nothing about whether the entry is valid, and no function needs that: an entry
keeps its counters when it is deleted, and a call that found it valid may still
run on it.

Every critical section leaves the records or changes some of them in one way, so
each has one lemma that says which records and how many ([`acquire_eq`],
[`removeLocks_cases`]); the rest is counting.
-/
import Mathlib.Algebra.BigOperators.Ring.Finset
import MxApi.Lib.Changed
import MxApi.Mrapi.LockTable

set_option autoImplicit false

namespace MxApi.LockTable

open Lib lock_type mrapi_rwl_mode_t mrapi_status_t

/-! ## Lock records -/

variable {c c' : Node} {x : mrapi_lock_t}

theorem Node.dindex_mod (c : Node) : c.dindex % 2 ^ 8 = c.dindex :=
  Nat.mod_eq_of_lt (Nat.lt_trans c.dindex_lt (by decide))

theorem Node.nindex_mod (c : Node) : c.nindex % 2 ^ 8 = c.nindex :=
  Nat.mod_eq_of_lt (Nat.lt_trans c.nindex_lt (by decide))

/-- A record names one node. -/
theorem heldBy_unique (h : x.heldBy c = true) (h' : x.heldBy c' = true) : c = c' := by
  simp only [mrapi_lock_t.heldBy, Bool.and_eq_true, beq_iff_eq] at h h'
  obtain ⟨d, n, hd, hn⟩ := c
  obtain ⟨d', n', hd', hn'⟩ := c'
  obtain rfl : d = d' := h.1.symm.trans h'.1
  obtain rfl : n = n' := h.2.symm.trans h'.2
  rfl

theorem take_heldBy : (x.take c).heldBy c' = true ↔ c = c' := by
  have hself : (x.take c).heldBy c = true := by
    rw [mrapi_lock_t.heldBy, Bool.and_eq_true, beq_iff_eq, beq_iff_eq]
    exact ⟨c.dindex_mod, c.nindex_mod⟩
  constructor
  · exact heldBy_unique hself
  · rintro rfl
    exact hself

theorem free_used (h : x.free = true) : x.used = false ∧ (x.take c).used = true := by
  simp only [mrapi_lock_t.free, Bool.and_eq_true, Bool.not_eq_true'] at h
  simp [mrapi_lock_t.used, mrapi_lock_t.take, h.1, h.2]

theorem used_release : x.release.used = false := by
  simp [mrapi_lock_t.used, mrapi_lock_t.release]

theorem mine_used (h : x.mine c = true) : x.used = true := by
  simp only [mrapi_lock_t.mine, Bool.and_eq_true] at h
  exact h.1

theorem mine_unique (h : x.mine c = true) (h' : x.mine c' = true) : c = c' := by
  simp only [mrapi_lock_t.mine, Bool.and_eq_true] at h h'
  exact heldBy_unique h.2 h'.2

theorem mine_release : x.release.mine c = false := by
  rw [mrapi_lock_t.mine, used_release, Bool.false_and]

/-- The taker of a free record is the only one whose it becomes. -/
theorem mine_take (h : x.free = true) : x.mine c = false ∧ (x.take c).mine c = true := by
  obtain ⟨hused, hused'⟩ := free_used (c := c) h
  rw [mrapi_lock_t.mine, mrapi_lock_t.mine, hused, hused', take_heldBy.mpr rfl]
  exact ⟨rfl, rfl⟩

theorem mine_take_other (hne : c ≠ c') (h : x.free = true) :
    (x.take c).mine c' = x.mine c' := by
  have hother : (x.take c).heldBy c' = false := by
    rw [Bool.eq_false_iff]
    exact fun hheld => hne (take_heldBy.mp hheld)
  rw [mrapi_lock_t.mine, mrapi_lock_t.mine, hother, (free_used (c := c) h).1, Bool.and_false,
    Bool.false_and]

/-- Who may hold a lock: a node, or nobody in particular within a domain. -/
inductive Holder
  | node (c : Node)
  | anonymous (dindex : ℕ) (h : dindex < MRAPI_MAX_DOMAINS)

/-- The record names the holder. -/
def Holder.Recorded (x : mrapi_lock_t) : Holder → Prop
  | .node c => x.heldBy c = true
  | .anonymous d _ => x.lock_holder_dindex = d ∧ x.lock_holder_nindex = 2 ^ 8 - 1

/-- A record names no two holders: no node has the index that stands for nobody. -/
theorem recorded_unique {h h' : Holder} (hr : h.Recorded x) (hr' : h'.Recorded x) : h = h' := by
  have hne : ∀ c : Node, x.heldBy c = true → x.lock_holder_nindex ≠ 2 ^ 8 - 1 := by
    intro c hc heq
    simp only [mrapi_lock_t.heldBy, Bool.and_eq_true, beq_iff_eq] at hc
    have hlt := c.nindex_lt
    rw [← hc.2, heq] at hlt
    exact absurd hlt (by decide)
  cases h with
  | node c =>
    cases h' with
    | node c' => rw [heldBy_unique hr hr']
    | anonymous d _ => exact absurd hr'.2 (hne c hr)
  | anonymous d _ =>
    cases h' with
    | node c' => exact absurd hr.2 (hne c' hr')
    | anonymous d' _ =>
      obtain rfl : d = d' := hr.1.symm.trans hr'.1
      rfl

/-! ## The invariant of an entry -/

/-- How many locks of the entry the node holds. -/
def mrapi_sem_t.own (c : Node) (sem : mrapi_sem_t) : ℕ := sem.locks.countP (mrapi_lock_t.mine c)

/-- How many locks of the entry are taken. -/
def mrapi_sem_t.taken (sem : mrapi_sem_t) : ℕ := sem.locks.countP mrapi_lock_t.used

/-- The invariant of an entry, valid or not. -/
structure Counted (sem : mrapi_sem_t) : Prop where
  nonneg : 0 ≤ sem.shared_lock_limit
  le_max : sem.limit ≤ MRAPI_MAX_SHARED_LOCKS
  valids : sem.locks.map mrapi_lock_t.valid =
    List.replicate sem.limit true ++ List.replicate (MRAPI_MAX_SHARED_LOCKS - sem.limit) false
  count : sem.num_locks = sem.taken
  holders : ∀ x ∈ sem.locks, x.locked = true → ∃ h : Holder, h.Recorded x

variable {sem : mrapi_sem_t}

theorem Counted.limit_cast (h : Counted sem) : (sem.limit : ℤ) = sem.shared_lock_limit :=
  Int.toNat_of_nonneg h.nonneg

/-- Beyond the limit no record is valid. -/
theorem Counted.drop_invalid (h : Counted sem) :
    ∀ x ∈ sem.locks.drop sem.limit, x.valid = false := by
  intro x hx
  have hmem : x.valid ∈ (sem.locks.map mrapi_lock_t.valid).drop sem.limit := by
    rw [← List.map_drop]
    exact List.mem_map_of_mem hx
  rw [h.valids, List.drop_append_of_le_length (by rw [List.length_replicate]),
    List.drop_of_length_le (by rw [List.length_replicate]), List.nil_append] at hmem
  exact List.eq_of_mem_replicate hmem

/-- A count of valid records does not see those beyond the limit. -/
theorem Counted.countP_take (h : Counted sem) {q : mrapi_lock_t → Bool}
    (hq : ∀ x, q x = true → x.valid = true) :
    (sem.locks.take sem.limit).countP q = sem.locks.countP q := by
  refine countP_take_of_drop ?_
  intro x hx
  cases hqx : q x with
  | false => rfl
  | true =>
    have hvalid := hq x hqx
    rw [h.drop_invalid x hx] at hvalid
    cases hvalid

theorem used_valid (h : x.used = true) : x.valid = true := by
  simp only [mrapi_lock_t.used, Bool.and_eq_true] at h
  exact h.1

theorem free_valid (h : x.free = true) : x.valid = true := by
  simp only [mrapi_lock_t.free, Bool.and_eq_true] at h
  exact h.1

theorem countP_free_add_used (xs : List mrapi_lock_t) :
    xs.countP mrapi_lock_t.free + xs.countP mrapi_lock_t.used = xs.countP mrapi_lock_t.valid := by
  induction xs with
  | nil => rfl
  | cons x xs ih =>
    rw [List.countP_cons, List.countP_cons, List.countP_cons, ← ih]
    cases hv : x.valid <;> cases hl : x.locked <;>
      simp [mrapi_lock_t.free, mrapi_lock_t.used, hv, hl] <;> omega

theorem Counted.countP_valid (h : Counted sem) :
    sem.locks.countP mrapi_lock_t.valid = sem.limit := by
  have hmap : (sem.locks.map mrapi_lock_t.valid).countP id =
      sem.locks.countP mrapi_lock_t.valid := by
    rw [List.countP_map]
    rfl
  rw [← hmap, h.valids, List.countP_append, List.countP_replicate, List.countP_replicate,
    if_pos (by rfl), if_neg (by exact Bool.false_ne_true), Nat.add_zero]

/-- What is not taken is free. -/
theorem Counted.free_add_taken (h : Counted sem) :
    (sem.locks.take sem.limit).countP mrapi_lock_t.free + sem.taken = sem.limit := by
  rw [h.countP_take fun _ => free_valid, mrapi_sem_t.taken, countP_free_add_used, h.countP_valid]

theorem Counted.taken_le (h : Counted sem) : sem.taken ≤ sem.limit := by
  have := h.free_add_taken
  omega

theorem own_le_taken (c : Node) (sem : mrapi_sem_t) : sem.own c ≤ sem.taken :=
  List.countP_mono_left fun _ _ => mine_used

/-- The locks of different nodes are different locks. -/
theorem sum_own_le (S : Finset Node) (sem : mrapi_sem_t) : ∑ c ∈ S, sem.own c ≤ sem.taken := by
  unfold mrapi_sem_t.own mrapi_sem_t.taken
  induction sem.locks with
  | nil => simp
  | cons x xs ih =>
    simp only [List.countP_cons, Finset.sum_add_distrib]
    have hx : ∑ c ∈ S, (if x.mine c = true then 1 else 0) ≤ if x.used = true then 1 else 0 := by
      rw [Finset.sum_boole]
      cases hused : x.used with
      | true =>
        rw [if_pos rfl]
        refine Finset.card_le_one.mpr ?_
        intro c hc c' hc'
        exact mine_unique (Finset.mem_filter.mp hc).2 (Finset.mem_filter.mp hc').2
      | false =>
        have hnone : S.filter (fun c => x.mine c = true) = ∅ := by
          refine Finset.filter_eq_empty_iff.mpr ?_
          intro c _ hmine
          rw [mine_used hmine] at hused
          cases hused
        rw [hnone]
        exact Nat.le_refl 0
    exact Nat.add_le_add ih hx

theorem own_add_own_le (hne : c ≠ c') (sem : mrapi_sem_t) : sem.own c + sem.own c' ≤ sem.taken := by
  have hsum := sum_own_le {c, c'} sem
  rwa [Finset.sum_pair hne] at hsum

/-- The invariant is kept by changes that keep the validity of the records, that
record a holder of those they lock, and that the counter follows. -/
theorem Counted.changed {p : mrapi_lock_t → Bool} {f : mrapi_lock_t → mrapi_lock_t} {n : ℕ}
    {ys : List mrapi_lock_t} {m : ℤ} (h : Counted sem) (hys : Changed p f n sem.locks ys)
    (hvalid : ∀ x, (f x).valid = x.valid)
    (hholder : ∀ x, (x.locked = true → ∃ h : Holder, h.Recorded x) → (f x).locked = true →
      ∃ h : Holder, h.Recorded (f x))
    (hcount : m = ys.countP mrapi_lock_t.used) :
    Counted { sem with num_locks := m, locks := ys } where
  nonneg := h.nonneg
  le_max := h.le_max
  valids := (hys.map_eq fun x _ => hvalid x).trans h.valids
  count := hcount
  holders := hys.forall (P := fun x => x.locked = true → ∃ h : Holder, h.Recorded x)
    (fun x _ => hholder x) h.holders

/-! ## Creating an entry -/

theorem createLoop_valids (c : Node) (num_locks limit l n : ℕ) :
    (createLoop c num_locks limit l (List.replicate n .zero)).1.map mrapi_lock_t.valid =
      List.replicate (min (limit - l) n) true ++ List.replicate (n - (limit - l)) false := by
  induction n generalizing l with
  | zero => simp [createLoop]
  | succ n ih =>
    rw [List.replicate_succ, createLoop]
    by_cases hl : l < limit
    · rw [if_pos hl]
      have hmin : min (limit - l) (n + 1) = min (limit - (l + 1)) n + 1 := by omega
      have hsub : n + 1 - (limit - l) = n - (limit - (l + 1)) := by omega
      rw [hmin, hsub, List.replicate_succ, List.cons_append, ← ih (l + 1)]
      by_cases hn : l < num_locks
      · rw [if_pos hn]
        rfl
      · rw [if_neg hn]
        rfl
    · rw [if_neg hl, List.map_cons, List.map_replicate]
      have hmin : min (limit - l) (n + 1) = 0 := by omega
      have hsub : n + 1 - (limit - l) = n + 1 := by omega
      rw [hmin, hsub, List.replicate_zero, List.nil_append, List.replicate_succ]
      rfl

theorem createLoop_count (c : Node) (num_locks limit l n : ℕ) :
    let made := createLoop c num_locks limit l (List.replicate n .zero)
    made.2 = (made.1.countP mrapi_lock_t.used : ℤ) := by
  induction n generalizing l with
  | zero => rfl
  | succ n ih =>
    rw [List.replicate_succ, createLoop]
    by_cases hl : l < limit
    · rw [if_pos hl]
      by_cases hn : l < num_locks
      · rw [if_pos hn]
        dsimp only
        rw [ih (l + 1), List.countP_cons_of_pos (by rfl)]
        push_cast
        rfl
      · rw [if_neg hn]
        dsimp only
        rw [ih (l + 1), List.countP_cons_of_neg (by exact Bool.false_ne_true)]
    · rw [if_neg hl]
      dsimp only
      have hzero : (mrapi_lock_t.zero :: List.replicate n .zero).countP mrapi_lock_t.used = 0 := by
        rw [← List.replicate_succ, List.countP_replicate, if_neg (by exact Bool.false_ne_true)]
      rw [hzero]
      rfl

/-- The records that are locked from the start have an anonymous holder. -/
theorem createLoop_holders (c : Node) (num_locks limit l n : ℕ) :
    ∀ x ∈ (createLoop c num_locks limit l (List.replicate n .zero)).1, x.locked = true →
      Holder.Recorded x (.anonymous c.dindex c.dindex_lt) := by
  induction n generalizing l with
  | zero => exact fun x hx => absurd hx List.not_mem_nil
  | succ n ih =>
    rw [List.replicate_succ, createLoop]
    by_cases hl : l < limit
    · rw [if_pos hl]
      by_cases hn : l < num_locks
      · rw [if_pos hn]
        refine List.forall_mem_cons.mpr ⟨fun _ => ⟨c.dindex_mod, rfl⟩, ih (l + 1)⟩
      · rw [if_neg hn]
        exact List.forall_mem_cons.mpr ⟨(fun h => by cases h), ih (l + 1)⟩
    · rw [if_neg hl, ← List.replicate_succ]
      intro x hx hlocked
      rw [List.eq_of_mem_replicate hx] at hlocked
      cases hlocked

/-- Zeroed memory is an entry without locks. -/
theorem Counted.zero : Counted mrapi_sem_t.zero where
  nonneg := Int.le_refl 0
  le_max := Nat.zero_le _
  valids := List.map_replicate
  count := by
    rw [mrapi_sem_t.taken, mrapi_sem_t.zero, List.countP_replicate,
      if_neg (by exact Bool.false_ne_true)]
    rfl
  holders := by
    intro x hx hlocked
    rw [List.eq_of_mem_replicate hx] at hlocked
    cases hlocked

theorem createSem_limit {limit : ℕ} (hlimit : limit ≤ MRAPI_MAX_SHARED_LOCKS)
    (c : Node) (handle key num_locks : ℕ) (t : lock_type) (attributes : mrapi_sem_attributes_t) :
    (createSem c handle key num_locks limit t attributes).shared_lock_limit = limit := by
  have hlt : limit < 2 ^ 31 := Nat.lt_of_le_of_lt hlimit (by decide)
  change toInt32 (u32 limit) = limit
  rw [u32_of_lt (Nat.lt_trans hlt (by decide)), toInt32_of_lt hlt]

/-- **A new entry is counted**, if its limit is within the array. -/
theorem Counted.create {limit : ℕ} (hlimit : limit ≤ MRAPI_MAX_SHARED_LOCKS)
    (c : Node) (handle key num_locks : ℕ) (t : lock_type) (attributes : mrapi_sem_attributes_t) :
    Counted (createSem c handle key num_locks limit t attributes) := by
  have hshared := createSem_limit hlimit c handle key num_locks t attributes
  have hcast : (createSem c handle key num_locks limit t attributes).limit = limit := by
    rw [mrapi_sem_t.limit, hshared]
    rfl
  refine ⟨?_, ?_, ?_, ?_, ?_⟩
  · rw [hshared]
    exact Int.natCast_nonneg limit
  · rw [hcast]
    exact hlimit
  · rw [hcast]
    refine (createLoop_valids c num_locks limit 0 _).trans ?_
    rw [Nat.sub_zero, Nat.min_eq_left hlimit]
  · exact createLoop_count c num_locks limit 0 _
  · intro x hx hlocked
    exact ⟨_, createLoop_holders c num_locks limit 0 _ x hx hlocked⟩

/-- Nobody holds a lock of a new entry. -/
theorem own_create (c c' : Node) (handle key num_locks limit : ℕ) (t : lock_type)
    (attributes : mrapi_sem_attributes_t) :
    (createSem c handle key num_locks limit t attributes).own c' = 0 := by
  refine List.countP_eq_zero.mpr ?_
  intro x hx hmine
  have hlocked : x.locked = true := by
    have hused := mine_used hmine
    simp only [mrapi_lock_t.used, Bool.and_eq_true] at hused
    exact hused.2
  simp only [mrapi_lock_t.mine, Bool.and_eq_true] at hmine
  have hanonymous := createLoop_holders c num_locks limit 0 _ x hx hlocked
  have hboth := recorded_unique (h := .node c') hmine.2 hanonymous
  cases hboth

/-! ## Acquiring -/

theorem acquireLoop_changed (c : Node) (m : ℤ) (l : ℕ) (a : ℤ) (xs : List mrapi_lock_t) :
    ∃ n : ℕ, (acquireLoop c m l a xs).2.1 = a + n ∧
      Changed mrapi_lock_t.free (mrapi_lock_t.take c) n xs (acquireLoop c m l a xs).1 := by
  induction l generalizing a xs with
  | zero =>
    rw [acquireLoop]
    exact ⟨0, (Int.add_zero a).symm, .refl xs⟩
  | succ l ih =>
    cases xs with
    | nil =>
      rw [acquireLoop]
      exact ⟨0, (Int.add_zero a).symm, .nil⟩
    | cons x xs =>
      rw [acquireLoop]
      cases hx : x.free with
      | true =>
        simp only [if_true]
        split
        · exact ⟨1, rfl, .change hx (.refl xs)⟩
        · obtain ⟨n, hn, hchanged⟩ := ih (a + 1) xs
          refine ⟨n + 1, ?_, .change hx hchanged⟩
          dsimp only
          rw [hn]
          push_cast
          omega
      | false =>
        simp only [Bool.false_eq_true, if_false]
        split
        · exact ⟨0, (Int.add_zero a).symm, .keep x (.refl xs)⟩
        · obtain ⟨n, hn, hchanged⟩ := ih a xs
          exact ⟨n, hn, .keep x hchanged⟩

/-- The loop gets what it is asked for, if that much is free. -/
theorem acquireLoop_exact (c : Node) (m : ℤ) (l : ℕ) (a : ℤ) (xs : List mrapi_lock_t)
    (ham : a < m) (hfree : m - a ≤ ((xs.take l).countP mrapi_lock_t.free : ℤ)) :
    (acquireLoop c m l a xs).2.1 = m := by
  induction l generalizing a xs with
  | zero =>
    rw [List.take_zero] at hfree
    change m - a ≤ 0 at hfree
    omega
  | succ l ih =>
    cases xs with
    | nil =>
      change m - a ≤ 0 at hfree
      omega
    | cons x xs =>
      rw [acquireLoop]
      cases hx : x.free with
      | true =>
        rw [countP_take_succ_of_pos l xs hx] at hfree
        push_cast at hfree
        simp only [if_true]
        split
        · assumption
        · exact ih (a + 1) xs (by omega) (by omega)
      | false =>
        rw [countP_take_succ_of_neg l xs hx] at hfree
        simp only [Bool.false_eq_true, if_false]
        split
        · assumption
        · exact ih a xs ham hfree

/-- **Acquiring** takes some of the free records for the caller and counts them. -/
theorem acquire_eq (c : Node) (sem : mrapi_sem_t) (m : ℤ) (status : mrapi_status_t) :
    ∃ (n : ℕ) (ys : List mrapi_lock_t),
      Changed mrapi_lock_t.free (mrapi_lock_t.take c) n sem.locks ys ∧
      (mrapi_impl_acquire_lock_locked c sem m status).1 =
        { sem with num_locks := sem.num_locks + n, locks := ys } ∧
      (mrapi_impl_acquire_lock_locked c sem m status).2.1 = n := by
  unfold mrapi_impl_acquire_lock_locked
  split
  · obtain ⟨n, hn, hchanged⟩ := acquireLoop_changed c m sem.limit 0 sem.locks
    rw [Int.zero_add] at hn
    refine ⟨n, _, hchanged, ?_, hn⟩
    dsimp only
    rw [hn]
  · exact ⟨0, sem.locks, .refl _, by rw [Nat.cast_zero, Int.add_zero], rfl⟩

theorem taken_acquire {n : ℕ} {ys : List mrapi_lock_t}
    (h : Changed mrapi_lock_t.free (mrapi_lock_t.take c) n sem.locks ys) :
    ys.countP mrapi_lock_t.used = sem.taken + n :=
  h.countP_gain fun _ => free_used

theorem own_acquire {n : ℕ} {ys : List mrapi_lock_t}
    (h : Changed mrapi_lock_t.free (mrapi_lock_t.take c) n sem.locks ys) :
    ys.countP (mrapi_lock_t.mine c) = sem.own c + n :=
  h.countP_gain fun _ => mine_take

theorem own_acquire_other {n : ℕ} {ys : List mrapi_lock_t} (hne : c ≠ c')
    (h : Changed mrapi_lock_t.free (mrapi_lock_t.take c) n sem.locks ys) :
    ys.countP (mrapi_lock_t.mine c') = sem.own c' :=
  h.countP_eq fun _ => mine_take_other hne

theorem Counted.acquire (h : Counted sem) (c : Node) (m : ℤ) (status : mrapi_status_t) :
    Counted (mrapi_impl_acquire_lock_locked c sem m status).1 := by
  obtain ⟨n, ys, hchanged, heq, -⟩ := acquire_eq c sem m status
  rw [heq]
  refine h.changed hchanged (fun _ => rfl) (fun x _ _ => ⟨.node c, take_heldBy.mpr rfl⟩) ?_
  rw [taken_acquire hchanged, h.count]
  push_cast
  rfl

/-- A positive number of locks is acquired if and only if it is free, and then
exactly that number; else none. -/
theorem acquire_exact (h : Counted sem) (c : Node) {m : ℕ} (hm : 0 < m)
    (status : mrapi_status_t) :
    (mrapi_impl_acquire_lock_locked c sem m status).2.1 =
      if sem.taken + m ≤ sem.limit then (m : ℤ) else 0 := by
  unfold mrapi_impl_acquire_lock_locked
  have hcount := h.count
  have hcast := h.limit_cast
  have hfree := h.free_add_taken
  by_cases hle : sem.taken + m ≤ sem.limit
  · rw [if_pos (by omega), if_pos hle]
    exact acquireLoop_exact c m sem.limit 0 sem.locks (by omega) (by omega)
  · rw [if_neg (by omega), if_neg hle]

/-! ## Releasing -/

theorem removeLoop_changed (mine : mrapi_lock_t → Bool) (l r a : ℕ) (xs : List mrapi_lock_t) :
    ∃ n : ℕ, (removeLoop mine l r a xs).2 = a + n ∧
      Changed mine mrapi_lock_t.release n xs (removeLoop mine l r a xs).1 := by
  induction l generalizing r a xs with
  | zero =>
    rw [removeLoop]
    exact ⟨0, rfl, .refl xs⟩
  | succ l ih =>
    cases xs with
    | nil =>
      rw [removeLoop]
      exact ⟨0, rfl, .nil⟩
    | cons x xs =>
      rw [removeLoop]
      cases hx : mine x with
      | true =>
        simp only [if_true]
        split
        · exact ⟨1, rfl, .change hx (.refl xs)⟩
        · obtain ⟨n, hn, hchanged⟩ := ih (u16 (r + (2 ^ 16 - 1))) (a + 1) xs
          exact ⟨n + 1, hn.trans (by omega), .change hx hchanged⟩
      | false =>
        simp only [Bool.false_eq_true, if_false]
        obtain ⟨n, hn, hchanged⟩ := ih r a xs
        exact ⟨n, hn, .keep x hchanged⟩

/-- The loop releases as many records as it is asked for, if there are that many. -/
theorem removeLoop_exact (mine : mrapi_lock_t → Bool) (l r a : ℕ) (xs : List mrapi_lock_t)
    (hr : 0 < r) (hlt : r < 2 ^ 16) (hmine : r ≤ (xs.take l).countP mine) :
    (removeLoop mine l r a xs).2 = a + r := by
  induction l generalizing r a xs with
  | zero =>
    rw [List.take_zero] at hmine
    exact absurd hmine (Nat.not_le_of_lt hr)
  | succ l ih =>
    cases xs with
    | nil => exact absurd hmine (Nat.not_le_of_lt hr)
    | cons x xs =>
      have hpred : u16 (r + (2 ^ 16 - 1)) = r - 1 := by
        unfold u16
        omega
      rw [removeLoop, hpred]
      cases hx : mine x with
      | true =>
        rw [countP_take_succ_of_pos l xs hx] at hmine
        simp only [if_true]
        split
        · dsimp only
          omega
        · dsimp only
          rw [ih (r - 1) (a + 1) xs (by omega) (by omega) (by omega)]
          omega
      | false =>
        rw [countP_take_succ_of_neg l xs hx] at hmine
        simp only [Bool.false_eq_true, if_false]
        exact ih r a xs hr hlt hmine

/-- **Releasing** `n` locks: refused, with the entry left alone, if the entry is not
valid or has fewer such locks; else exactly `n` of them are released and the
assertion holds. Of the number 0, which passes every test, only an entry without
such locks is safe. -/
theorem removeLocks_cases {mine : mrapi_lock_t → Bool} (h : Counted sem)
    (hmine : ∀ x, mine x = true → x.used = true) {n : ℕ} (hn : n ≤ MRAPI_MAX_SHARED_LOCKS)
    (hzero : n = 0 → sem.locks.countP mine = 0) :
    ((sem.valid = false ∨ sem.locks.countP mine < n) ∧ (removeLocks mine sem n).sem = sem ∧
      (removeLocks mine sem n).rc = false ∧ (removeLocks mine sem n).status ≠ MRAPI_SUCCESS ∧
      (removeLocks mine sem n).asserted = true) ∨
    (sem.valid = true ∧ n ≤ sem.locks.countP mine ∧
      (removeLocks mine sem n).rc = true ∧ (removeLocks mine sem n).status = MRAPI_SUCCESS ∧
      (removeLocks mine sem n).asserted = true ∧
      ∃ ys : List mrapi_lock_t, Changed mine mrapi_lock_t.release n sem.locks ys ∧
        (removeLocks mine sem n).sem =
          { sem with num_locks := sem.num_locks - n, locks := ys }) := by
  have hlt : n < 2 ^ 16 := Nat.lt_of_le_of_lt hn (by decide)
  have hof : ofInt32 n = n := ofInt32_of_nonneg (Nat.lt_trans hlt (by decide))
  have htake : (sem.locks.take sem.limit).countP mine = sem.locks.countP mine :=
    h.countP_take fun x hx => used_valid (hmine x hx)
  unfold removeLocks
  rw [hof, htake]
  by_cases hvalid : sem.valid = false
  · rw [if_pos hvalid]
    exact .inl ⟨.inl hvalid, rfl, rfl, (fun h => by cases h), rfl⟩
  · rw [if_neg hvalid]
    by_cases hfew : sem.locks.countP mine < n
    · rw [if_pos hfew]
      exact .inl ⟨.inr hfew, rfl, rfl, (fun h => by cases h), rfl⟩
    · rw [if_neg hfew, u16_of_lt hlt]
      right
      obtain ⟨k, hk, hchanged⟩ := removeLoop_changed mine sem.limit n 0 sem.locks
      rw [Nat.zero_add] at hk
      have hkn : k = n := by
        rcases Nat.eq_zero_or_pos n with h0 | hpos
        · have hle := hchanged.le_countP
          rw [hzero h0] at hle
          omega
        · have hexact := removeLoop_exact mine sem.limit n 0 sem.locks hpos hlt
            (by rw [htake]; exact Nat.le_of_not_lt hfew)
          omega
      rw [hkn] at hchanged
      refine ⟨Bool.eq_true_of_not_eq_false hvalid, Nat.le_of_not_lt hfew, rfl, rfl, ?_, _,
        hchanged, rfl⟩
      dsimp only
      rw [hk, hkn]
      exact beq_self_eq_true n

/-- A release keeps the invariant. -/
theorem Counted.removed {mine : mrapi_lock_t → Bool} (h : Counted sem)
    (hmine : ∀ x, mine x = true → x.used = true) {n : ℕ} {ys : List mrapi_lock_t}
    (hys : Changed mine mrapi_lock_t.release n sem.locks ys) :
    Counted { sem with num_locks := sem.num_locks - n, locks := ys } := by
  refine h.changed hys (fun _ => rfl) (fun x _ hlocked => by cases hlocked) ?_
  have hloss := hys.countP_loss fun x hx => ⟨hmine x hx, used_release⟩
  have hcount := h.count
  rw [mrapi_sem_t.taken, ← hloss] at hcount
  rw [hcount]
  push_cast
  omega

theorem own_release {n : ℕ} {ys : List mrapi_lock_t}
    (hys : Changed (mrapi_lock_t.mine c) mrapi_lock_t.release n sem.locks ys) :
    ys.countP (mrapi_lock_t.mine c) + n = sem.own c :=
  hys.countP_loss fun _ hx => ⟨hx, mine_release⟩

theorem own_release_other {n : ℕ} {ys : List mrapi_lock_t} (hne : c ≠ c')
    (hys : Changed (mrapi_lock_t.mine c) mrapi_lock_t.release n sem.locks ys) :
    ys.countP (mrapi_lock_t.mine c') = sem.own c' := by
  refine hys.countP_eq ?_
  intro x hx
  have hother : x.mine c' = false := by
    rw [Bool.eq_false_iff]
    exact fun h => hne (mine_unique hx h)
  rw [mine_release, hother]

/-- Releasing gives nobody a lock. -/
theorem own_removed {mine : mrapi_lock_t → Bool} {n : ℕ} {ys : List mrapi_lock_t}
    (hys : Changed mine mrapi_lock_t.release n sem.locks ys) (c' : Node) :
    ys.countP (mrapi_lock_t.mine c') ≤ sem.own c' := by
  refine hys.countP_le ?_
  intro x _ h
  rw [mine_release] at h
  cases h

/-! ## Mutexes -/

theorem setKey_changed (sem : mrapi_sem_t) (key : BitVec 32) :
    ∃ n, Changed (fun _ => true) (fun x => { x with lock_key := key }) n sem.locks
      (sem.setKey key).locks :=
  Changed.modifyHead _ sem.locks

theorem Counted.setKey (h : Counted sem) (key : BitVec 32) : Counted (sem.setKey key) := by
  obtain ⟨n, hchanged⟩ := setKey_changed sem key
  refine h.changed hchanged (fun _ => rfl) (fun x hx hlocked => ?_) ?_
  · obtain ⟨holder, hrecorded⟩ := hx hlocked
    refine ⟨holder, ?_⟩
    cases holder with
    | node c => exact hrecorded
    | anonymous d hd => exact hrecorded
  · have hsame := hchanged.countP_eq (q := mrapi_lock_t.used) fun _ _ => rfl
    rw [h.count, mrapi_sem_t.taken]
    exact congrArg Nat.cast hsame.symm

theorem own_setKey (c : Node) (sem : mrapi_sem_t) (key : BitVec 32) :
    (sem.setKey key).own c = sem.own c := by
  obtain ⟨n, hchanged⟩ := setKey_changed sem key
  exact hchanged.countP_eq fun _ _ => rfl

/-! ## One critical section -/

/-- What is true of a call between two critical sections: it releases a number of
locks that the entry can have, and if the number is 0, then the caller has none. The
latter is the case of a reader-writer lock without locks; by the time of the release
the entry may have been deleted and created anew. -/
def PcInv (c : Node) (sem : mrapi_sem_t) : Pc → Prop
  | .release _ num_locks =>
    ∃ n : ℕ, num_locks = n ∧ n ≤ MRAPI_MAX_SHARED_LOCKS ∧ (n = 0 → sem.own c = 0)
  | .signal num_locks => num_locks = 1
  | _ => True

/-- What a critical section of `c` leaves. -/
structure Kept (c : Node) (sem : mrapi_sem_t) (o : Outcome) : Prop where
  counted : Counted o.sem
  pc : PcInv c o.sem o.pc
  asserted : o.asserted = true
  others : ∀ c', c' ≠ c → o.sem.own c' ≤ sem.own c'

theorem PcInv.resume (c : Node) (sem : mrapi_sem_t) (who : Acquirer) (rc : Bool)
    (status : mrapi_status_t) : PcInv c sem (who.resume rc status) := by
  cases who <;> exact trivial

/-- What another node's steps do to the number of locks a node has does not matter to
its calls. -/
theorem PcInv.others {sem' : mrapi_sem_t} {pc : Pc} (h : PcInv c sem pc)
    (hown : sem'.own c ≤ sem.own c) : PcInv c sem' pc := by
  cases pc with
  | release who num_locks =>
    obtain ⟨n, hn, hmax, hzero⟩ := h
    exact ⟨n, hn, hmax, fun h0 => Nat.le_zero.mp ((hzero h0) ▸ hown)⟩
  | _ => exact h

theorem acquireStep_kept (h : Counted sem) (c : Node) (who : Acquirer) (m : ℤ)
    (timeout time : ℕ) (status : mrapi_status_t) :
    Kept c sem (acquireStep c sem who m timeout time status) := by
  have hothers : ∀ c', c' ≠ c →
      (mrapi_impl_acquire_lock_locked c sem m status).1.own c' ≤ sem.own c' := by
    obtain ⟨n, ys, hchanged, heq, -⟩ := acquire_eq c sem m status
    intro c' hne
    rw [heq]
    exact (own_acquire_other (Ne.symm hne) hchanged).le
  unfold acquireStep
  dsimp only
  split
  · exact ⟨h.acquire c m status, .resume _ _ _ _ _, rfl, hothers⟩
  · split
    · exact ⟨h.acquire c m status, .resume _ _ _ _ _, rfl, hothers⟩
    · exact ⟨h.acquire c m status, trivial, rfl, hothers⟩

theorem removeStep_kept {mine : mrapi_lock_t → Bool} (h : Counted sem) (c : Node)
    (hmine : ∀ x, mine x = true → x.used = true) {n : ℕ} (hn : n ≤ MRAPI_MAX_SHARED_LOCKS)
    (hzero : n = 0 → sem.locks.countP mine = 0) :
    Kept c sem (removeStep (removeLocks mine sem n)) := by
  rcases removeLocks_cases h hmine hn hzero with
    ⟨-, hsem, -, -, hassert⟩ | ⟨-, -, -, -, hassert, ys, hchanged, hsem⟩
  · refine ⟨?_, trivial, hassert, ?_⟩
    · rw [removeStep, hsem]
      exact h
    · intro c' _
      rw [removeStep, hsem]
  · refine ⟨?_, trivial, hassert, ?_⟩
    · rw [removeStep, hsem]
      exact h.removed hmine hchanged
    · intro c' _
      rw [removeStep, hsem]
      exact own_removed hchanged c'

theorem mutexLockStep_kept (h : Counted sem) (c : Node) (timeout : ℕ) :
    Kept c sem (mutexLockStep c sem timeout) := by
  unfold mutexLockStep mutexLockStart
  split_ifs
  · exact ⟨h.setKey _, trivial, rfl, fun c' _ => (own_setKey c' sem _).le⟩
  · exact ⟨h, trivial, rfl, fun _ _ => Nat.le_refl _⟩
  · exact ⟨h, trivial, rfl, fun _ _ => Nat.le_refl _⟩

theorem mutexUnlockStep_kept (h : Counted sem) (c : Node) (key : BitVec 32) :
    Kept c sem (mutexUnlockStep c sem key) := by
  unfold mutexUnlockStep mutexUnlockStart
  split_ifs
  · exact ⟨h.setKey _, trivial, rfl, fun c' _ => (own_setKey c' sem _).le⟩
  · exact ⟨h, trivial, rfl, fun _ _ => Nat.le_refl _⟩
  · exact ⟨h, ⟨1, rfl, by decide, (fun h => by cases h)⟩, rfl, fun _ _ => Nat.le_refl _⟩

theorem delete_counted (h : Counted sem) (c : Node) : Counted (mrapi_impl_sem_delete c sem).1 := by
  unfold mrapi_impl_sem_delete
  dsimp only
  split_ifs
  · exact h
  · exact ⟨h.nonneg, h.le_max, h.valids, h.count, h.holders⟩
  · exact h

theorem delete_locks (c : Node) (sem : mrapi_sem_t) :
    (mrapi_impl_sem_delete c sem).1.locks = sem.locks := by
  unfold mrapi_impl_sem_delete
  dsimp only
  split_ifs <;> rfl

/-- **One critical section** keeps the counters of the entry, its assertion holds, and
no other node gets a lock. -/
theorem clientStep_kept {pc : Pc} {o : Outcome} (h : Counted sem) (hpc : PcInv c sem pc)
    (hstep : clientStep c sem pc = some o) : Kept c sem o := by
  cases pc with
  | done ret => cases hstep
  | acquire who m timeout time status =>
    obtain rfl := Option.some.inj hstep
    exact acquireStep_kept h c who m timeout time status
  | release who m =>
    obtain rfl := Option.some.inj hstep
    obtain ⟨n, rfl, hn, hzero⟩ := hpc
    exact removeStep_kept h c (fun _ => mine_used) hn hzero
  | signal m =>
    obtain rfl := Option.some.inj hstep
    obtain rfl : m = ((1 : ℕ) : ℤ) := hpc
    exact removeStep_kept h c (fun _ => id) (by decide) (fun h => by cases h)
  | limitLock timeout =>
    obtain rfl := Option.some.inj hstep
    exact ⟨h, trivial, rfl, fun _ _ => Nat.le_refl _⟩
  | limitUnlock =>
    obtain rfl := Option.some.inj hstep
    refine ⟨h, ⟨sem.limit, h.limit_cast.symm, h.le_max, ?_⟩, rfl, fun _ _ => Nat.le_refl _⟩
    intro h0
    change sem.own c = 0
    have hown := own_le_taken c sem
    have htaken := h.taken_le
    omega
  | mutexLock timeout =>
    obtain rfl := Option.some.inj hstep
    exact mutexLockStep_kept h c timeout
  | mutexUnlock key =>
    obtain rfl := Option.some.inj hstep
    exact mutexUnlockStep_kept h c key
  | delete t =>
    obtain rfl := Option.some.inj hstep
    refine ⟨delete_counted h c, trivial, rfl, ?_⟩
    intro c' _
    rw [mrapi_sem_t.own, delete_locks]
    exact Nat.le_refl _

end MxApi.LockTable
