/-
The two request lists of the lock-based transport over whole runs.

In every state the available and the reserved indexes form two doubly linked
lists that share the links of `array` and split its indexes between them
([`ListsOk`]). A reserve takes the first available index and puts it in front of
the reserved ones; a test that completes a request takes it out of the middle of
the reserved ones and makes it the first available index.

Two things go wrong. A reserve of the last available index clears the backward
link of the next one without asking whether there is a next one, and writes
`array[-1]`. A cancelled request is cleared and stays in the reserved list: its
index is never available again. The lists are right, and stay so, as long as a
run contains neither.
-/
import Mathlib.Tactic.Linarith
import MxApi.Lib.Run
import MxApi.Mcapi.RequestLists

set_option autoImplicit false

namespace MxApi.Baseline

open Lib CallStatus mcapi_request_type

/-! ## What is to be kept -/

/-- `i` is an index of `array`. -/
def InArray (i : ℤ) : Prop := 0 ≤ i ∧ i < MCAPI_MAX_REQUESTS

/-- The available indexes are `empty` and the reserved ones `full`. -/
structure ListsOk (db : mcapi_database) (empty full : List ℤ) : Prop where
  empties : DList (-1) db.request_reserves_header.next db.request_reserves_header.prev
    db.request_reserves_header.empty_head_index empty
  fulls : DList (-1) db.request_reserves_header.next db.request_reserves_header.prev
    db.request_reserves_header.full_head_index full
  split : ∀ i, (i ∈ empty ∨ i ∈ full) ↔ InArray i
  disjoint : ∀ i ∈ empty, i ∉ full
  count : db.request_reserves_header.curr_count = full.length
  valids : ∀ i, InArray i → (i ∈ full ↔ (db.requests i).valid = true)

/-- Well-formed lists, list steps inside `array`, and no index lost. -/
structure RequestsOk (db : mcapi_database) : Prop where
  lists : ∃ empty full, ListsOk db empty full
  bounds : ∀ i ∈ db.request_reserves_header.touched, InArray i
  reusable : ∀ i, InArray i → (db.requests i).valid = false →
    ∃ n, (mcapi_trans_reserve_request_have_lock (reserves n db)).1 = some i

/-- A request that a cancel still finds waiting. -/
def mcapi_request_data.outstanding (data : mcapi_request_data) : Bool :=
  data.valid && !data.cancelled && !data.completed

/-- Not the last available index, and no cancel of a request that waits. -/
def goodCall (db : mcapi_database) : RequestCall → Prop
  | .start _ _ _ _ _ _ =>
    db.request_reserves_header.empty_head_index ≠ -1 →
      db.request_reserves_header.next db.request_reserves_header.empty_head_index ≠ -1
  | .test_i _ _ => True
  | .cancel request =>
    ∀ r, mcapi_trans_decode_request_handle request = some r →
      (db.requests r).outstanding = false

/-! ## The initial lists -/

theorem initNodes_links (n : ℕ) (header : indexed_array_header) :
    (∀ i : ℤ, 0 ≤ i → i < n → (initNodes n header).next i = i + 1 ∧
      (initNodes n header).prev i = i - 1) ∧
    (initNodes n header).curr_count = header.curr_count ∧
    (initNodes n header).empty_head_index = header.empty_head_index ∧
    (initNodes n header).full_head_index = header.full_head_index ∧
    (∀ i ∈ (initNodes n header).touched, i ∈ header.touched ∨ 0 ≤ i ∧ i < n) := by
  induction n with
  | zero =>
    refine ⟨fun i h0 hn => ?_, rfl, rfl, rfl, fun i hi => .inl hi⟩
    simp only [Nat.cast_zero] at hn
    omega
  | succ n ih =>
    obtain ⟨hlinks, hcount, hempty, hfull, htouched⟩ := ih
    refine ⟨fun i h0 hn => ?_, hcount, hempty, hfull, fun i hi => ?_⟩
    · rw [initNodes, indexed_array_header.next_set_prev, indexed_array_header.next_set_next,
        indexed_array_header.prev_set_prev, indexed_array_header.prev_set_next]
      by_cases hin : i = n
      · rw [hin, Function.update_self, Function.update_self]
        exact ⟨rfl, rfl⟩
      · rw [Function.update_of_ne hin, Function.update_of_ne hin]
        apply hlinks i h0
        push_cast at hn
        omega
    · rw [initNodes] at hi
      have hi' : i = n ∨ i = n ∨ i ∈ (initNodes n header).touched := by
        simpa [indexed_array_header.set_prev, indexed_array_header.set_next,
          indexed_array_header.touch] using hi
      push_cast
      rcases hi' with rfl | rfl | hmem
      · right
        omega
      · right
        omega
      · rcases htouched i hmem with h | h
        · exact .inl h
        · right
          omega

/-- Links that count up form the chain of the indexes from `k` on. -/
theorem chain_count_up (next prev : ℤ → ℤ) (n : ℕ) : ∀ (k : ℕ) (p : ℤ),
    (∀ i : ℤ, k ≤ i → i < k + n → next i = if i = k + n - 1 then -1 else i + 1) →
    (∀ i : ℤ, k ≤ i → i < k + n → prev i = if i = k then p else i - 1) → 0 < n →
    Chain (-1) next prev p k ((List.range' k n).map fun i : ℕ => (i : ℤ)) := by
  induction n with
  | zero => intro k p _ _ h; omega
  | succ n ih =>
    intro k p hnext hprev _
    rw [List.range'_succ, List.map_cons]
    refine ⟨rfl, by omega, ?_, ?_⟩
    · rw [hprev k (le_refl _) (by push_cast; omega), if_pos rfl]
    · have hk := hnext k (le_refl _) (by push_cast; omega)
      by_cases hn : n = 0
      · subst hn
        rw [hk, if_pos (by push_cast; omega)]
        rfl
      · rw [hk, if_neg (by push_cast; omega)]
        have ih' := ih (k + 1) k ?_ ?_ (by omega)
        · simpa using ih'
        · intro i h0 h1
          push_cast at h0 h1
          rw [hnext i (by omega) (by push_cast; omega)]
          congr 1
          push_cast
          apply propext
          omega
        · intro i h0 h1
          push_cast at h0 h1
          rw [hprev i (by omega) (by push_cast; omega), if_neg (by omega)]
          by_cases hi : i = ((k + 1 : ℕ) : ℤ)
          · rw [if_pos hi, hi]
            push_cast
            omega
          · rw [if_neg hi]

/-- The initial links, at the indexes of `array`. -/
theorem init_links (header : indexed_array_header) {i : ℤ} (hi : InArray i) :
    (mcapi_trans_init_indexed_array_have_lock header).next i =
      (if i = MCAPI_MAX_REQUESTS - 1 then -1 else i + 1) ∧
    (mcapi_trans_init_indexed_array_have_lock header).prev i =
      (if i = 0 then -1 else i - 1) := by
  obtain ⟨h0, h1⟩ := hi
  rw [mcapi_trans_init_indexed_array_have_lock]
  simp only [indexed_array_header.next_set_prev, indexed_array_header.next_set_next,
    indexed_array_header.prev_set_prev, indexed_array_header.prev_set_next]
  obtain ⟨hlinks, -⟩ := initNodes_links MCAPI_MAX_REQUESTS { header with
    curr_count := 0
    max_count := MCAPI_MAX_REQUESTS
    empty_head_index := 0
    full_head_index := -1 }
  refine ⟨?_, ?_⟩
  · rw [Function.update_apply, (hlinks i h0 h1).1]
  · rw [Function.update_apply, (hlinks i h0 h1).2]

/-- The heads and the count after the initialisation, and what it touched. -/
theorem init_header (header : indexed_array_header) :
    (mcapi_trans_init_indexed_array_have_lock header).empty_head_index = 0 ∧
    (mcapi_trans_init_indexed_array_have_lock header).full_head_index = -1 ∧
    (mcapi_trans_init_indexed_array_have_lock header).curr_count = 0 ∧
    (∀ i ∈ (mcapi_trans_init_indexed_array_have_lock header).touched,
      i ∈ header.touched ∨ InArray i) := by
  obtain ⟨-, hcount, hempty, hfull, htouched⟩ := initNodes_links MCAPI_MAX_REQUESTS
    { header with
      curr_count := 0
      max_count := MCAPI_MAX_REQUESTS
      empty_head_index := 0
      full_head_index := -1 }
  have hmax : (0 : ℤ) < MCAPI_MAX_REQUESTS := by norm_num [MCAPI_MAX_REQUESTS]
  rw [mcapi_trans_init_indexed_array_have_lock]
  simp only [indexed_array_header.set_prev, indexed_array_header.set_next,
    indexed_array_header.touch, List.mem_cons]
  refine ⟨hempty, hfull, hcount, ?_⟩
  rintro i (rfl | rfl | hmem)
  · right
    exact ⟨le_refl _, hmax⟩
  · right
    rw [InArray]
    omega
  · exact htouched i hmem

/-- All indexes are available at the start, in ascending order. -/
theorem initialRequests_lists (header : indexed_array_header) :
    ListsOk (initialRequests header)
      ((List.range' 0 MCAPI_MAX_REQUESTS).map fun i : ℕ => (i : ℤ)) [] := by
  obtain ⟨hempty, hfull, hcount, -⟩ := init_header { header with touched := [] }
  refine ⟨⟨?_, ?_⟩, ⟨hfull, List.nodup_nil⟩, ?_, ?_, hcount, ?_⟩
  · rw [initialRequests, hempty]
    refine chain_count_up _ _ MCAPI_MAX_REQUESTS 0 (-1) ?_ ?_ ?_
    · intro i h0 h1
      have hlast : ((0 : ℕ) : ℤ) + MCAPI_MAX_REQUESTS - 1 = MCAPI_MAX_REQUESTS - 1 := by omega
      rw [hlast]
      exact (init_links { header with touched := [] } ⟨by omega, by omega⟩).1
    · intro i h0 h1
      exact (init_links { header with touched := [] } ⟨by omega, by omega⟩).2
    · norm_num [MCAPI_MAX_REQUESTS]
  · exact (List.nodup_range').map Nat.cast_injective
  · intro i
    rw [InArray]
    simp only [List.mem_map, List.mem_range'_1, List.not_mem_nil, or_false]
    refine ⟨?_, fun ⟨h0, h1⟩ => ⟨i.toNat, by omega, by omega⟩⟩
    rintro ⟨k, hk, rfl⟩
    omega
  · intro i _ hi
    simp at hi
  · intro i _
    simp [initialRequests, mcapi_request_data.zero]

/-- The list steps of the initialisation stay inside `array`. -/
theorem initialRequests_bounds (header : indexed_array_header) :
    ∀ i ∈ (initialRequests header).request_reserves_header.touched, InArray i := by
  intro i hi
  obtain ⟨-, -, -, htouched⟩ := init_header { header with touched := [] }
  rcases htouched i hi with h | h
  · simp at h
  · exact h

/-! ## Reserve -/

theorem backLink_next (header : indexed_array_header) (temp head : ℤ) :
    (backLink header temp head).next = header.next := by
  rw [backLink]
  split
  · exact header.next_set_prev temp head
  · rfl

theorem backLink_prev (header : indexed_array_header) (temp head : ℤ) :
    (backLink header temp head).prev =
      if temp ≠ -1 then Function.update header.prev temp head else header.prev := by
  rw [backLink]
  split
  · exact header.prev_set_prev temp head
  · rfl

theorem backLink_heads (header : indexed_array_header) (temp head : ℤ) :
    (backLink header temp head).empty_head_index = header.empty_head_index ∧
    (backLink header temp head).full_head_index = header.full_head_index ∧
    (backLink header temp head).curr_count = header.curr_count := by
  rw [backLink]
  split
  · exact ⟨rfl, rfl, rfl⟩
  · exact ⟨rfl, rfl, rfl⟩

theorem backLink_touched (header : indexed_array_header) (temp head : ℤ) {i : ℤ} :
    i ∈ (backLink header temp head).touched ↔
      (i = temp ∧ temp ≠ -1) ∨ i ∈ header.touched := by
  rw [backLink]
  split
  · rename_i h
    simp [indexed_array_header.set_prev, indexed_array_header.touch, h]
  · rename_i h
    simp [h]

/-- The links and heads after a reserve. -/
theorem reserveLinks_eq (header : indexed_array_header) :
    (reserveLinks header).next =
      Function.update header.next header.empty_head_index header.full_head_index ∧
    (reserveLinks header).prev =
      (if header.full_head_index ≠ -1 then
        Function.update (Function.update (Function.update header.prev
          (header.next header.empty_head_index) (-1)) header.empty_head_index (-1))
          header.full_head_index header.empty_head_index
      else Function.update (Function.update header.prev
        (header.next header.empty_head_index) (-1)) header.empty_head_index (-1)) ∧
    (reserveLinks header).empty_head_index = header.next header.empty_head_index ∧
    (reserveLinks header).full_head_index = header.empty_head_index ∧
    (reserveLinks header).curr_count = header.curr_count + 1 := by
  refine ⟨?_, ?_, (backLink_heads _ _ _).1, (backLink_heads _ _ _).2.1, ?_⟩
  · refine (backLink_next _ _ _).trans ?_
    simp only [indexed_array_header.next_set_prev, indexed_array_header.next_set_next]
    rfl
  · refine (backLink_prev _ _ _).trans ?_
    simp only [indexed_array_header.prev_set_prev, indexed_array_header.prev_set_next]
    rfl
  · exact congrArg (· + 1) (backLink_heads _ _ _).2.2

theorem reserveLinks_touched (header : indexed_array_header) {i : ℤ} :
    i ∈ (reserveLinks header).touched ↔
      (i = header.full_head_index ∧ header.full_head_index ≠ -1) ∨
      i = header.empty_head_index ∨ i = header.next header.empty_head_index ∨
      i ∈ header.touched := by
  refine (backLink_touched _ _ _).trans ?_
  simp only [indexed_array_header.set_prev, indexed_array_header.set_next,
    indexed_array_header.touch, List.mem_cons]
  tauto

section

variable {db : mcapi_database} {empty full : List ℤ} {r : ℤ}

/-- No index is available exactly if the list is empty. -/
theorem ListsOk.empty_iff (h : ListsOk db empty full) :
    db.request_reserves_header.empty_head_index = -1 ↔ empty = [] :=
  h.empties.eq_nil_iff

theorem reserve_of_head (hhead : db.request_reserves_header.empty_head_index = r)
    (hne : r ≠ -1) :
    mcapi_trans_reserve_request_have_lock db =
      (some r, ⟨reserveLinks db.request_reserves_header,
        Function.update db.requests r { db.requests r with valid := true }⟩) := by
  rw [mcapi_trans_reserve_request_have_lock]
  simp only [hhead]
  rw [if_pos hne]

/-- **A reserve.** The first available index becomes the first reserved one. -/
theorem ListsOk.reserve (h : ListsOk db (r :: empty) full) :
    (mcapi_trans_reserve_request_have_lock db).1 = some r ∧
      ListsOk (mcapi_trans_reserve_request_have_lock db).2 empty (r :: full) := by
  have hhead : db.request_reserves_header.empty_head_index = r := h.empties.chain.1
  have hr : InArray r := (h.split r).mp (.inl List.mem_cons_self)
  have hne : r ≠ -1 := by
    have := hr.1
    omega
  have hfree : r ∉ full := h.disjoint r List.mem_cons_self
  have hself := List.nodup_cons.mp h.empties.nodup
  rw [reserve_of_head hhead hne]
  obtain ⟨hnext, hprev, hempty', hfull', hcount'⟩ := reserveLinks_eq db.request_reserves_header
  rw [hhead] at hnext hprev hempty' hfull'
  have hpop := h.empties
  rw [hhead] at hpop
  have hpop := hpop.pop
  -- the cell behind `r` is available, too, or there is none
  have hbehind : db.request_reserves_header.next r = -1 ∨
      db.request_reserves_header.next r ∈ empty := by
    have hchain : Chain (-1) db.request_reserves_header.next db.request_reserves_header.prev
        (-1) _ ([] ++ r :: empty) := h.empties.chain
    exact hchain.next_mem
  refine ⟨rfl, ?_, ?_, ?_, ?_, ?_, ?_⟩
  · rw [hnext, hprev, hempty']
    refine hpop.frame fun i hi => ?_
    have hir : i ≠ r := by
      rintro rfl
      exact hself.1 hi
    have hifull : i ≠ db.request_reserves_header.full_head_index ∨
        db.request_reserves_header.full_head_index = -1 := by
      by_contra hcon
      push Not at hcon
      obtain ⟨l', hl'⟩ := h.fulls.head_mem hcon.2
      apply h.disjoint i (List.mem_cons_of_mem _ hi)
      rw [hl', hcon.1]
      exact List.mem_cons_self
    refine ⟨Function.update_of_ne hir _ _, ?_⟩
    split
    · rename_i hfull
      rw [Function.update_of_ne (hifull.resolve_right hfull), Function.update_of_ne hir]
    · rw [Function.update_of_ne hir]
  · rw [hnext, hprev, hfull']
    have hframe : DList (-1) db.request_reserves_header.next
        (Function.update db.request_reserves_header.prev
          (db.request_reserves_header.next r) (-1))
        db.request_reserves_header.full_head_index full := by
      refine h.fulls.frame fun i hi => ⟨rfl, Function.update_of_ne ?_ _ _⟩
      rintro rfl
      rcases hbehind with hnil | hmem
      · exact h.fulls.chain.ne_nil _ hi hnil
      · exact h.disjoint _ (List.mem_cons_of_mem _ hmem) hi
    exact hframe.push hfree hne
  · intro i
    rw [← h.split i, List.mem_cons, List.mem_cons]
    tauto
  · intro i hi hmem
    rcases List.mem_cons.mp hmem with rfl | hmem
    · exact hself.1 hi
    · exact h.disjoint i (List.mem_cons_of_mem _ hi) hmem
  · rw [hcount', h.count, List.length_cons]
    push_cast
    rfl
  · intro i hi
    have hold := h.valids i hi
    simp only [List.mem_cons, Function.update_apply]
    by_cases hir : i = r
    · rw [if_pos hir]
      exact iff_of_true (.inl hir) rfl
    · rw [if_neg hir, ← hold]
      exact or_iff_right hir

/-- Reserves take the available indexes one after the other. -/
theorem ListsOk.reserves : ∀ {before : List ℤ} {db : mcapi_database} {full : List ℤ},
    ListsOk db (before ++ r :: empty) full →
    (mcapi_trans_reserve_request_have_lock (reserves before.length db)).1 = some r
  | [], _, _, h => h.reserve.1
  | _ :: _, _, _, h => h.reserve.2.reserves

/-- Where the lists are right, an index that is not in use can be reserved. -/
theorem ListsOk.reusable (h : ListsOk db empty full) {i : ℤ} (hi : InArray i)
    (hvalid : (db.requests i).valid = false) :
    ∃ n, (mcapi_trans_reserve_request_have_lock (Baseline.reserves n db)).1 = some i := by
  have hfull : i ∉ full := by
    rw [h.valids i hi, hvalid]
    exact Bool.false_ne_true
  have hempty : i ∈ empty := ((h.split i).mpr hi).resolve_right hfull
  obtain ⟨before, after, rfl⟩ := List.append_of_mem hempty
  exact ⟨before.length, h.reserves⟩

/-! ## Remove -/

theorem newFullHead_eq (header : indexed_array_header) (r : ℤ) :
    (newFullHead header r).next = header.next ∧ (newFullHead header r).prev = header.prev ∧
    (newFullHead header r).full_head_index =
      (if header.full_head_index = r then header.next r else header.full_head_index) ∧
    (newFullHead header r).empty_head_index = header.empty_head_index ∧
    (newFullHead header r).curr_count = header.curr_count ∧
    (∀ i ∈ (newFullHead header r).touched, i = r ∨ i ∈ header.touched) := by
  rw [newFullHead]
  split
  · rename_i h
    refine ⟨rfl, rfl, by rw [h], rfl, rfl, fun i hi => ?_⟩
    rw [← h]
    exact List.mem_cons.mp hi
  · exact ⟨rfl, rfl, rfl, rfl, rfl, fun i hi => .inr hi⟩

theorem linkNext_eq (header : indexed_array_header) (r : ℤ) :
    (linkNext header r).next = header.next ∧
    (linkNext header r).prev = unlinkPrev (-1) header.next header.prev r ∧
    (linkNext header r).full_head_index = header.full_head_index ∧
    (linkNext header r).empty_head_index = header.empty_head_index ∧
    (linkNext header r).curr_count = header.curr_count ∧
    (∀ i ∈ (linkNext header r).touched,
      i = r ∨ (i = header.next r ∧ i ≠ -1) ∨ i ∈ header.touched) := by
  by_cases h : header.next r ≠ -1
  · have hlink : linkNext header r =
        (header.touch r).set_prev (header.next r) (header.prev r) := if_pos h
    rw [hlink, unlinkPrev, if_pos h]
    refine ⟨indexed_array_header.next_set_prev _ _ _,
      indexed_array_header.prev_set_prev _ _ _, rfl, rfl, rfl, fun i hi => ?_⟩
    have hi' : i = header.next r ∨ i = r ∨ i ∈ header.touched := by
      simpa [indexed_array_header.set_prev, indexed_array_header.touch] using hi
    rcases hi' with rfl | hr | hmem
    · exact .inr (.inl ⟨rfl, h⟩)
    · exact .inl hr
    · exact .inr (.inr hmem)
  · have hlink : linkNext header r = header.touch r := if_neg h
    rw [hlink, unlinkPrev, if_neg h]
    refine ⟨rfl, rfl, rfl, rfl, rfl, fun i hi => ?_⟩
    rcases List.mem_cons.mp hi with hr | hmem
    · exact .inl hr
    · exact .inr (.inr hmem)

theorem linkPrev_eq (header : indexed_array_header) (r : ℤ) :
    (linkPrev header r).next = unlinkNext (-1) header.next header.prev r ∧
    (linkPrev header r).prev = header.prev ∧
    (linkPrev header r).full_head_index = header.full_head_index ∧
    (linkPrev header r).empty_head_index = header.empty_head_index ∧
    (linkPrev header r).curr_count = header.curr_count ∧
    (∀ i ∈ (linkPrev header r).touched,
      i = r ∨ (i = header.prev r ∧ i ≠ -1) ∨ i ∈ header.touched) := by
  by_cases h : header.prev r ≠ -1
  · have hlink : linkPrev header r =
        (header.touch r).set_next (header.prev r) (header.next r) := if_pos h
    rw [hlink, unlinkNext, if_pos h]
    refine ⟨indexed_array_header.next_set_next _ _ _,
      indexed_array_header.prev_set_next _ _ _, rfl, rfl, rfl, fun i hi => ?_⟩
    have hi' : i = header.prev r ∨ i = r ∨ i ∈ header.touched := by
      simpa [indexed_array_header.set_next, indexed_array_header.touch] using hi
    rcases hi' with rfl | hr | hmem
    · exact .inr (.inl ⟨rfl, h⟩)
    · exact .inl hr
    · exact .inr (.inr hmem)
  · have hlink : linkPrev header r = header.touch r := if_neg h
    rw [hlink, unlinkNext, if_neg h]
    refine ⟨rfl, rfl, rfl, rfl, rfl, fun i hi => ?_⟩
    rcases List.mem_cons.mp hi with hr | hmem
    · exact .inl hr
    · exact .inr (.inr hmem)

theorem linkEmpty_eq (header : indexed_array_header) (r : ℤ) :
    (linkEmpty header r).next = Function.update header.next r header.empty_head_index ∧
    (linkEmpty header r).prev = (if header.empty_head_index ≠ -1 then
        Function.update (Function.update header.prev r (-1)) header.empty_head_index r
      else Function.update header.prev r (-1)) ∧
    (linkEmpty header r).full_head_index = header.full_head_index ∧
    (linkEmpty header r).empty_head_index = r ∧
    (linkEmpty header r).curr_count = header.curr_count ∧
    (∀ i ∈ (linkEmpty header r).touched, i = r ∨
      (i = header.empty_head_index ∧ i ≠ -1) ∨ i ∈ header.touched) := by
  obtain ⟨hempty, hfull, hcount⟩ := backLink_heads
    (({ header with empty_head_index := r }.set_next r header.empty_head_index).set_prev r (-1))
    header.empty_head_index r
  refine ⟨?_, ?_, hfull, hempty, hcount, fun i hi => ?_⟩
  · refine (backLink_next _ _ _).trans ?_
    simp only [indexed_array_header.next_set_prev, indexed_array_header.next_set_next]
    rfl
  · refine (backLink_prev _ _ _).trans ?_
    simp only [indexed_array_header.prev_set_prev, indexed_array_header.prev_set_next]
    rfl
  · rcases (backLink_touched _ _ _).mp hi with ⟨rfl, hne⟩ | hmem
    · exact .inr (.inl ⟨rfl, hne⟩)
    · simp only [indexed_array_header.set_prev, indexed_array_header.set_next,
        indexed_array_header.touch, List.mem_cons] at hmem
      tauto

/-- **A remove.** A reserved index leaves its place and becomes the first
available one; its request is then cleared. -/
theorem ListsOk.remove (h : ListsOk db empty full) (hr : r ∈ full)
    (data : mcapi_request_data) (hdata : data.valid = false) :
    ListsOk ⟨(mcapi_trans_remove_request_have_lock db.request_reserves_header r).2,
      Function.update db.requests r data⟩ (r :: empty) (full.erase r) := by
  have hfull : db.request_reserves_header.full_head_index ≠ -1 := by
    rw [Ne, h.fulls.eq_nil_iff]
    rintro rfl
    simp at hr
  have hrin : InArray r := (h.split r).mp (.inr hr)
  have hne : r ≠ -1 := by
    have := hrin.1
    omega
  have hself := h.fulls.next_ne hr
  have hempty : r ∉ empty := fun hmem => h.disjoint r hmem hr
  rw [mcapi_trans_remove_request_have_lock, if_pos hfull]
  obtain ⟨hn₁, hp₁, hf₁, he₁, hc₁, -⟩ := newFullHead_eq db.request_reserves_header r
  obtain ⟨hn₂, hp₂, hf₂, he₂, hc₂, -⟩ := linkNext_eq (newFullHead db.request_reserves_header r) r
  obtain ⟨hn₃, hp₃, hf₃, he₃, hc₃, -⟩ :=
    linkPrev_eq (linkNext (newFullHead db.request_reserves_header r) r) r
  obtain ⟨hn₄, hp₄, hf₄, he₄, hc₄, -⟩ :=
    linkEmpty_eq (linkPrev (linkNext (newFullHead db.request_reserves_header r) r) r) r
  rw [hn₁, hp₁] at hp₂
  rw [hn₁] at hn₂
  -- the second assignment still reads the old backward link of `r`
  have hn₃' : (linkPrev (linkNext (newFullHead db.request_reserves_header r) r) r).next =
      unlinkNext (-1) db.request_reserves_header.next db.request_reserves_header.prev r := by
    rw [hn₃, hn₂, hp₂]
    have hsame : unlinkPrev (-1) db.request_reserves_header.next
        db.request_reserves_header.prev r r = db.request_reserves_header.prev r :=
      unlinkPrev_of_ne hself.symm
    rw [unlinkNext, unlinkNext, hsame]
  have hp₃' := hp₃.trans hp₂
  have he₃' := (he₃.trans he₂).trans he₁
  rw [hn₃', he₃'] at hn₄
  rw [hp₃', he₃'] at hp₄
  set header' := linkEmpty (linkPrev (linkNext (newFullHead db.request_reserves_header r) r) r) r
  refine ⟨?_, ?_, ?_, ?_, ?_, ?_⟩
  · have hkeep : DList (-1)
        (unlinkNext (-1) db.request_reserves_header.next db.request_reserves_header.prev r)
        (unlinkPrev (-1) db.request_reserves_header.next db.request_reserves_header.prev r)
        db.request_reserves_header.empty_head_index empty := by
      refine h.empties.frame fun i hi => h.fulls.unlink_frame hr (h.disjoint i hi) ?_
      exact h.empties.chain.ne_nil i hi
    have hpush : DList (-1) header'.next header'.prev header'.empty_head_index (r :: empty) := by
      rw [hn₄, hp₄, he₄]
      exact hkeep.push hempty hne
    exact hpush
  · have hunlink : DList (-1) header'.next header'.prev header'.full_head_index
        (full.erase r) := by
      rw [hf₄, hf₃, hf₂, hf₁]
      refine (h.fulls.unlink hr).frame fun i hi => ?_
      have hir : i ≠ r := by
        rintro rfl
        exact h.fulls.nodup.not_mem_erase hi
      have hifull := List.mem_of_mem_erase hi
      rw [hn₄, hp₄, Function.update_of_ne hir]
      refine ⟨rfl, ?_⟩
      split
      · rename_i hhead
        have hihead : i ≠ db.request_reserves_header.empty_head_index := by
          rintro rfl
          obtain ⟨l', hl'⟩ := h.empties.head_mem hhead
          apply h.disjoint _ _ hifull
          rw [hl']
          exact List.mem_cons_self
        rw [Function.update_of_ne hihead, Function.update_of_ne hir]
      · exact Function.update_of_ne hir _ _
    exact hunlink
  · intro i
    rw [← h.split i, List.mem_cons]
    by_cases hir : i = r
    · rw [hir]
      exact iff_of_true (.inl (.inl rfl)) (.inr hr)
    · rw [List.mem_erase_of_ne hir]
      tauto
  · intro i hi hmem
    rcases List.mem_cons.mp hi with rfl | hi
    · exact h.fulls.nodup.not_mem_erase hmem
    · exact h.disjoint i hi (List.mem_of_mem_erase hmem)
  · have hpos : 0 < full.length := List.length_pos_of_mem hr
    have hcount : header'.curr_count = full.length := by
      rw [hc₄, hc₃, hc₂, hc₁, h.count]
    have hless : header'.curr_count - 1 = ((full.erase r).length : ℤ) := by
      rw [hcount, List.length_erase_of_mem hr]
      omega
    exact hless
  · intro i hi
    have hold := h.valids i hi
    simp only [Function.update_apply]
    by_cases hir : i = r
    · rw [if_pos hir, hdata, hir]
      exact iff_of_false h.fulls.nodup.not_mem_erase Bool.false_ne_true
    · rw [if_neg hir, List.mem_erase_of_ne hir]
      exact hold

/-- The list steps of a remove stay inside `array`. -/
theorem ListsOk.remove_bounds (h : ListsOk db empty full) (hr : r ∈ full)
    (hbounds : ∀ i ∈ db.request_reserves_header.touched, InArray i) :
    ∀ i ∈ (mcapi_trans_remove_request_have_lock db.request_reserves_header r).2.touched,
      InArray i := by
  have hfull : db.request_reserves_header.full_head_index ≠ -1 := by
    rw [Ne, h.fulls.eq_nil_iff]
    rintro rfl
    simp at hr
  have hrin : InArray r := (h.split r).mp (.inr hr)
  have hself := h.fulls.next_ne hr
  obtain ⟨hnext, hprev⟩ := h.fulls.neighbours hr
  obtain ⟨hn₁, hp₁, -, he₁, -, ht₁⟩ := newFullHead_eq db.request_reserves_header r
  obtain ⟨hn₂, hp₂, -, he₂, -, ht₂⟩ := linkNext_eq (newFullHead db.request_reserves_header r) r
  obtain ⟨-, -, -, he₃, -, ht₃⟩ :=
    linkPrev_eq (linkNext (newFullHead db.request_reserves_header r) r) r
  obtain ⟨-, -, -, -, -, ht₄⟩ :=
    linkEmpty_eq (linkPrev (linkNext (newFullHead db.request_reserves_header r) r) r) r
  rw [hp₂, hn₁, hp₁, unlinkPrev_of_ne hself.symm] at ht₃
  rw [hn₁] at ht₂
  rw [he₃, he₂, he₁] at ht₄
  rw [mcapi_trans_remove_request_have_lock, if_pos hfull]
  intro i hi
  rcases ht₄ i hi with rfl | ⟨hhead, hne⟩ | hi
  · exact hrin
  · rw [hhead] at hne
    obtain ⟨l', hl'⟩ := h.empties.head_mem hne
    apply (h.split i).mp
    left
    rw [hl', hhead]
    exact List.mem_cons_self
  rcases ht₃ i hi with rfl | ⟨hback, hne⟩ | hi
  · exact hrin
  · rw [hback] at hne
    rw [hback]
    exact (h.split _).mp (.inr (hprev.resolve_left hne))
  rcases ht₂ i hi with rfl | ⟨hforward, hne⟩ | hi
  · exact hrin
  · rw [hforward] at hne
    rw [hforward]
    exact (h.split _).mp (.inr (hnext.resolve_left hne))
  rcases ht₁ i hi with rfl | hi
  · exact hrin
  · exact hbounds i hi

/-! ## One call -/

/-- The requests may change as long as the same ones are valid. -/
theorem ListsOk.requests (h : ListsOk db empty full) {requests : ℤ → mcapi_request_data}
    (hvalid : ∀ i, (requests i).valid = (db.requests i).valid) :
    ListsOk ⟨db.request_reserves_header, requests⟩ empty full :=
  ⟨h.empties, h.fulls, h.split, h.disjoint, h.count, fun i hi => by
    rw [h.valids i hi, ← hvalid i]⟩

/-- Setting up a request keeps the lists and the valid requests. -/
theorem setup_request_lists (h : ListsOk db empty full) (handle : ℕ) (mcapi_status : CallStatus)
    (completed : Bool) (size : ℕ) (type : mcapi_request_type) (slot : Bool) (r : ℤ) :
    ListsOk (setup_request_have_lock db handle mcapi_status completed size type slot r)
      empty full := by
  apply h.requests
  intro i
  simp only [Function.update_apply]
  by_cases hir : i = r
  · rw [if_pos hir, hir]
    split
    · rfl
    · rfl
  · rw [if_neg hir]

/-- The attempt to complete a request does not touch its `valid`. -/
theorem check_request_valid {data data' : mcapi_request_data} {found : Option (ℕ × CallStatus)}
    (h : check_request_have_lock data found = some data') : data'.valid = data.valid := by
  unfold check_request_have_lock at h
  split at h
  -- where `h` is no equation between two results, the case cannot arise
  all_goals first
    | rw [← Option.some.inj h]
    | cases h

/-- The call keeps the lists, and `array[-1]` is the only index outside `array`
it may touch. -/
structure Kept (db db' : mcapi_database) : Prop where
  lists : ∃ empty full, ListsOk db' empty full
  bounds : (∀ i ∈ db.request_reserves_header.touched, InArray i) →
    ∀ i ∈ db'.request_reserves_header.touched, InArray i

/-- The end of a test. -/
theorem finish_request_kept (h : ListsOk db empty full) (hin : InArray r)
    (hr : (db.requests r).valid = true) : Kept db (finish_request db r).1 := by
  rw [finish_request]
  split
  · have hmem : r ∈ full := (h.valids r hin).mpr hr
    exact ⟨⟨_, _, h.remove hmem _ rfl⟩, h.remove_bounds hmem⟩
  · exact ⟨⟨empty, full, h⟩, id⟩

/-- **A test.** -/
theorem test_i_kept (h : ListsOk db empty full) {request : ℕ}
    {found : Option (ℕ × CallStatus)} {db' : mcapi_database} {answer : TestAnswer}
    (hcall : mcapi_trans_test_i db request found = some (db', answer)) : Kept db db' := by
  have hsame : Kept db db := ⟨⟨empty, full, h⟩, id⟩
  rw [mcapi_trans_test_i] at hcall
  split at hcall
  · obtain ⟨rfl, -⟩ := Prod.mk.inj (Option.some.inj hcall)
    exact hsame
  · rename_i r hdecode
    have hin : InArray (r : ℤ) := by
      have hlt := (decode_request_handle_some hdecode).2
      rw [InArray]
      omega
    split at hcall
    · obtain ⟨rfl, -⟩ := Prod.mk.inj (Option.some.inj hcall)
      exact hsame
    rename_i hvalid
    have hvalid : (db.requests r).valid = true := by simpa using hvalid
    split at hcall
    · obtain ⟨rfl, -⟩ := Prod.mk.inj (Option.some.inj hcall)
      exact hsame
    split at hcall
    · have hdb : (finish_request db r).1 = db' := congrArg Prod.fst (Option.some.inj hcall)
      rw [← hdb]
      exact finish_request_kept h hin hvalid
    · split at hcall
      · cases hcall
      · rename_i data hdata
        have hdb : (finish_request ⟨db.request_reserves_header,
            Function.update db.requests r data⟩ r).1 = db' :=
          congrArg Prod.fst (Option.some.inj hcall)
        rw [← hdb]
        have hlists : ListsOk ⟨db.request_reserves_header,
            Function.update db.requests r data⟩ empty full := by
          apply h.requests
          intro i
          rw [Function.update_apply]
          split
          · rename_i hir
            rw [check_request_valid hdata, hir]
          · rfl
        have hvalid' : (Function.update db.requests r data r).valid = true := by
          rw [Function.update_self, check_request_valid hdata, hvalid]
        have hkept := finish_request_kept hlists hin hvalid'
        exact ⟨hkept.lists, hkept.bounds⟩

/-- **A reserve** stays inside `array` exactly if it does not take the last
available index. -/
theorem start_kept (h : ListsOk db empty full)
    (hbounds : ∀ i ∈ db.request_reserves_header.touched, InArray i)
    (handle : ℕ) (mcapi_status : CallStatus) (completed : Bool) (size : ℕ)
    (type : mcapi_request_type) (slot : Bool) :
    (∃ empty full,
      ListsOk (start db handle mcapi_status completed size type slot) empty full) ∧
    ((∀ i ∈ (start db handle mcapi_status completed size type
        slot).request_reserves_header.touched, InArray i) ↔
      goodCall db (.start handle mcapi_status completed size type slot)) := by
  rw [goodCall]
  cases empty with
  | nil =>
    have hhead : db.request_reserves_header.empty_head_index = -1 := h.empty_iff.mpr rfl
    have hnone : mcapi_trans_reserve_request_have_lock db = (none, db) :=
      if_neg (not_not.mpr hhead)
    rw [start, hnone]
    exact ⟨⟨[], full, h⟩, iff_of_true hbounds fun hne => absurd hhead hne⟩
  | cons r empty =>
    have hhead : db.request_reserves_header.empty_head_index = r := h.empties.chain.1
    have hne : r ≠ -1 := h.empties.chain.2.1
    obtain ⟨hres, hlists⟩ := h.reserve
    have htouched : (mcapi_trans_reserve_request_have_lock db).2.request_reserves_header =
        reserveLinks db.request_reserves_header := by
      rw [reserve_of_head hhead hne]
    rcases hdb : mcapi_trans_reserve_request_have_lock db with ⟨res, db₁⟩
    rw [hdb] at hres hlists htouched
    obtain rfl : res = some r := hres
    rw [start, hdb]
    refine ⟨⟨empty, r :: full, setup_request_lists hlists _ _ _ _ _ _ _⟩, ?_⟩
    have hheader : (setup_request_have_lock db₁ handle mcapi_status completed size type slot
        r).request_reserves_header = reserveLinks db.request_reserves_header := htouched
    simp only [hheader, hhead]
    have hrin : InArray r := (h.split r).mp (.inl List.mem_cons_self)
    refine ⟨fun hall _ hlast => ?_, fun hgood i hi => ?_⟩
    · have hin := hall (-1) ((reserveLinks_touched _).mpr
        (.inr (.inr (.inl (by rw [hhead, hlast])))))
      exact absurd hin.1 (by omega)
    · rcases (reserveLinks_touched _).mp hi with ⟨rfl, hfull⟩ | rfl | rfl | hmem
      · obtain ⟨l', hl'⟩ := h.fulls.head_mem hfull
        apply (h.split _).mp
        right
        rw [hl']
        exact List.mem_cons_self
      · rw [hhead]
        exact hrin
      · have hchain : Chain (-1) db.request_reserves_header.next
            db.request_reserves_header.prev (-1) _ ([] ++ r :: empty) := h.empties.chain
        rw [hhead]
        have hmem := hchain.next_mem.resolve_left (hgood hne)
        exact (h.split _).mp (.inl (List.mem_cons_of_mem _ hmem))
      · exact hbounds i hmem

/-- **A cancel** changes nothing unless the request waits; then the request is no
longer valid and still in the reserved list. -/
theorem cancel_cases (h : ListsOk db empty full) {request : ℕ} {db' : mcapi_database}
    {status : Option CallStatus} (hcall : mcapi_trans_cancel db request = some (db', status)) :
    (goodCall db (.cancel request) ∧ db' = db) ∨
    (¬ goodCall db (.cancel request) ∧ ¬ ∃ empty full, ListsOk db' empty full) := by
  rw [mcapi_trans_cancel] at hcall
  split at hcall
  · cases hcall
  · rename_i r hdecode
    have hgood : ∀ b : Bool, (db.requests r).outstanding = b →
        (goodCall db (.cancel request) ↔ b = false) := by
      intro b hb
      rw [goodCall]
      refine ⟨fun hall => hb ▸ hall r hdecode, fun hf r' hr' => ?_⟩
      rw [hdecode] at hr'
      rw [← Option.some.inj hr', hb, hf]
    split at hcall
    · rename_i hvalid
      obtain ⟨rfl, -⟩ := Prod.mk.inj (Option.some.inj hcall)
      left
      refine ⟨(hgood false ?_).mpr rfl, rfl⟩
      simp [mcapi_request_data.outstanding, hvalid]
    split at hcall
    · rename_i hcancelled
      obtain ⟨rfl, -⟩ := Prod.mk.inj (Option.some.inj hcall)
      left
      refine ⟨(hgood false ?_).mpr rfl, rfl⟩
      simp [mcapi_request_data.outstanding, hcancelled]
    rename_i hvalid hcancelled
    split at hcall
    · rename_i hcompleted
      have hvalid : (db.requests r).valid = true := by simpa using hvalid
      have hcleared : db' = ⟨db.request_reserves_header,
          Function.update db.requests r mcapi_request_data.zero⟩ := by
        split at hcall
        all_goals first
          | exact (congrArg Prod.fst (Option.some.inj hcall)).symm
          | cases hcall
      right
      refine ⟨?_, ?_⟩
      · rw [hgood true (by simp [mcapi_request_data.outstanding, hvalid, hcancelled,
          hcompleted])]
        exact Bool.noConfusion
      · rintro ⟨empty', full', h'⟩
        subst hcleared
        have hin : InArray (r : ℤ) := by
          have hlt := (decode_request_handle_some hdecode).2
          rw [InArray]
          omega
        have hsame : full' = full := h'.fulls.chain.unique h.fulls.chain
        have hmem : (r : ℤ) ∈ full' := by
          rw [hsame, h.valids r hin, hvalid]
        have hbad := (h'.valids r hin).mp hmem
        simp [mcapi_request_data.zero] at hbad
    · rename_i hcompleted
      obtain ⟨rfl, -⟩ := Prod.mk.inj (Option.some.inj hcall)
      left
      refine ⟨(hgood false ?_).mpr rfl, rfl⟩
      simp only [mcapi_request_data.outstanding]
      simp only [Bool.not_eq_false] at hcompleted
      rw [hcompleted]
      simp

end

/-! ## Runs -/

/-- What is kept is what is wanted: nothing that is available can be lost. -/
theorem requestsOk_iff (db : mcapi_database) :
    RequestsOk db ↔ (∃ empty full, ListsOk db empty full) ∧
      ∀ i ∈ db.request_reserves_header.touched, InArray i := by
  refine ⟨fun h => ⟨h.lists, h.bounds⟩, fun ⟨hlists, hbounds⟩ => ⟨hlists, hbounds, ?_⟩⟩
  obtain ⟨empty, full, h⟩ := hlists
  intro i hi hvalid
  exact h.reusable hi hvalid

theorem initialRequests_ok (header : indexed_array_header) :
    RequestsOk (initialRequests header) :=
  (requestsOk_iff _).mpr
    ⟨⟨_, _, initialRequests_lists header⟩, initialRequests_bounds header⟩

/-- **One call.** From a state that is right, a call leads to a state that is
right exactly if it is a good one. -/
theorem requestStep_ok_iff {db db' : mcapi_database} {a : RequestCall} (hok : RequestsOk db)
    (hstep : requestStep db a = some db') : RequestsOk db' ↔ goodCall db a := by
  obtain ⟨⟨empty, full, h⟩, hbounds⟩ := (requestsOk_iff db).mp hok
  rw [requestsOk_iff]
  cases a with
  | start handle mcapi_status completed size type slot =>
    obtain rfl := Option.some.inj hstep
    obtain ⟨hlists, hiff⟩ := start_kept h hbounds handle mcapi_status completed size type slot
    rw [← hiff]
    exact ⟨fun h => h.2, fun h => ⟨hlists, h⟩⟩
  | test_i request found =>
    obtain ⟨⟨db₁, answer⟩, hcall, rfl⟩ := Option.map_eq_some_iff.mp hstep
    have hkept := test_i_kept h hcall
    exact iff_of_true ⟨hkept.lists, hkept.bounds hbounds⟩ trivial
  | cancel request =>
    obtain ⟨⟨db₁, status⟩, hcall, rfl⟩ := Option.map_eq_some_iff.mp hstep
    rcases cancel_cases h hcall with ⟨hgood, rfl⟩ | ⟨hbad, hlists⟩
    · exact iff_of_true ⟨⟨empty, full, h⟩, hbounds⟩ hgood
    · exact iff_of_false (fun hc => hlists hc.1) hbad

/-- **The request lists.** In a run of good calls the lists are right in every
state, and the first call that is not good makes them wrong. -/
theorem request_lists_ok (header : indexed_array_header) (db : mcapi_database)
    (hrun : Run requestStep (fun db a _ => goodCall db a) (initialRequests header) db) :
    RequestsOk db ∧
      ∀ a db', requestStep db a = some db' → (RequestsOk db' ↔ goodCall db a) := by
  have hok : RequestsOk db := by
    refine hrun.invariant ?_ (initialRequests_ok header)
    intro s a t hs hstep hgood
    exact (requestStep_ok_iff hs hstep).mpr hgood
  exact ⟨hok, fun a db' => requestStep_ok_iff hok⟩

/-- A receive that waits is started on the initial lists. -/
def firstReceive : mcapi_database :=
  start (initialRequests ⟨fun _ => ⟨0, 0⟩, 0, 0, 0, 0, []⟩) 0 MCAPI_SUCCESS false 8 RECV true

theorem initialRequests_head (header : indexed_array_header) :
    (initialRequests header).request_reserves_header.empty_head_index = 0 ∧
    (initialRequests header).request_reserves_header.next 0 = 1 := by
  obtain ⟨hempty, -⟩ := init_header { header with touched := [] }
  have hzero : InArray 0 := by
    rw [InArray]
    norm_num [MCAPI_MAX_REQUESTS]
  have hnext := (init_links { header with touched := [] } hzero).1
  rw [if_neg (by norm_num [MCAPI_MAX_REQUESTS])] at hnext
  exact ⟨hempty, hnext⟩

theorem firstReceive_run : Run requestStep (fun db a _ => goodCall db a)
    (initialRequests ⟨fun _ => ⟨0, 0⟩, 0, 0, 0, 0, []⟩) firstReceive := by
  refine Run.single (a := .start 0 MCAPI_SUCCESS false 8 RECV true) rfl ?_
  obtain ⟨hempty, hnext⟩ := initialRequests_head ⟨fun _ => ⟨0, 0⟩, 0, 0, 0, 0, []⟩
  intro _
  rw [hempty, hnext]
  omega

theorem request_lists_ok_first : RequestsOk firstReceive :=
  (request_lists_ok _ firstReceive firstReceive_run).1

/-- The request of that receive. -/
theorem firstReceive_request :
    firstReceive.requests 0 = ⟨true, 8, RECV, false, false, 0, MCAPI_SUCCESS⟩ := by
  obtain ⟨hempty, -⟩ := initialRequests_head ⟨fun _ => ⟨0, 0⟩, 0, 0, 0, 0, []⟩
  have hreserve := reserve_of_head hempty (by omega)
  rw [firstReceive, start, hreserve]
  rfl

/-- Cancelling that receive clears its request and leaves its index in the
reserved list. -/
theorem cancelled_index_lost : ∃ db,
    Run requestStep (fun _ _ _ => True)
      (initialRequests ⟨fun _ => ⟨0, 0⟩, 0, 0, 0, 0, []⟩) db ∧ ¬ RequestsOk db := by
  have hdecode : mcapi_trans_decode_request_handle 0x80000000 = some 0 := by decide
  have hstep : requestStep firstReceive (.cancel 0x80000000) =
      some ⟨firstReceive.request_reserves_header,
        Function.update firstReceive.requests 0 mcapi_request_data.zero⟩ := by
    simp only [requestStep, mcapi_trans_cancel, hdecode, Nat.cast_zero, firstReceive_request]
    rfl
  have hok : RequestsOk firstReceive :=
    firstReceive_run.invariant
      (fun _ _ _ hs hmove hgood => (requestStep_ok_iff hs hmove).mpr hgood)
      (initialRequests_ok _)
  refine ⟨_, (firstReceive_run.mono fun _ _ _ _ => trivial).tail hstep trivial, ?_⟩
  intro hbad
  have hgood := (requestStep_ok_iff hok hstep).mp hbad
  have hwaits := hgood 0 hdecode
  simp only [Nat.cast_zero, firstReceive_request] at hwaits
  exact absurd hwaits (by decide)

end MxApi.Baseline
