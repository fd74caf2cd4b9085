/-
Doubly linked lists that are threaded through cells of a store by two link
fields, with a distinguished index `nil` for the end.

A store is a pair of functions `next prev : ι → ι`; several lists may live in one
store. [`DList nil next prev h l`] says that the list with head `h` consists of
exactly the cells `l`, in that order, and that every backward link agrees with
the forward ones. The three edits of such lists, in the form programs write them
(one assignment to a link at a time), each get one rule: put a cell in front
([`DList.push`]), take the first cell away ([`DList.pop`]), take any cell away
([`DList.unlink`]). What an edit does not touch is [`DList.frame`].
-/
import Mathlib.Logic.Function.Basic
import Mathlib.Data.List.Nodup

set_option autoImplicit false

namespace MxApi.Lib

variable {ι : Type*}

/-- The cells `l` are linked one behind the other, starting with `h`, and the
cell before the first one is `p`. -/
def Chain (nil : ι) (next prev : ι → ι) : ι → ι → List ι → Prop
  | _, h, [] => h = nil
  | p, h, a :: l => h = a ∧ a ≠ nil ∧ prev a = p ∧ Chain nil next prev a (next a) l

/-- The list with head `h` holds exactly the cells `l`. -/
structure DList (nil : ι) (next prev : ι → ι) (h : ι) (l : List ι) : Prop where
  chain : Chain nil next prev nil h l
  nodup : l.Nodup

variable {nil : ι} {next prev next' prev' : ι → ι} {p h r : ι} {l l₁ l₂ : List ι}

/-! ## What a chain says about its cells -/

theorem Chain.ne_nil : ∀ {l : List ι} {p h : ι}, Chain nil next prev p h l →
    ∀ i ∈ l, i ≠ nil
  | [], _, _, _, i, hi => by simp at hi
  | a :: l, p, h, hc, i, hi => by
    obtain ⟨-, ha, -, hrest⟩ := hc
    rw [List.mem_cons] at hi
    rcases hi with rfl | hi
    · exact ha
    · exact hrest.ne_nil i hi

/-- The links of other cells do not matter. -/
theorem Chain.frame : ∀ {l : List ι} {p h : ι}, Chain nil next prev p h l →
    (∀ i ∈ l, next' i = next i ∧ prev' i = prev i) → Chain nil next' prev' p h l
  | [], _, _, hc, _ => hc
  | a :: l, p, h, hc, hsame => by
    obtain ⟨rfl, ha, hp, hrest⟩ := hc
    have hself := hsame h List.mem_cons_self
    refine ⟨rfl, ha, by rw [hself.2, hp], ?_⟩
    rw [hself.1]
    exact hrest.frame fun i hi => hsame i (List.mem_cons_of_mem _ hi)

/-- The cell before `r` is the last one of the cells in front of it. -/
theorem Chain.prev_mem : ∀ {l₁ : List ι} {p h : ι}, Chain nil next prev p h (l₁ ++ r :: l₂) →
    (l₁ = [] ∧ prev r = p) ∨ prev r ∈ l₁
  | [], _, _, hc => .inl ⟨rfl, hc.2.2.1⟩
  | a :: l₁, p, h, hc => by
    have hrest : Chain nil next prev a (next a) (l₁ ++ r :: l₂) := hc.2.2.2
    right
    rcases Chain.prev_mem hrest with ⟨rfl, hprev⟩ | hmem
    · rw [hprev]
      exact List.mem_cons_self
    · exact List.mem_cons_of_mem _ hmem

/-- The cell behind `r` is the first one of the cells after it. -/
theorem Chain.next_mem : ∀ {l₁ : List ι} {p h : ι}, Chain nil next prev p h (l₁ ++ r :: l₂) →
    next r = nil ∨ next r ∈ l₂
  | [], _, _, hc => by
    cases l₂ with
    | nil => exact .inl hc.2.2.2
    | cons b l₂ =>
      right
      have hhead : next r = b := hc.2.2.2.1
      rw [hhead]
      exact List.mem_cons_self
  | a :: l₁, p, h, hc => by
    have hrest : Chain nil next prev a (next a) (l₁ ++ r :: l₂) := hc.2.2.2
    exact Chain.next_mem hrest

/-- A chain that starts with `r` has nothing in front of `r`. -/
theorem Chain.head_eq (hc : Chain nil next prev p r (l₁ ++ r :: l₂))
    (hnodup : (l₁ ++ r :: l₂).Nodup) : l₁ = [] := by
  cases l₁ with
  | nil => rfl
  | cons a l₁ =>
    have hra : r = a := hc.1
    rw [hra, List.cons_append, List.nodup_cons] at hnodup
    exact absurd (by simp) hnodup.1

theorem DList.nil_notMem (hd : DList nil next prev h l) : nil ∉ l :=
  fun hmem => hd.chain.ne_nil nil hmem rfl

theorem DList.frame (hd : DList nil next prev h l)
    (hsame : ∀ i ∈ l, next' i = next i ∧ prev' i = prev i) : DList nil next' prev' h l :=
  ⟨hd.chain.frame hsame, hd.nodup⟩

/-- No cell is its own successor. -/
theorem DList.next_ne (hd : DList nil next prev h l) (hr : r ∈ l) : next r ≠ r := by
  obtain ⟨l₁, l₂, rfl⟩ := List.append_of_mem hr
  intro heq
  rcases hd.chain.next_mem with hnil | hmem
  · exact hd.chain.ne_nil r hr (heq.symm.trans hnil)
  · rw [heq] at hmem
    have hnodup := (List.nodup_append.mp hd.nodup).2.1
    exact (List.nodup_cons.mp hnodup).1 hmem

/-- Only the empty list has the head `nil`. -/
theorem DList.eq_nil_iff (hd : DList nil next prev h l) : h = nil ↔ l = [] := by
  cases l with
  | nil => exact iff_of_true hd.chain rfl
  | cons a l =>
    refine iff_of_false ?_ (List.cons_ne_nil a l)
    rw [hd.chain.1]
    exact hd.chain.2.1

/-- The first cell of a list that is not empty. -/
theorem DList.head_mem (hd : DList nil next prev h l) (hne : h ≠ nil) :
    ∃ l', l = h :: l' := by
  cases l with
  | nil => exact absurd hd.chain hne
  | cons a l' => exact ⟨l', by rw [hd.chain.1]⟩

/-- The forward links and the head determine the cells. -/
theorem Chain.unique : ∀ {l₁ l₂ : List ι} {p p' h : ι}, Chain nil next prev p h l₁ →
    Chain nil next prev' p' h l₂ → l₁ = l₂
  | [], [], _, _, _, _, _ => rfl
  | [], _ :: _, _, _, _, h₁, h₂ => absurd (h₂.1.symm.trans h₁) h₂.2.1
  | _ :: _, [], _, _, _, h₁, h₂ => absurd (h₁.1.symm.trans h₂) h₁.2.1
  | a :: l₁, b :: l₂, _, _, _, h₁, h₂ => by
    obtain ⟨rfl, -, -, hrest₁⟩ := h₁
    obtain ⟨rfl, -, -, hrest₂⟩ := h₂
    rw [hrest₁.unique hrest₂]

/-! ## Taking a cell out of the middle -/

section

variable [DecidableEq ι]

/-- Forward links after `next[prev[r]] := next[r]`. -/
def unlinkNext (nil : ι) (next prev : ι → ι) (r : ι) : ι → ι :=
  if prev r ≠ nil then Function.update next (prev r) (next r) else next

/-- Backward links after `prev[next[r]] := prev[r]`. -/
def unlinkPrev (nil : ι) (next prev : ι → ι) (r : ι) : ι → ι :=
  if next r ≠ nil then Function.update prev (next r) (prev r) else prev

theorem unlinkNext_of_ne {i : ι} (hi : i ≠ prev r) :
    unlinkNext nil next prev r i = next i := by
  rw [unlinkNext]
  split
  · exact Function.update_of_ne hi _ _
  · rfl

theorem unlinkPrev_of_ne {i : ι} (hi : i ≠ next r) :
    unlinkPrev nil next prev r i = prev i := by
  rw [unlinkPrev]
  split
  · exact Function.update_of_ne hi _ _
  · rfl

/-- **Unlinking in a chain.** By induction on the cells in front of `r`; the
cell `p` before the chain must not be one of its own. -/
theorem Chain.unlink : ∀ {l₁ : List ι} {p h : ι}, Chain nil next prev p h (l₁ ++ r :: l₂) →
    (l₁ ++ r :: l₂).Nodup → p ∉ l₁ ++ r :: l₂ →
    Chain nil (unlinkNext nil next prev r) (unlinkPrev nil next prev r) p
      (if h = r then next r else h) (l₁ ++ l₂)
  | [], p, h, hc, hnodup, hp => by
    obtain ⟨rfl, hr, hprev, hrest⟩ := hc
    rw [List.nil_append] at hnodup hp
    rw [List.nil_append, if_pos rfl]
    have hfree : h ∉ l₂ := (List.nodup_cons.mp hnodup).1
    have hout : p ∉ l₂ := fun hmem => hp (List.mem_cons_of_mem _ hmem)
    cases l₂ with
    | nil => exact hrest
    | cons b l₂ =>
      obtain ⟨hb, hbnil, hbprev, hbrest⟩ := hrest
      rw [hb]
      have hbp : b ≠ prev h := by
        rw [hprev]
        rintro rfl
        exact hout List.mem_cons_self
      have hback : unlinkPrev nil next prev h b = p := by
        rw [unlinkPrev, hb, if_pos hbnil, Function.update_self, hprev]
      refine ⟨rfl, hbnil, hback, ?_⟩
      rw [unlinkNext_of_ne hbp]
      refine hbrest.frame fun i hi => ⟨unlinkNext_of_ne ?_, unlinkPrev_of_ne ?_⟩
      · rw [hprev]
        rintro rfl
        exact hout (List.mem_cons_of_mem _ hi)
      · rw [hb]
        rintro rfl
        exact (List.nodup_cons.mp (List.nodup_cons.mp hnodup).2).1 hi
  | a :: l₁, p, h, hc, hnodup, hp => by
    obtain ⟨rfl, ha, hprev, hrest⟩ := hc
    rw [List.cons_append, List.nodup_cons] at hnodup
    obtain ⟨hself, hnodup'⟩ := hnodup
    have hhr : h ≠ r := by
      rintro rfl
      exact hself (by simp)
    rw [if_neg hhr]
    -- the cell behind `r` is not the first one: it comes after `r`
    have hnext : h ≠ next r := by
      rcases Chain.next_mem hrest with hnil | hmem
      · rw [hnil]
        exact ha
      · intro heq
        rw [← heq] at hmem
        exact hself (by simp [hmem])
    have hback : unlinkPrev nil next prev r h = p := by
      rw [unlinkPrev_of_ne hnext, hprev]
    refine ⟨rfl, ha, hback, ?_⟩
    have ih := Chain.unlink hrest hnodup' hself
    -- the forward link of the first cell changes exactly if `r` comes next
    have hforward : unlinkNext nil next prev r h = if next h = r then next r else next h := by
      by_cases hr : next h = r
      · rw [if_pos hr]
        have hempty : l₁ = [] := by
          rw [hr] at hrest
          exact hrest.head_eq hnodup'
        subst hempty
        have hprevr : prev r = h := by
          rcases Chain.prev_mem hrest with ⟨-, heq⟩ | hmem
          · exact heq
          · simp at hmem
        rw [unlinkNext, hprevr, if_pos ha, Function.update_self]
      · rw [if_neg hr]
        apply unlinkNext_of_ne
        intro heq
        rcases Chain.prev_mem hrest with ⟨rfl, -⟩ | hmem
        · exact hr hrest.1
        · rw [← heq] at hmem
          exact hself (by simp [hmem])
    rw [hforward]
    exact ih

/-- **Taking the cell `r` out of its list.** -/
theorem DList.unlink (hd : DList nil next prev h l) (hr : r ∈ l) :
    DList nil (unlinkNext nil next prev r) (unlinkPrev nil next prev r)
      (if h = r then next r else h) (l.erase r) := by
  obtain ⟨l₁, l₂, -, hl, herase⟩ := List.exists_erase_eq hr
  have hchain := hd.chain
  have hnodup := hd.nodup
  have hnil := hd.nil_notMem
  rw [hl] at hchain hnodup hnil
  rw [herase]
  refine ⟨hchain.unlink hnodup hnil, ?_⟩
  rw [← herase]
  exact hd.nodup.erase r

/-- The cells next to `r` belong to the list of `r` or are `nil`. -/
theorem DList.neighbours (hd : DList nil next prev h l) (hr : r ∈ l) :
    (next r = nil ∨ next r ∈ l) ∧ (prev r = nil ∨ prev r ∈ l) := by
  obtain ⟨l₁, l₂, -, hl, -⟩ := List.exists_erase_eq hr
  have hchain := hd.chain
  rw [hl] at hchain
  refine ⟨?_, ?_⟩
  · rcases hchain.next_mem with hnil | hmem
    · exact .inl hnil
    · exact .inr (by rw [hl]; simp [hmem])
  · rcases hchain.prev_mem with ⟨-, hnil⟩ | hmem
    · exact .inl hnil
    · exact .inr (by rw [hl]; simp [hmem])

/-- Taking `r` out of its list leaves the cells of every other list alone. -/
theorem DList.unlink_frame (hd : DList nil next prev h l) (hr : r ∈ l) {i : ι} (hi : i ∉ l)
    (hne : i ≠ nil) : unlinkNext nil next prev r i = next i ∧
      unlinkPrev nil next prev r i = prev i := by
  obtain ⟨hnext, hprev⟩ := hd.neighbours hr
  refine ⟨unlinkNext_of_ne ?_, unlinkPrev_of_ne ?_⟩
  · rintro rfl
    rcases hprev with heq | hmem
    · exact hne heq
    · exact hi hmem
  · rintro rfl
    rcases hnext with heq | hmem
    · exact hne heq
    · exact hi hmem

/-! ## The front -/

/-- **Taking the first cell away.** The backward link of the new head is cleared;
at the end of the list that writes the cell `nil`, which belongs to no list. -/
theorem DList.pop (hd : DList nil next prev r (r :: l)) :
    DList nil next (Function.update prev (next r) nil) (next r) l := by
  have hnodup := List.nodup_cons.mp hd.nodup
  have hrest := hd.chain.2.2.2
  refine ⟨?_, hnodup.2⟩
  cases l with
  | nil => exact hrest
  | cons b l =>
    obtain ⟨hb, hbnil, -, hbrest⟩ := hrest
    refine ⟨hb, hbnil, by rw [← hb, Function.update_self], hbrest.frame fun i hi => ⟨rfl, ?_⟩⟩
    apply Function.update_of_ne
    rw [hb]
    rintro rfl
    exact (List.nodup_cons.mp hnodup.2).1 hi

/-- **Putting the cell `r` in front of a list.** -/
theorem DList.push (hd : DList nil next prev h l) (hr : r ∉ l) (hne : r ≠ nil) :
    DList nil (Function.update next r h)
      (if h ≠ nil then Function.update (Function.update prev r nil) h r
        else Function.update prev r nil) r (r :: l) := by
  refine ⟨⟨rfl, hne, ?_, ?_⟩, List.nodup_cons.mpr ⟨hr, hd.nodup⟩⟩
  · by_cases hh : h = nil
    · rw [if_neg (not_not.mpr hh), Function.update_self]
    · have hrh : r ≠ h := by
        rintro rfl
        obtain ⟨l', rfl⟩ := hd.head_mem hh
        exact hr List.mem_cons_self
      rw [if_pos hh, Function.update_of_ne hrh, Function.update_self]
  · rw [Function.update_self]
    cases l with
    | nil => exact hd.chain
    | cons a l =>
      obtain ⟨rfl, ha, -, hrest⟩ := hd.chain
      have hnodup := List.nodup_cons.mp hd.nodup
      have hrh : h ≠ r := by
        rintro rfl
        exact hr List.mem_cons_self
      rw [if_pos ha]
      refine ⟨rfl, ha, Function.update_self .., ?_⟩
      rw [Function.update_of_ne hrh]
      refine hrest.frame fun i hi => ?_
      have hir : i ≠ r := by
        rintro rfl
        exact hr (List.mem_cons_of_mem _ hi)
      have hih : i ≠ h := by
        rintro rfl
        exact hnodup.1 hi
      exact ⟨Function.update_of_ne hir _ _,
        by rw [Function.update_of_ne hih, Function.update_of_ne hir]⟩

end

end MxApi.Lib
