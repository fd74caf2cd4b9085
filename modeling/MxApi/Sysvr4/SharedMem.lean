/-
The life of a shared memory segment (`shmem_create`, `shmem_get` and `SharedMem::drop` in
`sysvr4/src/lib.rs`), for the values of one key in all processes.

The segment is found by a file link. A value maps the segment and is counted in it: it is counted
after it was created or opened, and when it is dropped the count goes down first. The drop that
finds itself the last opens the link once more, as the owner, and with that the link and the
segment are removed. Opening a segment and counting the value are two steps, and so are the last
decrement, opening the link again and the removal.

The library that maps the segments is taken to create the link exclusively, with a segment of
zeroes; to open the segment that the link names; and to remove link and segment when an owner is
dropped. With other calls between the steps of these, a value can be left with a segment whose link
is gone. In the runs where none comes between, the count is that of the live values and link and
segment go with the last one ([`shared_mem_ok`]).
-/
import MxApi.Lib.Run
import MxApi.Lib.Tally
import MxApi.Lib.Word

set_option autoImplicit false

namespace MxApi.SharedMem

open Lib

/-! ## Segments and values -/

/-- What the system has for the key: the segment that the link names, and the segments, with the
count that each one keeps. `next` was not used yet. -/
structure Shm where
  link : Option ℕ
  present : ℕ → Bool
  refcount : ℕ → ℕ
  next : ℕ

/-- Where a value stands. `last g` found itself the last one of segment `g`, and `owner g d` has
opened segment `d` again as the owner. -/
inductive Value
  | none
  | created (g : ℕ)
  | opened (g : ℕ)
  | live (g : ℕ)
  | last (g : ℕ)
  | owner (g d : ℕ)
  deriving DecidableEq, Repr

namespace Shm

variable (m : Shm)

/-- `ShmemConf::new().flink(flink).size(raw_size).create()` -/
def create : Option (Shm × ℕ) :=
  match m.link with
  | some _ => none
  | none =>
    some (⟨some m.next, Function.update m.present m.next true,
      Function.update m.refcount m.next 0, m.next + 1⟩, m.next)

/-- `ShmemConf::new().flink(flink).open()` -/
def open_ : Option ℕ :=
  match m.link with
  | none => none
  | some g => if m.present g then some g else none

/-- The drop of an owner of segment `g`. -/
def remove (g : ℕ) : Shm :=
  { m with link := none, present := Function.update m.present g false }

/-- `image.refcount.fetch_add(1, Ordering::SeqCst)` -/
def fetch_add (g : ℕ) : Shm :=
  { m with refcount := Function.update m.refcount g (u32 (m.refcount g + 1)) }

/-- `image.refcount.fetch_sub(1, Ordering::SeqCst)` -/
def fetch_sub (g : ℕ) : Shm :=
  { m with refcount := Function.update m.refcount g (subU32 (m.refcount g) 1) }

end Shm

/-! ## The calls -/

variable {υ : Type}

structure St (υ : Type) where
  shm : Shm
  value : υ → Value

def St.set [DecidableEq υ] (s : St υ) (m : Shm) (v : υ) (x : Value) : St υ :=
  ⟨m, Function.update s.value v x⟩

inductive Call (υ : Type)
  | shmem_create (v : υ)
  | shmem_get (v : υ)
  | drop (v : υ)
  | step (v : υ)
  deriving DecidableEq, Repr

/-- The first steps of the calls, and the next step of a call that is under way. -/
def step [DecidableEq υ] (s : St υ) : Call υ → Option (St υ)
  | .shmem_create v =>
    match s.value v with
    | .none =>
      match s.shm.create with
      | none => some s
      | some (m, g) => some (s.set m v (.created g))
    | _ => none
  | .shmem_get v =>
    match s.value v with
    | .none =>
      match s.shm.open_ with
      | none => some s
      | some g => some (s.set s.shm v (.opened g))
    | _ => none
  | .drop v =>
    match s.value v with
    | .live g =>
      -- decrement the reference count
      some (s.set (s.shm.fetch_sub g) v (if s.shm.refcount g ≤ 1 then .last g else .none))
    | _ => none
  | .step v =>
    match s.value v with
    | .created g | .opened g => some (s.set (s.shm.fetch_add g) v (.live g))
    | .last g =>
      -- connect to shared memory with ownership to release resources
      match s.shm.open_ with
      | none => some (s.set s.shm v .none)
      | some d => some (s.set s.shm v (.owner g d))
    | .owner _ d => some (s.set (s.shm.remove d) v .none)
    | _ => none

def init : St υ := ⟨⟨none, fun _ => false, fun _ => 0, 0⟩, fun _ => .none⟩

/-! ## The property -/

/-- The value maps the segment, and the segment is not to be removed without it. -/
def Value.uses (g : ℕ) : Value → Prop
  | .created h | .live h | .last h | .owner h _ => h = g
  | .none | .opened _ => False

/-- The last value is dropped and the segment about to be removed. -/
def Value.removing : Value → Prop
  | .last _ | .owner _ _ => True
  | _ => False

structure ShmOk (s : St υ) : Prop where
  /-- The count of the segment is that of the live values. -/
  refcount : ∀ g, s.shm.link = some g → Tally (fun v => s.value v = .live g) (s.shm.refcount g)
  /-- A live value maps the segment that the link names. -/
  linked : ∀ v g, s.value v = .live g → s.shm.link = some g
  /-- The link and the segment are there together. -/
  present : ∀ g, s.shm.present g = true ↔ s.shm.link = some g
  /-- The segment is not there longer than values that use it. -/
  used : ∀ g, s.shm.link = some g → ∃ v, (s.value v).uses g
  /-- It is removed after the last live value only. -/
  last : ∀ v, (s.value v).removing → ∀ v' g, s.value v' ≠ .live g

/-- The segment that a value maps. -/
def Value.segment : Value → Option ℕ
  | .none => .none
  | .created g | .opened g | .live g | .last g | .owner g _ => some g

/-- The value is not counted yet. -/
def Value.uncounted (g : ℕ) : Value → Prop
  | .created h | .opened h => h = g
  | _ => False

/-- A segment that is about to be removed is not opened; the last live value is not dropped while
another one is about to be counted; and the count has room. -/
def good (s : St υ) : Call υ → Prop
  | .shmem_create _ => True
  | .shmem_get _ => s.shm.link = none ∨ ∀ v, ¬ (s.value v).removing
  | .drop v => ∀ g ∈ (s.value v).segment, s.value v = .live g →
    1 < s.shm.refcount g ∨ ∀ v', ¬ (s.value v').uncounted g
  | .step v => ∀ g ∈ (s.value v).segment, (s.value v).uncounted g → s.shm.refcount g + 1 < 2 ^ 32

instance : ∀ x : Value, Decidable x.removing
  | .last _ | .owner _ _ => .isTrue trivial
  | .none | .created _ | .opened _ | .live _ => .isFalse id

instance (g : ℕ) : ∀ x : Value, Decidable (x.uncounted g)
  | .created h | .opened h => inferInstanceAs (Decidable (h = g))
  | .none | .live _ | .last _ | .owner _ _ => .isFalse id

instance [Fintype υ] (s : St υ) : ∀ call : Call υ, Decidable (good s call)
  | .shmem_create _ => .isTrue trivial
  | .shmem_get _ => inferInstanceAs (Decidable (_ ∨ ∀ v, ¬ (s.value v).removing))
  | .drop v => inferInstanceAs (Decidable (∀ g ∈ (s.value v).segment, _ → _ ∨ ∀ _, ¬ _))
  | .step v => inferInstanceAs (Decidable (∀ g ∈ (s.value v).segment, _ → _))

/-! ## What a step preserves -/

structure Inv (s : St υ) : Prop where
  linked : ∀ v g, (s.value v).segment = some g → s.shm.link = some g
  owner : ∀ v g d, s.value v = .owner g d → d = g
  present : ∀ g, s.shm.present g = true ↔ s.shm.link = some g
  fresh : ∀ g, s.shm.link = some g → g < s.shm.next
  bounded : ∀ g, s.shm.refcount g < 2 ^ 32
  refcount : ∀ g, s.shm.link = some g → Tally (fun v => s.value v = .live g) (s.shm.refcount g)
  used : ∀ g, s.shm.link = some g → ∃ v, (s.value v).uses g
  alone : ∀ v, (s.value v).removing → ∀ v', s.value v' ≠ .none → v' = v

theorem Inv.ok {s : St υ} (hs : Inv s) : ShmOk s := by
  refine ⟨hs.refcount, fun v g hv => hs.linked v g (by rw [hv]; rfl), hs.present, hs.used, ?_⟩
  intro v hv v' g hv'
  have hsame := hs.alone v hv v' (by rw [hv']; exact fun hc => by cases hc)
  rw [hsame] at hv'
  rw [hv'] at hv
  exact hv

theorem init_inv : Inv (init : St υ) := by
  refine ⟨?_, ?_, ?_, ?_, fun g => by norm_num [init], ?_, ?_, ?_⟩
  · intro v g h
    cases h
  · intro v g d h
    cases h
  · intro g
    simp [init]
  · intro g h
    cases h
  · intro g h
    cases h
  · intro g h
    cases h
  · intro v h
    exact h.elim

section Steps

variable {s : St υ} {v : υ} {g : ℕ}

/-- The link is there while somebody maps a segment. -/
theorem Inv.open_eq (hs : Inv s) : s.shm.open_ = s.shm.link := by
  unfold Shm.open_
  cases hlink : s.shm.link with
  | none => rfl
  | some g =>
    dsimp only
    rw [if_pos ((hs.present g).mpr hlink)]

variable [DecidableEq υ]

theorem set_value (m : Shm) (v : υ) (x : Value) (v' : υ) :
    (s.set m v x).value v' = if v' = v then x else s.value v' := by
  unfold St.set
  exact Function.update_apply ..

/-- A new segment has one value, which is not counted yet. -/
theorem Inv.shmem_create (hs : Inv s) (v : υ) (hlink : s.shm.link = none) :
    Inv (s.set ⟨some s.shm.next, Function.update s.shm.present s.shm.next true,
      Function.update s.shm.refcount s.shm.next 0, s.shm.next + 1⟩ v (.created s.shm.next)) := by
  have hnobody : ∀ v', s.value v' = .none := by
    intro v'
    cases hx : s.value v' with
    | none => rfl
    | _ =>
      have hc := hs.linked v' _ (by rw [hx]; rfl)
      rw [hlink] at hc
      cases hc
  have hvalue : ∀ v', (s.set ⟨some s.shm.next, Function.update s.shm.present s.shm.next true,
      Function.update s.shm.refcount s.shm.next 0, s.shm.next + 1⟩ v
      (.created s.shm.next)).value v' = if v' = v then .created s.shm.next else .none := by
    intro v'
    rw [set_value, hnobody v']
  refine ⟨?_, ?_, ?_, ?_, ?_, ?_, ?_, ?_⟩
  · intro v' g hg
    rw [hvalue] at hg
    split at hg
    · exact hg
    · cases hg
  · intro v' g d hg
    rw [hvalue] at hg
    split at hg
    · cases hg
    · cases hg
  · intro g
    simp only [St.set]
    by_cases hg : g = s.shm.next
    · rw [hg, Function.update_self]
      exact ⟨fun _ => rfl, fun _ => rfl⟩
    · rw [Function.update_of_ne hg, hs.present, hlink]
      constructor
      · intro hc
        cases hc
      · intro hc
        exact absurd (Option.some.inj hc).symm hg
  · intro g hg
    obtain rfl := Option.some.inj hg
    exact Nat.lt_succ_self _
  · intro g
    simp only [St.set]
    by_cases hg : g = s.shm.next
    · rw [hg, Function.update_self]
      norm_num
    · rw [Function.update_of_ne hg]
      exact hs.bounded g
  · intro g hg
    obtain rfl := Option.some.inj hg
    simp only [St.set, Function.update_self]
    apply Tally.none
    intro v' hc
    have := hvalue v'
    simp only [St.set] at this
    rw [this] at hc
    split at hc
    · cases hc
    · cases hc
  · intro g hg
    obtain rfl := Option.some.inj hg
    refine ⟨v, ?_⟩
    rw [hvalue, if_pos rfl]
    exact rfl
  · intro v' hr
    rw [hvalue] at hr
    split at hr
    · exact hr.elim
    · exact hr.elim

/-- A segment that is opened has another value. -/
theorem Inv.shmem_get (hs : Inv s) (hv : s.value v = .none) (hlink : s.shm.link = some g)
    (hgood : ∀ v, ¬ (s.value v).removing) : Inv (s.set s.shm v (.opened g)) := by
  refine ⟨?_, ?_, hs.present, hs.fresh, hs.bounded, ?_, ?_, ?_⟩
  · intro v' g' hg
    rw [set_value] at hg
    split at hg
    · exact hlink.trans hg
    · exact hs.linked v' g' hg
  · intro v' g' d hg
    rw [set_value] at hg
    split at hg
    · cases hg
    · exact hs.owner v' g' d hg
  · intro g' hg
    refine (hs.refcount g' hg).congr fun v' => ?_
    rw [set_value]
    split
    · rename_i hsame
      rw [hsame, hv]
      exact ⟨fun hc => (by cases hc), fun hc => (by cases hc)⟩
    · exact Iff.rfl
  · intro g' hg
    obtain ⟨v', hv'⟩ := hs.used g' hg
    refine ⟨v', ?_⟩
    rw [set_value, if_neg]
    · exact hv'
    · rintro rfl
      rw [hv] at hv'
      exact hv'
  · intro v' hr
    rw [set_value] at hr
    split at hr
    · exact hr.elim
    · exact absurd hr (hgood v')

/-- A value is counted. -/
theorem Inv.count (hs : Inv s) (hv : (s.value v).uncounted g)
    (hroom : s.shm.refcount g + 1 < 2 ^ 32) :
    Inv (s.set (s.shm.fetch_add g) v (.live g)) := by
  have hsegment : (s.value v).segment = some g := by
    cases hx : s.value v with
    | created h =>
      rw [hx] at hv
      exact congrArg some hv
    | opened h =>
      rw [hx] at hv
      exact congrArg some hv
    | _ =>
      rw [hx] at hv
      exact hv.elim
  have hlink := hs.linked v g hsegment
  have hnone : s.value v ≠ .none := by
    intro hc
    rw [hc] at hsegment
    cases hsegment
  have hstay : ∀ v', ¬ (s.value v').removing := by
    intro v' hr
    have hsame := hs.alone v' hr v hnone
    rw [← hsame] at hr
    cases hx : s.value v with
    | last h =>
      rw [hx] at hv
      exact hv
    | owner h d =>
      rw [hx] at hv
      exact hv
    | _ =>
      rw [hx] at hr
      exact hr
  refine ⟨?_, ?_, hs.present, hs.fresh, ?_, ?_, ?_, ?_⟩
  · intro v' g' hg
    rw [set_value] at hg
    split at hg
    · exact hlink.trans hg
    · exact hs.linked v' g' hg
  · intro v' g' d hg
    rw [set_value] at hg
    split at hg
    · cases hg
    · exact hs.owner v' g' d hg
  · intro g'
    simp only [St.set, Shm.fetch_add]
    by_cases hg : g' = g
    · rw [hg, Function.update_self]
      exact u32_lt _
    · rw [Function.update_of_ne hg]
      exact hs.bounded g'
  · intro g' hg
    obtain rfl : g = g' := Option.some.inj (hlink.symm.trans hg)
    have hcount : (s.set (s.shm.fetch_add g) v (.live g)).shm.refcount g =
        s.shm.refcount g + 1 := by
      simp only [St.set, Shm.fetch_add, Function.update_self]
      exact Nat.mod_eq_of_lt hroom
    rw [hcount]
    apply (hs.refcount g hg).enter (o := v)
    · intro hc
      rw [hc] at hv
      exact hv
    · rw [set_value, if_pos rfl]
    · intro v' hne
      rw [set_value, if_neg hne]
  · intro g' hg
    obtain rfl : g = g' := Option.some.inj (hlink.symm.trans hg)
    refine ⟨v, ?_⟩
    rw [set_value, if_pos rfl]
    exact rfl
  · intro v' hr
    rw [set_value] at hr
    split at hr
    · exact hr.elim
    · exact absurd hr (hstay v')

/-- A live value is dropped. -/
theorem Inv.drop (hs : Inv s) (hv : s.value v = .live g)
    (hgood : 1 < s.shm.refcount g ∨ ∀ v', ¬ (s.value v').uncounted g) :
    Inv (s.set (s.shm.fetch_sub g) v (if s.shm.refcount g ≤ 1 then .last g else .none)) := by
  have hlink := hs.linked v g (by rw [hv]; rfl)
  have hstay : ∀ v', ¬ (s.value v').removing := by
    intro v' hr
    have hsame := hs.alone v' hr v (by rw [hv]; exact fun hc => by cases hc)
    rw [← hsame, hv] at hr
    exact hr
  obtain ⟨n, hn, hcount⟩ : ∃ n, s.shm.refcount g = n + 1 ∧
      Tally (fun v' => (s.set (s.shm.fetch_sub g) v
        (if s.shm.refcount g ≤ 1 then .last g else .none)).value v' = .live g) n := by
    apply (hs.refcount g hlink).leave (o := v) hv
    · rw [set_value, if_pos rfl]
      split
      · exact fun hc => by cases hc
      · exact fun hc => by cases hc
    · intro v' hne
      rw [set_value, if_neg hne]
  refine ⟨?_, ?_, hs.present, hs.fresh, ?_, ?_, ?_, ?_⟩
  · intro v' g' hg
    rw [set_value] at hg
    split at hg
    · split at hg
      · exact hlink.trans hg
      · cases hg
    · exact hs.linked v' g' hg
  · intro v' g' d hg
    rw [set_value] at hg
    split at hg
    · split at hg
      · cases hg
      · cases hg
    · exact hs.owner v' g' d hg
  · intro g'
    simp only [St.set, Shm.fetch_sub]
    by_cases hg : g' = g
    · rw [hg, Function.update_self]
      exact Nat.mod_lt _ (by norm_num)
    · rw [Function.update_of_ne hg]
      exact hs.bounded g'
  · intro g' hg
    obtain rfl : g = g' := Option.some.inj (hlink.symm.trans hg)
    have hless : (s.set (s.shm.fetch_sub g) v
        (if s.shm.refcount g ≤ 1 then .last g else .none)).shm.refcount g = n := by
      simp only [St.set, Shm.fetch_sub, Function.update_self]
      rw [subU32_of_le (hs.bounded g) (by omega), hn]
      rfl
    rw [hless]
    exact hcount
  · intro g' hg
    obtain rfl : g = g' := Option.some.inj (hlink.symm.trans hg)
    by_cases hlast : s.shm.refcount g ≤ 1
    · refine ⟨v, ?_⟩
      rw [set_value, if_pos rfl, if_pos hlast]
      exact rfl
    · -- somebody else is counted
      have hsome : ∃ v', (s.set (s.shm.fetch_sub g) v
          (if s.shm.refcount g ≤ 1 then .last g else .none)).value v' = .live g := by
        by_contra hnone
        have hzero := hcount.eq_zero fun v' hc => hnone ⟨v', hc⟩
        omega
      obtain ⟨v', hv'⟩ := hsome
      refine ⟨v', ?_⟩
      rw [hv']
      exact rfl
  · intro v' hr v'' hne
    rw [set_value] at hr
    by_cases hself : v' = v
    · rw [if_pos hself] at hr
      by_cases hlast : s.shm.refcount g ≤ 1
      · by_contra hother
        rw [set_value, if_neg (by rw [← hself]; exact hother)] at hne
        have hnocount : ∀ v', ¬ (s.value v').uncounted g := by
          rcases hgood with hmore | hnocount
          · omega
          · exact hnocount
        cases hx : s.value v'' with
        | none => exact hne hx
        | created h =>
          have hh := hs.linked v'' h (by rw [hx]; rfl)
          apply hnocount v''
          rw [hx]
          exact Option.some.inj (hh.symm.trans hlink)
        | opened h =>
          have hh := hs.linked v'' h (by rw [hx]; rfl)
          apply hnocount v''
          rw [hx]
          exact Option.some.inj (hh.symm.trans hlink)
        | live h =>
          have hh := hs.linked v'' h (by rw [hx]; rfl)
          obtain rfl : h = g := Option.some.inj (hh.symm.trans hlink)
          have hpos := hcount.ne_zero (o := v'') (by
            rw [set_value, if_neg (by rw [← hself]; exact hother)]
            exact hx)
          omega
        | last h => exact hstay v'' (by rw [hx]; trivial)
        | owner h d => exact hstay v'' (by rw [hx]; trivial)
      · rw [if_neg hlast] at hr
        exact hr.elim
    · rw [if_neg hself] at hr
      exact absurd hr (hstay v')

/-- The last value opens the link again. -/
theorem Inv.reopen (hs : Inv s) (hv : s.value v = .last g) :
    Inv (s.set s.shm v (.owner g g)) := by
  have hlink := hs.linked v g (by rw [hv]; rfl)
  have halone := hs.alone v (by rw [hv]; trivial)
  refine ⟨?_, ?_, hs.present, hs.fresh, hs.bounded, ?_, ?_, ?_⟩
  · intro v' g' hg
    rw [set_value] at hg
    split at hg
    · exact hlink.trans hg
    · exact hs.linked v' g' hg
  · intro v' g' d hg
    rw [set_value] at hg
    split at hg
    · obtain ⟨rfl, rfl⟩ := Value.owner.inj hg
      rfl
    · exact hs.owner v' g' d hg
  · intro g' hg
    refine (hs.refcount g' hg).congr fun v' => ?_
    rw [set_value]
    split
    · rename_i hsame
      rw [hsame, hv]
      exact ⟨fun hc => (by cases hc), fun hc => (by cases hc)⟩
    · exact Iff.rfl
  · intro g' hg
    obtain rfl : g = g' := Option.some.inj (hlink.symm.trans hg)
    refine ⟨v, ?_⟩
    rw [set_value, if_pos rfl]
    exact rfl
  · intro v' hr v'' hne
    have hmine : ∀ w, (s.set s.shm v (.owner g g)).value w ≠ .none → w = v := by
      intro w hw
      rw [set_value] at hw
      split at hw
      · assumption
      · exact halone w hw
    have hv' : v' = v := by
      apply hmine
      intro hc
      rw [hc] at hr
      exact hr
    rw [hv']
    exact hmine v'' hne

/-- The owner takes link and segment away, and nobody else has a value. -/
theorem Inv.remove (hs : Inv s) (hv : s.value v = .owner g g) :
    Inv (s.set (s.shm.remove g) v .none) := by
  have hlink := hs.linked v g (by rw [hv]; rfl)
  have halone := hs.alone v (by rw [hv]; trivial)
  have hnobody : ∀ w, (s.set (s.shm.remove g) v .none).value w = .none := by
    intro w
    rw [set_value]
    split
    · rfl
    · rename_i hne
      by_contra hw
      exact hne (halone w hw)
  refine ⟨?_, ?_, ?_, ?_, hs.bounded, ?_, ?_, ?_⟩
  · intro v' g' hg
    rw [hnobody] at hg
    cases hg
  · intro v' g' d hg
    rw [hnobody] at hg
    cases hg
  · intro g'
    simp only [St.set, Shm.remove]
    by_cases hg : g' = g
    · rw [hg, Function.update_self]
      exact ⟨fun hc => (by cases hc), fun hc => (by cases hc)⟩
    · rw [Function.update_of_ne hg, hs.present, hlink]
      constructor
      · intro hc
        exact absurd (Option.some.inj hc).symm hg
      · intro hc
        cases hc
  · intro g' hg
    cases hg
  · intro g' hg
    cases hg
  · intro g' hg
    cases hg
  · intro v' hr
    rw [hnobody] at hr
    exact hr.elim

/-- **One step** of one call. -/
theorem Inv.step {s' : St υ} {call : Call υ} (hs : Inv s) (hstep : step s call = some s')
    (hgood : good s call) : Inv s' := by
  cases call with
  | shmem_create v =>
    simp only [SharedMem.step] at hstep
    split at hstep
    · unfold Shm.create at hstep
      cases hlink : s.shm.link with
      | none =>
        rw [hlink] at hstep
        cases hstep
        exact hs.shmem_create v hlink
      | some g =>
        rw [hlink] at hstep
        cases hstep
        exact hs
    · cases hstep
  | shmem_get v =>
    simp only [SharedMem.step, hs.open_eq] at hstep
    split at hstep
    · rename_i hv
      cases hlink : s.shm.link with
      | none =>
        rw [hlink] at hstep
        cases hstep
        exact hs
      | some g =>
        rw [hlink] at hstep
        cases hstep
        refine hs.shmem_get hv hlink (hgood.resolve_left ?_)
        rw [hlink]
        exact fun hc => by cases hc
    · cases hstep
  | drop v =>
    simp only [SharedMem.step] at hstep
    split at hstep
    · rename_i g hv
      cases hstep
      exact hs.drop hv (hgood g (by rw [hv]; rfl) hv)
    · cases hstep
  | step v =>
    have hroom : ∀ g ∈ (s.value v).segment, (s.value v).uncounted g →
        s.shm.refcount g + 1 < 2 ^ 32 := hgood
    simp only [SharedMem.step, hs.open_eq] at hstep
    split at hstep
    · rename_i g hv
      cases hstep
      have huncounted : (s.value v).uncounted g := by
        rw [hv]
        exact rfl
      exact hs.count huncounted (hroom g (by rw [hv]; rfl) huncounted)
    · rename_i g hv
      cases hstep
      have huncounted : (s.value v).uncounted g := by
        rw [hv]
        exact rfl
      exact hs.count huncounted (hroom g (by rw [hv]; rfl) huncounted)
    · rename_i g hv
      rw [hs.linked v g (by rw [hv]; rfl)] at hstep
      cases hstep
      exact hs.reopen hv
    · rename_i g d hv
      cases hstep
      obtain rfl := hs.owner v g d hv
      exact hs.remove hv
    · cases hstep

end Steps

/-! ## Runs -/

/-- **The life of a segment.** In every run in which no segment is opened that is about to be
removed, and none is about to be counted in a segment whose last live value is dropped, the count
is that of the live values, each maps the segment that the link names, and link and segment go
with the last of them. -/
theorem shared_mem_ok [DecidableEq υ] (s : St υ)
    (hrun : Run step (fun s call _ => good s call) init s) : ShmOk s :=
  (hrun.invariant (fun _ _ _ hs hstep hgood => hs.step hstep hgood) init_inv).ok

/-- A segment is created, opened by another process and dropped by both. -/
theorem shared_mem_ok_two : ∃ s : St Bool, (s.shm.next = 1 ∧ s.shm.link = none) ∧ ShmOk s := by
  have hexec : (exec step (fun s call _ => decide (good s call)) (init : St Bool)
      [.shmem_create false, .step false, .shmem_get true, .step true, .drop false, .drop true,
        .step true, .step true]).any
          (fun s => decide (s.shm.next = 1 ∧ s.shm.link = none)) = true := by
    decide
  obtain ⟨s, hrun, hs⟩ := exec_run_of_any hexec
  refine ⟨s, of_decide_eq_true hs, ?_⟩
  exact shared_mem_ok s (hrun.mono fun _ _ _ hg => of_decide_eq_true hg)

/-- A segment is opened after its last live value was dropped and before it is removed. The new
value is left with a segment whose link is gone. -/
theorem opened_segment_removed : ∃ s : St Bool,
    Run step (fun _ _ _ => True) init s ∧ ¬ ShmOk s := by
  have hexec : (exec step (fun _ _ _ => true) (init : St Bool)
      [.shmem_create false, .step false, .drop false, .shmem_get true, .step true, .step false,
        .step false]).any
          (fun s => decide (s.value true = .live 0 ∧ s.shm.link = none)) = true := by
    decide
  obtain ⟨s, hrun, hs⟩ := exec_run_of_any hexec
  refine ⟨s, hrun.mono fun _ _ _ _ => trivial, fun hok => ?_⟩
  obtain ⟨hlive, hnone⟩ := of_decide_eq_true hs
  have hlink := hok.linked true 0 hlive
  rw [hnone] at hlink
  cases hlink

end MxApi.SharedMem
