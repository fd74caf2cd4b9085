/-
The counts of locks and of shared memory.

A count and the lists of the nodes are written together by every call on an object, so that
they agree ([`Referenced`]), except in two ways: an entry is taken while nodes still have its
last occupant in their lists; and a finalize clears the lists of its node before it reads them,
so that it releases nothing. What it does release is shared memory that nobody is attached to.
-/
import MxApi.Mrapi.ObjectUsers

set_option autoImplicit false

namespace MxApi.NodeTable

open Lib
open LockTable (Node MRAPI_MAX_DOMAINS MRAPI_MAX_NODES MRAPI_MAX_SEMS MRAPI_SEM_ID_ANY
  mrapi_impl_decode_hndl)

/-! ## The contract -/

/-- What a finalize does to an object: the count drops if its node was a user, and the object is
released with its last user. Of another one nothing changes while there is a node left. -/
structure Drops (uses left : Prop) (refs refs' : ℕ) (kept released : Prop) : Prop where
  used : uses → refs = refs' + 1 ∧ (refs' ≠ 0 → kept) ∧ (refs' = 0 → released)
  unused : ¬ uses → refs' = refs ∧ (left → kept)

/-- A registered thread is left. -/
def Sys.SomeLeft (x : Sys) : Prop := ∃ j, (x.thread j).isSome = true

instance (x : Sys) : Decidable x.SomeLeft :=
  inferInstanceAs (Decidable (∃ j, (x.thread j).isSome = true))

/-- A lock that has just been created is used by its creator only, and shared memory by
nobody. -/
structure NewObjects (x : Sys) (i : Node) (x' : Sys) : Prop where
  sems : ∀ s, (x.w.db.sems s).valid = false → (x'.w.db.sems s).valid = true →
    ∀ j, x'.UsesSem s j ↔ j = i
  shmems : ∀ s, (x.w.db.shmems s).valid = false → (x'.w.db.shmems s).valid = true →
    ∀ j, ¬ x'.UsesShmem s j

/-! ## The condition -/

/-- What a call of node `i` has to meet: the entry that a create takes is in no list. -/
def EntryMeets (x : Sys) (i : Node) : Call → Prop
  | .sem_create key _ _ => key = MRAPI_SEM_ID_ANY ∨ x.w.db.existingSem key = none →
      ∀ s ∈ x.w.db.unusedSem, ∀ j, j ≠ i → ¬ x.UsesSem s j
  | .shmem_create key created => created = true → x.w.db.num_shmems ≠ MRAPI_MAX_SHMEMS →
      x.w.db.keyedShmem key = none → ∀ s ∈ x.w.db.unusedShmem, ∀ j, ¬ x.UsesShmem s j
  | _ => True

/-- What a finalize of node `i` has to meet: the node uses no shared memory, and no lock unless it
is the last node; and if it is not, all shared memory is in use. -/
def LeaveMeets (x : Sys) (i : Node) : Prop :=
  (∀ s, s < MRAPI_MAX_SHMEMS → (x.w.db.shmems s).valid = true → ¬ x.UsesShmem s i) ∧
    ((∃ j, j ≠ i ∧ (x.thread j).isSome = true) →
      (∀ s, s < MRAPI_MAX_SEMS → (x.w.db.sems s).valid = true → ¬ x.UsesSem s i) ∧
      ∀ s, s < MRAPI_MAX_SHMEMS → (x.w.db.shmems s).valid = true → (x.w.db.shmems s).refs ≠ 0)

instance (x : Sys) (i : Node) : DecidablePred (EntryMeets x i) := by
  intro call
  unfold EntryMeets
  split <;> infer_instance

instance (x : Sys) (i : Node) : Decidable (LeaveMeets x i) :=
  inferInstanceAs (Decidable (_ ∧ _))

/-! ## The invariant -/

structure Referenced (x : Sys) : Prop where
  registry : Registry x
  clear : x.Clear
  shmem_lt : ∀ s, (x.w.db.shmems s).valid = true → s < MRAPI_MAX_SHMEMS
  sem_lt : ∀ s, (x.w.db.sems s).valid = true → s < MRAPI_MAX_SEMS
  shmems : ∀ s, (x.w.db.shmems s).valid = true →
    Tally (x.UsesShmem s) (x.w.db.shmems s).refs
  sems : ∀ s, (x.w.db.sems s).valid = true → Tally (x.UsesSem s) (x.w.db.sems s).refs
  segment : ∀ s, (x.w.db.shmems s).valid = true → x.w.segment s = true

theorem Referenced.initial : Referenced Sys.initial where
  registry := .initial
  clear := .initial
  shmem_lt := fun _ h => nomatch h
  sem_lt := fun _ h => nomatch h
  shmems := fun _ h => nomatch h
  sems := fun _ h => nomatch h
  segment := fun _ h => nomatch h

variable {x x' : Sys} {i : Node} {c : Thread} {w₁ w' : World} {call : Call}

/-! ## The calls on objects -/

/-- Shared memory over one call: the entry is in the table and its segment exists, and the count
is that of the users. -/
theorem Referenced.used_shmem (h : Referenced x) (hi : x.thread i = some c)
    (hmeets : EntryMeets x i call) (hu : Used x.w i c call w') (s : ℕ)
    (hv : (w'.db.shmems s).valid = true) :
    s < MRAPI_MAX_SHMEMS ∧ w'.segment s = true ∧
      Tally (Sys.UsesShmem { x with w := w' } s) (w'.db.shmems s).refs := by
  -- a call that does not concern the entry
  have hbeside : w'.db.shmems s = x.w.db.shmems s → w'.segment s = x.w.segment s →
      (∀ j, Sys.UsesShmem { x with w := w' } s j ↔ x.UsesShmem s j) →
      s < MRAPI_MAX_SHMEMS ∧ w'.segment s = true ∧
        Tally (Sys.UsesShmem { x with w := w' } s) (w'.db.shmems s).refs := by
    intro hentry hsegment huses
    rw [hentry] at hv ⊢
    rw [hsegment]
    exact ⟨h.shmem_lt s hv, h.segment s hv, (h.shmems s hv).congr huses⟩
  cases hu with
  | idle => exact hbeside rfl rfl fun _ => Iff.rfl
  | shmem_create key s₀ w' hs₀ hroom hkey hviews =>
    have huses : ∀ j, Sys.UsesShmem { x with w := w' } s j ↔ x.UsesShmem s j :=
      fun j => (uses_same (node_of_views hviews) s j).1
    have hshmems : w'.db.shmems = _ := congrArg Views.shmems hviews
    have hsegment : w'.segment = _ := congrArg Views.segment hviews
    dsimp only at hshmems hsegment
    by_cases hss : s = s₀
    · have hnone := hmeets rfl hroom hkey s₀ hs₀
      rw [hshmems, hsegment, hss, Function.update_self, Function.update_self, ← hss]
      refine ⟨?_, rfl, ?_⟩
      · rw [hss]
        exact (search_some hs₀).1
      · apply Tally.none
        intro j hj
        rw [← hss] at hnone
        exact hnone j ((huses j).mp hj)
    · apply hbeside _ _ huses
      · rw [hshmems, Function.update_of_ne hss]
      · rw [hsegment, Function.update_of_ne hss]
  | shmem_get key s₀ w' id hid hviews =>
    have huses : ∀ j, Sys.UsesShmem { x with w := w' } s j ↔ x.UsesShmem s j :=
      fun j => (uses_same (node_of_views hviews) s j).1
    have hshmems : w'.db.shmems = _ := congrArg Views.shmems hviews
    have hsegment : w'.segment = x.w.segment := congrArg Views.segment hviews
    dsimp only at hshmems
    by_cases hss : s = s₀
    · rw [hshmems, hss, Function.update_self, ← hss] at hv ⊢
      rw [hsegment]
      exact ⟨h.shmem_lt s hv, h.segment s hv, (h.shmems s hv).congr huses⟩
    · apply hbeside _ (congrFun hsegment s) huses
      rw [hshmems, Function.update_of_ne hss]
  | shmem_attach shmem s₀ w' hs₀ hvalid hnot hviews =>
    have huses := uses_useShmem (x := x) hi (node_of_views hviews) s
    have hshmems : w'.db.shmems = _ := congrArg Views.shmems hviews
    have hsegment : w'.segment = x.w.segment := congrArg Views.segment hviews
    dsimp only at hshmems
    by_cases hss : s = s₀
    · have hold : (x.w.db.shmems s).valid = true := by
        rw [hss, ← hs₀]
        exact (valid_shmem_hndl hvalid).2.2
      have hnot' : ¬ x.UsesShmem s i := by
        rintro ⟨-, hflag⟩
        rw [hss, hnot] at hflag
        cases hflag
      have hnew : ∀ j, Sys.UsesShmem { x with w := w' } s j ↔ j = i ∨ x.UsesShmem s j := by
        rw [hss]
        exact uses_attach hi (node_of_views hviews)
      obtain ⟨hmore, hle⟩ := users_enter (h.shmems s hold) hnot' hnew
      rw [hshmems, hsegment, hss, Function.update_self, attachEntry_refs, ← hss,
        u8_of_lt (by omega)]
      exact ⟨h.shmem_lt s hold, h.segment s hold, hmore⟩
    · apply hbeside _ (congrFun hsegment s)
      · intro j
        rw [(huses j).1, if_neg fun hji => hss hji.2]
      · rw [hshmems, Function.update_of_ne hss]
  | shmem_detach shmem s₀ w' hs₀ hvalid hflag hviews =>
    have huses := uses_useShmem (x := x) hi (node_of_views hviews) s
    have hshmems : w'.db.shmems = _ := congrArg Views.shmems hviews
    have hsegment : w'.segment = x.w.segment := congrArg Views.segment hviews
    dsimp only at hshmems
    by_cases hss : s = s₀
    · have hold : (x.w.db.shmems s).valid = true := by
        rw [hss, ← hs₀]
        exact (valid_shmem_hndl hvalid).2.2
      have huser : x.UsesShmem s i := by
        rw [hss]
        exact ⟨by rw [hi]; rfl, hflag⟩
      have hnew : ∀ j, Sys.UsesShmem { x with w := w' } s j ↔ j ≠ i ∧ x.UsesShmem s j := by
        rw [hss]
        exact uses_detach hi (node_of_views hviews)
      obtain ⟨k, hk, hle, hless⟩ := users_leave (h.shmems s hold) huser hnew
      rw [hshmems, hsegment, hss, Function.update_self, detachEntry_refs, ← hss,
        subU8_of_le (by omega) (by omega), hk]
      exact ⟨h.shmem_lt s hold, h.segment s hold, hless⟩
    · apply hbeside _ (congrFun hsegment s)
      · intro j
        rw [(huses j).1, if_neg fun hji => hss hji.2]
      · rw [hshmems, Function.update_of_ne hss]
  | shmem_delete shmem s₀ w' hs₀ hvalid hviews =>
    have hshmems : w'.db.shmems = _ := congrArg Views.shmems hviews
    have hsegment : w'.segment = _ := congrArg Views.segment hviews
    dsimp only at hshmems hsegment
    by_cases hss : s = s₀
    · rw [hshmems, hss, Function.update_self] at hv
      cases hv
    · apply hbeside
      · rw [hshmems, Function.update_of_ne hss]
      · rw [hsegment, Function.update_of_ne hss]
      · exact fun j => (uses_same (node_of_views hviews) s j).1
  | sem_create key address s₀ ext w' hs₀ hkey hviews =>
    exact hbeside (congrFun (congrArg Views.shmems hviews) s)
      (congrFun (congrArg Views.segment hviews) s)
      fun j => (uses_useSem (x := x) hi (node_of_views hviews) s j).1
  | sem_get key s₀ w' hnot hviews =>
    exact hbeside (congrFun (congrArg Views.shmems hviews) s)
      (congrFun (congrArg Views.segment hviews) s)
      fun j => (uses_useSem (x := x) hi (node_of_views hviews) s j).1
  | sem_delete sem s₀ deleted w' hviews =>
    exact hbeside (congrFun (congrArg Views.shmems hviews) s)
      (congrFun (congrArg Views.segment hviews) s)
      fun j => (uses_same (node_of_views hviews) s j).1

/-- A lock over one call. -/
theorem Referenced.used_sem (h : Referenced x) (hi : x.thread i = some c)
    (hmeets : EntryMeets x i call) (hu : Used x.w i c call w') (s : ℕ)
    (hv : (w'.db.sems s).valid = true) :
    s < MRAPI_MAX_SEMS ∧ Tally (Sys.UsesSem { x with w := w' } s) (w'.db.sems s).refs := by
  have hbeside : w'.db.sems s = x.w.db.sems s →
      (∀ j, Sys.UsesSem { x with w := w' } s j ↔ x.UsesSem s j) →
      s < MRAPI_MAX_SEMS ∧ Tally (Sys.UsesSem { x with w := w' } s) (w'.db.sems s).refs := by
    intro hentry huses
    rw [hentry] at hv ⊢
    exact ⟨h.sem_lt s hv, (h.sems s hv).congr huses⟩
  cases hu with
  | idle => exact hbeside rfl fun _ => Iff.rfl
  | shmem_create key s₀ w' hs₀ hroom hkey hviews =>
    exact hbeside (congrFun (congrArg Views.sems hviews) s)
      fun j => (uses_same (node_of_views hviews) s j).2
  | shmem_get key s₀ w' id hid hviews =>
    exact hbeside (congrFun (congrArg Views.sems hviews) s)
      fun j => (uses_same (node_of_views hviews) s j).2
  | shmem_attach shmem s₀ w' hs₀ hvalid hnot hviews =>
    exact hbeside (congrFun (congrArg Views.sems hviews) s)
      fun j => (uses_useShmem (x := x) hi (node_of_views hviews) s j).2
  | shmem_detach shmem s₀ w' hs₀ hvalid hflag hviews =>
    exact hbeside (congrFun (congrArg Views.sems hviews) s)
      fun j => (uses_useShmem (x := x) hi (node_of_views hviews) s j).2
  | shmem_delete shmem s₀ w' hs₀ hvalid hviews =>
    exact hbeside (congrFun (congrArg Views.sems hviews) s)
      fun j => (uses_same (node_of_views hviews) s j).2
  | sem_create key address s₀ ext w' hs₀ hkey hviews =>
    have huses := uses_useSem (x := x) hi (node_of_views hviews) s
    have hsems : w'.db.sems = _ := congrArg Views.sems hviews
    dsimp only at hsems
    by_cases hss : s = s₀
    · have hnone := hmeets hkey s₀ hs₀
      rw [← hss] at hnone
      have honly : ∀ j, Sys.UsesSem { x with w := w' } s j ↔ j = i := by
        intro j
        rw [(huses j).2]
        constructor
        · rintro (hj | hj)
          · exact hj.1
          · by_contra hne
            exact hnone j hne hj
        · exact fun hj => .inl ⟨hj, hss⟩
      rw [hsems, hss, Function.update_self, ← hss]
      refine ⟨?_, ?_⟩
      · rw [hss]
        exact (search_some hs₀).1
      · have hnobody : Tally (fun _ : Node => False) 0 := .none fun _ => id
        exact hnobody.enter id ((honly i).mpr rfl) fun j hj =>
          (honly j).trans ⟨fun heq => absurd heq hj, False.elim⟩
    · apply hbeside
      · rw [hsems, Function.update_of_ne hss]
      · intro j
        rw [(huses j).2]
        exact ⟨fun hor => hor.resolve_left fun hj => hss hj.2, .inr⟩
  | sem_get key s₀ w' hnot hviews =>
    have huses := uses_useSem (x := x) hi (node_of_views hviews) s
    have hsems : w'.db.sems = _ := congrArg Views.sems hviews
    dsimp only at hsems
    by_cases hss : s = s₀
    · rw [hsems, hss, Function.update_self, ← hss] at hv ⊢
      dsimp only at hv ⊢
      have hnot' : ¬ x.UsesSem s i := by
        rintro ⟨-, hflag⟩
        rw [hss, hnot] at hflag
        cases hflag
      have hnew : ∀ j, Sys.UsesSem { x with w := w' } s j ↔ j = i ∨ x.UsesSem s j := by
        intro j
        rw [(huses j).2]
        exact or_congr_left ⟨And.left, fun hj => ⟨hj, hss⟩⟩
      obtain ⟨hmore, hle⟩ := users_enter (h.sems s hv) hnot' hnew
      rw [u16_of_lt (by omega)]
      exact ⟨h.sem_lt s hv, hmore⟩
    · apply hbeside
      · rw [hsems, Function.update_of_ne hss]
      · intro j
        rw [(huses j).2]
        exact ⟨fun hor => hor.resolve_left fun hj => hss hj.2, .inr⟩
  | sem_delete sem s₀ deleted w' hviews =>
    have hsems : w'.db.sems = _ := congrArg Views.sems hviews
    dsimp only at hsems
    by_cases hss : s = s₀
    · rw [hsems, hss, Function.update_self] at hv
      cases hv
    · apply hbeside
      · rw [hsems, Function.update_of_ne hss]
      · exact fun j => (uses_same (node_of_views hviews) s j).2

/-- What a create makes has no users but its creator. -/
theorem Referenced.new_objects (hi : x.thread i = some c) (hmeets : EntryMeets x i call)
    (hu : Used x.w i c call w') : NewObjects x i { x with w := w' } := by
  -- no other entry becomes valid
  have hold : ∀ {α : Type} {f f' : ℕ → α} {v : α → Bool} {s s₀ : ℕ} {a : α},
      f' = Function.update f s₀ a → v (f s) = false → v (f' s) = true → s = s₀ := by
    intro α f f' v s s₀ a hf hv hv'
    by_contra hne
    rw [hf, Function.update_of_ne hne, hv] at hv'
    cases hv'
  have hsame : ∀ {b : Bool}, b = false → b = true → False := by
    rintro b rfl hb
    cases hb
  cases hu with
  | idle => exact ⟨fun s hv hv' => (hsame hv hv').elim, fun s hv hv' => (hsame hv hv').elim⟩
  | shmem_create key s₀ w' hs₀ hroom hkey hviews =>
    refine ⟨fun s hv hv' => ?_, fun s hv hv' => ?_⟩
    · rw [show w'.db.sems = x.w.db.sems from congrArg Views.sems hviews] at hv'
      exact (hsame hv hv').elim
    · have hss := hold (v := mrapi_shmem_t.valid) (congrArg Views.shmems hviews) hv hv'
      intro j hj
      have hj' := (uses_same (node_of_views hviews) s j).1.mp hj
      rw [hss] at hj'
      exact hmeets rfl hroom hkey s₀ hs₀ j hj'
  | shmem_get key s₀ w' id hid hviews =>
    refine ⟨fun s hv hv' => ?_, fun s hv hv' => ?_⟩
    · rw [show w'.db.sems = x.w.db.sems from congrArg Views.sems hviews] at hv'
      exact (hsame hv hv').elim
    · have hss := hold (v := mrapi_shmem_t.valid) (congrArg Views.shmems hviews) hv hv'
      rw [show w'.db.shmems = _ from congrArg Views.shmems hviews, hss] at hv'
      dsimp only at hv'
      rw [Function.update_self, ← hss] at hv'
      exact (hsame hv hv').elim
  | shmem_attach shmem s₀ w' hs₀ hvalid hnot hviews =>
    refine ⟨fun s hv hv' => ?_, fun s hv hv' => ?_⟩
    · rw [show w'.db.sems = x.w.db.sems from congrArg Views.sems hviews] at hv'
      exact (hsame hv hv').elim
    · have hss := hold (v := mrapi_shmem_t.valid) (congrArg Views.shmems hviews) hv hv'
      rw [hss, ← hs₀, (valid_shmem_hndl hvalid).2.2] at hv
      cases hv
  | shmem_detach shmem s₀ w' hs₀ hvalid hflag hviews =>
    refine ⟨fun s hv hv' => ?_, fun s hv hv' => ?_⟩
    · rw [show w'.db.sems = x.w.db.sems from congrArg Views.sems hviews] at hv'
      exact (hsame hv hv').elim
    · have hss := hold (v := mrapi_shmem_t.valid) (congrArg Views.shmems hviews) hv hv'
      rw [hss, ← hs₀, (valid_shmem_hndl hvalid).2.2] at hv
      cases hv
  | shmem_delete shmem s₀ w' hs₀ hvalid hviews =>
    refine ⟨fun s hv hv' => ?_, fun s hv hv' => ?_⟩
    · rw [show w'.db.sems = x.w.db.sems from congrArg Views.sems hviews] at hv'
      exact (hsame hv hv').elim
    · have hss := hold (v := mrapi_shmem_t.valid) (congrArg Views.shmems hviews) hv hv'
      rw [hss, ← hs₀, (valid_shmem_hndl hvalid).2.2] at hv
      cases hv
  | sem_create key address s₀ ext w' hs₀ hkey hviews =>
    refine ⟨fun s hv hv' => ?_, fun s hv hv' => ?_⟩
    · have hss := hold (v := mrapi_sem_t.valid) (congrArg Views.sems hviews) hv hv'
      have hnone := hmeets hkey s₀ hs₀
      intro j
      rw [(uses_useSem (x := x) hi (node_of_views hviews) s j).2, hss]
      constructor
      · rintro (hj | hj)
        · exact hj.1
        · by_contra hne
          exact hnone j hne hj
      · exact fun hj => .inl ⟨hj, rfl⟩
    · rw [show w'.db.shmems = x.w.db.shmems from congrArg Views.shmems hviews] at hv'
      exact (hsame hv hv').elim
  | sem_get key s₀ w' hnot hviews =>
    refine ⟨fun s hv hv' => ?_, fun s hv hv' => ?_⟩
    · have hss := hold (v := mrapi_sem_t.valid) (congrArg Views.sems hviews) hv hv'
      rw [show w'.db.sems = _ from congrArg Views.sems hviews, hss] at hv'
      dsimp only at hv'
      rw [Function.update_self, ← hss] at hv'
      exact (hsame hv hv').elim
    · rw [show w'.db.shmems = x.w.db.shmems from congrArg Views.shmems hviews] at hv'
      exact (hsame hv hv').elim
  | sem_delete sem s₀ deleted w' hviews =>
    refine ⟨fun s hv hv' => ?_, fun s hv hv' => ?_⟩
    · have hss := hold (v := mrapi_sem_t.valid) (congrArg Views.sems hviews) hv hv'
      rw [show w'.db.sems = _ from congrArg Views.sems hviews, hss] at hv'
      dsimp only at hv'
      rw [Function.update_self] at hv'
      cases hv'
    · rw [show w'.db.shmems = x.w.db.shmems from congrArg Views.shmems hviews] at hv'
      exact (hsame hv hv').elim

/-! ## Finalize -/

/-- Somebody is left exactly if the database is. -/
theorem Left.some_left (hl : Left x i c w₁ x') (h : Registry x) (hi : x.thread i = some c) :
    x'.SomeLeft ↔ ¬ lastManStanding w₁.db = true := by
  have hnone : lastManStanding w₁.db = true ↔ ∀ j, (x.without w₁ i).thread j = none :=
    (h.finalize_node hi hl.finalized).lastManStanding
  rw [hnone]
  unfold Sys.SomeLeft
  rw [hl.thread]
  constructor
  · rintro ⟨j, hj⟩ hnone
    rw [hnone j] at hj
    cases hj
  · intro hsome
    by_contra hnone
    apply hsome
    intro j
    by_contra hj
    exact hnone ⟨j, Option.isSome_iff_ne_none.mpr hj⟩

/-- A node that is left is another one. -/
theorem Left.others (hl : Left x i c w₁ x') (h : Registry x) (hi : x.thread i = some c) (j : Node) :
    (x'.thread j).isSome = true ↔ j ≠ i ∧ (x.thread j).isSome = true := by
  rw [hl.thread, h.without_thread hi]
  constructor
  · intro hj
    dsimp only at hj
    split at hj
    · cases hj
    · rename_i hne
      refine ⟨?_, hj⟩
      rintro rfl
      exact hne hi
  · rintro ⟨hne, hj⟩
    dsimp only
    rw [if_neg fun hc => hne (h.unique hc hi)]
    exact hj

/-- Shared memory over a finalize under the condition. -/
theorem Referenced.left_shmem (h : Referenced x) (hl : Left x i c w₁ x')
    (hi : x.thread i = some c) (hmeets : LeaveMeets x i) (s : ℕ) :
    ((x'.w.db.shmems s).valid = true → s < MRAPI_MAX_SHMEMS ∧ x'.w.segment s = true ∧
      Tally (x'.UsesShmem s) (x'.w.db.shmems s).refs) ∧
    ((x.w.db.shmems s).valid = true → Drops (x.UsesShmem s i) x'.SomeLeft
      (x.w.db.shmems s).refs (x'.w.db.shmems s).refs
      ((x'.w.db.shmems s).valid = true ∧ x'.w.segment s = true)
      ((x'.w.db.shmems s).valid = false ∧ x'.w.segment s = false)) := by
  have hsome := hl.some_left h.registry hi
  have huses := fun j => (hl.uses h.registry hi s j).1
  by_cases hlast : lastManStanding w₁.db = true
  · have hdb : x'.w.db = .zero := by
      rw [hl.detached.db, if_pos hlast]
    refine ⟨fun hv => ?_, fun hv => ⟨fun hu => ?_, fun hu => ⟨?_, fun hleft => ?_⟩⟩⟩
    · rw [hdb] at hv
      cases hv
    · exact absurd hu (hmeets.1 s (h.shmem_lt s hv) hv)
    · -- nobody else can be a user
      rw [hdb, (h.shmems s hv).eq_zero]
      · rfl
      · intro j hj
        by_cases hji : j = i
        · rw [hji] at hj
          exact hu hj
        · have hleft : x'.SomeLeft := ⟨j, (hl.others h.registry hi j).mpr ⟨hji, hj.1⟩⟩
          exact hsome.mp hleft hlast
    · exact absurd hlast (hsome.mp hleft)
  · have hdb : x'.w.db = w₁.db := by
      rw [hl.detached.db, if_neg hlast]
    obtain ⟨j, hj⟩ := hsome.mpr hlast
    have hcond := hmeets.2 ⟨j, (hl.others h.registry hi j).mp hj⟩
    have hentry : (w₁.db.shmems s).valid = (x.w.db.shmems s).valid ∧
        (w₁.db.shmems s).refs = (x.w.db.shmems s).refs := by
      rcases hl.finalized.shmems s with heq | ⟨-, heq⟩
      · rw [heq]
        exact ⟨rfl, rfl⟩
      · rw [heq]
        exact ⟨rfl, rfl⟩
    rw [hdb, hentry.1, hentry.2]
    have hkept : (x.w.db.shmems s).valid = true → x'.w.segment s = true := by
      intro hv
      rw [hl.detached.segment, hl.finalized.segment s]
      · exact h.segment s hv
      · -- only memory without users is freed
        unfold freesShmem
        rw [beq_eq_false_iff_ne.mpr (hcond.2 s (h.shmem_lt s hv) hv), Bool.and_false]
    have hfree : (x.w.db.shmems s).valid = true → ¬ x.UsesShmem s i :=
      fun hv => hmeets.1 s (h.shmem_lt s hv) hv
    refine ⟨fun hv => ⟨h.shmem_lt s hv, hkept hv, ?_⟩, fun hv => ⟨fun hu => ?_, fun _ => ?_⟩⟩
    · apply (h.shmems s hv).congr
      intro j
      rw [huses]
      refine ⟨And.right, fun hu => ⟨?_, hu⟩⟩
      rintro rfl
      exact hfree hv hu
    · exact absurd hu (hfree hv)
    · exact ⟨rfl, fun _ => ⟨hv, hkept hv⟩⟩

/-- A lock over a finalize under the condition. -/
theorem Referenced.left_sem (h : Referenced x) (hl : Left x i c w₁ x')
    (hi : x.thread i = some c) (hmeets : LeaveMeets x i) (s : ℕ) :
    ((x'.w.db.sems s).valid = true → s < MRAPI_MAX_SEMS ∧
      Tally (x'.UsesSem s) (x'.w.db.sems s).refs) ∧
    ((x.w.db.sems s).valid = true → Drops (x.UsesSem s i) x'.SomeLeft
      (x.w.db.sems s).refs (x'.w.db.sems s).refs ((x'.w.db.sems s).valid = true)
      ((x'.w.db.sems s).valid = false)) := by
  have hsome := hl.some_left h.registry hi
  have huses := fun j => (hl.uses h.registry hi s j).2
  by_cases hlast : lastManStanding w₁.db = true
  · have hdb : x'.w.db = .zero := by
      rw [hl.detached.db, if_pos hlast]
    have honly : ∀ j, x.UsesSem s j → j = i := by
      intro j hj
      by_contra hji
      have hleft : x'.SomeLeft := ⟨j, (hl.others h.registry hi j).mpr ⟨hji, hj.1⟩⟩
      exact hsome.mp hleft hlast
    refine ⟨fun hv => ?_, fun hv => ⟨fun hu => ?_, fun hu => ⟨?_, fun hleft => ?_⟩⟩⟩
    · rw [hdb] at hv
      cases hv
    · -- the lock goes with the database
      obtain ⟨k, hk, -, hless⟩ := users_leave (h.sems s hv) hu huses
      have hzero : k = 0 := by
        apply hless.eq_zero
        intro j hj
        obtain ⟨hne, hu'⟩ := (huses j).mp hj
        exact hne (honly j hu')
      rw [hdb, hk, hzero]
      exact ⟨rfl, fun hne => absurd rfl hne, fun _ => rfl⟩
    · rw [hdb, (h.sems s hv).eq_zero]
      · rfl
      · intro j hj
        rw [honly j hj] at hj
        exact hu hj
    · exact absurd hlast (hsome.mp hleft)
  · have hdb : x'.w.db = w₁.db := by
      rw [hl.detached.db, if_neg hlast]
    obtain ⟨j, hj⟩ := hsome.mpr hlast
    have hcond := hmeets.2 ⟨j, (hl.others h.registry hi j).mp hj⟩
    rw [hdb, hl.finalized.sems]
    have hfree : (x.w.db.sems s).valid = true → ¬ x.UsesSem s i :=
      fun hv => hcond.1 s (h.sem_lt s hv) hv
    refine ⟨fun hv => ⟨h.sem_lt s hv, ?_⟩, fun hv => ⟨fun hu => ?_, fun _ => ?_⟩⟩
    · apply (h.sems s hv).congr
      intro j
      rw [huses]
      refine ⟨And.right, fun hu => ⟨?_, hu⟩⟩
      rintro rfl
      exact hfree hv hu
    · exact absurd hu (hfree hv)
    · exact ⟨rfl, fun _ => hv⟩

end MxApi.NodeTable
