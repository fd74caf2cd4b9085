/-
Who uses an object: the nodes that are registered and have it in their lists.

Nothing is said here about the objects themselves. Each call either leaves the users of an
object as they are, or changes them by its own node ([`Sys.UsesShmem`], [`Sys.UsesSem`]), and
the count of them by one.
-/
import MxApi.Mrapi.ObjectCalls

set_option autoImplicit false

namespace MxApi.NodeTable

open Lib
open LockTable (Node MRAPI_MAX_DOMAINS MRAPI_MAX_NODES MRAPI_MAX_SEMS mrapi_impl_decode_hndl)

def Sys.UsesShmem (x : Sys) (s : ℕ) (j : Node) : Prop :=
  (x.thread j).isSome = true ∧ (x.w.node j).shmems s = true

def Sys.UsesSem (x : Sys) (s : ℕ) (j : Node) : Prop :=
  (x.thread j).isSome = true ∧ (x.w.node j).sems s = true

instance (x : Sys) (s : ℕ) (j : Node) : Decidable (x.UsesShmem s j) :=
  inferInstanceAs (Decidable (_ ∧ _))

instance (x : Sys) (s : ℕ) (j : Node) : Decidable (x.UsesSem s j) :=
  inferInstanceAs (Decidable (_ ∧ _))

/-! ## The lists of a node -/

section Lists

variable (v : Views) (i j : Node) (s s' : ℕ) (b : Bool)

theorem useShmem_shmems : (v.useShmem i s b j).shmems s' =
    if j = i ∧ s' = s then b else (v.node j).shmems s' := by
  unfold Views.useShmem
  rw [Function.update_apply]
  by_cases hj : j = i
  · rw [if_pos hj]
    dsimp only
    rw [Function.update_apply, hj]
    by_cases hs : s' = s
    · rw [if_pos hs, if_pos ⟨rfl, hs⟩]
    · rw [if_neg hs, if_neg fun h => hs h.2]
  · rw [if_neg hj, if_neg fun h => hj h.1]

theorem useSem_sems : (v.useSem i s j).sems s' =
    if j = i ∧ s' = s then true else (v.node j).sems s' := by
  unfold Views.useSem
  rw [Function.update_apply]
  by_cases hj : j = i
  · rw [if_pos hj]
    dsimp only
    rw [Function.update_apply, hj]
    by_cases hs : s' = s
    · rw [if_pos hs, if_pos ⟨rfl, hs⟩]
    · rw [if_neg hs, if_neg fun h => hs h.2]
  · rw [if_neg hj, if_neg fun h => hj h.1]

theorem useShmem_sems : (v.useShmem i s b j).sems = (v.node j).sems := by
  unfold Views.useShmem
  rw [Function.update_apply]
  split
  · rename_i hj
    rw [hj]
  · rfl

theorem useSem_shmems : (v.useSem i s j).shmems = (v.node j).shmems := by
  unfold Views.useSem
  rw [Function.update_apply]
  split
  · rename_i hj
    rw [hj]
  · rfl

end Lists

/-! ## The calls on objects -/

section Use

variable {x : Sys} {i : Node} {c : Thread} {w' : World} {s k : ℕ}

/-- The node of the views is that of the world. -/
theorem node_of_views {v : Views} (h : w'.views = v) : w'.node = v.node := congrArg Views.node h

theorem uses_same (hnode : w'.node = x.w.node) (s : ℕ) (j : Node) :
    (Sys.UsesShmem { x with w := w' } s j ↔ x.UsesShmem s j) ∧
      (Sys.UsesSem { x with w := w' } s j ↔ x.UsesSem s j) := by
  unfold Sys.UsesShmem Sys.UsesSem
  dsimp only
  rw [hnode]
  exact ⟨Iff.rfl, Iff.rfl⟩

/-- The caller has changed its list of shared memory. -/
theorem uses_useShmem {b : Bool} (hi : x.thread i = some c)
    (hnode : w'.node = x.w.views.useShmem i s b) (s' : ℕ) (j : Node) :
    (Sys.UsesShmem { x with w := w' } s' j ↔ if j = i ∧ s' = s then b = true else x.UsesShmem s' j) ∧
      (Sys.UsesSem { x with w := w' } s' j ↔ x.UsesSem s' j) := by
  unfold Sys.UsesShmem Sys.UsesSem
  dsimp only
  rw [hnode, useShmem_shmems, useShmem_sems]
  refine ⟨?_, Iff.rfl⟩
  split
  · rename_i hj
    rw [hj.1, hi]
    exact ⟨And.right, fun hb => ⟨rfl, hb⟩⟩
  · rfl

/-- The caller is a user more, or one less. -/
theorem uses_attach (hi : x.thread i = some c) (hnode : w'.node = x.w.views.useShmem i s true)
    (j : Node) : Sys.UsesShmem { x with w := w' } s j ↔ j = i ∨ x.UsesShmem s j := by
  rw [(uses_useShmem hi hnode s j).1]
  split
  · rename_i hj
    exact ⟨fun _ => .inl hj.1, fun _ => rfl⟩
  · rename_i hj
    exact ⟨.inr, fun hor => hor.resolve_left fun heq => hj ⟨heq, rfl⟩⟩

theorem uses_detach (hi : x.thread i = some c) (hnode : w'.node = x.w.views.useShmem i s false)
    (j : Node) : Sys.UsesShmem { x with w := w' } s j ↔ j ≠ i ∧ x.UsesShmem s j := by
  rw [(uses_useShmem hi hnode s j).1]
  split
  · rename_i hj
    exact ⟨(fun hf => nomatch hf), fun hand => absurd hj.1 hand.1⟩
  · rename_i hj
    exact ⟨fun hu => ⟨fun heq => hj ⟨heq, rfl⟩, hu⟩, And.right⟩

/-- The caller has put a lock on its list. -/
theorem uses_useSem (hi : x.thread i = some c) (hnode : w'.node = x.w.views.useSem i s) (s' : ℕ)
    (j : Node) :
    (Sys.UsesShmem { x with w := w' } s' j ↔ x.UsesShmem s' j) ∧
      (Sys.UsesSem { x with w := w' } s' j ↔ (j = i ∧ s' = s) ∨ x.UsesSem s' j) := by
  unfold Sys.UsesShmem Sys.UsesSem
  dsimp only
  rw [hnode, useSem_shmems, useSem_sems]
  refine ⟨Iff.rfl, ?_⟩
  split
  · rename_i hj
    rw [hj.1, hi]
    exact ⟨fun _ => .inl ⟨rfl, hj.2⟩, fun _ => ⟨rfl, rfl⟩⟩
  · rename_i hj
    exact ⟨.inr, fun h => h.resolve_left hj⟩

/-- A node more. -/
theorem users_enter {p p' : Node → Prop} (h : Tally p k) (hnot : ¬ p i)
    (hnew : ∀ j, p' j ↔ j = i ∨ p j) : Tally p' (k + 1) ∧ k + 1 ≤ 32 := by
  have hmore : Tally p' (k + 1) := h.enter hnot ((hnew i).mpr (.inl rfl)) fun j hj =>
    (hnew j).trans ⟨fun hp => hp.resolve_left hj, .inr⟩
  exact ⟨hmore, hmore.le_card⟩

/-- A node less. -/
theorem users_leave {p p' : Node → Prop} (h : Tally p k) (huses : p i)
    (hnew : ∀ j, p' j ↔ j ≠ i ∧ p j) : ∃ j, k = j + 1 ∧ k ≤ 32 ∧ Tally p' j := by
  obtain ⟨j, hk, hless⟩ := h.leave huses (fun hp => ((hnew i).mp hp).1 rfl) fun o ho =>
    (hnew o).trans ⟨And.right, fun hp => ⟨ho, hp⟩⟩
  exact ⟨j, hk, h.le_card, hless⟩

end Use

/-! ## The other calls -/

/-- A node that is not registered uses nothing. -/
def Sys.Clear (x : Sys) : Prop :=
  ∀ j, x.thread j = none → ∀ s, (x.w.node j).shmems s = false ∧ (x.w.node j).sems s = false

section Life

variable {x x' : Sys} {i : Node} {c : Thread} {domain_id node_id p : ℕ} {w₁ w' : World}

theorem Sys.Clear.initial : Sys.initial.Clear := fun _ _ _ => ⟨rfl, rfl⟩

/-- A node that is added uses nothing, so that the users are who they were. -/
theorem uses_added (hclear : x.Clear) (hnot : x.thread i = none)
    (ha : Added x.w c domain_id node_id i.dindex i.nindex p w') (s : ℕ) (j : Node) :
    ((x.with w' i c).UsesShmem s j ↔ x.UsesShmem s j) ∧
      ((x.with w' i c).UsesSem s j ↔ x.UsesSem s j) := by
  unfold Sys.UsesShmem Sys.UsesSem Sys.with
  dsimp only
  rw [ha.at, Function.update_apply]
  by_cases hj : j = i
  · obtain ⟨hshmems, hsems⟩ := hclear i hnot s
    rw [if_pos hj, if_pos hj, hj, hnot]
    dsimp only
    rw [hshmems, hsems]
    exact ⟨⟨(fun h => nomatch h.2), (fun h => nomatch h.1)⟩,
      ⟨(fun h => nomatch h.2), (fun h => nomatch h.1)⟩⟩
  · rw [if_neg hj, if_neg hj]
    exact ⟨Iff.rfl, Iff.rfl⟩

theorem Sys.Clear.added (hclear : x.Clear)
    (ha : Added x.w c domain_id node_id i.dindex i.nindex p w') : (x.with w' i c).Clear := by
  intro j hj s
  change Function.update x.thread i (some c) j = none at hj
  change (w'.node j).shmems s = false ∧ (w'.node j).sems s = false
  rw [Function.update_apply] at hj
  rw [ha.at]
  split at hj
  · cases hj
  · rename_i hne
    rw [if_neg hne]
    exact hclear j hj s

theorem uses_tried (ht : Tried x.w c w') (s : ℕ) (j : Node) :
    (Sys.UsesShmem { x with w := w' } s j ↔ x.UsesShmem s j) ∧
      (Sys.UsesSem { x with w := w' } s j ↔ x.UsesSem s j) := by
  unfold Sys.UsesShmem Sys.UsesSem World.node
  dsimp only
  rw [ht.shmems, ht.sems]
  exact ⟨Iff.rfl, Iff.rfl⟩

theorem Sys.Clear.tried (hclear : x.Clear) (ht : Tried x.w c w') :
    Sys.Clear { x with w := w' } := by
  intro j hj s
  have hold := hclear j hj s
  unfold World.node at hold ⊢
  dsimp only
  rw [ht.shmems, ht.sems]
  exact hold

/-- What a finalize leaves of the nodes: nothing if it was the last one, and else all others as
they were. -/
theorem Left.node (hl : Left x i c w₁ x') (h : Registry x) (hi : x.thread i = some c)
    (j : Node) :
    (∀ c', x'.thread j = some c' → j ≠ i ∧ x.thread j = some c' ∧ x'.w.node j = x.w.node j) ∧
      (x'.w.node j = .zero ∨ j ≠ i ∧ x'.w.node j = x.w.node j) := by
  have h₁ := h.finalize_node hi hl.finalized
  constructor
  · intro c' hj
    rw [hl.thread] at hj
    have hlast : lastManStanding w₁.db ≠ true := by
      intro hlast
      have hgone := h₁.lastManStanding.mp hlast j
      rw [hj] at hgone
      cases hgone
    change Function.update x.thread i none j = some c' at hj
    rw [Function.update_apply] at hj
    split at hj
    · cases hj
    · rename_i hne
      refine ⟨hne, hj, ?_⟩
      have hnode := hl.finalized.at j
      rw [if_neg hne] at hnode
      unfold World.node at hnode ⊢
      rw [hl.detached.db, if_neg hlast]
      exact hnode
  · have hnode := hl.finalized.at j
    unfold World.node at hnode ⊢
    rw [hl.detached.db]
    split
    · exact .inl rfl
    · rw [hnode]
      split
      · exact .inl rfl
      · rename_i hne
        exact .inr ⟨hne, rfl⟩

/-- A finalize takes its node from the users of every object. -/
theorem Left.uses (hl : Left x i c w₁ x') (h : Registry x) (hi : x.thread i = some c) (s : ℕ)
    (j : Node) :
    (x'.UsesShmem s j ↔ j ≠ i ∧ x.UsesShmem s j) ∧ (x'.UsesSem s j ↔ j ≠ i ∧ x.UsesSem s j) := by
  have hnode := hl.node h hi j
  have hback : j ≠ i → ∀ c', x.thread j = some c' → x'.thread j = some c' := by
    intro hne c' hj
    rw [hl.thread]
    change Function.update x.thread i none j = some c'
    rw [Function.update_of_ne hne]
    exact hj
  -- the same for both kinds of object
  have huses : ∀ f : mrapi_node_data → Bool,
      ((x'.thread j).isSome = true ∧ f (x'.w.node j) = true) ↔
        j ≠ i ∧ ((x.thread j).isSome = true ∧ f (x.w.node j) = true) := by
    intro f
    constructor
    · rintro ⟨hsome, hflag⟩
      obtain ⟨c', hc'⟩ := Option.isSome_iff_exists.mp hsome
      obtain ⟨hne, hj, heq⟩ := hnode.1 c' hc'
      rw [heq] at hflag
      exact ⟨hne, by rw [hj]; rfl, hflag⟩
    · rintro ⟨hne, hsome, hflag⟩
      obtain ⟨c', hc'⟩ := Option.isSome_iff_exists.mp hsome
      have hj := hback hne c' hc'
      rw [(hnode.1 c' hj).2.2]
      exact ⟨by rw [hj]; rfl, hflag⟩
  exact ⟨huses fun node => node.shmems s, huses fun node => node.sems s⟩

theorem Sys.Clear.left (hclear : x.Clear) (hl : Left x i c w₁ x') (h : Registry x)
    (hi : x.thread i = some c) : x'.Clear := by
  intro j hj s
  rcases (hl.node h hi j).2 with hzero | ⟨hne, heq⟩
  · rw [hzero]
    exact ⟨rfl, rfl⟩
  · rw [heq]
    rw [hl.thread] at hj
    change Function.update x.thread i none j = none at hj
    rw [Function.update_of_ne hne] at hj
    exact hclear j hj s

theorem Sys.Clear.used (hclear : x.Clear) (hi : x.thread i = some c) {call : Call}
    (hu : Used x.w i c call w') : Sys.Clear { x with w := w' } := by
  intro j hj s
  have hne : j ≠ i := by
    rintro rfl
    change x.thread j = none at hj
    rw [hi] at hj
    cases hj
  have hother : ∀ node : mrapi_node_data, Function.update x.w.node i node j = x.w.node j :=
    fun _ => Function.update_of_ne hne ..
  have hnode : w'.node j = x.w.node j := by
    cases hu with
    | idle => rfl
    | shmem_create key s w' hs hroom hkey h => exact congrFun (node_of_views h) j
    | shmem_get key s w' id hid h => exact congrFun (node_of_views h) j
    | shmem_attach shmem s w' hs hv hnot h =>
      exact (congrFun (node_of_views h) j).trans (hother _)
    | shmem_detach shmem s w' hs hv huses h =>
      exact (congrFun (node_of_views h) j).trans (hother _)
    | shmem_delete shmem s w' hs hv h => exact congrFun (node_of_views h) j
    | sem_create key address s ext w' hs hkey h =>
      exact (congrFun (node_of_views h) j).trans (hother _)
    | sem_get key s w' hnot h => exact (congrFun (node_of_views h) j).trans (hother _)
    | sem_delete sem s deleted w' h => exact congrFun (node_of_views h) j
  change (w'.node j).shmems s = false ∧ (w'.node j).sems s = false
  rw [hnode]
  exact hclear j hj s

end Life

end MxApi.NodeTable
