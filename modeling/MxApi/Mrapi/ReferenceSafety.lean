/-
Reference counts, over runs of all calls.

The tables of nodes, locks and shared memory ([`References`]) and that of remote memory
([`RemoteMemoryCounts`]) are kept apart by the calls, which each work on one of them, and meet in
finalize: it leaves remote memory alone, except that the last node takes the database with it.
Under the condition every count is that of the users ([`references_ok`]); a node that finalizes
with a lock in its list leaves the count as it is ([`finalize_of_a_user`]).
-/
import MxApi.Mrapi.References
import MxApi.Mrapi.RemoteMemoryCounts

set_option autoImplicit false

namespace MxApi.NodeTable

open Lib
open LockTable (Node node0 node1)
open RemoteMemory (MRAPI_MAX_RMEMS Counts CountMeets)

/-! ## The system -/

/-- All tables. -/
structure Whole where
  nodes : Sys
  rmems : RemoteMemory.Sys

def Whole.initial : Whole := ⟨Sys.initial, RemoteMemory.init⟩

/-- A call of a thread, or one on remote memory by a node. -/
inductive WholeLabel
  | node (a : Label)
  | rmem (i : Node) (call : RemoteMemory.Call)
  deriving DecidableEq

/-- The call has released the database. -/
def released (x : Sys) : Label → Bool
  | .finalize c => (mrapi_impl_free_resources false x.w c).any Prod.snd
  | .panic c => (mrapi_impl_free_resources true x.w c).any Prod.snd
  | _ => false

def Whole.step (y : Whole) : WholeLabel → Option Whole
  | .node a => (NodeTable.step y.nodes a).map fun nodes =>
    { nodes := nodes, rmems := if released y.nodes a then RemoteMemory.init else y.rmems }
  | .rmem i call => some { y with rmems := y.rmems.call (i, call) }

/-- The calls are those of registered nodes, none of which panics. -/
def WholeCalls (y : Whole) : WholeLabel → Prop
  | .node (.panic _) => False
  | .node a => Calls y.nodes a
  | .rmem i _ => (y.nodes.thread i).isSome = true

/-! ## The contract -/

/-- Node `j` is registered and attached. -/
def Whole.UsesRmem (y : Whole) (r : ℕ) (j : Node) : Prop :=
  (y.nodes.thread j).isSome = true ∧ y.rmems.attached r j = true

/-- Every count is that of the users. -/
structure RefsOk (y : Whole) : Prop where
  sems : ∀ s, (y.nodes.w.db.sems s).valid = true →
    Tally (y.nodes.UsesSem s) (y.nodes.w.db.sems s).refs
  shmems : ∀ s, (y.nodes.w.db.shmems s).valid = true →
    Tally (y.nodes.UsesShmem s) (y.nodes.w.db.shmems s).refs
  rmems : ∀ r, (y.rmems.table.rmems r).valid = true →
    Tally (y.UsesRmem r) (y.rmems.table.rmems r).refs

/-- What the finalize of node `i` does to the counts. -/
structure FinalizeDrops (y : Whole) (i : Node) (y' : Whole) : Prop where
  sems : ∀ s, (y.nodes.w.db.sems s).valid = true →
    Drops (y.nodes.UsesSem s i) y'.nodes.SomeLeft (y.nodes.w.db.sems s).refs
      (y'.nodes.w.db.sems s).refs ((y'.nodes.w.db.sems s).valid = true)
      ((y'.nodes.w.db.sems s).valid = false)
  shmems : ∀ s, (y.nodes.w.db.shmems s).valid = true →
    Drops (y.nodes.UsesShmem s i) y'.nodes.SomeLeft (y.nodes.w.db.shmems s).refs
      (y'.nodes.w.db.shmems s).refs
      ((y'.nodes.w.db.shmems s).valid = true ∧ y'.nodes.w.segment s = true)
      ((y'.nodes.w.db.shmems s).valid = false ∧ y'.nodes.w.segment s = false)
  rmems : ∀ r, (y.rmems.table.rmems r).valid = true →
    Drops (y.UsesRmem r i) y'.nodes.SomeLeft (y.rmems.table.rmems r).refs
      (y'.rmems.table.rmems r).refs ((y'.rmems.table.rmems r).valid = true)
      ((y'.rmems.table.rmems r).valid = false)

/-- What a step does to the counts. -/
def RefStepOk (y : Whole) (y' : Whole) : WholeLabel → Prop
  | .node (.finalize c) => ∀ i, y.nodes.thread i = some c → FinalizeDrops y i y'
  | .node (.use c _) => ∀ i, y.nodes.thread i = some c → NewObjects y.nodes i y'.nodes
  | .rmem _ _ => ∀ r, (y.rmems.table.rmems r).valid = false →
    (y'.rmems.table.rmems r).valid = true → ∀ j : Node,
      (y'.rmems.table.rmems r).nodes j.nindex = false ∧ y'.rmems.attached r j = false
  | _ => True

/-! ## The condition -/

/-- What a call of a thread has to meet. -/
def NodeMeets (x : Sys) : Label → Prop
  | .start _ _ _ => True
  | .finalize c => ∃ i, x.thread i = some c ∧ LeaveMeets x i
  | .panic _ => False
  | .use c call => ∃ i, x.thread i = some c ∧ EntryMeets x i call

/-- A node that finalizes is attached to no remote memory unless it is the last node. -/
def DetachedMeets (y : Whole) : Label → Prop
  | .finalize c => ∀ i, y.nodes.thread i = some c →
      (∃ j, j ≠ i ∧ (y.nodes.thread j).isSome = true) →
      ∀ r, r < MRAPI_MAX_RMEMS → (y.rmems.table.rmems r).valid = true →
        y.rmems.attached r i = false
  | _ => True

def RefMeets (y : Whole) : WholeLabel → Prop
  | .node a => NodeMeets y.nodes a ∧ DetachedMeets y a
  | .rmem i call => (y.nodes.thread i).isSome = true ∧ CountMeets y.rmems (i, call)

instance (x : Sys) : DecidablePred (NodeMeets x)
  | .start _ _ _ => isTrue trivial
  | .finalize c => inferInstanceAs (Decidable (∃ i, x.thread i = some c ∧ LeaveMeets x i))
  | .panic _ => isFalse id
  | .use c call => inferInstanceAs (Decidable (∃ i, x.thread i = some c ∧ EntryMeets x i call))

instance (y : Whole) : DecidablePred (DetachedMeets y)
  | .start _ _ _ | .panic _ | .use _ _ => isTrue trivial
  | .finalize c => inferInstanceAs (Decidable (∀ i, y.nodes.thread i = some c →
      (∃ j, j ≠ i ∧ (y.nodes.thread j).isSome = true) →
      ∀ r, r < MRAPI_MAX_RMEMS → (y.rmems.table.rmems r).valid = true →
        y.rmems.attached r i = false))

instance (y : Whole) : DecidablePred (RefMeets y) := by
  intro a
  unfold RefMeets
  split <;> infer_instance

instance (y : Whole) : DecidablePred (WholeCalls y) := by
  intro a
  unfold WholeCalls
  split <;> infer_instance

theorem NodeMeets.calls {x : Sys} {a : Label} (h : NodeMeets x a) : Calls x a := by
  cases a with
  | start c domain_id node_id => exact trivial
  | finalize c =>
    obtain ⟨i, hi, -⟩ := h
    exact ⟨i, hi⟩
  | panic c => exact h.elim
  | use c call =>
    obtain ⟨i, hi, -⟩ := h
    exact ⟨i, hi⟩

/-! ## The invariant -/

structure WholeOk (y : Whole) : Prop where
  referenced : Referenced y.nodes
  rmems : RemoteMemory.Inv y.rmems
  counts : Counts y.rmems
  registered : ∀ r j, y.rmems.attached r j = true → (y.nodes.thread j).isSome = true

theorem WholeOk.initial : WholeOk Whole.initial where
  referenced := .initial
  rmems := .init
  counts := .init
  registered := fun _ _ h => nomatch h

variable {x x' : Sys} {y y' : Whole} {i : Node} {c : Thread} {w₁ : World}

theorem WholeOk.refsOk (h : WholeOk y) : RefsOk y where
  sems := h.referenced.sems
  shmems := h.referenced.shmems
  rmems r hv := (h.counts r hv).congr fun j =>
    ⟨And.right, fun hj => ⟨h.registered r j hj, hj⟩⟩

/-! ## The tables of nodes, locks and shared memory -/

/-- A step that leaves the objects and their users as they are. -/
theorem Referenced.same (h : Referenced x) (hregistry : Registry x') (hclear : x'.Clear)
    (ho : SameObjects x.w.db x'.w.db) (hsegment : x'.w.segment = x.w.segment)
    (huses : ∀ s j, (x'.UsesShmem s j ↔ x.UsesShmem s j) ∧ (x'.UsesSem s j ↔ x.UsesSem s j)) :
    Referenced x' := by
  refine ⟨hregistry, hclear, ?_, ?_, ?_, ?_, ?_⟩
  · intro s hv
    rw [ho.shmems] at hv
    exact h.shmem_lt s hv
  · intro s hv
    rw [ho.sems] at hv
    exact h.sem_lt s hv
  · intro s hv
    rw [ho.shmems] at hv ⊢
    exact (h.shmems s hv).congr fun j => (huses s j).1
  · intro s hv
    rw [ho.sems] at hv ⊢
    exact (h.sems s hv).congr fun j => (huses s j).2
  · intro s hv
    rw [ho.shmems] at hv
    rw [hsegment]
    exact h.segment s hv

/-- **One call of a thread** under the condition. -/
theorem Referenced.step (h : Referenced x) {a : Label} (hmeets : NodeMeets x a)
    (hstep : NodeTable.step x a = some x') : Referenced x' := by
  have hregistry := h.registry.step hmeets.calls hstep
  cases a with
  | start c domain_id node_id =>
    cases h.registry.initialized hstep with
    | again => exact h
    | tried w' hwho ht =>
      exact h.same hregistry (h.clear.tried ht) ht.objects ht.segment (uses_tried ht)
    | added w' i p hwho hn hp ha =>
      have hnot := h.registry.unregistered hn
      exact h.same hregistry (h.clear.added ha) ha.objects ha.segment
        (uses_added h.clear hnot ha)
  | finalize c =>
    obtain ⟨i, hi, hleave⟩ := hmeets
    obtain ⟨w₁, hl⟩ := h.registry.finalize_step hi hstep
    have hshmem := fun s => (h.left_shmem hl hi hleave s).1
    have hsem := fun s => (h.left_sem hl hi hleave s).1
    exact ⟨hregistry, h.clear.left hl h.registry hi, fun s hv => (hshmem s hv).1,
      fun s hv => (hsem s hv).1, fun s hv => (hshmem s hv).2.2, fun s hv => (hsem s hv).2,
      fun s hv => (hshmem s hv).2.1⟩
  | panic c => exact hmeets.elim
  | use c call =>
    obtain ⟨i, hi, hentry⟩ := hmeets
    obtain rfl := Option.some.inj hstep
    have hu := (h.registry.named i c hi).used call
    have hshmem := h.used_shmem hi hentry hu
    have hsem := h.used_sem hi hentry hu
    exact ⟨hregistry, h.clear.used hi hu, fun s hv => (hshmem s hv).1, fun s hv => (hsem s hv).1,
      fun s hv => (hshmem s hv).2.2, fun s hv => (hsem s hv).2, fun s hv => (hshmem s hv).2.1⟩

/-! ## Finalize -/

/-- A finalize releases the database exactly if it leaves no node. -/
theorem Registry.finalize_released (h : Registry x) (hi : x.thread i = some c)
    (hstep : NodeTable.step x (.finalize c) = some x') :
    released x (.finalize c) = true ↔ ¬ x'.SomeLeft := by
  obtain ⟨w₁, w', hf, heq, hd⟩ := h.finalize hi
  have hl : Left x i c w₁ x' := by
    dsimp only [NodeTable.step] at hstep
    unfold mrapi_impl_finalize at hstep
    rw [heq] at hstep
    obtain rfl := Option.some.inj hstep
    exact ⟨hf, (h.without_thread hi w₁).symm, hd⟩
  have hreleased : released x (.finalize c) = NodeTable.lastManStanding w₁.db := by
    dsimp only [released]
    rw [heq, Option.any_some]
  rw [hreleased, hl.some_left h hi, not_not]

/-- Remote memory over a finalize under the condition. -/
theorem WholeOk.left_rmem (h : WholeOk y) (hl : Left y.nodes i c w₁ x')
    (hi : y.nodes.thread i = some c) (hmeets : DetachedMeets y (.finalize c))
    {rmems : RemoteMemory.Sys}
    (hrmems : rmems = if released y.nodes (.finalize c) then RemoteMemory.init else y.rmems)
    (hreleased : released y.nodes (.finalize c) = true ↔ ¬ x'.SomeLeft) (r : ℕ)
    (hv : (y.rmems.table.rmems r).valid = true) :
    Drops (y.UsesRmem r i) x'.SomeLeft (y.rmems.table.rmems r).refs (rmems.table.rmems r).refs
      ((rmems.table.rmems r).valid = true) ((rmems.table.rmems r).valid = false) := by
  have hcount := (h.refsOk).rmems r hv
  by_cases hlast : released y.nodes (.finalize c) = true
  · have honly : ∀ j, y.UsesRmem r j → j = i := by
      intro j hj
      by_contra hji
      exact hreleased.mp hlast ⟨j, (hl.others h.referenced.registry hi j).mpr ⟨hji, hj.1⟩⟩
    rw [hrmems, if_pos hlast]
    refine ⟨fun hu => ?_, fun hu => ⟨?_, fun hleft => absurd hleft (hreleased.mp hlast)⟩⟩
    · -- the entry goes with the database
      have hone : Tally (y.UsesRmem r) 1 := by
        apply (Tally.none (p := fun _ : Node => False) fun _ => id).enter id hu
        intro j hj
        exact ⟨fun hj' => hj (honly j hj'), False.elim⟩
      have hrefs : (y.rmems.table.rmems r).refs = 1 := hcount.card.symm.trans hone.card
      exact ⟨hrefs, fun hne => absurd rfl hne, fun _ => rfl⟩
    · rw [hcount.eq_zero]
      · rfl
      · intro j hj
        rw [honly j hj] at hj
        exact hu hj
  · rw [hrmems, if_neg hlast]
    have hleft : x'.SomeLeft := by
      by_contra hnone
      exact hlast (hreleased.mpr hnone)
    obtain ⟨j, hj⟩ := hleft
    have hother := (hl.others h.referenced.registry hi j).mp hj
    refine ⟨fun hu => ?_, fun _ => ⟨rfl, fun _ => hv⟩⟩
    have hfree := hmeets i hi ⟨j, hother⟩ r ((h.rmems r).bounded hv) hv
    have hattached := hu.2
    rw [hfree] at hattached
    cases hattached

/-! ## Runs -/

/-- The nodes of a call that is not a finalize stay registered. -/
theorem Registry.stays (h : Registry x) {a : Label} (hmeets : NodeMeets x a)
    (hnot : ∀ c, a ≠ .finalize c) (hstep : NodeTable.step x a = some x') (j : Node)
    (hj : (x.thread j).isSome = true) : (x'.thread j).isSome = true := by
  cases a with
  | start c domain_id node_id =>
    cases h.initialized hstep with
    | again => exact hj
    | tried w' hwho ht => exact hj
    | added w' i p hwho hn hp ha =>
      change (Function.update x.thread i (some c) j).isSome = true
      rw [Function.update_apply]
      split
      · rfl
      · exact hj
  | finalize c => exact absurd rfl (hnot c)
  | panic c => exact hmeets.elim
  | use c call =>
    obtain rfl := Option.some.inj hstep
    exact hj

/-- **One step** under the condition. -/
theorem WholeOk.step (h : WholeOk y) {a : WholeLabel} (hmeets : RefMeets y a)
    (hstep : y.step a = some y') : WholeOk y' ∧ RefStepOk y y' a := by
  cases a with
  | node a =>
    obtain ⟨hnode, hdetached⟩ := hmeets
    obtain ⟨x', hx', rfl⟩ := Option.map_eq_some_iff.mp hstep
    have hreferenced := h.referenced.step hnode hx'
    have hregistry := h.referenced.registry
    by_cases hfinalize : ∃ c, a = .finalize c
    · obtain ⟨c, rfl⟩ := hfinalize
      obtain ⟨i, hi, hleave⟩ := hnode
      obtain ⟨w₁, hl⟩ := hregistry.finalize_step hi hx'
      have hreleased := hregistry.finalize_released hi hx'
      refine ⟨⟨hreferenced, ?_, ?_, ?_⟩, ?_⟩
      · dsimp only
        split
        · exact .init
        · exact h.rmems
      · dsimp only
        split
        · exact .init
        · exact h.counts
      · intro r j hj
        dsimp only at hj ⊢
        split at hj
        · cases hj
        · rename_i hstays
          rw [hl.others hregistry hi]
          refine ⟨?_, h.registered r j hj⟩
          rintro rfl
          have hsome : x'.SomeLeft := by
            by_contra hnone
            exact hstays (hreleased.mpr hnone)
          obtain ⟨o, ho⟩ := hsome
          have hv := (h.rmems r).valid j hj
          have hfree := hdetached j hi ⟨o, (hl.others hregistry hi o).mp ho⟩ r
            ((h.rmems r).bounded hv) hv
          rw [hfree] at hj
          cases hj
      · intro i' hi'
        obtain rfl := hregistry.unique hi hi'
        exact ⟨fun s => (h.referenced.left_sem hl hi hleave s).2,
          fun s => (h.referenced.left_shmem hl hi hleave s).2,
          fun r => h.left_rmem hl hi hdetached rfl hreleased r⟩
    · have hnot : ∀ c, a ≠ .finalize c := fun c heq => hfinalize ⟨c, heq⟩
      have hkept : released y.nodes a = false := by
        cases a with
        | finalize c => exact absurd rfl (hnot c)
        | panic c => exact hnode.elim
        | start c domain_id node_id => rfl
        | use c call => rfl
      rw [hkept, if_neg Bool.false_ne_true]
      refine ⟨⟨hreferenced, h.rmems, h.counts, fun r j hj => ?_⟩, ?_⟩
      · exact hregistry.stays hnode hnot hx' j (h.registered r j hj)
      · cases a with
        | finalize c => exact absurd rfl (hnot c)
        | panic c => exact hnode.elim
        | start c domain_id node_id => exact trivial
        | use c call =>
          obtain ⟨i, hi, hentry⟩ := hnode
          obtain rfl := Option.some.inj hx'
          intro i' hi'
          obtain rfl := hregistry.unique hi hi'
          exact Referenced.new_objects hi hentry ((hregistry.named i c hi).used call)
  | rmem i call =>
    obtain ⟨hi, hcount⟩ := hmeets
    obtain rfl := Option.some.inj hstep
    have hrmems := h.rmems.call hcount.1
    refine ⟨⟨h.referenced, hrmems, h.counts.call h.rmems hcount, ?_⟩, ?_⟩
    · intro r j hj
      rcases RemoteMemory.Sys.call_attached hj with rfl | hold
      · exact hi
      · exact h.registered r j hold
    · intro r hold hnew j
      have hnodes := RemoteMemory.new_entry hcount.1 hold hnew j.nindex_lt
      refine ⟨hnodes, ?_⟩
      rw [← Bool.not_eq_true]
      intro hj
      have hlisted := ((hrmems r).listed hnew j.nindex j.nindex_lt).mpr ⟨j, rfl, hj⟩
      exact Bool.false_ne_true (hnodes.symm.trans hlisted)

/-- **Reference counts equal users**: in every run whose calls meet the condition the count of
each valid entry is the number of registered nodes that use it; a finalize drops the counts of
its node's objects and releases those whose last user it was; and new objects have no users but
the creator of a lock. -/
theorem references_ok (h : Run Whole.step (fun y a _ => RefMeets y a) Whole.initial y) :
    RefsOk y ∧ ∀ a y', RefMeets y a → y.step a = some y' → RefStepOk y y' a := by
  have hok : WholeOk y :=
    h.invariant (fun _ _ _ hI hstep hmeets => (hI.step hmeets hstep).1) .initial
  exact ⟨hok.refsOk, fun a y' hmeets hstep => (hok.step hmeets hstep).2⟩

/-- A node finalizes, and its lock goes with the database. After that two nodes share a lock, and
both are attached to shared memory and one of them to remote memory. -/
theorem references_ok_two :
    ∃ y : Whole, Run Whole.step (fun y a _ => RefMeets y a) Whole.initial y ∧
      (y.nodes.w.db.sems 0).refs = 2 ∧ (y.nodes.w.db.shmems 0).refs = 2 ∧
      (y.rmems.table.rmems 0).refs = 1 ∧
      RefsOk y ∧ ∀ a y', RefMeets y a → y.step a = some y' → RefStepOk y y' a := by
  have hexec : (exec Whole.step (fun y a _ => decide (RefMeets y a)) Whole.initial
      [.node (.start thread21 1 1), .node (.use thread21 (.sem_create 7 0 false)),
        .node (.finalize thread21), .node (.start thread11 1 1), .node (.start thread12 1 2),
        .node (.use thread11 (.sem_create 7 0 false)), .node (.use thread12 (.sem_get 7)),
        .node (.use thread12 (.shmem_create 8 true)),
        .node (.use thread11 (.shmem_attach 0xC0000000)),
        .node (.use thread12 (.shmem_attach 0xC0000000)),
        .rmem node0 (.create 9 .MRAPI_RMEM_DUMMY), .rmem node1 (.attach 0xC0000000)]).any
      (fun y => (y.nodes.w.db.sems 0).refs == 2 && (y.nodes.w.db.shmems 0).refs == 2 &&
        (y.rmems.table.rmems 0).refs == 1) = true := by
    decide +kernel
  obtain ⟨y, hrun, hy⟩ := exec_run_of_any hexec
  simp only [Bool.and_eq_true, beq_iff_eq] at hy
  have hrun' : Run Whole.step (fun y a _ => RefMeets y a) Whole.initial y :=
    hrun.mono fun _ _ _ hg => of_decide_eq_true hg
  exact ⟨y, hrun', hy.1.1, hy.1.2, hy.2, references_ok hrun'⟩

/-- **The finalize of a user** leaves the count of a lock as it is: the lock stays, and nobody
uses it. -/
theorem finalize_of_a_user :
    ∃ y : Whole, Run Whole.step (fun y a _ => WholeCalls y a) Whole.initial y ∧
      (y.nodes.w.db.sems 0).valid = true ∧ (y.nodes.w.db.sems 0).refs = 1 ∧
      (∀ j, ¬ y.nodes.UsesSem 0 j) ∧ ¬ RefsOk y := by
  have hexec : (exec Whole.step (fun y a _ => decide (WholeCalls y a)) Whole.initial
      [.node (.start thread11 1 1), .node (.start thread12 1 2),
        .node (.use thread11 (.sem_create 7 0 false)), .node (.finalize thread11)]).any
      (fun y => (y.nodes.w.db.sems 0).valid && (y.nodes.w.db.sems 0).refs == 1 &&
        decide (∀ j, ¬ y.nodes.UsesSem 0 j)) = true := by
    decide +kernel
  obtain ⟨y, hrun, hy⟩ := exec_run_of_any hexec
  simp only [Bool.and_eq_true, beq_iff_eq, decide_eq_true_eq] at hy
  obtain ⟨⟨hv, hrefs⟩, hnone⟩ := hy
  refine ⟨y, hrun.mono fun _ _ _ hg => of_decide_eq_true hg, hv, hrefs, hnone, ?_⟩
  intro hok
  have hzero := (hok.sems 0 hv).eq_zero hnone
  rw [hrefs] at hzero
  cases hzero

end MxApi.NodeTable
