/-
The mappings of shared memory over runs.

Attach and detach are the two calls that matter ([`Segment.attach`], [`Segment.detach`]); here
are all others, the finalize of a node that is attached to nothing, and what holds in every run
under the condition ([`mappings_ok`]).
-/
import MxApi.Mrapi.Mappings

set_option autoImplicit false

namespace MxApi.NodeTable

open Lib
open LockTable (Node MRAPI_MAX_DOMAINS MRAPI_MAX_NODES mrapi_impl_encode_hndl
  mrapi_impl_decode_hndl)
open mrapi_status_t

variable {x x' : Sys} {i : Node} {c : Thread} {s : ℕ} {w' : World}

/-! ## The other calls -/

/-- A segment that nobody is attached to, and that is mapped nowhere. -/
theorem Segment.unused (hnone : ∀ j, ¬ x.UsesShmem s j)
    (hbounded : (x.w.db.shmems s).valid = true → s < MRAPI_MAX_SHMEMS)
    (hentry : (x.w.db.shmems s).valid = true → (x.w.db.shmems s).refs = 0 ∧
      (x.w.db.shmems s).num_procs = 0 ∧ ∀ p, (x.w.db.shmems s).processes p = false)
    (hmapped : ∀ pid, x.w.mapped pid s = false) : Segment x s := by
  constructor
  · exact hbounded
  · intro j hj
    exact absurd hj (hnone j)
  · intro hv
    rw [(hentry hv).1]
    exact .none hnone
  · intro hv p
    rw [(hentry hv).2.2]
    exact ⟨(fun hf => nomatch hf), fun ⟨j, hj, _⟩ => absurd hj (hnone j)⟩
  · intro hv
    rw [(hentry hv).2.1]
    apply Tally.none
    intro p hp
    rw [(hentry hv).2.2] at hp
    cases hp
  · intro pid
    rw [hmapped]
    exact ⟨(fun hf => nomatch hf), fun ⟨j, _, _, _, hj⟩ => absurd hj (hnone j)⟩

/-- A call that does not concern the segment. -/
theorem Segment.beside (h : Segment x s) (ha : Aside x.w w')
    (hshmem : w'.db.shmems s = x.w.db.shmems s)
    (huses : ∀ j, Sys.UsesShmem { x with w := w' } s j ↔ x.UsesShmem s j)
    (hmapped : ∀ pid, w'.mapped pid s = x.w.mapped pid s) : Segment { x with w := w' } s :=
  h.same (x.w.db.shmems s).id hshmem huses (fun _ _ => rfl)
    (fun j _ => ha.proc_num j.dindex j.nindex) hmapped

/-- **One call on an object** under the condition. -/
theorem Mapped.used (h : Mapped x) (hi : x.thread i = some c) {call : Call}
    (hmeets : AttachMeets x i call) (ha : Aside x.w w') (hu : Used x.w i c call w') (s : ℕ) :
    Segment { x with w := w' } s := by
  have hs := h.segment s
  have hproc : ∀ j, (w'.node j).proc_num = (x.w.node j).proc_num :=
    fun j => ha.proc_num j.dindex j.nindex
  cases hu with
  | idle => exact hs
  | shmem_create key s₀ w' hs₀ hroom hkey hviews =>
    have huses : ∀ j, Sys.UsesShmem { x with w := w' } s j ↔ x.UsesShmem s j :=
      fun j => (uses_same (node_of_views hviews) s j).1
    have hshmems : w'.db.shmems = _ := congrArg Views.shmems hviews
    have hmapped : w'.mapped = _ := congrArg Views.mapped hviews
    dsimp only at hshmems hmapped
    by_cases hss : s = s₀
    · obtain ⟨hlt, hfree⟩ := search_some hs₀
      have hnone : ∀ j, ¬ x.UsesShmem s j := by
        intro j hj
        rw [← hss, hs.valid j hj] at hfree
        cases hfree
      apply Segment.unused
      · intro j hj
        exact hnone j ((huses j).mp hj)
      · intro _
        rw [hss]
        exact hlt
      · intro _
        dsimp only
        rw [hshmems, hss, Function.update_self]
        exact ⟨rfl, rfl, fun _ => rfl⟩
      · intro pid
        dsimp only
        rw [hmapped]
        exact if_pos hss
    · apply hs.beside ha _ huses
      · intro pid
        rw [hmapped]
        exact if_neg hss
      · rw [hshmems, Function.update_of_ne hss]
  | shmem_get key s₀ w' id hid hviews =>
    have huses : ∀ j, Sys.UsesShmem { x with w := w' } s j ↔ x.UsesShmem s j :=
      fun j => (uses_same (node_of_views hviews) s j).1
    have hshmems : w'.db.shmems = _ := congrArg Views.shmems hviews
    have hmapped : w'.mapped = _ := congrArg Views.mapped hviews
    dsimp only at hshmems hmapped
    by_cases hss : s = s₀
    · apply hs.same id _ huses (fun _ _ => rfl) (fun j _ => hproc j)
      · intro pid
        dsimp only
        rw [hmapped]
        rfl
      · dsimp only
        rw [hshmems, hss, Function.update_self]
    · apply hs.beside ha _ huses
      · intro pid
        rw [hmapped]
        rfl
      · rw [hshmems, Function.update_of_ne hss]
  | shmem_attach shmem s₀ w' hs₀ hvalid hnot hviews =>
    have huses := uses_useShmem (x := x) hi (node_of_views hviews) s
    have hshmems : w'.db.shmems = _ := congrArg Views.shmems hviews
    have hmapped : w'.mapped = _ := congrArg Views.mapped hviews
    dsimp only at hshmems hmapped
    by_cases hss : s = s₀
    · have hnot' : ¬ x.UsesShmem s i := by
        rintro ⟨-, hflag⟩
        rw [hss, hnot] at hflag
        cases hflag
      have hv' : (x.w.db.shmems s).valid = true := by
        rw [hss, ← hs₀]
        exact (valid_shmem_hndl hvalid).2.2
      have hfound : (x.w.db.shmems s).id (x.w.node i).proc_num = true ∧ x.w.segment s = true := by
        have hcond := hmeets hvalid
        rw [hs₀, ← hss] at hcond
        exact hcond hnot'
      apply hs.attach { x with w := w' } h.registry hi hv' hnot' rfl hproc
      · intro j
        rw [hss]
        exact uses_attach hi (node_of_views hviews) j
      · dsimp only
        rw [hshmems, hss, Function.update_self]
      · intro pid
        dsimp only
        rw [hmapped]
        dsimp only
        rw [← hss, hfound.1, hfound.2, beq_self_eq_true, Bool.and_true, Bool.and_true,
          Bool.and_true]
    · apply hs.beside ha
      · rw [hshmems, Function.update_of_ne hss]
      · intro j
        rw [(huses j).1, if_neg fun hji => hss hji.2]
      · intro pid
        rw [hmapped]
        dsimp only
        rw [beq_eq_false_iff_ne.mpr hss, Bool.and_false, Bool.false_and, Bool.or_false]
  | shmem_detach shmem s₀ w' hs₀ hvalid hold hviews =>
    have huses := uses_useShmem (x := x) hi (node_of_views hviews) s
    have hshmems : w'.db.shmems = _ := congrArg Views.shmems hviews
    have hmapped : w'.mapped = _ := congrArg Views.mapped hviews
    dsimp only at hshmems hmapped
    by_cases hss : s = s₀
    · have hold' : x.UsesShmem s i := by
        rw [hss]
        exact ⟨by rw [hi]; rfl, hold⟩
      have hv' : (x.w.db.shmems s).valid = true := by
        rw [hss, ← hs₀]
        exact (valid_shmem_hndl hvalid).2.2
      apply hs.detach { x with w := w' } h.registry hi hv' hold' _ rfl hproc
      · intro j
        rw [hss]
        exact uses_detach hi (node_of_views hviews) j
      · dsimp only
        rw [hshmems, hss, Function.update_self]
      · intro pid
        dsimp only
        rw [hmapped]
        dsimp only
        rw [← hss, beq_self_eq_true, Bool.and_true]
      · have hcond := hmeets hvalid
        rw [hs₀, ← hss] at hcond
        exact hcond hold'
    · apply hs.beside ha
      · rw [hshmems, Function.update_of_ne hss]
      · intro j
        rw [(huses j).1, if_neg fun hji => hss hji.2]
      · intro pid
        rw [hmapped]
        dsimp only
        rw [beq_eq_false_iff_ne.mpr hss, Bool.and_false, Bool.not_false, Bool.and_true]
  | shmem_delete shmem s₀ w' hs₀ hvalid hviews =>
    have huses : ∀ j, Sys.UsesShmem { x with w := w' } s j ↔ x.UsesShmem s j :=
      fun j => (uses_same (node_of_views hviews) s j).1
    have hshmems : w'.db.shmems = _ := congrArg Views.shmems hviews
    have hmapped : w'.mapped = _ := congrArg Views.mapped hviews
    dsimp only at hshmems hmapped
    by_cases hss : s = s₀
    · have hnone := hmeets hvalid rfl
      rw [hs₀, ← hss] at hnone
      have hinvalid : (w'.db.shmems s).valid = false := by
        rw [hshmems, hss, Function.update_self]
      apply Segment.unused
      · intro j hj
        exact hnone j ((huses j).mp hj)
      · intro hv
        dsimp only at hv
        rw [hinvalid] at hv
        cases hv
      · intro hv
        dsimp only at hv
        rw [hinvalid] at hv
        cases hv
      · intro pid
        dsimp only
        rw [hmapped, ← Bool.not_eq_true]
        intro hm
        obtain ⟨j, c', -, -, hj⟩ := (hs.mapped pid).mp hm
        exact hnone j hj
    · apply hs.beside ha _ huses
      · intro pid
        rw [hmapped]
        rfl
      · rw [hshmems, Function.update_of_ne hss]
  | sem_create key address s₀ ext w' hs₀ hkey hviews =>
    exact hs.beside ha (congrFun (congrArg Views.shmems hviews) s)
      (fun j => (uses_useSem (x := x) hi (node_of_views hviews) s j).1)
      fun pid => congrFun (congrFun (congrArg Views.mapped hviews) pid) s
  | sem_get key s₀ w' hnot hviews =>
    exact hs.beside ha (congrFun (congrArg Views.shmems hviews) s)
      (fun j => (uses_useSem (x := x) hi (node_of_views hviews) s j).1)
      fun pid => congrFun (congrFun (congrArg Views.mapped hviews) pid) s
  | sem_delete sem s₀ deleted w' hviews =>
    exact hs.beside ha (congrFun (congrArg Views.shmems hviews) s)
      (fun j => (uses_same (node_of_views hviews) s j).1)
      fun pid => congrFun (congrFun (congrArg Views.mapped hviews) pid) s

/-! ## Finalize -/

/-- **The finalize of a node that is attached to nothing** leaves every segment as it is. -/
theorem Mapped.left (h : Mapped x) {w₁ : World} (hl : Left x i c w₁ x') (hi : x.thread i = some c)
    (hmeets : ∀ s, s < MRAPI_MAX_SHMEMS → (x.w.db.shmems s).valid = true → ¬ x.UsesShmem s i)
    (s : ℕ) : Segment x' s := by
  have hs := h.segment s
  have hf := hl.finalized
  have h₁ := h.registry.finalize_node hi hf
  have hfree : ¬ x.UsesShmem s i := by
    intro hu
    have hv := hs.valid i hu
    exact hmeets s (hs.bounded hv) hv hu
  have huses : ∀ j, x'.UsesShmem s j ↔ x.UsesShmem s j := by
    intro j
    rw [(hl.uses h.registry hi s j).1]
    refine ⟨And.right, fun hu => ⟨?_, hu⟩⟩
    rintro rfl
    exact hfree hu
  have hstays : ∀ j c', x.UsesShmem s j → x.thread j = some c' → x'.thread j = some c' := by
    intro j c' hu hj
    obtain ⟨c'', hc''⟩ := Option.isSome_iff_exists.mp ((huses j).mpr hu).1
    have hold := ((hl.node h.registry hi j).1 c'' hc'').2.1
    rw [hj] at hold
    rw [Option.some.inj hold]
    exact hc''
  -- the entry that a finalize frees is mapped nowhere
  have hmapped : ∀ pid, x'.w.mapped pid s = x.w.mapped pid s := by
    intro pid
    rw [hl.detached.mapped, hf.mapped]
    by_cases hfrees : freesShmem s (x.w.db.shmems s) = true
    · unfold freesShmem at hfrees
      rw [Bool.and_eq_true, Bool.and_eq_true, beq_iff_eq] at hfrees
      have hnobody := hs.refs hfrees.1.2
      rw [hfrees.2] at hnobody
      have hnot : x.w.mapped pid s = false := by
        rw [← Bool.not_eq_true]
        intro hm
        obtain ⟨j, c', -, -, hu⟩ := (hs.mapped pid).mp hm
        exact hnobody.ne_zero hu rfl
      rw [hnot, Bool.false_and]
    · rw [Bool.not_eq_true] at hfrees
      rw [hfrees, Bool.and_false, Bool.not_false, Bool.and_true]
  by_cases hlast : lastManStanding w₁.db = true
  · have hnone : ∀ j, ¬ x'.UsesShmem s j := by
      rintro j ⟨hsome, -⟩
      rw [hl.thread, (h₁.lastManStanding.mp hlast) j] at hsome
      cases hsome
    have hdb : x'.w.db = .zero := by
      rw [hl.detached.db, if_pos hlast]
    apply Segment.unused hnone
    · intro hv
      rw [hdb] at hv
      cases hv
    · intro hv
      rw [hdb] at hv
      cases hv
    · intro pid
      rw [hmapped, ← Bool.not_eq_true]
      intro hm
      obtain ⟨j, c', -, -, hu⟩ := (hs.mapped pid).mp hm
      exact hnone j ((huses j).mpr hu)
  · have hdb : x'.w.db = w₁.db := by
      rw [hl.detached.db, if_neg hlast]
    have hnode : ∀ j, x.UsesShmem s j → (x'.w.node j).proc_num = (x.w.node j).proc_num := by
      intro j hu
      obtain ⟨c', hc'⟩ := Option.isSome_iff_exists.mp ((huses j).mpr hu).1
      rw [((hl.node h.registry hi j).1 c' hc').2.2]
    have hthread : ∀ j, x.UsesShmem s j → x'.thread j = x.thread j := by
      intro j hu
      obtain ⟨c', hc'⟩ := Option.isSome_iff_exists.mp hu.1
      rw [hc']
      exact hstays j c' hu hc'
    by_cases hv : (x.w.db.shmems s).valid = true
    · apply hs.same (x.w.db.shmems s).id _ huses hthread hnode hmapped
      rw [hdb]
      rcases hf.shmems s with heq | ⟨hzero, heq⟩
      · exact heq
      · -- a process without nodes was not attached
        have hnot : (x.w.db.shmems s).processes (x.w.node i).proc_num = false := by
          rw [← Bool.not_eq_true]
          intro hset
          obtain ⟨j, hu, hproc⟩ := (hs.processes hv _).mp hset
          obtain ⟨c', hc'⟩ := Option.isSome_iff_exists.mp hu.1
          have hj := hstays j c' hu hc'
          rw [hl.thread] at hj
          have hvalid := (h₁.named j c' hj).process_valid
          unfold World.process at hvalid
          have hsame : ((x.without w₁ i).w.node j).proc_num = (x.w.node i).proc_num := by
            have hw₁ : (x.without w₁ i).w.node j = x'.w.node j := by
              unfold World.node
              rw [hdb]
              rfl
            rw [hw₁, hnode j hu, hproc]
          rw [hsame] at hvalid
          change (w₁.db.processes _).valid = true at hvalid
          rw [hf.processes, if_pos rfl, hzero] at hvalid
          cases hvalid
        rw [heq, ← hnot, Function.update_eq_self]
    · -- an entry that is not valid has no users
      have hinvalid : (x'.w.db.shmems s).valid = false := by
        rw [hdb]
        rw [Bool.not_eq_true] at hv
        rcases hf.shmems s with heq | ⟨-, heq⟩
        · rw [heq]
          exact hv
        · rw [heq]
          exact hv
      have hnone : ∀ j, ¬ x'.UsesShmem s j :=
        fun j hu => hv (hs.valid j ((huses j).mp hu))
      apply Segment.unused hnone
      · intro hv'
        rw [hinvalid] at hv'
        cases hv'
      · intro hv'
        rw [hinvalid] at hv'
        cases hv'
      · intro pid
        rw [hmapped, ← Bool.not_eq_true]
        intro hm
        obtain ⟨j, c', -, -, hu⟩ := (hs.mapped pid).mp hm
        exact hnone j ((huses j).mpr hu)

/-! ## Runs -/

/-- **One step** under the condition. -/
theorem Mapped.step (h : Mapped x) {a : Label} (hmeets : MapMeets x a)
    (hstep : NodeTable.step x a = some x') : Mapped x' := by
  have hregistry := h.registry.step hmeets.calls hstep
  cases a with
  | start c domain_id node_id =>
    cases h.registry.initialized hstep with
    | again => exact h
    | tried w' hwho ht =>
      refine ⟨hregistry, h.clear.tried ht, fun s => ?_⟩
      apply (h.segment s).same (x.w.db.shmems s).id
      · exact congrFun ht.objects.shmems s
      · exact fun j => (uses_tried ht s j).1
      · exact fun _ _ => rfl
      · exact fun j _ => ht.proc_num j.dindex j.nindex
      · exact fun pid => congrFun (congrFun ht.mapped pid) s
    | added w' i p hwho hn hp ha =>
      have hnot := h.registry.unregistered hn
      refine ⟨hregistry, h.clear.added ha, fun s => ?_⟩
      have hother : ∀ j, x.UsesShmem s j → j ≠ i := by
        rintro j hu rfl
        have hsome := hu.1
        rw [hnot] at hsome
        cases hsome
      apply (h.segment s).same (x.w.db.shmems s).id
      · exact congrFun ha.objects.shmems s
      · exact fun j => (uses_added h.clear hnot ha s j).1
      · exact fun j hu => Function.update_of_ne (hother j hu) ..
      · intro j hu
        change (w'.node j).proc_num = (x.w.node j).proc_num
        rw [ha.at, if_neg (hother j hu)]
      · exact fun pid => congrFun (congrFun ha.mapped pid) s
  | finalize c =>
    obtain ⟨i, hi, hfree⟩ := hmeets
    obtain ⟨w₁, hl⟩ := h.registry.finalize_step hi hstep
    exact ⟨hregistry, h.clear.left hl h.registry hi, h.left hl hi hfree⟩
  | panic c => exact hmeets.elim
  | use c call =>
    obtain ⟨i, hi, hattach⟩ := hmeets
    obtain rfl := Option.some.inj hstep
    have hu := (h.registry.named i c hi).used call
    exact ⟨hregistry, h.clear.used hi hu, h.used hi hattach (Aside.run x.w c call) hu⟩

/-- A delete under the condition finds nobody attached, or is refused. -/
theorem AttachMeets.delete {shmem : ℕ} {removed : Bool}
    (hmeets : AttachMeets x i (.shmem_delete shmem removed)) : DeleteOk x c shmem removed := by
  rintro hvalid ⟨j, hj⟩
  cases removed with
  | true => exact absurd hj (hmeets hvalid rfl j)
  | false =>
    unfold mrapi_shmem_delete
    rw [if_neg (by rw [hvalid]; decide)]
    exact ⟨rfl, fun h => nomatch h⟩

end MxApi.NodeTable
