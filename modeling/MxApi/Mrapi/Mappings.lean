/-
Where shared memory is mapped.

Attachment is recorded three times: in the lists of the nodes, in the processes of the entry,
which `num_procs` counts, and in what the operating system has mapped. [`Segment`] says that the
three agree. They come apart in four ways: a node attaches where its process cannot map the
segment; a detach takes another node of its process for one that is attached, since it asks only
whether the process is; an entry is deleted without asking whether a node is attached, although
that is what the documentation of the call says; and a finalize does not detach its node.
-/
import MxApi.Mrapi.ObjectUsers

set_option autoImplicit false

namespace MxApi.NodeTable

open Lib
open LockTable (Node MRAPI_MAX_DOMAINS MRAPI_MAX_NODES mrapi_impl_encode_hndl
  mrapi_impl_decode_hndl)
open mrapi_status_t

/-! ## The contract -/

/-- What is recorded of a segment follows the attachments of the registered nodes: the processes
of its entry, their number, and where it is mapped. -/
structure MapOk (x : Sys) (s : ℕ) : Prop where
  processes : (x.w.db.shmems s).valid = true → ∀ p, (x.w.db.shmems s).processes p = true ↔
    ∃ j, x.UsesShmem s j ∧ (x.w.node j).proc_num = p
  num_procs : (x.w.db.shmems s).valid = true →
    Tally (fun p => ∃ j, x.UsesShmem s j ∧ (x.w.node j).proc_num = p) (x.w.db.shmems s).num_procs
  mapped : ∀ pid, x.w.mapped pid s = true ↔
    ∃ j c, x.thread j = some c ∧ c.pid = pid ∧ x.UsesShmem s j

/-- A delete of a segment that a node is attached to fails without effect. -/
def DeleteOk (x : Sys) (c : Thread) (shmem : ℕ) (removed : Bool) : Prop :=
  mrapi_impl_valid_shmem_hndl x.w shmem = true →
    (∃ j, x.UsesShmem (mrapi_impl_decode_hndl shmem).1 j) →
      (mrapi_shmem_delete x.w c shmem removed).1 = x.w ∧
        (mrapi_shmem_delete x.w c shmem removed).2.status ≠ some MRAPI_SUCCESS

/-! ## The condition -/

/-- What a call of node `i` has to meet. -/
def AttachMeets (x : Sys) (i : Node) : Call → Prop
  -- the process can map the segment
  | .shmem_attach shmem => mrapi_impl_valid_shmem_hndl x.w shmem = true →
      ¬ x.UsesShmem (mrapi_impl_decode_hndl shmem).1 i →
      (x.w.db.shmems (mrapi_impl_decode_hndl shmem).1).id (x.w.node i).proc_num = true ∧
        x.w.segment (mrapi_impl_decode_hndl shmem).1 = true
  -- another node of the process is attached too, or there is none
  | .shmem_detach shmem => mrapi_impl_valid_shmem_hndl x.w shmem = true →
      x.UsesShmem (mrapi_impl_decode_hndl shmem).1 i →
      (∃ j, j ≠ i ∧ (x.w.node j).proc_num = (x.w.node i).proc_num ∧
        x.UsesShmem (mrapi_impl_decode_hndl shmem).1 j) ∨
      ∀ j, j ≠ i → (x.thread j).isSome = true → (x.w.node j).proc_num ≠ (x.w.node i).proc_num
  -- nobody is attached, or the operating system refuses
  | .shmem_delete shmem removed => mrapi_impl_valid_shmem_hndl x.w shmem = true →
      removed = true → ∀ j, ¬ x.UsesShmem (mrapi_impl_decode_hndl shmem).1 j
  | _ => True

/-- What a step has to meet: an initialize may be tried by any thread; a finalize is that of a
node that is attached to nothing. -/
def MapMeets (x : Sys) : Label → Prop
  | .start _ _ _ => True
  | .finalize c => ∃ i, x.thread i = some c ∧
      ∀ s, s < MRAPI_MAX_SHMEMS → (x.w.db.shmems s).valid = true → ¬ x.UsesShmem s i
  | .panic _ => False
  | .use c call => ∃ i, x.thread i = some c ∧ AttachMeets x i call

instance (x : Sys) (i : Node) : DecidablePred (AttachMeets x i) := by
  intro call
  unfold AttachMeets
  split <;> infer_instance

instance (x : Sys) : DecidablePred (MapMeets x) := by
  intro a
  unfold MapMeets
  split <;> infer_instance

theorem MapMeets.calls {x : Sys} {a : Label} (h : MapMeets x a) : Calls x a := by
  cases a with
  | start c domain_id node_id => exact trivial
  | finalize c =>
    obtain ⟨i, hi, -⟩ := h
    exact ⟨i, hi⟩
  | panic c => exact h.elim
  | use c call =>
    obtain ⟨i, hi, -⟩ := h
    exact ⟨i, hi⟩

/-! ## The invariant -/

/-- The three records of a segment agree. -/
structure Segment (x : Sys) (s : ℕ) : Prop where
  bounded : (x.w.db.shmems s).valid = true → s < MRAPI_MAX_SHMEMS
  valid : ∀ j, x.UsesShmem s j → (x.w.db.shmems s).valid = true
  refs : (x.w.db.shmems s).valid = true → Tally (x.UsesShmem s) (x.w.db.shmems s).refs
  processes : (x.w.db.shmems s).valid = true → ∀ p, (x.w.db.shmems s).processes p = true ↔
    ∃ j, x.UsesShmem s j ∧ (x.w.node j).proc_num = p
  counted : (x.w.db.shmems s).valid = true →
    Tally (fun p => (x.w.db.shmems s).processes p = true) (x.w.db.shmems s).num_procs
  mapped : ∀ pid, x.w.mapped pid s = true ↔
    ∃ j c, x.thread j = some c ∧ c.pid = pid ∧ x.UsesShmem s j

structure Mapped (x : Sys) : Prop where
  registry : Registry x
  clear : x.Clear
  segment : ∀ s, Segment x s

variable {x x' : Sys} {i : Node} {c : Thread} {s : ℕ} {w' : World}

/-- Nothing has changed that the segment depends on. -/
theorem Segment.same (h : Segment x s) (id : ℕ → Bool)
    (hentry : x'.w.db.shmems s = { x.w.db.shmems s with id := id })
    (huses : ∀ j, x'.UsesShmem s j ↔ x.UsesShmem s j)
    (hthread : ∀ j, x.UsesShmem s j → x'.thread j = x.thread j)
    (hproc : ∀ j, x.UsesShmem s j → (x'.w.node j).proc_num = (x.w.node j).proc_num)
    (hmapped : ∀ pid, x'.w.mapped pid s = x.w.mapped pid s) : Segment x' s := by
  constructor
  · rw [hentry]
    exact h.bounded
  · intro j hj
    rw [hentry]
    exact h.valid j ((huses j).mp hj)
  · intro hv
    rw [hentry] at hv ⊢
    exact (h.refs hv).congr huses
  · intro hv p
    rw [hentry] at hv ⊢
    refine (h.processes hv p).trans (exists_congr fun j => ?_)
    rw [huses j]
    refine and_congr_right fun hj => ?_
    rw [hproc j hj]
  · intro hv
    rw [hentry] at hv ⊢
    exact h.counted hv
  · intro pid
    rw [hmapped]
    refine (h.mapped pid).trans (exists_congr fun j => exists_congr fun c => ?_)
    rw [huses j]
    constructor
    · rintro ⟨hj, hpid, hu⟩
      exact ⟨(hthread j hu).trans hj, hpid, hu⟩
    · rintro ⟨hj, hpid, hu⟩
      exact ⟨(hthread j hu).symm.trans hj, hpid, hu⟩

theorem Segment.mapOk (h : Segment x s) : MapOk x s := by
  refine ⟨h.processes, ?_, h.mapped⟩
  intro hv
  exact (h.counted hv).congr fun p => (h.processes hv p).symm

theorem Mapped.initial : Mapped Sys.initial where
  registry := .initial
  clear := .initial
  segment := fun _ => {
    bounded := fun h => nomatch h
    valid := fun _ h => nomatch h.1
    refs := fun h => nomatch h
    processes := fun h => nomatch h
    counted := fun h => nomatch h
    mapped := fun _ => ⟨(fun h => nomatch h), fun ⟨_, _, h, _⟩ => nomatch h⟩ }

/-! ## Attach and detach -/

/-- No more processes are counted than there are. -/
theorem Segment.num_procs_le (h : Segment x s) (hr : Registry x)
    (hv : (x.w.db.shmems s).valid = true) : (x.w.db.shmems s).num_procs ≤ MRAPI_MAX_PROCESSES := by
  apply (h.counted hv).le_of_lt
  intro p hp
  obtain ⟨j, ⟨hsome, -⟩, hproc⟩ := (h.processes hv p).mp hp
  obtain ⟨c, hc⟩ := Option.isSome_iff_exists.mp hsome
  rw [← hproc]
  exact hr.proc_num_lt hc

/-- The node that attaches is the only one that is new. -/
theorem Segment.attach (h : Segment x s) (x' : Sys) (hr : Registry x) (hi : x.thread i = some c)
    (hv : (x.w.db.shmems s).valid = true) (hnot : ¬ x.UsesShmem s i)
    (hthread : x'.thread = x.thread)
    (hproc : ∀ j, (x'.w.node j).proc_num = (x.w.node j).proc_num)
    (huses : ∀ j, x'.UsesShmem s j ↔ j = i ∨ x.UsesShmem s j)
    (hentry : x'.w.db.shmems s = attachEntry (x.w.db.shmems s) (x.w.node i).proc_num)
    (hmapped : ∀ pid, x'.w.mapped pid s = (x.w.mapped pid s || pid == c.pid)) : Segment x' s := by
  obtain ⟨hmore, hle⟩ := users_enter (h.refs hv) hnot huses
  have hvalid : (x'.w.db.shmems s).valid = true := by
    rw [hentry, attachEntry_valid]
    exact hv
  have hprocesses : ∀ p, (x'.w.db.shmems s).processes p = true ↔
      p = (x.w.node i).proc_num ∨ (x.w.db.shmems s).processes p = true := by
    intro p
    rw [hentry]
    unfold attachEntry
    dsimp only
    split
    · rename_i hset
      dsimp only
      constructor
      · exact .inr
      · rintro (hp | hp)
        · rw [hp]
          exact hset
        · exact hp
    · dsimp only
      rw [Function.update_apply]
      split
      · rename_i hp
        exact ⟨fun _ => .inl hp, fun _ => rfl⟩
      · rename_i hp
        exact ⟨.inr, fun hor => hor.resolve_left hp⟩
  constructor
  · intro _
    exact h.bounded hv
  · intro j _
    exact hvalid
  · intro _
    have hrefs : (x'.w.db.shmems s).refs = (x.w.db.shmems s).refs + 1 := by
      rw [hentry, attachEntry_refs]
      apply u8_of_lt
      omega
    rw [hrefs]
    exact hmore
  · intro _ p
    rw [hprocesses, h.processes hv]
    constructor
    · rintro (hp | ⟨j, hj, hp⟩)
      · exact ⟨i, (huses i).mpr (.inl rfl), (hproc i).trans hp.symm⟩
      · exact ⟨j, (huses j).mpr (.inr hj), (hproc j).trans hp⟩
    · rintro ⟨j, hj, hp⟩
      rw [hproc] at hp
      rcases (huses j).mp hj with hji | hold
      · rw [hji] at hp
        exact .inl hp.symm
      · exact .inr ⟨j, hold, hp⟩
  · intro _
    by_cases hset : (x.w.db.shmems s).processes (x.w.node i).proc_num = true
    · have hnum : (x'.w.db.shmems s).num_procs = (x.w.db.shmems s).num_procs := by
        rw [hentry]
        unfold attachEntry
        dsimp only
        rw [if_pos hset]
      rw [hnum]
      apply (h.counted hv).congr
      intro p
      rw [hprocesses]
      constructor
      · rintro (hp | hp)
        · rw [hp]
          exact hset
        · exact hp
      · exact .inr
    · have hbound := h.num_procs_le hr hv
      have hnum : (x'.w.db.shmems s).num_procs = (x.w.db.shmems s).num_procs + 1 := by
        have hu8 : u8 ((x.w.db.shmems s).num_procs + 1) = (x.w.db.shmems s).num_procs + 1 := by
          apply u8_of_lt
          unfold MRAPI_MAX_PROCESSES at hbound
          omega
        rw [hentry]
        unfold attachEntry
        dsimp only
        rw [if_neg hset, hu8]
      rw [hnum]
      refine (h.counted hv).enter hset ((hprocesses _).mpr (.inl rfl)) ?_
      intro p hp
      rw [hprocesses]
      exact ⟨fun hor => hor.resolve_left hp, .inr⟩
  · intro pid
    rw [hmapped, Bool.or_eq_true, beq_iff_eq, h.mapped, hthread]
    constructor
    · rintro (⟨j, c', hj, hpid, hu⟩ | hpid)
      · exact ⟨j, c', hj, hpid, (huses j).mpr (.inr hu)⟩
      · exact ⟨i, c, hi, hpid.symm, (huses i).mpr (.inl rfl)⟩
    · rintro ⟨j, c', hj, hpid, hu⟩
      rcases (huses j).mp hu with hji | hold
      · rw [hji, hi] at hj
        rw [Option.some.inj hj]
        exact .inr hpid.symm
      · exact .inl ⟨j, c', hj, hpid, hold⟩

/-- The code asks whether its process has no other node at all. -/
theorem Registry.lastAttached (h : Registry x) (hi : x.thread i = some c)
    (hp : (x.w.db.shmems s).processes (x.w.node i).proc_num = true) :
    lastAttached x.w c s = true ↔
      ∀ j, j ≠ i → (x.thread j).isSome = true → (x.w.node j).proc_num ≠ (x.w.node i).proc_num := by
  have hn := h.named i c hi
  unfold NodeTable.lastAttached
  rw [List.all_eq_true]
  constructor
  · intro hall j hne hsome hproc
    obtain ⟨c', hj⟩ := Option.isSome_iff_exists.mp hsome
    have hplace := hall _ (node_mem j)
    dsimp only at hplace
    have hprocj : (x.w.db.node j.dindex j.nindex).proc_num = (x.w.node i).proc_num := hproc
    have hpid : (x.w.db.processes (x.w.node i).proc_num).pid = c.pid := hn.process_pid
    have hvalid : (x.w.db.node j.dindex j.nindex).valid = true := h.thread_valid hj
    have hother : ((j.dindex, j.nindex) == ((x.w.tls c).mrapi_dindex, (x.w.tls c).mrapi_nindex))
        = false := by
      rw [beq_eq_false_iff_ne, hn.dindex, hn.nindex]
      exact fun heq => hne (node_eq (congrArg Prod.fst heq) (congrArg Prod.snd heq))
    rw [hother, hprocj, hp, hvalid, hpid, beq_self_eq_true] at hplace
    exact absurd hplace (by decide)
  · rintro hnone ⟨d, n⟩ -
    dsimp only
    by_contra hplace
    rw [Bool.not_eq_true, Bool.or_eq_false_iff, Bool.or_eq_false_iff, Bool.not_eq_false',
      Bool.not_eq_false', Bool.and_eq_true, beq_iff_eq, beq_eq_false_iff_ne] at hplace
    obtain ⟨⟨hother, -⟩, hvalid, hpid⟩ := hplace
    obtain ⟨j, c', rfl, rfl, hj⟩ := h.exists_thread hvalid
    apply hnone j _ (by rw [hj]; rfl)
    · -- a process has one entry
      exact h.one_entry _ _ (h.named j c' hj).process_valid hn.process_valid
        (hpid.trans hn.process_pid.symm)
    · rintro rfl
      rw [hn.dindex, hn.nindex] at hother
      exact hother rfl

/-- The node that detaches is the only one that is gone. -/
theorem Segment.detach (h : Segment x s) (x' : Sys) (hr : Registry x) (hi : x.thread i = some c)
    (hv : (x.w.db.shmems s).valid = true) (hold : x.UsesShmem s i)
    (hmeets : (∃ j, j ≠ i ∧ (x.w.node j).proc_num = (x.w.node i).proc_num ∧ x.UsesShmem s j) ∨
      ∀ j, j ≠ i → (x.thread j).isSome = true → (x.w.node j).proc_num ≠ (x.w.node i).proc_num)
    (hthread : x'.thread = x.thread)
    (hproc : ∀ j, (x'.w.node j).proc_num = (x.w.node j).proc_num)
    (huses : ∀ j, x'.UsesShmem s j ↔ j ≠ i ∧ x.UsesShmem s j)
    (hentry : x'.w.db.shmems s = detachEntry (x.w.db.shmems s) (x.w.node i).proc_num
      (lastAttached x.w c s))
    (hmapped : ∀ pid, x'.w.mapped pid s =
      (x.w.mapped pid s && !(lastAttached x.w c s && pid == c.pid))) : Segment x' s := by
  have hset : (x.w.db.shmems s).processes (x.w.node i).proc_num = true :=
    (h.processes hv _).mpr ⟨i, hold, rfl⟩
  have hlast := hr.lastAttached hi hset
  obtain ⟨k, hk, hle, hless⟩ := users_leave (h.refs hv) hold huses
  have hvalid : (x'.w.db.shmems s).valid = true := by
    rw [hentry, detachEntry_valid]
    exact hv
  have hrefs : (x'.w.db.shmems s).refs = k := by
    rw [hentry, detachEntry_refs, subU8_of_le (by omega) (by omega), hk]
    rfl
  -- the pid of a node of the process is that of the caller
  have hpids : ∀ j c', x.thread j = some c' →
      (c'.pid = c.pid ↔ (x.w.node j).proc_num = (x.w.node i).proc_num) := by
    intro j c' hj
    have hnj := hr.named j c' hj
    have hni := hr.named i c hi
    constructor
    · intro hpid
      exact hr.one_entry _ _ hnj.process_valid hni.process_valid
        (hnj.process_pid.trans (hpid.trans hni.process_pid.symm))
    · intro hp
      have hpidj := hnj.process_pid
      unfold World.process at hpidj
      rw [hp] at hpidj
      exact hpidj.symm.trans hni.process_pid
  constructor
  · intro _
    exact h.bounded hv
  · intro j _
    exact hvalid
  · intro _
    rw [hrefs]
    exact hless
  · intro _ p
    rw [hentry]
    unfold detachEntry
    dsimp only
    by_cases hl : lastAttached x.w c s = true
    · rw [if_pos hl]
      dsimp only
      rw [Function.update_apply]
      by_cases hp : p = (x.w.node i).proc_num
      · rw [if_pos hp]
        refine ⟨(fun hf => nomatch hf), ?_⟩
        rintro ⟨j, hj, hpj⟩
        obtain ⟨hne, hu⟩ := (huses j).mp hj
        rw [hproc, hp] at hpj
        exact absurd hpj (hlast.mp hl j hne hu.1)
      · rw [if_neg hp, h.processes hv]
        refine exists_congr fun j => ?_
        rw [huses, hproc]
        constructor
        · rintro ⟨hu, hpj⟩
          refine ⟨⟨?_, hu⟩, hpj⟩
          rintro rfl
          exact hp hpj.symm
        · rintro ⟨⟨-, hu⟩, hpj⟩
          exact ⟨hu, hpj⟩
    · rw [if_neg hl]
      dsimp only
      rw [h.processes hv]
      have hother := hmeets.resolve_right fun hnone => hl (hlast.mpr hnone)
      constructor
      · rintro ⟨j, hj, hpj⟩
        by_cases hji : j = i
        · obtain ⟨j', hne, hpj', hj'⟩ := hother
          rw [hji] at hpj
          exact ⟨j', (huses j').mpr ⟨hne, hj'⟩, (hproc j').trans (hpj'.trans hpj)⟩
        · exact ⟨j, (huses j).mpr ⟨hji, hj⟩, (hproc j).trans hpj⟩
      · rintro ⟨j, hj, hpj⟩
        rw [hproc] at hpj
        exact ⟨j, ((huses j).mp hj).2, hpj⟩
  · intro _
    rw [hentry]
    unfold detachEntry
    dsimp only
    by_cases hl : lastAttached x.w c s = true
    · rw [if_pos hl]
      dsimp only
      have hbound := h.num_procs_le hr hv
      unfold MRAPI_MAX_PROCESSES at hbound
      have hfewer : ∃ m, (x.w.db.shmems s).num_procs = m + 1 ∧ Tally (fun p =>
          Function.update (x.w.db.shmems s).processes (x.w.node i).proc_num false p = true) m := by
        apply (h.counted hv).leave hset
        · rw [Function.update_self]
          exact Bool.false_ne_true
        · intro p hp
          rw [Function.update_of_ne hp]
      obtain ⟨m, hm, hfewer⟩ := hfewer
      rw [subU8_of_le (by omega) (by omega), hm]
      exact hfewer
    · rw [if_neg hl]
      exact h.counted hv
  · intro pid
    rw [hmapped, Bool.and_eq_true, Bool.not_eq_true', h.mapped, hthread]
    constructor
    · rintro ⟨⟨j, c', hj, hpid, hu⟩, hkept⟩
      by_cases hji : j = i
      · -- the mapping stays for another node of the process
        rw [hji, hi] at hj
        cases hj
        rw [Bool.and_eq_false_imp, beq_eq_false_iff_ne] at hkept
        have hl : ¬ lastAttached x.w c s = true := fun hl => hkept hl hpid.symm
        obtain ⟨j', hne, hpj', hj'⟩ := hmeets.resolve_right fun hnone => hl (hlast.mpr hnone)
        obtain ⟨c'', hc''⟩ := Option.isSome_iff_exists.mp hj'.1
        exact ⟨j', c'', hc'', ((hpids j' c'' hc'').mpr hpj').trans hpid,
          (huses j').mpr ⟨hne, hj'⟩⟩
      · exact ⟨j, c', hj, hpid, (huses j).mpr ⟨hji, hu⟩⟩
    · rintro ⟨j, c', hj, hpid, hu⟩
      obtain ⟨hne, hu'⟩ := (huses j).mp hu
      refine ⟨⟨j, c', hj, hpid, hu'⟩, ?_⟩
      rw [Bool.and_eq_false_imp, beq_eq_false_iff_ne, ← hpid]
      intro hl hpc
      exact hlast.mp hl j hne hu'.1 ((hpids j c' hj).mp hpc)

end MxApi.NodeTable
