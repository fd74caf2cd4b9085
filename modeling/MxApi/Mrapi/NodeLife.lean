/-
What initialize, finalize and the clean-up of a panic do to the record of the nodes, and the
invariant of all runs ([`registry_run`]).

A finalize is two parts, also in a panic: nodes go, one after the other
([`Registry.finalize_node`]), and then the process may be detached ([`Registry.detach`]).
-/
import MxApi.Mrapi.Registry

set_option autoImplicit false

namespace MxApi.NodeTable

open Lib
open LockTable (Node MRAPI_MAX_DOMAINS MRAPI_MAX_NODES MRAPI_MAX_SEMS)

variable {x : Sys} {i : Node} {c : Thread} {pid : ℕ}

/-! ## Initialize -/

theorem isPlace_iff {w : World} : w.isPlace c i = true ↔
    i.dindex = (w.tls c).mrapi_dindex ∧ i.nindex = (w.tls c).mrapi_nindex := by
  unfold World.isPlace
  rw [Bool.and_eq_true, beq_iff_eq, beq_iff_eq]

theorem domainIndex_lt {db : mrapi_database} {domain_id d : ℕ}
    (h : domainIndex db domain_id = some d) : d < MRAPI_MAX_DOMAINS := by
  unfold domainIndex at h
  split at h
  · rename_i hd
    cases h
    exact (search_some hd).1
  · exact (search_some h).1

/-- An initialize changes nothing that is registered, or it adds a node. -/
inductive Initialized (x : Sys) (c : Thread) (domain_id node_id : ℕ) : Sys → Prop
  | again (hwho : mrapi_impl_whoami x.w c ≠ none) : Initialized x c domain_id node_id x
  | tried (w' : World) (hwho : mrapi_impl_whoami x.w c = none) (h : Tried x.w c w') :
      Initialized x c domain_id node_id { x with w := w' }
  | added (w' : World) (i : Node) (p : ℕ) (hwho : mrapi_impl_whoami x.w c = none)
      (hn : freeNode x.w.db i.dindex = some i.nindex)
      (hp : processIndex x.w.db c.pid = some p)
      (h : Added x.w c domain_id node_id i.dindex i.nindex p w') :
      Initialized x c domain_id node_id (x.with w' i c)

theorem Registry.initialized (h : Registry x) {domain_id node_id : ℕ} {x' : Sys}
    (hstep : step x (.start c domain_id node_id) = some x') :
    Initialized x c domain_id node_id x' := by
  dsimp only [step] at hstep
  by_cases hwho : mrapi_impl_whoami x.w c = none
  · by_cases hroom : Room x.w c domain_id node_id
    · obtain ⟨d, n, p, w', heq, hd, hn, hp, ha⟩ := initialize_room hwho (hroom.vacant h.allocated)
      let i : Node := ⟨d, n, domainIndex_lt hd, (search_some hn).1⟩
      have hplace : ∀ j, w'.isPlace c j = true ↔ j = i := by
        intro j
        rw [isPlace_iff, ha.tls, Function.update_self]
        exact ⟨fun hj => node_eq hj.1 hj.2, by rintro rfl; exact ⟨rfl, rfl⟩⟩
      have hwith : x' = x.with w' i c := by
        rw [heq] at hstep
        obtain rfl := Option.some.inj hstep
        unfold Sys.with
        congr 1
        funext j
        rw [Function.update_apply, Bool.true_and]
        by_cases hj : j = i
        · rw [if_pos hj, if_pos ((hplace j).mpr hj)]
        · rw [if_neg hj, if_neg fun hjp => hj ((hplace j).mp hjp)]
      rw [hwith]
      exact .added w' i p hwho hn hp ha
    · rcases initialize_no_room hwho hroom with hnone | ⟨w', heq, -, ht⟩
      · rw [hnone] at hstep
        cases hstep
      · rw [heq] at hstep
        obtain rfl := Option.some.inj hstep
        exact .tried w' hwho ht
  · rw [initialize_again hwho] at hstep
    obtain rfl := Option.some.inj hstep
    exact .again hwho

/-! ## Who is left -/

theorem mem_nodeIndexes {d n : ℕ} :
    (d, n) ∈ nodeIndexes ↔ d < MRAPI_MAX_DOMAINS ∧ n < MRAPI_MAX_NODES := by
  unfold nodeIndexes
  rw [List.mem_flatMap]
  constructor
  · rintro ⟨d', hd, hn⟩
    obtain ⟨n', hn', heq⟩ := List.mem_map.mp hn
    cases heq
    exact ⟨List.mem_range.mp hd, List.mem_range.mp hn'⟩
  · rintro ⟨hd, hn⟩
    exact ⟨d, List.mem_range.mpr hd, List.mem_map.mpr ⟨n, List.mem_range.mpr hn, rfl⟩⟩

theorem node_mem (i : Node) : (i.dindex, i.nindex) ∈ nodeIndexes :=
  mem_nodeIndexes.mpr ⟨i.dindex_lt, i.nindex_lt⟩

/-- No thread is registered. -/
theorem Registry.lastManStanding (h : Registry x) :
    lastManStanding x.w.db = true ↔ ∀ i, x.thread i = none := by
  unfold NodeTable.lastManStanding
  rw [List.all_eq_true]
  constructor
  · intro hall i
    have hi := hall _ (node_mem i)
    rw [Bool.not_eq_true'] at hi
    have hv := h.valid i
    rw [show (x.w.node i).valid = false from hi] at hv
    exact Option.isNone_iff_eq_none.mp (Option.isSome_eq_false_iff.mp hv.symm)
  · rintro hnone ⟨d, n⟩ -
    rw [Bool.not_eq_true', ← Bool.not_eq_true]
    intro hv
    obtain ⟨i, c, -, -, hi⟩ := h.exists_thread hv
    rw [hnone] at hi
    cases hi

/-- No thread of the process is registered. -/
theorem Registry.lastManStandingForThisProcess (h : Registry x) :
    lastManStandingForThisProcess pid x.w.db = true ↔
      ∀ i c, x.thread i = some c → c.pid ≠ pid := by
  unfold NodeTable.lastManStandingForThisProcess
  rw [List.all_eq_true]
  constructor
  · intro hall i c hi hpid
    have hlast := hall _ (node_mem i)
    rw [show (x.w.db.node i.dindex i.nindex).valid = true from h.thread_valid hi, h.pidOf hi,
      Bool.true_and, Bool.not_eq_true', beq_eq_false_iff_ne] at hlast
    exact hlast hpid
  · rintro hnone ⟨d, n⟩ -
    rw [Bool.not_eq_true', ← Bool.not_eq_true, Bool.and_eq_true, beq_iff_eq]
    rintro ⟨hv, hpid⟩
    obtain ⟨i, c, rfl, rfl, hi⟩ := h.exists_thread hv
    rw [h.pidOf hi] at hpid
    exact hnone i c hi hpid

theorem Registry.inRange (h : Registry x) : inRange x.w.db = true := by
  unfold NodeTable.inRange
  rw [List.all_eq_true]
  rintro ⟨d, n⟩ -
  rw [Bool.or_eq_true, Bool.not_eq_true', decide_eq_true_iff, ← Bool.not_eq_true]
  by_cases hv : (x.w.db.node d n).valid = true
  · obtain ⟨i, c, rfl, rfl, hi⟩ := h.exists_thread hv
    exact .inr (h.proc_num_lt hi)
  · exact .inl hv

/-! ## Detaching -/

/-- What is left of the database and of the pointer of the process. -/
structure Detached (w : World) (pid : ℕ) (last lastForThisProcess : Bool) (w' : World) :
    Prop where
  db : w'.db = if last then .zero else w.db
  mrapi_db : w'.mrapi_db =
    if lastForThisProcess then Function.update w.mrapi_db pid false else w.mrapi_db
  tls : w'.tls = w.tls
  mapped : w'.mapped = w.mapped
  segment : w'.segment = w.segment

/-- The last node of the process has left an empty entry, so that clearing it again changes
nothing. -/
theorem detached {w : World} {last lastForThisProcess : Bool}
    (hlast : last = true → lastForThisProcess = true)
    (hp : (w.tls c).mrapi_pindex < MRAPI_MAX_PROCESSES)
    (hempty : lastForThisProcess = true → w.db.processes (w.tls c).mrapi_pindex = .zero) :
    ∃ w', detachDatabase w c last lastForThisProcess = some w' ∧
      Detached w c.pid last lastForThisProcess w' := by
  unfold detachDatabase
  dsimp only
  by_cases hprocess : lastForThisProcess = true
  · rw [if_pos hprocess, if_pos hp, hprocess]
    have hsame : w.db.setProcess (w.tls c).mrapi_pindex .zero = w.db := by
      unfold mrapi_database.setProcess
      rw [← hempty hprocess, Function.update_eq_self]
    rw [hsame]
    exact ⟨_, rfl, rfl, rfl, rfl, rfl, rfl⟩
  · have hnot : ¬ last = true := fun h => hprocess (hlast h)
    rw [if_neg hprocess, if_neg hnot]
    rw [Bool.not_eq_true] at hprocess hnot
    rw [hprocess, hnot]
    exact ⟨_, rfl, rfl, rfl, rfl, rfl, rfl⟩

/-- **A process without nodes is detached**, and the database is deleted with the last one. -/
theorem Registry.detach (h : Registry x) {w' : World}
    (hd : Detached x.w pid (NodeTable.lastManStanding x.w.db)
      (NodeTable.lastManStandingForThisProcess pid x.w.db) w') :
    Registry { x with w := w' } := by
  by_cases hlast : NodeTable.lastManStanding x.w.db = true
  · have hnone := h.lastManStanding.mp hlast
    have hdb := hd.db
    rw [if_pos hlast] at hdb
    constructor
    · intro i
      change (w'.db.node i.dindex i.nindex).valid = (x.thread i).isSome
      rw [hdb, hnone]
      rfl
    · intro d n hv
      change (w'.db.node d n).valid = true at hv
      rw [hdb] at hv
      cases hv
    · intro d n hv
      change (w'.db.node d n).valid = true at hv
      rw [hdb] at hv
      cases hv
    · intro i c hi
      change x.thread i = some c at hi
      rw [hnone] at hi
      cases hi
    · intro p
      change ProcessOk _ p (w'.db.processes p)
      rw [hdb]
      exact .zero ..
    · intro p q hv
      change (w'.db.processes p).valid = true at hv
      rw [hdb] at hv
      cases hv
  · have hdb := hd.db
    rw [if_neg hlast] at hdb
    have hnode : w'.node = x.w.node := by
      funext i
      unfold World.node
      rw [hdb]
    constructor
    · intro i
      change (w'.node i).valid = _
      rw [hnode]
      exact h.valid i
    · intro d n hv
      change (w'.db.node d n).valid = true at hv
      rw [hdb] at hv
      exact h.inside d n hv
    · intro d n hv
      change (w'.db.node d n).valid = true at hv
      change (w'.db.node d n).allocated = true
      rw [hdb] at hv ⊢
      exact h.allocated d n hv
    · intro i c hi
      have hn := h.named i c hi
      have hprocess : w'.process i = x.w.process i := by
        unfold World.process
        rw [hnode, hdb]
      change Named w' i c
      constructor
      · rw [hd.mrapi_db]
        split
        · rename_i hlastp
          rw [Function.update_of_ne (h.lastManStandingForThisProcess.mp hlastp i c hi)]
          exact hn.attached
        · exact hn.attached
      · rw [hd.tls]
        exact hn.pid
      · rw [hd.tls]
        exact hn.dindex
      · rw [hd.tls]
        exact hn.nindex
      · rw [hd.tls, hnode]
        exact hn.pindex
      · rw [hprocess]
        exact hn.process_valid
      · rw [hprocess]
        exact hn.process_pid
    · intro p
      change ProcessOk _ p (w'.db.processes p)
      rw [hdb]
      have hp := h.processes p
      refine ⟨hp.empty, hp.allocated, hp.bounded, hp.some_node, fun hv => ?_⟩
      apply (hp.counted hv).congr
      intro i
      unfold Sys.In
      dsimp only
      rw [hnode]
    · intro p q
      change (w'.db.processes p).valid = true → (w'.db.processes q).valid = true →
        (w'.db.processes p).pid = (w'.db.processes q).pid → p = q
      rw [hdb]
      exact h.one_entry p q

/-! ## Nodes of one process go -/

/-- Nodes of the process `pid` are gone, and nothing of another one has changed. -/
structure Less (pid : ℕ) (x x' : Sys) : Prop where
  thread : ∀ j c, x.thread j = some c → c.pid ≠ pid → x'.thread j = some c
  gone : ∀ j c, x'.thread j = some c → x.thread j = some c
  node : ∀ j c, x.thread j = some c → c.pid ≠ pid → x'.w.node j = x.w.node j
  processes : ∀ p, (x.w.db.processes p).pid ≠ pid →
    x'.w.db.processes p = x.w.db.processes p
  process_pid : ∀ p, (x'.w.db.processes p).valid = true → (x.w.db.processes p).valid = true ∧
    (x'.w.db.processes p).pid = (x.w.db.processes p).pid
  shmems : ∀ s, (x'.w.db.shmems s).refs = (x.w.db.shmems s).refs ∧
    ∀ p, (x.w.db.processes p).pid ≠ pid →
      (x'.w.db.shmems s).processes p = (x.w.db.shmems s).processes p
  sems : x'.w.db.sems = x.w.db.sems
  mrapi_db : x'.w.mrapi_db = x.w.mrapi_db
  tls : x'.w.tls = x.w.tls

theorem Less.refl (pid : ℕ) (x : Sys) : Less pid x x :=
  ⟨fun _ _ h _ => h, fun _ _ h => h, fun _ _ _ _ => rfl, fun _ _ => rfl,
    fun _ hv => ⟨hv, rfl⟩, fun _ => ⟨rfl, fun _ _ => rfl⟩, rfl, rfl, rfl⟩

theorem Less.trans {x' x'' : Sys} (h : Less pid x x') (h' : Less pid x' x'') :
    Less pid x x'' := by
  have hpid : ∀ p, (x.w.db.processes p).pid ≠ pid → (x'.w.db.processes p).pid ≠ pid := by
    intro p hp
    rw [h.processes p hp]
    exact hp
  constructor
  · intro j c hj hc
    exact h'.thread j c (h.thread j c hj hc) hc
  · intro j c hj
    exact h.gone j c (h'.gone j c hj)
  · intro j c hj hc
    exact (h'.node j c (h.thread j c hj hc) hc).trans (h.node j c hj hc)
  · intro p hp
    exact (h'.processes p (hpid p hp)).trans (h.processes p hp)
  · intro p hv
    obtain ⟨hv', hp'⟩ := h'.process_pid p hv
    obtain ⟨hv'', hp''⟩ := h.process_pid p hv'
    exact ⟨hv'', hp'.trans hp''⟩
  · intro s
    refine ⟨(h'.shmems s).1.trans (h.shmems s).1, ?_⟩
    intro p hp
    exact ((h'.shmems s).2 p (hpid p hp)).trans ((h.shmems s).2 p hp)
  · exact h'.sems.trans h.sems
  · exact h'.mrapi_db.trans h.mrapi_db
  · exact h'.tls.trans h.tls

/-- One node goes. -/
theorem Registry.less (h : Registry x) {w' : World} (hi : x.thread i = some c)
    (hf : Finalized pid x.w i.dindex i.nindex (x.w.node i).proc_num w') :
    Less c.pid x (x.without w' i) := by
  have hpid : (x.w.db.processes (x.w.node i).proc_num).pid = c.pid :=
    (h.named i c hi).process_pid
  have hother : ∀ p, (x.w.db.processes p).pid ≠ c.pid → p ≠ (x.w.node i).proc_num := by
    rintro p hp rfl
    exact hp hpid
  constructor
  · intro j c' hj hc
    change Function.update x.thread i none j = some c'
    rw [Function.update_of_ne, hj]
    rintro rfl
    rw [hi] at hj
    exact hc (congrArg Thread.pid (Option.some.inj hj)).symm
  · intro j c' hj
    change Function.update x.thread i none j = some c' at hj
    rw [Function.update_apply] at hj
    split at hj
    · cases hj
    · exact hj
  · intro j c' hj hc
    change w'.node j = x.w.node j
    rw [hf.at, if_neg]
    rintro rfl
    rw [hi] at hj
    exact hc (congrArg Thread.pid (Option.some.inj hj)).symm
  · intro p hp
    change w'.db.processes p = x.w.db.processes p
    rw [hf.processes, if_neg (hother p hp)]
  · intro p hv
    change (w'.db.processes p).valid = true at hv
    change _ ∧ (w'.db.processes p).pid = (x.w.db.processes p).pid
    rw [hf.processes] at hv ⊢
    by_cases hp : p = (x.w.node i).proc_num
    · rw [if_pos hp] at hv ⊢
      rw [hp]
      exact ⟨(lessOne_valid hv).1, (lessOne_valid hv).2.1⟩
    · rw [if_neg hp] at hv ⊢
      exact ⟨hv, rfl⟩
  · intro s
    change (w'.db.shmems s).refs = _ ∧ ∀ p, _ → (w'.db.shmems s).processes p = _
    rcases hf.shmems s with heq | ⟨-, heq⟩
    · rw [heq]
      exact ⟨rfl, fun _ _ => rfl⟩
    · rw [heq]
      exact ⟨rfl, fun p hp => Function.update_of_ne (hother p hp) ..⟩
  · exact hf.sems
  · exact hf.mrapi_db
  · exact hf.tls

/-- Without nodes a process has no entry. -/
theorem Registry.no_entry (h : Registry x) (hnone : ∀ i c, x.thread i = some c → c.pid ≠ pid)
    {p : ℕ} (hv : (x.w.db.processes p).valid = true) : (x.w.db.processes p).pid ≠ pid := by
  have htally := (h.processes p).counted hv
  have hsome := (h.processes p).some_node hv
  -- the entry counts somebody
  have hex : ∃ i, x.In p i := by
    by_contra hno
    have hzero : Tally (x.In p) 0 := .none fun i hi => hno ⟨i, hi⟩
    exact hsome (htally.card.symm.trans hzero.card)
  obtain ⟨i, hin, hp⟩ := hex
  obtain ⟨c, hi⟩ := Option.isSome_iff_exists.mp hin
  have hpid := (h.named i c hi).process_pid
  unfold World.process at hpid
  rw [hp] at hpid
  rw [hpid]
  exact hnone i c hi

/-- The finalize of a registered node goes through. -/
theorem Registry.exists_finalized (h : Registry x) (hi : x.thread i = some c) (pid : ℕ) :
    ∃ w', mrapi_impl_finalize_node_locked pid x.w i.dindex i.nindex = some w' ∧
      Finalized pid x.w i.dindex i.nindex (x.w.node i).proc_num w' :=
  NodeTable.finalize_node i.dindex_lt i.nindex_lt (h.proc_num_lt hi)

/-- **The loop over the nodes** takes out those of the process, each by its entries. -/
theorem Registry.finalizeOthers (h : Registry x) (l : List (ℕ × ℕ)) :
    ∃ x', NodeTable.finalizeOthers pid x.w l = some x'.w ∧ Registry x' ∧ Less pid x x' ∧
      ∀ j c, x'.thread j = some c → c.pid = pid → (j.dindex, j.nindex) ∉ l := by
  induction l generalizing x with
  | nil => exact ⟨x, rfl, h, .refl pid x, fun _ _ _ _ => List.not_mem_nil⟩
  | cons place rest ih =>
    obtain ⟨d, n⟩ := place
    -- the loop goes on from here without the entry
    have hskip : (∀ j c, x.thread j = some c → c.pid = pid → (j.dindex, j.nindex) ≠ (d, n)) →
        NodeTable.finalizeOthers pid x.w ((d, n) :: rest) =
          NodeTable.finalizeOthers pid x.w rest →
        ∃ x', NodeTable.finalizeOthers pid x.w ((d, n) :: rest) = some x'.w ∧ Registry x' ∧
          Less pid x x' ∧
          ∀ j c, x'.thread j = some c → c.pid = pid → (j.dindex, j.nindex) ∉ (d, n) :: rest := by
      intro hne heq
      obtain ⟨x', hx', hr, hl, hnot⟩ := ih h
      refine ⟨x', heq.trans hx', hr, hl, ?_⟩
      intro j c hj hc
      rw [List.mem_cons, not_or]
      exact ⟨hne j c (hl.gone j c hj) hc, hnot j c hj hc⟩
    by_cases hv : (x.w.db.node d n).valid = true
    · obtain ⟨i, c, rfl, rfl, hi⟩ := h.exists_thread hv
      have hp : (x.w.db.node i.dindex i.nindex).proc_num < MRAPI_MAX_PROCESSES := h.proc_num_lt hi
      by_cases hpid : c.pid = pid
      · obtain ⟨w', hw', hf⟩ := h.exists_finalized hi pid
        obtain ⟨x', hx', hr, hl, hnot⟩ := ih (h.finalize_node hi hf)
        have hless := (h.less hi hf).trans (hpid ▸ hl)
        rw [hpid] at hless
        refine ⟨x', ?_, hr, hless, ?_⟩
        · rw [NodeTable.finalizeOthers, if_pos hv, if_pos hp, h.pidOf hi, if_pos hpid, hw',
            Option.bind_some]
          exact hx'
        · intro j c' hj hc'
          rw [List.mem_cons, not_or]
          refine ⟨?_, hnot j c' hj hc'⟩
          intro hplace
          have hji : j = i := node_eq (congrArg Prod.fst hplace) (congrArg Prod.snd hplace)
          have hgone := hl.gone j c' hj
          change Function.update x.thread i none j = some c' at hgone
          rw [hji, Function.update_self] at hgone
          cases hgone
      · apply hskip
        · intro j c' hj hc' hplace
          have hji : j = i := node_eq (congrArg Prod.fst hplace) (congrArg Prod.snd hplace)
          rw [hji, hi] at hj
          exact hpid ((congrArg Thread.pid (Option.some.inj hj)).trans hc')
        · rw [NodeTable.finalizeOthers, if_pos hv, if_pos hp, h.pidOf hi, if_neg hpid]
    · apply hskip
      · intro j c' hj hc' hplace
        have hvj := h.thread_valid hj
        unfold World.node at hvj
        rw [show j.dindex = d from congrArg Prod.fst hplace,
          show j.nindex = n from congrArg Prod.snd hplace] at hvj
        exact hv hvj
      · rw [NodeTable.finalizeOthers, if_neg hv]

/-- The process has no entry left to clear. -/
theorem Registry.clearProcess (h : Registry x) (hnone : ∀ i c, x.thread i = some c → c.pid ≠ pid) :
    clearProcess pid x.w.db = x.w.db := by
  unfold NodeTable.clearProcess
  have hsearch : search MRAPI_MAX_PROCESSES (fun p =>
      (x.w.db.processes p).valid && (x.w.db.processes p).pid == pid) = none := by
    rw [search_eq_none]
    intro p _
    rw [← Bool.not_eq_true, Bool.and_eq_true, beq_iff_eq]
    rintro ⟨hv, hpid⟩
    exact h.no_entry hnone hv hpid
  rw [hsearch]

/-! ## Finalize and panic -/

theorem Registry.last_for_process (h : Registry x)
    (hlast : NodeTable.lastManStanding x.w.db = true) :
    NodeTable.lastManStandingForThisProcess pid x.w.db = true := by
  rw [h.lastManStandingForThisProcess]
  intro i c hi
  rw [h.lastManStanding.mp hlast] at hi
  cases hi

/-- After its nodes are gone, the process can be detached. -/
theorem Registry.detachable (h : Registry x) (hi : x.thread i = some c) {x' : Sys}
    (h' : Registry x') (hl : Less c.pid x x') :
    ∃ w', detachDatabase x'.w c (NodeTable.lastManStanding x'.w.db)
        (NodeTable.lastManStandingForThisProcess c.pid x'.w.db) = some w' ∧
      Detached x'.w c.pid (NodeTable.lastManStanding x'.w.db)
        (NodeTable.lastManStandingForThisProcess c.pid x'.w.db) w' := by
  have hn := h.named i c hi
  have hindex : (x'.w.tls c).mrapi_pindex = (x.w.node i).proc_num := by
    rw [hl.tls]
    exact hn.pindex
  apply detached
  · exact h'.last_for_process
  · rw [hindex]
    exact h.proc_num_lt hi
  · intro hlast
    rw [hindex]
    apply (h'.processes _).empty
    rw [← Bool.not_eq_true]
    intro hv
    have hpid := (hl.process_pid _ hv).2
    exact h'.no_entry (h'.lastManStandingForThisProcess.mp hlast) hv
      (hpid.trans hn.process_pid)

/-- **A finalize** takes the node of its thread out, and detaches the process after its last
one. -/
theorem Registry.finalize (h : Registry x) (hi : x.thread i = some c) :
    ∃ w₁ w', Finalized c.pid x.w i.dindex i.nindex (x.w.node i).proc_num w₁ ∧
      mrapi_impl_free_resources false x.w c = some (w', NodeTable.lastManStanding w₁.db) ∧
      Detached w₁ c.pid (NodeTable.lastManStanding w₁.db)
        (NodeTable.lastManStandingForThisProcess c.pid w₁.db) w' := by
  obtain ⟨w₁, hw₁, hf⟩ := h.exists_finalized hi c.pid
  have h₁ := h.finalize_node hi hf
  obtain ⟨w', hw', hd⟩ := h.detachable hi h₁ (h.less hi hf)
  obtain ⟨me, hme, hmed, hmen⟩ := h.whoami hi
  refine ⟨w₁, w', hf, ?_, hd⟩
  have hrange : NodeTable.inRange w₁.db = true := h₁.inRange
  change detachDatabase w₁ c (NodeTable.lastManStanding w₁.db)
    (NodeTable.lastManStandingForThisProcess c.pid w₁.db) = some w' at hw'
  unfold mrapi_impl_free_resources
  rw [if_neg (by rw [(h.named i c hi).attached]; decide), hme]
  dsimp only
  rw [hmed, hmen, hw₁, Option.bind_eq_bind, Option.bind_some, if_neg (by decide),
    Option.bind_some, hrange, Bool.false_and, if_neg (by decide), hw']
  rfl

/-- **The clean-up of a panic** takes out all nodes of the process. -/
theorem Registry.panic (h : Registry x) (hi : x.thread i = some c) :
    ∃ x₁ w', Registry x₁ ∧ Less c.pid x x₁ ∧
      (∀ j c', x₁.thread j = some c' → c'.pid ≠ c.pid) ∧
      mrapi_impl_free_resources true x.w c = some (w', NodeTable.lastManStanding x₁.w.db) ∧
      Detached x₁.w c.pid (NodeTable.lastManStanding x₁.w.db) true w' := by
  obtain ⟨w₁, hw₁, hf⟩ := h.exists_finalized hi c.pid
  have h₁ := h.finalize_node hi hf
  have hl₁ := h.less hi hf
  obtain ⟨x₂, hx₂, h₂, hl₂, hrest⟩ := @Registry.finalizeOthers _ c.pid h₁ nodeIndexes
  have hl := hl₁.trans hl₂
  have hnone : ∀ j c', x₂.thread j = some c' → c'.pid ≠ c.pid :=
    fun j c' hj hpid => hrest j c' hj hpid (node_mem j)
  have hlast := h₂.lastManStandingForThisProcess.mpr hnone
  obtain ⟨w', hw', hd⟩ := h.detachable hi h₂ hl
  obtain ⟨me, hme, hmed, hmen⟩ := h.whoami hi
  rw [hlast] at hw' hd
  refine ⟨x₂, w', h₂, hl, hnone, ?_, hd⟩
  change NodeTable.finalizeOthers c.pid w₁ nodeIndexes = some x₂.w at hx₂
  have hclear : x₂.w.setDb (NodeTable.clearProcess c.pid x₂.w.db) = x₂.w := by
    rw [h₂.clearProcess hnone]
    rfl
  unfold mrapi_impl_free_resources
  rw [if_neg (by rw [(h.named i c hi).attached]; decide), hme]
  dsimp only
  rw [hmed, hmen, hw₁, Option.bind_eq_bind, Option.bind_some, if_pos rfl, hx₂, Option.map_some,
    hclear, Option.bind_some, h₂.inRange, hlast]
  rw [if_neg (by decide), hw']
  rfl

/-! ## Runs -/

/-- What the record holds after a finalize is what it held but for the thread's node. -/
theorem Registry.without_thread (h : Registry x) (hi : x.thread i = some c) (w' : World) :
    (x.without w' i).thread = fun j => if x.thread j = some c then none else x.thread j := by
  funext j
  change Function.update x.thread i none j = _
  rw [Function.update_apply]
  by_cases hj : j = i
  · rw [if_pos hj, hj, if_pos hi]
  · rw [if_neg hj, if_neg fun hc => hj (h.unique hc hi)]

theorem Less.thread_eq {x' : Sys} (hl : Less pid x x')
    (hnone : ∀ j c', x'.thread j = some c' → c'.pid ≠ pid) :
    x'.thread = fun j =>
      if (x.thread j).any fun c' => c'.pid == pid then none else x.thread j := by
  funext j
  cases hj : x.thread j with
  | none =>
    rw [Option.any_none, if_neg (by decide)]
    cases hj' : x'.thread j with
    | none => rfl
    | some c' =>
      have hgone := hl.gone j c' hj'
      rw [hj] at hgone
      cases hgone
  | some c =>
    rw [Option.any_some]
    by_cases hc : c.pid = pid
    · rw [if_pos (beq_iff_eq.mpr hc)]
      cases hj' : x'.thread j with
      | none => rfl
      | some c' =>
        have hgone := hl.gone j c' hj'
        rw [hj] at hgone
        rw [Option.some.inj hgone] at hc
        exact absurd hc (hnone j c' hj')
    · rw [if_neg (by rw [beq_iff_eq]; exact hc)]
      exact hl.thread j c hj hc

/-- Thread `c` has finalized, which was node `i`; the world in between is `w₁`. -/
structure Left (x : Sys) (i : Node) (c : Thread) (w₁ : World) (x' : Sys) : Prop where
  finalized : Finalized c.pid x.w i.dindex i.nindex (x.w.node i).proc_num w₁
  thread : x'.thread = (x.without w₁ i).thread
  detached : Detached w₁ c.pid (lastManStanding w₁.db)
    (lastManStandingForThisProcess c.pid w₁.db) x'.w

/-- A finalize in a run. -/
theorem Registry.finalize_step (h : Registry x) (hi : x.thread i = some c) {x' : Sys}
    (hstep : step x (.finalize c) = some x') : ∃ w₁, Left x i c w₁ x' := by
  obtain ⟨w₁, w', hf, heq, hd⟩ := h.finalize hi
  dsimp only [step] at hstep
  unfold mrapi_impl_finalize at hstep
  rw [heq] at hstep
  obtain rfl := Option.some.inj hstep
  exact ⟨w₁, hf, (h.without_thread hi w₁).symm, hd⟩

/-- **What every call keeps.** -/
theorem Registry.step (h : Registry x) {a : Label} {x' : Sys} (hcall : Calls x a)
    (hstep : NodeTable.step x a = some x') : Registry x' := by
  cases a with
  | start c domain_id node_id =>
    cases h.initialized hstep with
    | again => exact h
    | tried w' hwho ht => exact h.kept (ht.kept hwho)
    | added w' i p hwho hn hp ha => exact h.added hwho hn hp ha
  | finalize c =>
    obtain ⟨i, hi⟩ := hcall
    obtain ⟨w₁, hf, hthread, hd⟩ := h.finalize_step hi hstep
    have hdetach := (h.finalize_node hi hf).detach hd
    obtain ⟨w', thread⟩ := x'
    dsimp only at hthread
    rw [hthread]
    exact hdetach
  | panic c =>
    obtain ⟨i, hi⟩ := hcall
    obtain ⟨x₁, w', h₁, hl, hnone, heq, hd⟩ := h.panic hi
    dsimp only [NodeTable.step] at hstep
    rw [heq] at hstep
    obtain rfl := Option.some.inj hstep
    rw [← h₁.lastManStandingForThisProcess.mpr hnone] at hd
    have hdetach := h₁.detach hd
    rw [hl.thread_eq hnone] at hdetach
    exact hdetach
  | use c call =>
    obtain rfl := Option.some.inj hstep
    exact h.kept (Aside.run x.w c call).kept

/-- **In every run** the record and the tables agree. -/
theorem registry_run (h : Run step (fun x a _ => Calls x a) Sys.initial x) : Registry x :=
  h.invariant (fun _ _ _ hr hstep hcall => hr.step hcall hstep) .initial

end MxApi.NodeTable
