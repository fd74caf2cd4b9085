/-
The runs of the calls of nodes, and what the tables of domains, nodes and processes hold in
them.

Which thread registered a node is recorded beside the world; no step of the code reads it.
The record and the tables agree ([`Registry`]): a node entry is valid while its thread is
registered, and a process entry counts the valid nodes that point to it. Both directions of a
count are one lemma each, [`Registry.added`] and [`Registry.finalize_node`], and the calls on
objects leave these tables alone ([`Aside`]).
-/
import MxApi.Lib.Run
import MxApi.Lib.Tally
import MxApi.Mrapi.NodeCalls
import MxApi.Mrapi.ObjectUse

set_option autoImplicit false

namespace MxApi.NodeTable

open Lib
open LockTable (Node MRAPI_MAX_DOMAINS MRAPI_MAX_NODES MRAPI_MAX_SEMS)

/-! ## The system -/

/-- `thread` records which thread each node was registered by. -/
structure Sys where
  w : World
  thread : Node → Option Thread

def Sys.initial : Sys := ⟨.initial, fun _ => none⟩

/-- The calls: initialize, finalize, the clean-up of a panic, and those on objects. -/
inductive Label
  | start (c : Thread) (domain_id node_id : ℕ)
  | finalize (c : Thread)
  | panic (c : Thread)
  | use (c : Thread) (call : Call)
  deriving DecidableEq

/-- The node whose indexes the thread has in its storage. -/
def World.isPlace (w : World) (c : Thread) (i : Node) : Bool :=
  i.dindex == (w.tls c).mrapi_dindex && i.nindex == (w.tls c).mrapi_nindex

def step (x : Sys) : Label → Option Sys
  | .start c domain_id node_id =>
    match mrapi_impl_initialize x.w c domain_id node_id with
    | none => none
    | some r =>
      some { w := r.1, thread := fun i => if r.2 && r.1.isPlace c i then some c else x.thread i }
  | .finalize c =>
    (mrapi_impl_finalize x.w c).map fun w' =>
      { w := w', thread := fun i => if x.thread i = some c then none else x.thread i }
  | .panic c =>
    (mrapi_impl_free_resources true x.w c).map fun r =>
      { w := r.1
        thread := fun i => if (x.thread i).any fun c' => c'.pid == c.pid then none
          else x.thread i }
  | .use c call => some { x with w := (call.run x.w c).1 }

def Sys.Registered (x : Sys) (c : Thread) : Prop := ∃ i, x.thread i = some c

instance (x : Sys) (c : Thread) : Decidable (x.Registered c) :=
  inferInstanceAs (Decidable (∃ i, x.thread i = some c))

/-- The calls are those of registered threads, but for initialize, which any thread may try. -/
def Calls (x : Sys) : Label → Prop
  | .start _ _ _ => True
  | .finalize c => x.Registered c
  | .panic c => x.Registered c
  | .use c _ => x.Registered c

instance (x : Sys) : (a : Label) → Decidable (Calls x a)
  | .start _ _ _ => isTrue trivial
  | .finalize _ => inferInstanceAs (Decidable (Sys.Registered _ _))
  | .panic _ => inferInstanceAs (Decidable (Sys.Registered _ _))
  | .use _ _ => inferInstanceAs (Decidable (Sys.Registered _ _))

/-! ## The invariant -/

/-- The entry of a node. -/
def World.node (w : World) (i : Node) : mrapi_node_data := w.db.node i.dindex i.nindex

/-- The entry of the process of a node. -/
def World.process (w : World) (i : Node) : mrapi_process_data :=
  w.db.processes (w.node i).proc_num

/-- Thread `c` is node `i`. -/
structure Named (w : World) (i : Node) (c : Thread) : Prop where
  attached : w.mrapi_db c.pid = true
  pid : (w.tls c).mrapi_pid = some c.pid
  dindex : (w.tls c).mrapi_dindex = i.dindex
  nindex : (w.tls c).mrapi_nindex = i.nindex
  pindex : (w.tls c).mrapi_pindex = (w.node i).proc_num
  process_valid : (w.process i).valid = true
  process_pid : (w.process i).pid = c.pid

/-- Node `i` is registered for process entry `p`. -/
def Sys.In (x : Sys) (p : ℕ) (i : Node) : Prop :=
  (x.thread i).isSome = true ∧ (x.w.node i).proc_num = p

/-- A process entry is empty or counts its nodes. -/
structure ProcessOk (x : Sys) (p : ℕ) (process : mrapi_process_data) : Prop where
  empty : process.valid = false → process = .zero
  allocated : process.valid = true → process.allocated = true
  bounded : process.valid = true → p < MRAPI_MAX_PROCESSES
  some_node : process.valid = true → process.num_nodes ≠ 0
  counted : process.valid = true → Tally (x.In p) process.num_nodes

structure Registry (x : Sys) : Prop where
  valid : ∀ i, (x.w.node i).valid = (x.thread i).isSome
  inside : ∀ d n, (x.w.db.node d n).valid = true → d < MRAPI_MAX_DOMAINS ∧ n < MRAPI_MAX_NODES
  allocated : ∀ d n, (x.w.db.node d n).valid = true → (x.w.db.node d n).allocated = true
  named : ∀ i c, x.thread i = some c → Named x.w i c
  processes : ∀ p, ProcessOk x p (x.w.db.processes p)
  one_entry : ∀ p q, (x.w.db.processes p).valid = true → (x.w.db.processes q).valid = true →
    (x.w.db.processes p).pid = (x.w.db.processes q).pid → p = q

theorem node_eq {i j : Node} (hd : i.dindex = j.dindex) (hn : i.nindex = j.nindex) : i = j := by
  cases i
  cases j
  cases hd
  cases hn
  rfl

theorem ProcessOk.zero (x : Sys) (p : ℕ) : ProcessOk x p .zero :=
  ⟨fun _ => rfl, (fun h => nomatch h), (fun h => nomatch h), (fun h => nomatch h),
    (fun h => nomatch h)⟩

theorem Registry.initial : Registry Sys.initial where
  valid := fun _ => rfl
  inside := fun _ _ h => nomatch h
  allocated := fun _ _ h => nomatch h
  named := fun _ _ h => nomatch h
  processes := fun p => .zero _ p
  one_entry := fun _ _ h => nomatch h

section Lookup

variable {x : Sys} {i : Node} {c : Thread}

/-- A thread is one node at most. -/
theorem Registry.unique (h : Registry x) {j : Node} (hi : x.thread i = some c)
    (hj : x.thread j = some c) : i = j := by
  have hni := h.named i c hi
  have hnj := h.named j c hj
  exact node_eq (hni.dindex.symm.trans hnj.dindex) (hni.nindex.symm.trans hnj.nindex)

theorem Registry.thread_valid (h : Registry x) (hi : x.thread i = some c) :
    (x.w.node i).valid = true := by
  rw [h.valid, hi]
  rfl

/-- The node of a free entry is not registered. -/
theorem Registry.unregistered (h : Registry x)
    (hn : freeNode x.w.db i.dindex = some i.nindex) : x.thread i = none := by
  cases hi : x.thread i with
  | none => rfl
  | some c =>
    have hallocated := (search_some hn).2
    rw [h.allocated i.dindex i.nindex (h.thread_valid hi)] at hallocated
    cases hallocated

/-- A valid entry is that of a registered node. -/
theorem Registry.exists_thread (h : Registry x) {d n : ℕ}
    (hv : (x.w.db.node d n).valid = true) :
    ∃ i c, i.dindex = d ∧ i.nindex = n ∧ x.thread i = some c := by
  obtain ⟨hd, hn⟩ := h.inside d n hv
  have hsome := h.valid ⟨d, n, hd, hn⟩
  rw [show (x.w.node ⟨d, n, hd, hn⟩).valid = true from hv] at hsome
  obtain ⟨c, hc⟩ := Option.isSome_iff_exists.mp hsome.symm
  exact ⟨⟨d, n, hd, hn⟩, c, rfl, rfl, hc⟩

theorem Registry.proc_num_lt (h : Registry x) (hi : x.thread i = some c) :
    (x.w.node i).proc_num < MRAPI_MAX_PROCESSES :=
  (h.processes _).bounded (h.named i c hi).process_valid

/-- The process id that the entries of a node lead to is that of its thread. -/
theorem Registry.pidOf (h : Registry x) (hi : x.thread i = some c) :
    x.w.db.pidOf i.dindex i.nindex = c.pid := (h.named i c hi).process_pid

theorem Registry.whoami (h : Registry x) (hi : x.thread i = some c) :
    ∃ me, mrapi_impl_whoami x.w c = some me ∧ me.d_index = i.dindex ∧ me.n_index = i.nindex := by
  have hn := h.named i c hi
  unfold mrapi_impl_whoami
  rw [if_neg (by rw [hn.attached]; decide), if_neg (by rw [hn.pid]; exact nofun)]
  exact ⟨_, rfl, hn.dindex, hn.nindex⟩

/-- No count of nodes wraps. -/
theorem ProcessOk.small {p : ℕ} {process : mrapi_process_data} (h : ProcessOk x p process)
    (hv : process.valid = true) : process.num_nodes ≤ 32 :=
  (h.counted hv).le_card

end Lookup

/-! ## The calls on objects -/

/-- The tables of nodes and processes are as they were, but for the lists of objects. -/
structure Aside (w w' : World) : Prop where
  node_num : ∀ d n, (w'.db.node d n).node_num = (w.db.node d n).node_num
  allocated : ∀ d n, (w'.db.node d n).allocated = (w.db.node d n).allocated
  valid : ∀ d n, (w'.db.node d n).valid = (w.db.node d n).valid
  proc_num : ∀ d n, (w'.db.node d n).proc_num = (w.db.node d n).proc_num
  processes : w'.db.processes = w.db.processes
  mrapi_db : w'.mrapi_db = w.mrapi_db
  tls : w'.tls = w.tls

theorem Aside.refl (w : World) : Aside w w :=
  ⟨fun _ _ => rfl, fun _ _ => rfl, fun _ _ => rfl, fun _ _ => rfl, rfl, rfl, rfl⟩

/-- What is written beside the lists of the calling node does not matter. -/
theorem Aside.of_setMe {w w' : World} {c : Thread} {sems shmems : ℕ → Bool}
    (hdomains : w'.db.domains =
      (w.setMe c { w.me c with sems := sems, shmems := shmems }).db.domains)
    (hprocesses : w'.db.processes = w.db.processes) (hdb : w'.mrapi_db = w.mrapi_db)
    (htls : w'.tls = w.tls) : Aside w w' := by
  have hnode : ∀ d n, w'.db.node d n =
      if d = (w.tls c).mrapi_dindex ∧ n = (w.tls c).mrapi_nindex then
        { w.me c with sems := sems, shmems := shmems } else w.db.node d n := by
    intro d n
    unfold mrapi_database.node
    rw [hdomains]
    exact setNode_node ..
  have hfield : ∀ {α : Type} (f : mrapi_node_data → α),
      f { w.me c with sems := sems, shmems := shmems } = f (w.me c) →
      ∀ d n, f (w'.db.node d n) = f (w.db.node d n) := by
    intro α f hf d n
    rw [hnode]
    split
    · rename_i hplace
      rw [hf, hplace.1, hplace.2]
      rfl
    · rfl
  constructor
  · exact hfield (fun node => node.node_num) rfl
  · exact hfield (fun node => node.allocated) rfl
  · exact hfield (fun node => node.valid) rfl
  · exact hfield (fun node => node.proc_num) rfl
  · exact hprocesses
  · exact hdb
  · exact htls

/-- What is written beside the nodes does not matter. -/
theorem Aside.of_domains {w w' : World} (hdomains : w'.db.domains = w.db.domains)
    (hprocesses : w'.db.processes = w.db.processes) (hdb : w'.mrapi_db = w.mrapi_db)
    (htls : w'.tls = w.tls) : Aside w w' := by
  have hnode : w'.db.node = w.db.node := by
    funext d n
    unfold mrapi_database.node
    rw [hdomains]
  refine ⟨?_, ?_, ?_, ?_, hprocesses, hdb, htls⟩
  all_goals
    intro d n
    rw [hnode]

/-- **No call on an object touches the registration** of nodes and processes. -/
theorem Aside.run (w : World) (c : Thread) (call : Call) : Aside w (call.run w c).1 := by
  cases call with
  | shmem_create key created =>
    change Aside w (mrapi_shmem_create w c key created).1
    unfold mrapi_shmem_create
    split
    · exact .refl w
    · unfold mrapi_impl_shmem_create
      dsimp only
      split
      · exact .refl w
      · split
        · exact .refl w
        · split
          · exact .refl w
          · exact .of_domains rfl rfl rfl rfl
  | shmem_get key =>
    change Aside w (mrapi_shmem_get w c key).1
    have hget : Aside w (mrapi_impl_shmem_get w c key).1 := by
      unfold mrapi_impl_shmem_get
      split
      · exact .refl w
      · dsimp only
        split
        · exact .of_domains rfl rfl rfl rfl
        · exact .refl w
    unfold mrapi_shmem_get
    split
    · exact .refl w
    · dsimp only
      split
      · exact hget
      · exact hget
  | shmem_attach shmem =>
    change Aside w (mrapi_shmem_attach w c shmem).1
    unfold mrapi_shmem_attach
    split
    · exact .refl w
    · split
      · exact .refl w
      · exact .of_setMe rfl rfl rfl rfl
  | shmem_detach shmem =>
    change Aside w (mrapi_shmem_detach w c shmem).1
    unfold mrapi_shmem_detach
    split
    · exact .refl w
    · split
      · exact .refl w
      · unfold mrapi_impl_shmem_detach
        dsimp only
        split
        · exact .of_setMe rfl rfl rfl rfl
        · exact .of_setMe rfl rfl rfl rfl
  | shmem_delete shmem removed =>
    change Aside w (mrapi_shmem_delete w c shmem removed).1
    unfold mrapi_shmem_delete
    split
    · exact .refl w
    · unfold mrapi_impl_shmem_delete
      dsimp only
      split
      · exact .of_domains rfl rfl rfl rfl
      · exact .refl w
  | sem_create key address ext_error_checking =>
    change Aside w (mrapi_impl_create_lock_locked w c key address ext_error_checking).1
    unfold mrapi_impl_create_lock_locked
    split
    · exact .refl w
    · split
      · exact .refl w
      · exact .of_setMe rfl rfl rfl rfl
  | sem_get key =>
    change Aside w (mrapi_impl_sem_get w c key).1
    unfold mrapi_impl_sem_get
    split
    · exact .refl w
    · dsimp only
      split
      · exact .of_setMe rfl rfl rfl rfl
      · exact .refl w
  | sem_delete sem exclusive =>
    change Aside w (mrapi_sem_delete w sem exclusive).1
    unfold mrapi_sem_delete
    dsimp only
    split
    · exact .refl w
    · split
      · exact .of_domains rfl rfl rfl rfl
      · exact .refl w

/-- A step that leaves the registered nodes and their threads as they are. -/
structure Kept (w w' : World) : Prop where
  allocated : ∀ d n, (w.db.node d n).allocated = true → (w'.db.node d n).allocated = true
  valid : ∀ d n, (w'.db.node d n).valid = (w.db.node d n).valid
  proc_num : ∀ d n, (w'.db.node d n).proc_num = (w.db.node d n).proc_num
  processes : w'.db.processes = w.db.processes
  mrapi_db : ∀ pid, w.mrapi_db pid = true → w'.mrapi_db pid = true
  tls : ∀ c, mrapi_impl_whoami w c ≠ none → w'.tls c = w.tls c

theorem Aside.kept {w w' : World} (h : Aside w w') : Kept w w' where
  allocated := fun d n hold => (h.allocated d n).trans hold
  valid := h.valid
  proc_num := h.proc_num
  processes := h.processes
  mrapi_db := fun pid hold => by rw [h.mrapi_db]; exact hold
  tls := fun c _ => by rw [h.tls]

theorem Tried.kept {w w' : World} {c : Thread} (h : Tried w c w')
    (hwho : mrapi_impl_whoami w c = none) : Kept w w' where
  allocated := h.allocated
  valid := h.valid
  proc_num := h.proc_num
  processes := h.processes
  mrapi_db := by
    intro pid hold
    rw [h.mrapi_db, Function.update_apply]
    split
    · rfl
    · exact hold
  tls := by
    intro c' hc'
    apply h.tls
    rintro rfl
    exact hc' hwho

theorem Registry.kept {x : Sys} (h : Registry x) {w' : World} (hk : Kept x.w w') :
    Registry { x with w := w' } := by
  have hin : ∀ p i, Sys.In { x with w := w' } p i ↔ x.In p i := by
    intro p i
    unfold Sys.In World.node
    dsimp only
    rw [hk.proc_num]
  constructor
  · intro i
    rw [← h.valid]
    exact hk.valid ..
  · intro d n hv
    exact h.inside d n ((hk.valid d n).symm.trans hv)
  · intro d n hv
    exact hk.allocated d n (h.allocated d n ((hk.valid d n).symm.trans hv))
  · intro i c hi
    have hn := h.named i c hi
    have htls : w'.tls c = x.w.tls c := by
      apply hk.tls
      obtain ⟨me, hme, -⟩ := h.whoami hi
      rw [hme]
      exact nofun
    have hproc : (w'.node i).proc_num = (x.w.node i).proc_num := hk.proc_num ..
    have hprocess : w'.process i = x.w.process i := by
      unfold World.process
      rw [hproc, hk.processes]
    constructor
    · exact hk.mrapi_db _ hn.attached
    · rw [htls]
      exact hn.pid
    · rw [htls]
      exact hn.dindex
    · rw [htls]
      exact hn.nindex
    · rw [htls, hproc]
      exact hn.pindex
    · rw [hprocess]
      exact hn.process_valid
    · rw [hprocess]
      exact hn.process_pid
  · intro p
    dsimp only
    rw [hk.processes]
    have hp := h.processes p
    exact ⟨hp.empty, hp.allocated, hp.bounded, hp.some_node,
      fun hv => (hp.counted hv).congr (hin p)⟩
  · dsimp only
    rw [hk.processes]
    exact h.one_entry

/-! ## A node less -/

theorem lessOne_succ {process : mrapi_process_data} {j : ℕ} (hv : process.valid = true)
    (hj : process.num_nodes = j + 1) (hsmall : process.num_nodes ≤ 32) :
    lessOne process = if j = 0 then .zero else { process with num_nodes := j } := by
  have hdec : decU16 process.num_nodes = j := by
    rw [hj]
    apply decU16_succ
    omega
  unfold lessOne
  rw [if_pos hv, hdec]

theorem lessOne_valid {process : mrapi_process_data} (h : (lessOne process).valid = true) :
    process.valid = true ∧ (lessOne process).pid = process.pid ∧
      (lessOne process).allocated = process.allocated := by
  unfold lessOne at h ⊢
  by_cases hv : process.valid = true
  · rw [if_pos hv] at h ⊢
    by_cases hzero : decU16 process.num_nodes = 0
    · rw [if_pos hzero] at h
      cases h
    · rw [if_neg hzero]
      exact ⟨hv, rfl, rfl⟩
  · rw [if_neg hv] at h
    exact absurd h hv

/-- The record without a node. -/
def Sys.without (x : Sys) (w' : World) (i : Node) : Sys :=
  { w := w', thread := Function.update x.thread i none }

section NodeLess

variable {x : Sys} {i : Node} {c : Thread} {pid p : ℕ} {w' : World}

theorem Finalized.at (hf : Finalized pid x.w i.dindex i.nindex p w') (j : Node) :
    w'.node j = if j = i then .zero else x.w.node j := by
  unfold World.node
  rw [hf.node]
  by_cases hj : j = i
  · rw [if_pos hj, if_pos ⟨congrArg _ hj, congrArg _ hj⟩]
  · rw [if_neg hj, if_neg fun h => hj (node_eq h.1 h.2)]

theorem without_in (hf : Finalized pid x.w i.dindex i.nindex p w') (q : ℕ) (j : Node) :
    (x.without w' i).In q j ↔ j ≠ i ∧ x.In q j := by
  unfold Sys.In Sys.without
  dsimp only
  rw [hf.at, Function.update_apply]
  by_cases hj : j = i
  · rw [if_pos hj, if_pos hj]
    exact ⟨(fun h => nomatch h.1), fun h => absurd hj h.1⟩
  · rw [if_neg hj, if_neg hj]
    exact ⟨fun h => ⟨hj, h⟩, And.right⟩

/-- The process entry of the node that goes, and the count that it has then. -/
theorem Registry.process_after (h : Registry x) (hi : x.thread i = some c)
    (hp : (x.w.node i).proc_num = p) (hf : Finalized pid x.w i.dindex i.nindex p w') :
    ∃ j, Tally ((x.without w' i).In p) j ∧ w'.db.processes p =
      if j = 0 then .zero else { x.w.db.processes p with num_nodes := j } := by
  have hn := h.named i c hi
  have hv : (x.w.db.processes p).valid = true := by
    rw [← hp]
    exact hn.process_valid
  have hin : x.In p i := ⟨by rw [hi]; rfl, hp⟩
  obtain ⟨j, hj, htally⟩ := ((h.processes p).counted hv).leave hin
    (fun hnew => ((without_in hf p i).mp hnew).1 rfl)
    (fun o ho => (without_in hf p o).trans ⟨And.right, fun hold => ⟨ho, hold⟩⟩)
  refine ⟨j, htally, ?_⟩
  rw [hf.processes, if_pos rfl]
  exact lessOne_succ hv hj ((h.processes p).small hv)

/-- **The finalize of a node** takes it out of the tables and the record. -/
theorem Registry.finalize_node (h : Registry x) (hi : x.thread i = some c)
    (hf : Finalized pid x.w i.dindex i.nindex (x.w.node i).proc_num w') :
    Registry (x.without w' i) := by
  obtain ⟨j, htally, hprocess⟩ := h.process_after hi rfl hf
  have hnode : ∀ d n, (w'.db.node d n).valid = true →
      w'.db.node d n = x.w.db.node d n := by
    intro d n hv
    rw [hf.node] at hv ⊢
    split at hv
    · cases hv
    · rename_i hother
      rw [if_neg hother]
  have hvalid : ∀ q, (w'.db.processes q).valid = true → (x.w.db.processes q).valid = true ∧
      (w'.db.processes q).pid = (x.w.db.processes q).pid ∧
      (w'.db.processes q).allocated = (x.w.db.processes q).allocated := by
    intro q hv
    rw [hf.processes] at hv ⊢
    by_cases hq : q = (x.w.node i).proc_num
    · rw [if_pos hq] at hv ⊢
      rw [hq]
      exact lessOne_valid hv
    · rw [if_neg hq] at hv ⊢
      exact ⟨hv, rfl, rfl⟩
  have hthread : ∀ k c', (x.without w' i).thread k = some c' →
      k ≠ i ∧ x.thread k = some c' := by
    intro k c' hk
    change Function.update x.thread i none k = some c' at hk
    rw [Function.update_apply] at hk
    split at hk
    · cases hk
    · rename_i hne
      exact ⟨hne, hk⟩
  constructor
  · intro k
    change (w'.node k).valid = (Function.update x.thread i none k).isSome
    rw [hf.at, Function.update_apply]
    split
    · rfl
    · exact h.valid k
  · intro d n hv
    change (w'.db.node d n).valid = true at hv
    rw [hnode d n hv] at hv
    exact h.inside d n hv
  · intro d n hv
    change (w'.db.node d n).valid = true at hv
    change (w'.db.node d n).allocated = true
    have hsame := hnode d n hv
    rw [hsame] at hv ⊢
    exact h.allocated d n hv
  · intro k c' hk
    obtain ⟨hne, hk⟩ := hthread k c' hk
    have hn := h.named k c' hk
    have hsame : w'.node k = x.w.node k := by
      rw [hf.at, if_neg hne]
    have hentry : (w'.process k).valid = true ∧ (w'.process k).pid = (x.w.process k).pid := by
      unfold World.process
      rw [hsame]
      by_cases hq : (x.w.node k).proc_num = (x.w.node i).proc_num
      · -- the node that stays keeps the entry
        have hin : (x.without w' i).In (x.w.node i).proc_num k := by
          rw [without_in hf]
          exact ⟨hne, by rw [hk]; rfl, hq⟩
        rw [hq, hprocess, if_neg (htally.ne_zero hin)]
        have hvk := hn.process_valid
        unfold World.process at hvk
        rw [hq] at hvk
        exact ⟨hvk, rfl⟩
      · rw [hf.processes, if_neg hq]
        exact ⟨hn.process_valid, rfl⟩
    change Named w' k c'
    constructor
    · rw [hf.mrapi_db]
      exact hn.attached
    · rw [hf.tls]
      exact hn.pid
    · rw [hf.tls]
      exact hn.dindex
    · rw [hf.tls]
      exact hn.nindex
    · rw [hf.tls, hsame]
      exact hn.pindex
    · exact hentry.1
    · exact hentry.2.trans hn.process_pid
  · intro q
    change ProcessOk _ q (w'.db.processes q)
    have hq := h.processes q
    by_cases hqp : q = (x.w.node i).proc_num
    · rw [hqp, hprocess]
      by_cases hj : j = 0
      · rw [if_pos hj]
        exact .zero ..
      · rw [if_neg hj]
        rw [hqp] at hq
        have hv : (x.w.db.processes (x.w.node i).proc_num).valid = true :=
          (h.named i c hi).process_valid
        refine ⟨fun hnot => ?_, fun _ => hq.allocated hv, fun _ => hq.bounded hv, fun _ => hj,
          fun _ => htally⟩
        dsimp only at hnot
        rw [hv] at hnot
        cases hnot
    · rw [hf.processes, if_neg hqp]
      refine ⟨hq.empty, hq.allocated, hq.bounded, hq.some_node, fun hv => ?_⟩
      apply (hq.counted hv).congr
      intro k
      rw [without_in hf]
      constructor
      · exact And.right
      · intro hin
        refine ⟨?_, hin⟩
        rintro rfl
        exact hqp hin.2.symm
  · intro q r hvq hvr hpid
    obtain ⟨hq, hpq, -⟩ := hvalid q hvq
    obtain ⟨hr, hpr, -⟩ := hvalid r hvr
    exact h.one_entry q r hq hr (hpq.symm.trans (hpid.trans hpr))

end NodeLess

/-! ## A node more -/

/-- The record with a node more. -/
def Sys.with (x : Sys) (w' : World) (i : Node) (c : Thread) : Sys :=
  { w := w', thread := Function.update x.thread i (some c) }

section NodeMore

variable {x : Sys} {i : Node} {c : Thread} {domain_id node_id p : ℕ} {w' : World}

/-- The process entry that an initialize takes: that of the process, or an empty one. -/
theorem Registry.processIndex (h : Registry x) (hp : processIndex x.w.db c.pid = some p) :
    p < MRAPI_MAX_PROCESSES ∧
      ((x.w.db.processes p).valid = true ∧ (x.w.db.processes p).pid = c.pid ∨
        x.w.db.processes p = .zero ∧
          ∀ q, (x.w.db.processes q).valid = true → (x.w.db.processes q).pid ≠ c.pid) := by
  unfold NodeTable.processIndex at hp
  split at hp
  · rename_i q hq
    cases hp
    obtain ⟨hlt, hpid⟩ := search_some hq
    rw [beq_iff_eq] at hpid
    refine ⟨hlt, .inl ⟨?_, hpid⟩⟩
    by_contra hv
    rw [Bool.not_eq_true] at hv
    -- no process has the id of an empty entry
    rw [(h.processes p).empty hv] at hpid
    exact absurd hpid c.pid_pos.ne
  · rename_i hnone
    obtain ⟨hlt, hfree⟩ := search_some hp
    have hv : (x.w.db.processes p).valid = false := by
      rw [← Bool.not_eq_true]
      intro hv
      rw [(h.processes p).allocated hv] at hfree
      cases hfree
    refine ⟨hlt, .inr ⟨(h.processes p).empty hv, ?_⟩⟩
    intro q hvq
    exact beq_eq_false_iff_ne.mp (search_eq_none.mp hnone q ((h.processes q).bounded hvq))

theorem Added.at (ha : Added x.w c domain_id node_id i.dindex i.nindex p w') (j : Node) :
    w'.node j = if j = i then
      { x.w.node i with node_num := node_id, allocated := true, valid := true, proc_num := p }
      else x.w.node j := by
  unfold World.node
  rw [ha.node]
  by_cases hj : j = i
  · rw [if_pos hj, if_pos ⟨congrArg _ hj, congrArg _ hj⟩]
  · rw [if_neg hj, if_neg fun h => hj (node_eq h.1 h.2)]

theorem with_in (ha : Added x.w c domain_id node_id i.dindex i.nindex p w') (q : ℕ) (j : Node) :
    (x.with w' i c).In q j ↔ if j = i then p = q else x.In q j := by
  unfold Sys.In Sys.with
  dsimp only
  rw [ha.at, Function.update_apply]
  by_cases hj : j = i
  · rw [if_pos hj, if_pos hj, if_pos hj]
    exact ⟨And.right, fun h => ⟨rfl, h⟩⟩
  · rw [if_neg hj, if_neg hj, if_neg hj]

/-- **A node that is added** is in the tables and the record. -/
theorem Registry.added (h : Registry x) (hwho : mrapi_impl_whoami x.w c = none)
    (hn : freeNode x.w.db i.dindex = some i.nindex)
    (hp : NodeTable.processIndex x.w.db c.pid = some p)
    (ha : Added x.w c domain_id node_id i.dindex i.nindex p w') :
    Registry (x.with w' i c) := by
  obtain ⟨hlt, hentry⟩ := h.processIndex hp
  have hfree : (x.w.node i).valid = false := by
    rw [← Bool.not_eq_true]
    intro hv
    have hallocated := (search_some hn).2
    rw [h.allocated i.dindex i.nindex hv] at hallocated
    cases hallocated
  have hnot : x.thread i = none := by
    rw [h.valid] at hfree
    exact Option.isSome_eq_false_iff.mp hfree |> Option.isNone_iff_eq_none.mp
  have hother : ∀ k c', (x.with w' i c).thread k = some c' → k ≠ i → c' ≠ c ∧
      x.thread k = some c' := by
    intro k c' hk hne
    change Function.update x.thread i (some c) k = some c' at hk
    rw [Function.update_of_ne hne] at hk
    refine ⟨?_, hk⟩
    rintro rfl
    obtain ⟨me, hme, -⟩ := h.whoami hk
    rw [hme] at hwho
    cases hwho
  -- the count of the entry that the process has
  have hcount : (x.w.db.processes p).num_nodes ≤ 32 ∧
      Tally (x.In p) (x.w.db.processes p).num_nodes := by
    rcases hentry with ⟨hv, -⟩ | ⟨hzero, -⟩
    · exact ⟨(h.processes p).small hv, (h.processes p).counted hv⟩
    · rw [hzero]
      refine ⟨Nat.zero_le _, Tally.none ?_⟩
      intro k hk
      obtain ⟨c', hc'⟩ := Option.isSome_iff_exists.mp hk.1
      have hv := (h.named k c' hc').process_valid
      unfold World.process at hv
      rw [hk.2, hzero] at hv
      cases hv
  have hsucc : u16 ((x.w.db.processes p).num_nodes + 1) = (x.w.db.processes p).num_nodes + 1 := by
    apply u16_of_lt
    omega
  have hprocess := ha.processes p
  rw [if_pos rfl, hsucc] at hprocess
  have hmore : Tally ((x.with w' i c).In p) ((x.w.db.processes p).num_nodes + 1) := by
    apply hcount.2.enter
    · rintro ⟨hsome, -⟩
      rw [hnot] at hsome
      cases hsome
    · rw [with_in ha, if_pos rfl]
    · intro k hk
      rw [with_in ha, if_neg hk]
  constructor
  · intro k
    change (w'.node k).valid = (Function.update x.thread i (some c) k).isSome
    rw [ha.at, Function.update_apply]
    split
    · rfl
    · exact h.valid k
  · intro d n hv
    change (w'.db.node d n).valid = true at hv
    rw [ha.node] at hv
    split at hv
    · rename_i hplace
      rw [hplace.1, hplace.2]
      exact ⟨i.dindex_lt, i.nindex_lt⟩
    · exact h.inside d n hv
  · intro d n hv
    change (w'.db.node d n).valid = true at hv
    change (w'.db.node d n).allocated = true
    rw [ha.node] at hv ⊢
    split at hv
    · rename_i hplace
      rw [if_pos hplace]
    · rename_i hplace
      rw [if_neg hplace]
      exact h.allocated d n hv
  · intro k c' hk
    change Named w' k c'
    by_cases hki : k = i
    · have hcc : c' = c := by
        change Function.update x.thread i (some c) k = some c' at hk
        rw [hki, Function.update_self] at hk
        exact (Option.some.inj hk).symm
      have hnode := ha.at k
      rw [if_pos hki] at hnode
      have hproc : (w'.node k).proc_num = p := by
        rw [hnode]
      have htls : w'.tls c = ⟨some c.pid, i.nindex, i.dindex, p, node_id, domain_id⟩ := by
        rw [ha.tls]
        exact Function.update_self ..
      rw [hcc, hki] at *
      constructor
      · rw [ha.mrapi_db]
        exact Function.update_self ..
      · rw [htls]
      · rw [htls]
      · rw [htls]
      · rw [htls, hproc]
      · unfold World.process
        rw [hproc, hprocess]
      · unfold World.process
        rw [hproc, hprocess]
    · obtain ⟨hne, hold⟩ := hother k c' hk hki
      have hnk := h.named k c' hold
      have hnode : w'.node k = x.w.node k := by
        rw [ha.at, if_neg hki]
      have htls : w'.tls c' = x.w.tls c' := by
        rw [ha.tls]
        exact Function.update_of_ne hne ..
      have hkept : (w'.process k).valid = true ∧ (w'.process k).pid = c'.pid := by
        have hvk := hnk.process_valid
        have hpidk := hnk.process_pid
        unfold World.process at hvk hpidk ⊢
        rw [hnode]
        by_cases hq : (x.w.node k).proc_num = p
        · rw [hq] at hvk hpidk ⊢
          rw [hprocess]
          refine ⟨rfl, ?_⟩
          rcases hentry with ⟨-, hpid⟩ | ⟨hzero, -⟩
          · exact hpid.symm.trans hpidk
          · rw [hzero] at hvk
            cases hvk
        · rw [ha.processes, if_neg hq]
          exact ⟨hvk, hpidk⟩
      constructor
      · rw [ha.mrapi_db, Function.update_apply]
        split
        · rfl
        · exact hnk.attached
      · rw [htls]
        exact hnk.pid
      · rw [htls]
        exact hnk.dindex
      · rw [htls]
        exact hnk.nindex
      · rw [htls, hnode]
        exact hnk.pindex
      · exact hkept.1
      · exact hkept.2
  · intro q
    change ProcessOk _ q (w'.db.processes q)
    by_cases hq : q = p
    · rw [hq, hprocess]
      refine ⟨(fun hv => nomatch hv), fun _ => ?_, fun _ => hlt, fun _ => Nat.succ_ne_zero _,
        fun _ => hmore⟩
      dsimp only
      rcases hentry with ⟨hv, -⟩ | ⟨hzero, -⟩
      · rw [(h.processes p).allocated hv, Bool.or_true]
      · rw [hzero, Bool.or_eq_true, bne_iff_ne]
        exact .inl c.pid_pos.ne
    · rw [ha.processes, if_neg hq]
      have hold := h.processes q
      refine ⟨hold.empty, hold.allocated, hold.bounded, hold.some_node, fun hv => ?_⟩
      apply (hold.counted hv).congr
      intro k
      rw [with_in ha]
      split
      · rename_i hk
        rw [hk]
        constructor
        · intro heq
          exact absurd heq.symm hq
        · rintro ⟨hsome, -⟩
          rw [hnot] at hsome
          cases hsome
      · rfl
  · -- the process had no other entry
    have hpids : ∀ q, (w'.db.processes q).valid = true → q ≠ p →
        (w'.db.processes q).pid ≠ c.pid := by
      intro q hv hq hpid
      rw [ha.processes, if_neg hq] at hv hpid
      rcases hentry with ⟨hvp, hpidp⟩ | ⟨-, hnone⟩
      · exact hq (h.one_entry q p hv hvp (hpid.trans hpidp.symm))
      · exact hnone q hv hpid
    have hpidp : (w'.db.processes p).pid = c.pid := by
      rw [hprocess]
    intro q r hvq hvr hpid
    change (w'.db.processes q).valid = true at hvq
    change (w'.db.processes r).valid = true at hvr
    change (w'.db.processes q).pid = (w'.db.processes r).pid at hpid
    by_cases hq : q = p
    · by_cases hr : r = p
      · exact hq.trans hr.symm
      · rw [hq, hpidp] at hpid
        exact absurd hpid.symm (hpids r hvr hr)
    · by_cases hr : r = p
      · rw [hr, hpidp] at hpid
        exact absurd hpid (hpids q hvq hq)
      · rw [ha.processes, if_neg hq] at hvq hpid
        rw [ha.processes, if_neg hr] at hvr hpid
        exact h.one_entry q r hvq hvr hpid

end NodeMore

end MxApi.NodeTable
