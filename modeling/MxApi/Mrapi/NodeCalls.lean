/-
What `mrapi_impl_initialize` and `mrapi_impl_finalize` do, one lemma for each.

An initialize that finds room adds a node ([`Added`]). One that does not leaves the thread
with the identity of an initialised one ([`initialize_no_room`]), or goes on without a
domain.
-/
import MxApi.Mrapi.NodeTable

set_option autoImplicit false

namespace MxApi.NodeTable

open Lib
open LockTable (MRAPI_MAX_DOMAINS MRAPI_MAX_NODES MRAPI_MAX_SEMS)

/-! ## Reading what was written -/

variable (db : mrapi_database) (d n p : ℕ)

@[simp] theorem setNode_node (node : mrapi_node_data) (d' n' : ℕ) :
    (db.setNode d n node).node d' n' = if d' = d ∧ n' = n then node else db.node d' n' := by
  unfold mrapi_database.setNode mrapi_database.setDomain mrapi_database.node
  dsimp only
  by_cases hd : d' = d
  · rw [hd, Function.update_self]
    dsimp only
    rw [Function.update_apply]
    simp only [true_and]
  · rw [Function.update_of_ne hd, if_neg fun h => hd h.1]

@[simp] theorem setNode_processes (node : mrapi_node_data) :
    (db.setNode d n node).processes = db.processes := rfl

@[simp] theorem setNode_shmems (node : mrapi_node_data) :
    (db.setNode d n node).shmems = db.shmems := rfl

@[simp] theorem setNode_sems (node : mrapi_node_data) : (db.setNode d n node).sems = db.sems := rfl

@[simp] theorem setNode_domain_id (node : mrapi_node_data) (d' : ℕ) :
    ((db.setNode d n node).domains d').domain_id = (db.domains d').domain_id := by
  unfold mrapi_database.setNode mrapi_database.setDomain
  dsimp only
  rw [Function.update_apply]
  split
  · rename_i hd
    rw [hd]
  · rfl

@[simp] theorem setProcess_node (process : mrapi_process_data) :
    (db.setProcess p process).node = db.node := rfl

@[simp] theorem claimDomain_node (domain_id : ℕ) : (claimDomain db domain_id d).node = db.node := by
  unfold claimDomain
  split
  · rfl
  · funext d' n'
    unfold mrapi_database.node mrapi_database.setDomain
    dsimp only
    rw [Function.update_apply]
    split
    · rename_i hd
      rw [hd]
    · rfl

@[simp] theorem claimDomain_processes (domain_id : ℕ) :
    (claimDomain db domain_id d).processes = db.processes := by
  unfold claimDomain
  split <;> rfl

/-- The objects are as they were. -/
structure SameObjects (db db' : mrapi_database) : Prop where
  shmems : db'.shmems = db.shmems
  num_shmems : db'.num_shmems = db.num_shmems
  sems : db'.sems = db.sems

theorem SameObjects.claimDomain (domain_id : ℕ) : SameObjects db (claimDomain db domain_id d) := by
  unfold NodeTable.claimDomain
  split <;> exact ⟨rfl, rfl, rfl⟩

theorem SameObjects.claimProcess (pid : ℕ) : SameObjects db (claimProcess db pid p) := by
  unfold NodeTable.claimProcess
  split <;> exact ⟨rfl, rfl, rfl⟩

variable {db d n p}

theorem registered_congr {db' : mrapi_database} (h : db'.node = db.node) (d node_id : ℕ) :
    registered db' d node_id = registered db d node_id := by
  unfold registered
  rw [h]

theorem freeNode_congr {db' : mrapi_database} (h : db'.node = db.node) (d : ℕ) :
    freeNode db' d = freeNode db d := by
  unfold freeNode
  rw [h]

theorem processIndex_congr {db' : mrapi_database} (h : db'.processes = db.processes) (pid : ℕ) :
    processIndex db' pid = processIndex db pid := by
  unfold processIndex
  rw [h]

/-- The entry of a process, once it has one. -/
theorem claimProcess_processes (pid : ℕ) (p' : ℕ) :
    (claimProcess db pid p).processes p' =
      if p' = p then { db.processes p with
        pid := pid
        allocated := (db.processes p).pid != pid || (db.processes p).allocated }
      else db.processes p' := by
  unfold claimProcess
  by_cases hpid : (db.processes p).pid = pid
  · rw [if_pos (beq_iff_eq.mpr hpid)]
    split
    · rename_i hp
      rw [hp, hpid, bne_self_eq_false, Bool.false_or]
      cases hprocess : db.processes p with
      | mk pid' allocated valid num_nodes =>
        rw [hprocess] at hpid
        cases hpid
        rfl
    · rfl
  · rw [if_neg (by rw [beq_iff_eq]; exact hpid)]
    unfold mrapi_database.setProcess
    dsimp only
    rw [Function.update_apply, bne_iff_ne.mpr hpid, Bool.true_or]

/-! ## Initialize -/

/-- There is an entry for the domain, a free one for the node, which is not registered yet,
and one for the process. -/
def Room (w : World) (c : Thread) (domain_id node_id : ℕ) : Prop :=
  ∃ d, domainIndex w.db domain_id = some d ∧ registered w.db d node_id = false ∧
    (freeNode w.db d).isSome = true ∧ (processIndex w.db c.pid).isSome = true

instance (w : World) (c : Thread) (domain_id node_id : ℕ) :
    Decidable (Room w c domain_id node_id) :=
  decidable_of_iff (∃ d ∈ domainIndex w.db domain_id, registered w.db d node_id = false ∧
    (freeNode w.db d).isSome = true ∧ (processIndex w.db c.pid).isSome = true) Iff.rfl

/-- Node `n` of domain entry `d` is added, for a thread of the process in entry `p`. -/
structure Added (w : World) (c : Thread) (domain_id node_id d n p : ℕ) (w' : World) : Prop where
  node : ∀ d' n', w'.db.node d' n' = if d' = d ∧ n' = n then
    { w.db.node d n with node_num := node_id, allocated := true, valid := true, proc_num := p }
    else w.db.node d' n'
  domain : (w'.db.domains d).domain_id = domain_id
  processes : ∀ p', w'.db.processes p' = if p' = p then
    { pid := c.pid
      allocated := (w.db.processes p).pid != c.pid || (w.db.processes p).allocated
      valid := true
      num_nodes := u16 ((w.db.processes p).num_nodes + 1) }
    else w.db.processes p'
  objects : SameObjects w.db w'.db
  mrapi_db : w'.mrapi_db = Function.update w.mrapi_db c.pid true
  tls : w'.tls = Function.update w.tls c ⟨some c.pid, n, d, p, node_id, domain_id⟩
  mapped : w'.mapped = w.mapped
  segment : w'.segment = w.segment

/-- The world after all three entries are claimed. -/
def claimed (w : World) (c : Thread) (domain_id node_id d n p : ℕ) : World :=
  { w with
    db := claimProcess (claimNode (claimDomain w.db domain_id d) d n node_id) c.pid p
    mrapi_db := Function.update w.mrapi_db c.pid true
    tls := Function.update w.tls c { w.tls c with mrapi_pid := some c.pid, mrapi_pindex := p } }

theorem claimed_node (w : World) (c : Thread) (domain_id node_id d n p d' n' : ℕ) :
    (claimed w c domain_id node_id d n p).db.node d' n' = if d' = d ∧ n' = n then
      { w.db.node d n with node_num := node_id, allocated := true } else w.db.node d' n' := by
  have hprocess : ∀ db : mrapi_database, (claimProcess db c.pid p).node = db.node := by
    intro db
    unfold claimProcess
    split <;> rfl
  change (claimProcess (claimNode (claimDomain w.db domain_id d) d n node_id) c.pid p).node d' n' = _
  rw [hprocess]
  unfold claimNode
  rw [setNode_node, claimDomain_node]

/-- The node is added. -/
theorem addNode_added (w : World) (c : Thread) (domain_id node_id d n p : ℕ) :
    Added w c domain_id node_id d n p
      (addNode (claimed w c domain_id node_id d n p) c domain_id node_id d n p) := by
  have hnode := claimed_node w c domain_id node_id d n p
  have hprocesses : ∀ p', (claimed w c domain_id node_id d n p).db.processes p' = if p' = p then
      { w.db.processes p with
        pid := c.pid
        allocated := (w.db.processes p).pid != c.pid || (w.db.processes p).allocated }
      else w.db.processes p' := by
    intro p'
    change (claimProcess (claimNode (claimDomain w.db domain_id d) d n node_id) c.pid p).processes p'
      = _
    rw [claimProcess_processes]
    unfold claimNode
    rw [setNode_processes, claimDomain_processes]
  have hobjects : SameObjects w.db (claimed w c domain_id node_id d n p).db := by
    have hfirst := SameObjects.claimDomain w.db d domain_id
    have hlast := SameObjects.claimProcess (claimNode (claimDomain w.db domain_id d) d n node_id) p
      c.pid
    exact ⟨hlast.shmems.trans hfirst.shmems, hlast.num_shmems.trans hfirst.num_shmems,
      hlast.sems.trans hfirst.sems⟩
  generalize hw : claimed w c domain_id node_id d n p = v at hnode hprocesses hobjects
  -- the domain entry keeps its nodes
  have hdomain : ∀ domain : mrapi_domain_data, domain.nodes = (v.db.domains d).nodes →
      (v.db.setDomain d domain).node = v.db.node := by
    intro domain hnodes
    funext d' n'
    unfold mrapi_database.node mrapi_database.setDomain
    dsimp only
    rw [Function.update_apply]
    split
    · rename_i hd
      rw [hd, hnodes]
    · rfl
  constructor
  · intro d' n'
    unfold addNode World.setTls World.setDb
    dsimp only
    rw [setProcess_node, setNode_node,
      hdomain { v.db.domains d with domain_id := domain_id, valid := true } rfl, hnode d' n']
    split
    · rw [hnode d n, if_pos ⟨rfl, rfl⟩]
    · rfl
  · unfold addNode World.setTls World.setDb mrapi_database.setProcess
    dsimp only
    rw [setNode_domain_id]
    unfold mrapi_database.setDomain
    dsimp only
    rw [Function.update_self]
  · intro p'
    unfold addNode World.setTls World.setDb mrapi_database.setProcess
    dsimp only
    rw [setNode_processes]
    unfold mrapi_database.setDomain
    dsimp only
    rw [Function.update_apply, hprocesses p, if_pos rfl, hprocesses p']
    split
    · split <;> simp_all
    · rfl
  · exact ⟨hobjects.shmems, hobjects.num_shmems, hobjects.sems⟩
  · rw [← hw]
    rfl
  · rw [← hw]
    unfold addNode World.setTls World.setDb claimed
    dsimp only
    rw [Function.update_idem, Function.update_self]
  · rw [← hw]
    rfl
  · rw [← hw]
    rfl

/-- The thread after it has learnt its process. -/
def begun (w : World) (c : Thread) : World :=
  ({ w with mrapi_db := Function.update w.mrapi_db c.pid true }).setTls c
    { w.tls c with mrapi_pid := some c.pid }

theorem begun_claimed (w : World) (c : Thread) (domain_id node_id d n p : ℕ) :
    ((begun w c).setDb (claimProcess (claimNode (claimDomain w.db domain_id d) d n node_id) c.pid
      p)).setTls c { (begun w c).tls c with mrapi_pindex := p } =
      claimed w c domain_id node_id d n p := by
  unfold begun claimed World.setTls World.setDb
  dsimp only
  rw [Function.update_idem, Function.update_self]

/-- From when it knows its process the thread is taken for initialised. -/
theorem whoami_begun {w w' : World} {c : Thread} (hdb : w'.mrapi_db = (begun w c).mrapi_db)
    (htls : (w'.tls c).mrapi_pid = some c.pid) : mrapi_impl_whoami w' c ≠ none := by
  have hattached : w'.mrapi_db c.pid = true := by
    rw [hdb]
    exact Function.update_self ..
  unfold mrapi_impl_whoami
  rw [hattached, if_neg (by decide), htls, if_neg nofun]
  exact nofun

/-- The result of an initialize, once it has its domain entry. -/
theorem initialize_eq {w : World} {c : Thread} (hwho : mrapi_impl_whoami w c = none)
    (domain_id node_id : ℕ) :
    mrapi_impl_initialize w c domain_id node_id =
      match domainIndex w.db domain_id with
      | none => none
      | some d =>
        if registered w.db d node_id then
          some (((begun w c).setDb (claimDomain w.db domain_id d)).setTls c
            { (begun w c).tls c with mrapi_pindex := 0 }, false)
        else
          match freeNode w.db d with
          | none => some (((begun w c).setDb (claimDomain w.db domain_id d)).setTls c
              { (begun w c).tls c with mrapi_pindex := 0 }, false)
          | some n =>
            match processIndex w.db c.pid with
            | none => some ((begun w c).setDb
                (claimNode (claimDomain w.db domain_id d) d n node_id), false)
            | some p =>
              if (w.db.node d n).valid then none
              else some (addNode (claimed w c domain_id node_id d n p) c domain_id node_id d n p,
                true) := by
  have hinit : mrapi_impl_initialized w c = false := by
    unfold mrapi_impl_initialized
    rw [hwho]
    rfl
  unfold mrapi_impl_initialize
  rw [hinit, if_neg (by decide)]
  change (match domainIndex w.db domain_id with | none => _ | some d => _) = _
  cases domainIndex w.db domain_id with
  | none => rfl
  | some d =>
    have hnode := claimDomain_node w.db d domain_id
    change (if registered (claimDomain w.db domain_id d) d node_id then _ else _) = _
    rw [registered_congr hnode]
    refine if_congr Iff.rfl rfl ?_
    change (match freeNode (claimDomain w.db domain_id d) d with | none => _ | some n => _) = _
    rw [freeNode_congr hnode]
    cases freeNode w.db d with
    | none => rfl
    | some n =>
      have hprocesses : (claimNode (claimDomain w.db domain_id d) d n node_id).processes =
          w.db.processes := by
        unfold claimNode
        rw [setNode_processes, claimDomain_processes]
      change (match processIndex (claimNode (claimDomain w.db domain_id d) d n node_id) c.pid with
        | none => _ | some p => _) = _
      rw [processIndex_congr hprocesses]
      cases processIndex w.db c.pid with
      | none => rfl
      | some p =>
        have hvalid := claimed_node w c domain_id node_id d n p d n
        rw [if_pos ⟨rfl, rfl⟩] at hvalid
        have hlast : ∀ v : World, v = claimed w c domain_id node_id d n p →
            (if (v.db.node d n).valid then none
              else some (addNode v c domain_id node_id d n p, true)) =
            if (w.db.node d n).valid then none
            else some (addNode (claimed w c domain_id node_id d n p) c domain_id node_id d n p,
              true) := by
          rintro v rfl
          rw [hvalid]
        exact hlast _ (begun_claimed w c domain_id node_id d n p)

/-- There is room, and the entry for the node is not in use. -/
def Vacant (w : World) (c : Thread) (domain_id node_id : ℕ) : Prop :=
  Room w c domain_id node_id ∧ ∀ d ∈ domainIndex w.db domain_id, ∀ n ∈ freeNode w.db d,
    (w.db.node d n).valid = false

instance (w : World) (c : Thread) (domain_id node_id : ℕ) :
    Decidable (Vacant w c domain_id node_id) :=
  inferInstanceAs (Decidable (_ ∧ _))

/-- Where all valid entries are allocated, no free one is in use. -/
theorem Room.vacant {w : World} {c : Thread} {domain_id node_id : ℕ}
    (hroom : Room w c domain_id node_id)
    (hvalid : ∀ d n, (w.db.node d n).valid = true → (w.db.node d n).allocated = true) :
    Vacant w c domain_id node_id := by
  refine ⟨hroom, ?_⟩
  intro d _ n hn
  have hallocated := (search_some hn).2
  rw [← Bool.not_eq_true]
  intro hv
  rw [hvalid d n hv] at hallocated
  cases hallocated

/-- **An initialize that finds room** adds a node. -/
theorem initialize_room {w : World} {c : Thread} {domain_id node_id : ℕ}
    (hwho : mrapi_impl_whoami w c = none) (hvacant : Vacant w c domain_id node_id) :
    ∃ d n p w', mrapi_impl_initialize w c domain_id node_id = some (w', true) ∧
      domainIndex w.db domain_id = some d ∧ freeNode w.db d = some n ∧
      processIndex w.db c.pid = some p ∧ Added w c domain_id node_id d n p w' := by
  obtain ⟨⟨d, hd, hregistered, hfree, hprocess⟩, hvalid⟩ := hvacant
  obtain ⟨n, hn⟩ := Option.isSome_iff_exists.mp hfree
  obtain ⟨p, hp⟩ := Option.isSome_iff_exists.mp hprocess
  refine ⟨d, n, p, _, ?_, hd, hn, hp, addNode_added w c domain_id node_id d n p⟩
  rw [initialize_eq hwho, hd]
  dsimp only
  rw [hregistered, if_neg (by decide), hn]
  dsimp only
  rw [hp]
  dsimp only
  rw [hvalid d hd n hn, if_neg (by decide)]

/-- An entry that is in use stops the call. -/
theorem initialize_not_vacant {w : World} {c : Thread} {domain_id node_id : ℕ}
    (hwho : mrapi_impl_whoami w c = none) (hroom : Room w c domain_id node_id)
    (hvacant : ¬ Vacant w c domain_id node_id) :
    mrapi_impl_initialize w c domain_id node_id = none := by
  obtain ⟨d, hd, hregistered, hfree, hprocess⟩ := hroom
  obtain ⟨n, hn⟩ := Option.isSome_iff_exists.mp hfree
  obtain ⟨p, hp⟩ := Option.isSome_iff_exists.mp hprocess
  have hvalid : (w.db.node d n).valid = true := by
    by_contra hv
    rw [Bool.not_eq_true] at hv
    apply hvacant
    refine ⟨⟨d, hd, hregistered, hfree, hprocess⟩, ?_⟩
    intro d' hd' n' hn'
    rw [hd] at hd'
    cases hd'
    rw [hn] at hn'
    cases hn'
    exact hv
  rw [initialize_eq hwho, hd]
  dsimp only
  rw [hregistered, if_neg (by decide), hn]
  dsimp only
  rw [hp]
  dsimp only
  rw [hvalid, if_pos rfl]

/-- What is left of an initialize that failed: entries that are allocated, the identity of its
thread, and the pointer of its process. -/
structure Tried (w : World) (c : Thread) (w' : World) : Prop where
  allocated : ∀ d n, (w.db.node d n).allocated = true → (w'.db.node d n).allocated = true
  valid : ∀ d n, (w'.db.node d n).valid = (w.db.node d n).valid
  proc_num : ∀ d n, (w'.db.node d n).proc_num = (w.db.node d n).proc_num
  sems : ∀ d n, (w'.db.node d n).sems = (w.db.node d n).sems
  shmems : ∀ d n, (w'.db.node d n).shmems = (w.db.node d n).shmems
  processes : w'.db.processes = w.db.processes
  objects : SameObjects w.db w'.db
  mrapi_db : w'.mrapi_db = Function.update w.mrapi_db c.pid true
  tls : ∀ c', c' ≠ c → w'.tls c' = w.tls c'
  pid : (w'.tls c).mrapi_pid = some c.pid
  mapped : w'.mapped = w.mapped
  segment : w'.segment = w.segment

theorem Tried.claimDomain (w : World) (c : Thread) (domain_id d : ℕ) {tls : Tls}
    (htls : tls.mrapi_pid = some c.pid) :
    Tried w c (((begun w c).setDb (claimDomain w.db domain_id d)).setTls c tls) := by
  have hnode : (((begun w c).setDb (NodeTable.claimDomain w.db domain_id d)).setTls c tls).db.node =
      w.db.node := claimDomain_node ..
  constructor
  · intro d' n' h
    rw [hnode]
    exact h
  · intro d' n'
    rw [hnode]
  · intro d' n'
    rw [hnode]
  · intro d' n'
    rw [hnode]
  · intro d' n'
    rw [hnode]
  · exact claimDomain_processes ..
  · exact SameObjects.claimDomain ..
  · rfl
  · intro c' hc
    unfold World.setTls World.setDb begun World.setTls
    dsimp only
    rw [Function.update_of_ne hc, Function.update_of_ne hc]
  · unfold World.setTls
    dsimp only
    rw [Function.update_self]
    exact htls
  · rfl
  · rfl

theorem Tried.claimNode (w : World) (c : Thread) (domain_id d n node_id : ℕ) :
    Tried w c ((begun w c).setDb
      (NodeTable.claimNode (NodeTable.claimDomain w.db domain_id d) d n node_id)) := by
  have hnode : ∀ d' n',
      ((begun w c).setDb (NodeTable.claimNode (NodeTable.claimDomain w.db domain_id d) d n
        node_id)).db.node d' n' = if d' = d ∧ n' = n then
        { w.db.node d n with node_num := node_id, allocated := true } else w.db.node d' n' := by
    intro d' n'
    change (NodeTable.claimNode (NodeTable.claimDomain w.db domain_id d) d n node_id).node d' n' = _
    unfold NodeTable.claimNode
    rw [setNode_node, claimDomain_node]
  have hfield : ∀ {α : Type} (f : mrapi_node_data → α),
      f { w.db.node d n with node_num := node_id, allocated := true } = f (w.db.node d n) →
      ∀ d' n', f (((begun w c).setDb (NodeTable.claimNode
        (NodeTable.claimDomain w.db domain_id d) d n node_id)).db.node d' n') =
        f (w.db.node d' n') := by
    intro α f hf d' n'
    rw [hnode]
    split
    · rename_i hplace
      rw [hf, hplace.1, hplace.2]
    · rfl
  have hdomain := SameObjects.claimDomain w.db d domain_id
  constructor
  · intro d' n' h
    rw [hnode]
    split
    · rfl
    · exact h
  · exact hfield (fun node => node.valid) rfl
  · exact hfield (fun node => node.proc_num) rfl
  · exact hfield (fun node => node.sems) rfl
  · exact hfield (fun node => node.shmems) rfl
  · exact claimDomain_processes ..
  · exact ⟨hdomain.shmems, hdomain.num_shmems, hdomain.sems⟩
  · rfl
  · intro c' hc
    unfold World.setDb begun World.setTls
    dsimp only
    rw [Function.update_of_ne hc]
  · unfold World.setDb begun World.setTls
    dsimp only
    rw [Function.update_self]
  · rfl
  · rfl

/-- **An initialize that finds no room** leaves its thread with an identity, or goes on without
a domain entry. -/
theorem initialize_no_room {w : World} {c : Thread} {domain_id node_id : ℕ}
    (hwho : mrapi_impl_whoami w c = none) (hroom : ¬ Room w c domain_id node_id) :
    mrapi_impl_initialize w c domain_id node_id = none ∨
      ∃ w', mrapi_impl_initialize w c domain_id node_id = some (w', false) ∧
        mrapi_impl_whoami w' c ≠ none ∧ Tried w c w' := by
  have hpid : ((begun w c).tls c).mrapi_pid = some c.pid := by
    unfold begun World.setTls
    dsimp only
    rw [Function.update_self]
  -- the identity is that of the call, whatever was claimed
  have htried : ∀ {w' : World}, Tried w c w' → mrapi_impl_whoami w' c ≠ none ∧ Tried w c w' :=
    fun ht => ⟨whoami_begun ht.mrapi_db ht.pid, ht⟩
  rw [initialize_eq hwho]
  cases hd : domainIndex w.db domain_id with
  | none => exact .inl rfl
  | some d =>
    right
    dsimp only
    by_cases hregistered : registered w.db d node_id = true
    · rw [if_pos hregistered]
      exact ⟨_, rfl, htried (.claimDomain w c domain_id d hpid)⟩
    · rw [if_neg hregistered]
      cases hn : freeNode w.db d with
      | none => exact ⟨_, rfl, htried (.claimDomain w c domain_id d hpid)⟩
      | some n =>
        dsimp only
        cases hp : processIndex w.db c.pid with
        | none => exact ⟨_, rfl, htried (.claimNode ..)⟩
        | some p =>
          exfalso
          rw [Bool.not_eq_true] at hregistered
          exact hroom ⟨d, hd, hregistered, by rw [hn]; rfl, by rw [hp]; rfl⟩

/-- A thread that has an identity already is refused. -/
theorem initialize_again {w : World} {c : Thread} (hwho : mrapi_impl_whoami w c ≠ none)
    (domain_id node_id : ℕ) : mrapi_impl_initialize w c domain_id node_id = some (w, false) := by
  obtain ⟨me, hme⟩ := Option.ne_none_iff_exists'.mp hwho
  unfold mrapi_impl_initialize mrapi_impl_initialized
  rw [hme]
  rfl

/-! ## Finalize -/

/-- The process entry `p` after it has lost a node. -/
def lessOne (process : mrapi_process_data) : mrapi_process_data :=
  if process.valid then
    if decU16 process.num_nodes = 0 then .zero
    else { process with num_nodes := decU16 process.num_nodes }
  else process

/-- Node `n` of domain entry `d`, of the process in entry `p`, is finalized by a thread of the
process `pid`. The locks and the counts of shared memory are as they were: the lists of the
node are cleared before they are read. -/
structure Finalized (pid : ℕ) (w : World) (d n p : ℕ) (w' : World) : Prop where
  node : ∀ d' n', w'.db.node d' n' = if d' = d ∧ n' = n then .zero else w.db.node d' n'
  processes : ∀ p', w'.db.processes p' =
    if p' = p then lessOne (w.db.processes p) else w.db.processes p'
  shmems : ∀ s, w'.db.shmems s = w.db.shmems s ∨ lessOne (w.db.processes p) = .zero ∧
    w'.db.shmems s = { w.db.shmems s with
      processes := Function.update (w.db.shmems s).processes p false }
  num_shmems : w'.db.num_shmems = w.db.num_shmems
  sems : w'.db.sems = w.db.sems
  mrapi_db : w'.mrapi_db = w.mrapi_db
  tls : w'.tls = w.tls
  mapped : ∀ pid' s, w'.mapped pid' s =
    (w.mapped pid' s && !(pid' == pid && freesShmem s (w.db.shmems s)))
  segment : ∀ s, freesShmem s (w.db.shmems s) = false → w'.segment s = w.segment s

theorem releaseShmem_zero (s : ℕ) (shmem : mrapi_shmem_t) : releaseShmem .zero s shmem = shmem := by
  unfold releaseShmem
  rw [if_neg]
  rintro ⟨-, -, h⟩
  cases h

theorem releaseSem_zero (s : ℕ) (sem : mrapi_sem_t) : releaseSem .zero s sem = sem := by
  unfold releaseSem
  rw [if_neg]
  rintro ⟨-, -, h⟩
  cases h

theorem rundownProcess_processes (db : mrapi_database) (p p' : ℕ) :
    (rundownProcess db p).processes p' =
      if p' = p then lessOne (db.processes p) else db.processes p' := by
  unfold rundownProcess lessOne
  dsimp only
  split
  · split
    · exact Function.update_apply ..
    · exact Function.update_apply ..
  · split
    · rename_i hp
      rw [hp]
    · rfl

theorem rundownProcess_shmems (db : mrapi_database) (p s : ℕ) :
    (rundownProcess db p).shmems s = db.shmems s ∨ lessOne (db.processes p) = .zero ∧
      (rundownProcess db p).shmems s = { db.shmems s with
        processes := Function.update (db.shmems s).processes p false } := by
  unfold rundownProcess lessOne
  dsimp only
  split
  · split
    · dsimp only
      split
      · exact .inr ⟨rfl, rfl⟩
      · exact .inl rfl
    · exact .inl rfl
  · exact .inl rfl

theorem rundownProcess_rest (db : mrapi_database) (p : ℕ) :
    (rundownProcess db p).node = db.node ∧ (rundownProcess db p).sems = db.sems ∧
      (rundownProcess db p).num_shmems = db.num_shmems := by
  unfold rundownProcess
  dsimp only
  split
  · split
    · exact ⟨rfl, rfl, rfl⟩
    · exact ⟨rfl, rfl, rfl⟩
  · exact ⟨rfl, rfl, rfl⟩

/-- **The finalize of a node** whose indexes are in their tables. -/
theorem finalize_node {pid : ℕ} {w : World} {d n : ℕ} (hd : d < MRAPI_MAX_DOMAINS)
    (hn : n < MRAPI_MAX_NODES) (hp : (w.db.node d n).proc_num < MRAPI_MAX_PROCESSES) :
    ∃ w', mrapi_impl_finalize_node_locked pid w d n = some w' ∧
      Finalized pid w d n (w.db.node d n).proc_num w' := by
  unfold mrapi_impl_finalize_node_locked
  rw [if_pos ⟨hd, hn, hp⟩]
  refine ⟨_, rfl, ?_⟩
  generalize (w.db.node d n).proc_num = p
  obtain ⟨hnode, hsems, hnum⟩ := rundownProcess_rest w.db p
  have hcleared : ((rundownProcess w.db p).setNode d n .zero).node d n = .zero := by
    rw [setNode_node, if_pos ⟨rfl, rfl⟩]
  have hshmem : ∀ s, releaseShmem (((rundownProcess w.db p).setNode d n .zero).node d n) s
      (((rundownProcess w.db p).setNode d n .zero).shmems s) = (rundownProcess w.db p).shmems s := by
    intro s
    rw [hcleared, releaseShmem_zero, setNode_shmems]
  have hfrees : ∀ s, freesShmem s ((rundownProcess w.db p).shmems s) =
      freesShmem s (w.db.shmems s) := by
    intro s
    rcases rundownProcess_shmems w.db p s with h | ⟨-, h⟩
    · rw [h]
    · rw [h]
      rfl
  constructor
  · intro d' n'
    change ((rundownProcess w.db p).setNode d n .zero).node d' n' = _
    rw [setNode_node, hnode]
  · intro p'
    exact rundownProcess_processes w.db p p'
  · intro s
    dsimp only
    rw [hshmem]
    exact rundownProcess_shmems w.db p s
  · exact hnum
  · funext s
    dsimp only
    rw [hcleared, releaseSem_zero, setNode_sems, hsems]
  · rfl
  · rfl
  · intro pid' s
    dsimp only
    rw [hshmem, hfrees]
  · intro s hs
    dsimp only
    rw [hshmem, hfrees, hs, Bool.false_and, Bool.not_false, Bool.and_true]

end MxApi.NodeTable
