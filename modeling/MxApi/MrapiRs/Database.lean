/-
`MrapiDatabase::initialize`, `whoami` and `finalize` (`mrapi/src/internal/db.rs`).

The two long calls run under the global semaphore, which only one thread at a time gets past, so
each call is one step. It returns, panics, or never comes back from a loop: the semaphore is
waited for by trying again. The semaphores of the tables are made and never used here, and are
left out, as is what the database holds besides domains, nodes, processes, shared memory and
semaphores. The system grants every semaphore that it is asked for.
-/
import Mathlib.Logic.Function.Basic
import MxApi.Lib.Search
import MxApi.Lib.Word

set_option autoImplicit false

namespace MxApi.MrapiRs

open Lib

/-! ## Data -/

def MRAPI_MAX_DOMAINS : ℕ := 2

def MRAPI_MAX_NODES : ℕ := 16

def MRAPI_MAX_PROCESSES : ℕ := 16

def MRAPI_MAX_SHMEMS : ℕ := 10

def MRAPI_MAX_SEMS : ℕ := 32

structure MrapiNodeState where
  node_num : ℕ
  allocated : Bool
  valid : Bool
  deriving DecidableEq, Repr

structure MrapiNodeData where
  state : MrapiNodeState
  tid : ℕ
  proc_num : ℕ
  sems : ℕ → ℕ
  shmems : ℕ → ℕ

structure MrapiDomainState where
  domain_id : ℕ
  allocated : Bool
  valid : Bool
  deriving DecidableEq, Repr

structure MrapiDomainData where
  num_nodes : ℕ
  state : MrapiDomainState
  nodes : ℕ → MrapiNodeData

structure MrapiProcessState where
  pid : ℕ
  allocated : Bool
  valid : Bool
  deriving DecidableEq, Repr

structure MrapiProcessData where
  state : MrapiProcessState
  num_nodes : ℕ
  deriving DecidableEq, Repr

structure MrapiShmem where
  valid : Bool
  refs : ℕ
  processes : ℕ → ℕ

structure MrapiSem where
  valid : Bool
  refs : ℕ
  deriving DecidableEq, Repr

structure MrapiDatabase where
  domains : ℕ → MrapiDomainData
  processes : ℕ → MrapiProcessData
  shmems : ℕ → MrapiShmem
  sems : ℕ → MrapiSem

/-- A thread, by its process and its own number. -/
structure Thread where
  pid : ℕ
  tid : ℕ
  deriving DecidableEq, Repr

/-- The cells of a thread, each of which is set once. -/
structure Tls where
  pid : Option ℕ
  nindex : Option ℕ
  dindex : Option ℕ
  pindex : Option ℕ
  node_id : Option ℕ
  domain_id : Option ℕ
  deriving DecidableEq, Repr

def Tls.empty : Tls := ⟨none, none, none, none, none, none⟩

/-- `sem` is the value of the member of the global semaphore, if the set exists; `mrapi_sem` says
which processes have their reference to it. -/
structure World where
  db : MrapiDatabase
  tls : Thread → Tls
  sem : Option ℕ
  mrapi_sem : ℕ → Bool

inductive Outcome (α : Type)
  | returned (a : α)
  | panicked
  | blocked

/-! ## Zeroed memory -/

def MrapiNodeState.zero : MrapiNodeState := ⟨0, false, false⟩

def MrapiNodeData.zero : MrapiNodeData := ⟨.zero, 0, 0, fun _ => 0, fun _ => 0⟩

def MrapiDomainData.zero : MrapiDomainData := ⟨0, ⟨0, false, false⟩, fun _ => .zero⟩

def MrapiProcessData.zero : MrapiProcessData := ⟨⟨0, false, false⟩, 0⟩

def MrapiDatabase.zero : MrapiDatabase :=
  ⟨fun _ => .zero, fun _ => .zero, fun _ => ⟨false, 0, fun _ => 0⟩, fun _ => ⟨false, 0⟩⟩

/-- Before any call. -/
def World.initial : World := ⟨.zero, fun _ => .empty, none, fun _ => false⟩

/-! ## Entries -/

def MrapiDatabase.node (db : MrapiDatabase) (d n : ℕ) : MrapiNodeData := (db.domains d).nodes n

def MrapiDatabase.setDomain (db : MrapiDatabase) (d : ℕ) (domain : MrapiDomainData) :
    MrapiDatabase :=
  { db with domains := Function.update db.domains d domain }

def MrapiDatabase.setNode (db : MrapiDatabase) (d n : ℕ) (node : MrapiNodeData) :
    MrapiDatabase :=
  db.setDomain d { db.domains d with nodes := Function.update (db.domains d).nodes n node }

def MrapiDatabase.setProcess (db : MrapiDatabase) (p : ℕ) (process : MrapiProcessData) :
    MrapiDatabase :=
  { db with processes := Function.update db.processes p process }

/-- `MrapiNodeData::clear`: the number of the thread stays. -/
def MrapiNodeData.clear (node : MrapiNodeData) : MrapiNodeData :=
  { MrapiNodeData.zero with tid := node.tid }

/-! ## whoami -/

def whoami (w : World) (c : Thread) : Option (ℕ × ℕ × ℕ × ℕ) :=
  let tls := w.tls c
  if tls.pid = none then none
  else some (tls.node_id.getD 0, tls.nindex.getD 0, tls.domain_id.getD 0, tls.dindex.getD 0)

/-! ## initialize -/

/-- `create_sys_semaphore(1, key, MRAPI_TRUE)`: the set is made or found, and its member locked;
one that is locked is tried again and again. -/
def create_sys_semaphore (w : World) : Outcome World :=
  match w.sem with
  | none => .returned { w with sem := some 0 }
  | some 0 => .blocked
  | some (v + 1) => .returned { w with sem := some v }

/-- The first entry that is not allocated is claimed. -/
def claimDomain (db : MrapiDatabase) (domain_id : ℕ) : MrapiDatabase :=
  match search MRAPI_MAX_DOMAINS fun d => !(db.domains d).state.allocated with
  | none => db
  | some d =>
    let domain := db.domains d
    db.setDomain d { domain with
      state := { domain.state with domain_id := u32 domain_id, allocated := true } }

def claimNode (db : MrapiDatabase) (d node_id : ℕ) : MrapiDatabase :=
  match search MRAPI_MAX_NODES fun n => !(db.node d n).state.allocated with
  | none => db
  | some n =>
    let node := db.node d n
    db.setNode d n { node with
      state := { node.state with node_num := u32 node_id, allocated := true } }

def claimProcess (db : MrapiDatabase) (pid : ℕ) : MrapiDatabase :=
  match search MRAPI_MAX_PROCESSES fun p => !(db.processes p).state.allocated with
  | none => db
  | some p =>
    let process := db.processes p
    db.setProcess p { process with state := { process.state with pid := pid, allocated := true } }

/-- The searches for a domain, a node and a process. Each loop binds an index of its own, so that
the indexes outside keep the value that they are declared with: a loop that only looks for an
entry leaves no trace, and the claims stand behind a test that they make dead code. -/
def findEntries (db : MrapiDatabase) (pid domain_id node_id d n p : ℕ) : MrapiDatabase :=
  let db := if d = MRAPI_MAX_DOMAINS then claimDomain db domain_id else db
  if d ≠ MRAPI_MAX_DOMAINS then
    if n = MRAPI_MAX_NODES then
      let db := claimNode db d node_id
      if n ≠ MRAPI_MAX_NODES ∧ p = MRAPI_MAX_PROCESSES then claimProcess db pid else db
    else db
  else db

/-- The entries of domain `d` and node `n` are filled in. -/
def addNode (db : MrapiDatabase) (tid domain_id node_id d n p : ℕ) : MrapiDatabase :=
  let domain := db.domains d
  let node := domain.nodes n
  db.setDomain d
    { num_nodes := u16 (domain.num_nodes + 1)
      state := { domain.state with domain_id := u32 domain_id, valid := true }
      nodes := Function.update domain.nodes n { node with
        tid := tid
        proc_num := p
        state := { node.state with node_num := u32 node_id, valid := true } } }

/-- The world, and whether the call returns `Ok`. -/
def database_initialize (w : World) (c : Thread) (domain_id node_id : ℕ) : Outcome (World × Bool) :=
  if (whoami w c).isSome then .returned (w, false)
  else
    match create_sys_semaphore w with
    | .panicked => .panicked
    | .blocked => .blocked
    | .returned w =>
      -- the cell of the process is set once
      if w.mrapi_sem c.pid then .panicked
      else
        let tls := { w.tls c with pid := some c.pid }
        let w := { w with
          mrapi_sem := Function.update w.mrapi_sem c.pid true
          tls := Function.update w.tls c tls }
        let d := 0
        let n := 0
        let p := 0
        let w := { w with db := findEntries w.db c.pid domain_id node_id d n p }
        if d = MRAPI_MAX_DOMAINS ∨ n = MRAPI_MAX_NODES ∨ p = MRAPI_MAX_PROCESSES then
          .returned (w, false)
        -- so are those of the thread
        else if tls.pindex.isSome then .panicked
        else if (w.db.node d n).state.valid then .panicked
        else if tls.nindex.isSome ∨ tls.dindex.isSome ∨ tls.domain_id.isSome ∨
            tls.node_id.isSome then .panicked
        else
          -- `MRAPI_NODE_ID` is set to the domain
          .returned ({ w with
            db := addNode w.db c.tid domain_id node_id d n p
            tls := Function.update w.tls c
              ⟨some c.pid, some n, some d, some p, some domain_id, some domain_id⟩ }, false)

/-! ## finalize -/

/-- The last node of a process takes it out of the lists of shared memory. -/
def rundownProcess (db : MrapiDatabase) (p : ℕ) : MrapiDatabase :=
  let process := db.processes p
  if process.state.valid then
    let db := db.setProcess p { process with num_nodes := decU16 process.num_nodes }
    if process.num_nodes ≤ 1 then
      { db.setProcess p .zero with
        shmems := fun s =>
          let shmem := db.shmems s
          if s < MRAPI_MAX_SHMEMS ∧ shmem.valid then
            { shmem with processes := Function.update shmem.processes p 0 }
          else shmem }
    else db
  else db

/-- A semaphore after one of its users is gone. -/
def releaseSem (sem : MrapiSem) (used : ℕ) : MrapiSem :=
  if sem.valid ∧ used = 1 then
    { refs := subU8 sem.refs 1, valid := !decide (sem.refs ≤ 1) }
  else sem

/-- Shared memory after one of its users is gone; no reference to take away is a panic. -/
def releaseShmem (shmem : MrapiShmem) (used : ℕ) : Option MrapiShmem :=
  if shmem.valid ∧ used = 1 then
    if shmem.refs = 0 then none else some { shmem with refs := shmem.refs - 1 }
  else some shmem

def clearNode (db : MrapiDatabase) (d n : ℕ) : MrapiDatabase :=
  let db := db.setNode d n (db.node d n).clear
  db.setDomain d { db.domains d with num_nodes := decU16 (db.domains d).num_nodes }

/-- The objects that the lists of a node name; `none` is a panic. -/
def releaseObjects (db : MrapiDatabase) (d n : ℕ) : Option MrapiDatabase :=
  let used := db.node d n
  if ∀ s, s < MRAPI_MAX_SHMEMS → (releaseShmem (db.shmems s) (used.shmems s)).isSome then
    let lists := db.setNode d n { used with sems := fun s =>
      if s < MRAPI_MAX_SEMS ∧ (db.sems s).valid ∧ used.sems s = 1 then 0 else used.sems s }
    some { lists with
      shmems := fun s =>
        if s < MRAPI_MAX_SHMEMS then
          (releaseShmem (db.shmems s) (used.shmems s)).getD (db.shmems s)
        else db.shmems s
      sems := fun s =>
        if s < MRAPI_MAX_SEMS then releaseSem (db.sems s) (used.sems s) else db.sems s }
  else none

/-- `none` is a panic: an index outside a table, or no reference to take away. The entry is clear
when it is asked what its node used. -/
def finalize_node_locked (db : MrapiDatabase) (d n : ℕ) : Option MrapiDatabase :=
  if d < MRAPI_MAX_DOMAINS ∧ n < MRAPI_MAX_NODES then
    let node := db.node d n
    let db := db.setNode d n { node with
      state := { node.state with valid := false, allocated := false } }
    if node.proc_num < MRAPI_MAX_PROCESSES then
      releaseObjects (clearNode (rundownProcess db node.proc_num) d n) d n
    else none
  else none

/-- The entries of all nodes, in the order of the loops. -/
def nodeIndexes : List (ℕ × ℕ) :=
  (List.range MRAPI_MAX_DOMAINS).flatMap fun d =>
    (List.range MRAPI_MAX_NODES).map fun n => (d, n)

/-- In panic mode: the other nodes of the process. -/
def finalizeOthers (pid : ℕ) : MrapiDatabase → List (ℕ × ℕ) → Option MrapiDatabase
  | db, [] => some db
  | db, (d, n) :: rest =>
    let node := db.node d n
    if node.state.valid then
      if node.proc_num < MRAPI_MAX_PROCESSES then
        if (db.processes node.proc_num).state.pid = pid then
          (finalize_node_locked db d n).bind fun db => finalizeOthers pid db rest
        else finalizeOthers pid db rest
      else none
    else finalizeOthers pid db rest

/-- In panic mode: the entry of the process. -/
def clearProcess (db : MrapiDatabase) (pid : ℕ) : MrapiDatabase :=
  match search MRAPI_MAX_PROCESSES fun p =>
      (db.processes p).state.valid && (db.processes p).state.pid == pid with
  | none => db
  | some p => db.setProcess p .zero

/-- No index outside the table of processes is met in the search for nodes that are left. -/
def inRange (db : MrapiDatabase) : Bool :=
  nodeIndexes.all fun i =>
    !(db.node i.1 i.2).state.valid || decide ((db.node i.1 i.2).proc_num < MRAPI_MAX_PROCESSES)

/-- No valid node is left of the process. -/
def last_task_standing_for_this_process (db : MrapiDatabase) (pid : ℕ) : Bool :=
  nodeIndexes.all fun i =>
    !(db.node i.1 i.2).state.valid ||
      (db.processes (db.node i.1 i.2).proc_num).state.pid != pid

/-- `access_database_pre` on the global semaphore, waiting: one that is locked is tried again and
again; where there is no set the call goes on without the lock. -/
def access_database_pre (w : World) : Outcome World :=
  match w.sem with
  | none => .returned w
  | some 0 => .blocked
  | some (v + 1) => .returned { w with sem := some v }

/-- The world after the database is cleaned up. Nothing is done where no node is left, because to
drop a reference to a reference does nothing; and nothing gives the semaphore back. -/
def free_resources (panic : Bool) (w : World) (c : Thread) : Outcome World :=
  if !w.mrapi_sem c.pid then .panicked
  else
    match access_database_pre w with
    | .panicked => .panicked
    | .blocked => .blocked
    | .returned w =>
      let finalized :=
        match whoami w c with
        | none => some w.db
        -- the node and the domain stand where the indexes should
        | some v => finalize_node_locked w.db v.1 v.2.2.1
      let cleared := finalized.bind fun db =>
        if panic then
          (finalizeOthers c.pid db nodeIndexes).map fun db => clearProcess db c.pid
        else some db
      match cleared with
      | none => .panicked
      | some db =>
        if !inRange db then .panicked
        else if panic && !last_task_standing_for_this_process db c.pid then .panicked
        -- a reference to no set panics when it is dropped
        else if w.sem = none then .panicked
        else .returned { w with db := db }

def database_finalize (w : World) (c : Thread) : Outcome World := free_resources false w c

end MxApi.MrapiRs
