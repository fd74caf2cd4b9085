/-
Domains, nodes and processes (`mrapi_impl_spec_initialize_abb.c`,
`mrapi_impl_spec_finalize_abb.c`), and the objects that they use.

Both calls run in the critical section of the global semaphore, so each is one step. The
database is in a shared segment that the last node deletes; the next one creates it anew.
Each process has a pointer to it (`mrapi_db`), and each thread its identity in
thread-local storage. An access outside its table, or an assertion that fails, ends the run:
the result is `none`.

Of an object the model keeps what says who uses it. The handles of the operating system
are left out: a process has an id of a shared memory segment or it has none, and an address
is where the segment is mapped in a process. What only the debug output, the tests or the
signal handlers read is left out too, and so are the messages to the other processes.
-/
import Mathlib.Logic.Function.Basic
import MxApi.Lib.Search
import MxApi.Mrapi.LockTable

set_option autoImplicit false

namespace MxApi.NodeTable

open Lib
open LockTable (MRAPI_MAX_DOMAINS MRAPI_MAX_NODES MRAPI_MAX_SEMS)

/-! ## Data -/

def MRAPI_MAX_PROCESSES : ℕ := 16

def MRAPI_MAX_SHMEMS : ℕ := 10

/-- `sems` and `shmems` list the objects that the node uses. -/
structure mrapi_node_data where
  node_num : ℕ
  allocated : Bool
  valid : Bool
  proc_num : ℕ
  sems : ℕ → Bool
  shmems : ℕ → Bool

def mrapi_node_data.zero : mrapi_node_data := ⟨0, false, false, 0, fun _ => false, fun _ => false⟩

structure mrapi_domain_data where
  domain_id : ℕ
  allocated : Bool
  valid : Bool
  nodes : ℕ → mrapi_node_data

def mrapi_domain_data.zero : mrapi_domain_data := ⟨0, false, false, fun _ => .zero⟩

structure mrapi_process_data where
  pid : ℕ
  allocated : Bool
  valid : Bool
  num_nodes : ℕ
  deriving DecidableEq

def mrapi_process_data.zero : mrapi_process_data := ⟨0, false, false, 0⟩

/-- `id` says which processes have an id of the segment, and `processes` which are attached. -/
structure mrapi_shmem_t where
  valid : Bool
  key : ℕ
  id : ℕ → Bool
  refs : ℕ
  num_procs : ℕ
  processes : ℕ → Bool

def mrapi_shmem_t.zero : mrapi_shmem_t := ⟨false, 0, fun _ => false, 0, 0, fun _ => false⟩

/-- A mutex, a semaphore or a reader-writer lock, without its locks. -/
structure mrapi_sem_t where
  valid : Bool
  deleted : Bool
  key : ℕ
  ext_error_checking : Bool
  refs : ℕ

def mrapi_sem_t.zero : mrapi_sem_t := ⟨false, false, 0, false, 0⟩

structure mrapi_database where
  domains : ℕ → mrapi_domain_data
  processes : ℕ → mrapi_process_data
  shmems : ℕ → mrapi_shmem_t
  num_shmems : ℕ
  sems : ℕ → mrapi_sem_t

/-- A segment that has just been created. -/
def mrapi_database.zero : mrapi_database :=
  ⟨fun _ => .zero, fun _ => .zero, fun _ => .zero, 0, fun _ => .zero⟩

/-- A thread, and the process that it belongs to. -/
structure Thread where
  pid : ℕ
  tid : ℕ
  pid_pos : 0 < pid
  deriving DecidableEq

/-- Threads of two processes. -/
def thread11 : Thread := ⟨1, 1, by decide⟩

def thread12 : Thread := ⟨1, 2, by decide⟩

def thread21 : Thread := ⟨2, 1, by decide⟩

/-- Thread-local storage. The process id is `(pid_t)-1` at first. -/
structure Tls where
  mrapi_pid : Option ℕ
  mrapi_nindex : ℕ
  mrapi_dindex : ℕ
  mrapi_pindex : ℕ
  mrapi_node_id : ℕ
  mrapi_domain_id : ℕ

/-- `(unsigned)-1` -/
def unsigned_minus_one : ℕ := 2 ^ 32 - 1

def Tls.initial : Tls := ⟨none, unsigned_minus_one, unsigned_minus_one, unsigned_minus_one, 0, 0⟩

/-- The database, which processes are attached to it, the threads, in which processes the
segment of each shared memory is mapped, and which of the segments exist. -/
structure World where
  db : mrapi_database
  mrapi_db : ℕ → Bool
  tls : Thread → Tls
  mapped : ℕ → ℕ → Bool
  segment : ℕ → Bool

def World.initial : World :=
  ⟨.zero, fun _ => false, fun _ => .initial, fun _ _ => false, fun _ => false⟩

/-- What `mrapi_impl_whoami` reports: the node, its index, the domain and its index. -/
structure Identity where
  node_id : ℕ
  n_index : ℕ
  domain_id : ℕ
  d_index : ℕ
  deriving DecidableEq, Repr

def mrapi_impl_whoami (w : World) (c : Thread) : Option Identity :=
  if w.mrapi_db c.pid = false then none
  else if (w.tls c).mrapi_pid = none then none
  else some ⟨(w.tls c).mrapi_node_id, (w.tls c).mrapi_nindex, (w.tls c).mrapi_domain_id,
    (w.tls c).mrapi_dindex⟩

def mrapi_impl_initialized (w : World) (c : Thread) : Bool := (mrapi_impl_whoami w c).isSome

/-! ## Writing -/

def mrapi_database.node (db : mrapi_database) (d n : ℕ) : mrapi_node_data :=
  (db.domains d).nodes n

def mrapi_database.setDomain (db : mrapi_database) (d : ℕ) (domain : mrapi_domain_data) :
    mrapi_database :=
  { db with domains := Function.update db.domains d domain }

def mrapi_database.setNode (db : mrapi_database) (d n : ℕ) (node : mrapi_node_data) :
    mrapi_database :=
  db.setDomain d { db.domains d with nodes := Function.update (db.domains d).nodes n node }

def mrapi_database.setProcess (db : mrapi_database) (p : ℕ) (process : mrapi_process_data) :
    mrapi_database :=
  { db with processes := Function.update db.processes p process }

def mrapi_database.setShmem (db : mrapi_database) (s : ℕ) (shmem : mrapi_shmem_t) :
    mrapi_database :=
  { db with shmems := Function.update db.shmems s shmem }

def mrapi_database.setSem (db : mrapi_database) (s : ℕ) (sem : mrapi_sem_t) : mrapi_database :=
  { db with sems := Function.update db.sems s sem }

def World.setDb (w : World) (db : mrapi_database) : World := { w with db := db }

def World.setTls (w : World) (c : Thread) (tls : Tls) : World :=
  { w with tls := Function.update w.tls c tls }

/-! ## Initialize -/

/-- The entry with the id, allocated or not, or else the first one that is not allocated. -/
def domainIndex (db : mrapi_database) (domain_id : ℕ) : Option ℕ :=
  match search MRAPI_MAX_DOMAINS fun d => (db.domains d).domain_id == domain_id with
  | some d => some d
  | none => search MRAPI_MAX_DOMAINS fun d => !(db.domains d).allocated

/-- The domain is given its entry, unless it had it already. -/
def claimDomain (db : mrapi_database) (domain_id d : ℕ) : mrapi_database :=
  if (db.domains d).domain_id == domain_id then db
  else db.setDomain d { db.domains d with domain_id := domain_id, allocated := true }

/-- The node exists already for this domain. -/
def registered (db : mrapi_database) (d node_id : ℕ) : Bool :=
  (search MRAPI_MAX_NODES fun n =>
    (db.node d n).allocated && (db.node d n).node_num == node_id).isSome

/-- The first available node entry. -/
def freeNode (db : mrapi_database) (d : ℕ) : Option ℕ :=
  search MRAPI_MAX_NODES fun n => !(db.node d n).allocated

def claimNode (db : mrapi_database) (d n node_id : ℕ) : mrapi_database :=
  db.setNode d n { db.node d n with node_num := node_id, allocated := true }

/-- The entry of the process, or else the first one that is not allocated. -/
def processIndex (db : mrapi_database) (pid : ℕ) : Option ℕ :=
  match search MRAPI_MAX_PROCESSES fun p => (db.processes p).pid == pid with
  | some p => some p
  | none => search MRAPI_MAX_PROCESSES fun p => !(db.processes p).allocated

def claimProcess (db : mrapi_database) (pid p : ℕ) : mrapi_database :=
  if (db.processes p).pid == pid then db
  else db.setProcess p { db.processes p with pid := pid, allocated := true }

/-- The node is added to the database, and the thread takes its identity. -/
def addNode (w : World) (c : Thread) (domain_id node_id d n p : ℕ) : World :=
  let db := w.db.setDomain d { w.db.domains d with domain_id := domain_id, valid := true }
  let db := db.setNode d n { db.node d n with node_num := node_id, valid := true, proc_num := p }
  let process := db.processes p
  let process := if process.valid then process else { process with pid := c.pid, valid := true }
  let db := db.setProcess p { process with num_nodes := u16 (process.num_nodes + 1) }
  (w.setDb db).setTls c { w.tls c with
    mrapi_nindex := n
    mrapi_dindex := d
    mrapi_domain_id := domain_id
    mrapi_node_id := node_id }

/-- Whether the call succeeds. Without a domain entry the code goes on with the index
`MRAPI_MAX_DOMAINS`. -/
def mrapi_impl_initialize (w : World) (c : Thread) (domain_id node_id : ℕ) :
    Option (World × Bool) :=
  if mrapi_impl_initialized w c then some (w, false)
  else
    let w := { w with mrapi_db := Function.update w.mrapi_db c.pid true }
    let w := w.setTls c { w.tls c with mrapi_pid := some c.pid }
    match domainIndex w.db domain_id with
    | none => none
    | some d =>
      let w := w.setDb (claimDomain w.db domain_id d)
      if registered w.db d node_id then
        some (w.setTls c { w.tls c with mrapi_pindex := 0 }, false)
      else
        match freeNode w.db d with
        | none => some (w.setTls c { w.tls c with mrapi_pindex := 0 }, false)
        | some n =>
          let w := w.setDb (claimNode w.db d n node_id)
          match processIndex w.db c.pid with
          | none => some (w, false)
          | some p =>
            let w := w.setDb (claimProcess w.db c.pid p)
            let w := w.setTls c { w.tls c with mrapi_pindex := p }
            if (w.db.node d n).valid then none
            else some (addNode w c domain_id node_id d n p, true)

/-! ## Finalize -/

/-- The process of a node loses it. With its last node it loses its entry, and its
references to shared memory. -/
def rundownProcess (db : mrapi_database) (p : ℕ) : mrapi_database :=
  let process := db.processes p
  if process.valid then
    let num_nodes := decU16 process.num_nodes
    if num_nodes = 0 then
      { db with
        shmems := fun s =>
          if s < MRAPI_MAX_SHMEMS ∧ (db.shmems s).valid then
            { db.shmems s with processes := Function.update (db.shmems s).processes p false }
          else db.shmems s
        processes := Function.update db.processes p .zero }
    else db.setProcess p { process with num_nodes := num_nodes }
  else db

/-- The count of a shared memory that the node is a user of. -/
def releaseShmem (node : mrapi_node_data) (s : ℕ) (shmem : mrapi_shmem_t) : mrapi_shmem_t :=
  if s < MRAPI_MAX_SHMEMS ∧ shmem.valid ∧ node.shmems s then
    { shmem with refs := subU8 shmem.refs 1 }
  else shmem

/-- The shared memory is detached and its segment deleted, since nobody uses it. -/
def freesShmem (s : ℕ) (shmem : mrapi_shmem_t) : Bool :=
  decide (s < MRAPI_MAX_SHMEMS) && shmem.valid && shmem.refs == 0

/-- The count of a lock that the node is a user of, and the lock itself with its last user. -/
def releaseSem (node : mrapi_node_data) (s : ℕ) (sem : mrapi_sem_t) : mrapi_sem_t :=
  if s < MRAPI_MAX_SEMS ∧ sem.valid ∧ node.sems s then
    let refs := decU16 sem.refs
    { sem with refs := refs, valid := refs != 0 }
  else sem

def mrapi_impl_finalize_node_locked (pid : ℕ) (w : World) (d n : ℕ) : Option World :=
  if d < MRAPI_MAX_DOMAINS ∧ n < MRAPI_MAX_NODES ∧
      (w.db.node d n).proc_num < MRAPI_MAX_PROCESSES then
    let p := (w.db.node d n).proc_num
    let db := rundownProcess w.db p
    -- the entry is cleared before its lists are read
    let db := db.setNode d n .zero
    let node := db.node d n
    let shmems := fun s => releaseShmem node s (db.shmems s)
    some { w with
      db := { db with shmems := shmems, sems := fun s => releaseSem node s (db.sems s) }
      mapped := fun pid' s => w.mapped pid' s && !(pid' == pid && freesShmem s (shmems s))
      segment := fun s => w.segment s && !(freesShmem s (shmems s) && (shmems s).id p) }
  else none

/-- All entries of the node tables. -/
def nodeIndexes : List (ℕ × ℕ) :=
  (List.range MRAPI_MAX_DOMAINS).flatMap fun d => (List.range MRAPI_MAX_NODES).map fun n => (d, n)

/-- The pid in the process entry that a node points to. -/
def mrapi_database.pidOf (db : mrapi_database) (d n : ℕ) : ℕ :=
  (db.processes (db.node d n).proc_num).pid

/-- All valid nodes of the process are finalized. -/
def finalizeOthers (pid : ℕ) (w : World) : List (ℕ × ℕ) → Option World
  | [] => some w
  | (d, n) :: rest =>
    if (w.db.node d n).valid then
      if (w.db.node d n).proc_num < MRAPI_MAX_PROCESSES then
        if w.db.pidOf d n = pid then
          (mrapi_impl_finalize_node_locked pid w d n).bind fun w' => finalizeOthers pid w' rest
        else finalizeOthers pid w rest
      else none
    else finalizeOthers pid w rest

/-- The entry of the process, if it still has one, is cleared. -/
def clearProcess (pid : ℕ) (db : mrapi_database) : mrapi_database :=
  match search MRAPI_MAX_PROCESSES fun p =>
      (db.processes p).valid && (db.processes p).pid == pid with
  | some p => db.setProcess p .zero
  | none => db

/-- There is no valid node. -/
def lastManStanding (db : mrapi_database) : Bool :=
  nodeIndexes.all fun i => !(db.node i.1 i.2).valid

/-- There is no valid node of the process. -/
def lastManStandingForThisProcess (pid : ℕ) (db : mrapi_database) : Bool :=
  nodeIndexes.all fun i => !((db.node i.1 i.2).valid && db.pidOf i.1 i.2 == pid)

/-- The process entries of the valid nodes are in their table. -/
def inRange (db : mrapi_database) : Bool :=
  nodeIndexes.all fun i =>
    !(db.node i.1 i.2).valid || decide ((db.node i.1 i.2).proc_num < MRAPI_MAX_PROCESSES)

/-- The process is detached from the database, which is deleted with the last node. -/
def detachDatabase (w : World) (c : Thread) (last lastForThisProcess : Bool) : Option World :=
  let pindex := (w.tls c).mrapi_pindex
  let detached := fun db : mrapi_database =>
    { w with db := if last then .zero else db, mrapi_db := Function.update w.mrapi_db c.pid false }
  if lastForThisProcess then
    if pindex < MRAPI_MAX_PROCESSES then some (detached (w.db.setProcess pindex .zero)) else none
  else if last then some (detached w.db)
  else some w

/-- Whether no valid node is left in the system. -/
def mrapi_impl_free_resources (panic : Bool) (w : World) (c : Thread) : Option (World × Bool) :=
  if w.mrapi_db c.pid = false then some (w, true)
  else do
    -- finalize this node
    let w ← match mrapi_impl_whoami w c with
      | some me => mrapi_impl_finalize_node_locked c.pid w me.d_index me.n_index
      | none => some w
    -- forcefully finalize all other nodes that belong to this process
    let w ← if panic then
        (finalizeOthers c.pid w nodeIndexes).map fun w => w.setDb (clearProcess c.pid w.db)
      else some w
    let last := lastManStanding w.db
    let lastForThisProcess := lastManStandingForThisProcess c.pid w.db
    if !inRange w.db || panic && !lastForThisProcess then none
    else (detachDatabase w c last lastForThisProcess).map fun w => (w, last)

def mrapi_impl_finalize (w : World) (c : Thread) : Option World :=
  (mrapi_impl_free_resources false w c).map Prod.fst

end MxApi.NodeTable
