/-
Registering a node and removing it again (`transport_sm_initialize_abb.c`,
`transport_sm_finalize_abb.c`).

A domain or a node of the database is looked up in an array of entries, and a
new one takes the first entry that is not allocated. Before that the caller's
process attaches to the shared memory, or creates it; the last node removed
deletes it. A process may keep a pointer to a memory that has been deleted, so
the memories are numbered and `key` says which one the processes find.
-/
import MxApi.Mcapi.Tables

set_option autoImplicit false

namespace MxApi

open Lib

namespace mcapi_database

variable (db : mcapi_database)

/-! ## Domains and nodes of a database -/

def setDomain (d : ℕ) (v : mcapi_domain_entry) : mcapi_database :=
  ⟨Function.update db.domains d v⟩

/-- The entry of a domain id. That an entry is allocated is not looked at. -/
def findDomain (domain_id : ℕ) : Option ℕ :=
  (List.range MCA_MAX_DOMAINS).find? fun d => (db.domains d).state.domain_id == domain_id

/-- The first available domain entry. -/
def freeDomain : Option ℕ :=
  (List.range MCA_MAX_DOMAINS).find? fun d => !(db.domains d).state.allocated

/-- The compare-and-swap that takes a domain entry. -/
def claimDomain (d domain_id : ℕ) : mcapi_database :=
  db.setDomain d
    { db.domains d with
      state := { (db.domains d).state with domain_id := domain_id, allocated := true } }

def nodeExists (d node_id : ℕ) : Bool :=
  (List.range MCA_MAX_NODES).any fun n =>
    (db.node d n).state.allocated && (db.node d n).state.node_num == node_id

/-- The first available node entry. -/
def freeNode (d : ℕ) : Option ℕ :=
  (List.range MCA_MAX_NODES).find? fun n => !(db.node d n).state.allocated

/-- Some node is allocated that satisfies `p`. -/
def anyNode (p : mcapi_node_entry → Bool) : Bool :=
  (List.range MCA_MAX_DOMAINS).any fun d => (List.range MCA_MAX_NODES).any fun n =>
    (db.node d n).state.allocated && p (db.node d n)

/-- The state words of all domains and nodes are set to zero. -/
def clear : mcapi_database where
  domains d :=
    if d < MCA_MAX_DOMAINS then
      { db.domains d with
        state := ⟨0, false, false⟩
        nodes := fun n =>
          if n < MCA_MAX_NODES then { db.node d n with state := ⟨0, false, false, false⟩ }
          else db.node d n }
    else db.domains d

end mcapi_database

/-! ## The transport functions -/

section

variable (db : mcapi_database)

/-- The domain's entry, which is claimed if the domain is new. -/
def enterDomain (domain_id : ℕ) : Option (ℕ × mcapi_database) :=
  match db.findDomain domain_id with
  | some d => some (d, db)
  | none => db.freeDomain.map fun d => (d, db.claimDomain d domain_id)

/-- What is written once the caller has its two entries. The node is made valid
by `mcapi_trans_start`. The count of the node's endpoints is not reset. -/
def addCaller (d n node_id pid : ℕ) (start : Bool) : mcapi_database :=
  let entry := db.node d n
  db.setDomain d
    { num_nodes := u32 ((db.domains d).num_nodes + 1)
      state := { (db.domains d).state with valid := true }
      nodes := Function.update (db.domains d).nodes n
        { entry with
          state := { node_num := node_id, allocated := true, valid := start, rundown := false }
          endpoints := fun e => if e < MCAPI_MAX_ENDPOINTS then .zero else entry.endpoints e
          pid := pid } }

/-- The node's entry in a domain that has one: the new database and, on success,
the identity the thread is given. -/
def enterNode (domain_id d node_id pid : ℕ) (start : Bool) : mcapi_database × Option Whoami :=
  -- this node already exists for this domain
  if db.nodeExists d node_id then (db, none)
  else
    match db.freeNode d with
    | none => (db, none)
    | some n => (addCaller db d n node_id pid start, some ⟨node_id, n, domain_id, d⟩)

/-- `mcapi_trans_initialize` on the database the process is attached to. A domain
entry taken stays taken when there is no entry for the node. -/
def mcapi_trans_initialize (domain_id node_id pid : ℕ) (start : Bool) :
    mcapi_database × Option Whoami :=
  match enterDomain db domain_id with
  | none => (db, none)
  | some (d, db) => enterNode db domain_id d node_id pid start

/-- What `mcapi_trans_finalize` leaves behind: the database, and whether no node
at all or no node of this process is left. The entry of the domain is kept. -/
def mcapi_trans_finalize (me : Whoami) (pid : ℕ) : mcapi_database × Bool × Bool :=
  let entry := db.node me.dindex me.nindex
  let db := db.setDomain me.dindex
    { db.domains me.dindex with
      num_nodes := subU32 (db.domains me.dindex).num_nodes 1
      nodes := Function.update (db.domains me.dindex).nodes me.nindex
        { entry with
          -- the flag is set last, by mcapi_trans_rundown
          state := { node_num := 0, allocated := false, valid := false, rundown := true } } }
  (db, !db.anyNode fun _ => true, !db.anyNode fun node => node.pid == pid)

end

/-! ## Threads, processes and memories -/

/-- `whoami` is the identity of a thread while it is registered; `mcapi_db` and
`shm` are the variables of a process, by its process id. -/
structure Registry (τ : Type*) where
  memories : ℕ → mcapi_database
  created : ℕ
  key : Option ℕ
  mcapi_db : ℕ → Option ℕ
  shm : ℕ → Option ℕ
  whoami : τ → Option Whoami

/-- How the first part of an initialization goes: it gives up without looking for
the memory; `transport_sm_get_shared_mem` finds the memory and attaches to it or
not; `transport_sm_create_shared_mem` creates it, with this content, and
attaches to it or not. -/
inductive ShmAccess
  | failed
  | found (attached : Bool)
  | made (content : mcapi_database) (attached : Bool)

/-- The calls. For a removal, whether `mrapi_shmem_delete` succeeds if it is
called, and whether the other resource calls do. -/
inductive RegistrationCall (τ : Type*)
  | init (t : τ) (domain_id node_id : ℕ) (start : Bool) (access : ShmAccess)
  | finalize (t : τ) (deleted released : Bool)

namespace Registry

variable {τ : Type*} (s : Registry τ)

/-- Nothing has been created yet. -/
def initial : Registry τ :=
  ⟨fun _ => .zero, 0, none, fun _ => none, fun _ => none, fun _ => none⟩

/-- The process attaches to the memory found, or creates it; only a null
`mcapi_db` is replaced after a creation, and the memory it then points to is
cleared. The result says whether the process is attached. -/
def attach (p : ℕ) : ShmAccess → Option (Registry τ × Bool)
  | .failed => some (s, false)
  | .found attached => s.key.map fun m =>
    ({ s with
        mcapi_db := if attached then Function.update s.mcapi_db p (some m) else s.mcapi_db
        shm := Function.update s.shm p (some m) }, attached)
  | .made content attached =>
    if s.key = none then
      let fresh := s.created
      let s := { s with
        memories := Function.update s.memories fresh content
        created := fresh + 1
        key := some fresh
        shm := Function.update s.shm p (some fresh) }
      if attached then
        -- the swap expects a null pointer
        let m := (s.mcapi_db p).getD fresh
        some ({ s with
          memories := Function.update s.memories m (s.memories m).clear
          mcapi_db := Function.update s.mcapi_db p (some m) }, true)
      else some (s, false)
    else none

/-- A memory and the identity of a thread are replaced. -/
def write [DecidableEq τ] (t : τ) (m : ℕ) (db : mcapi_database) (me : Option Whoami) :
    Registry τ :=
  { s with
    memories := Function.update s.memories m db
    whoami := Function.update s.whoami t me }

/-- The caller is added to the memory its process points to. -/
def enter [DecidableEq τ] (t : τ) (p domain_id node_id : ℕ) (start : Bool) :
    Option (Registry τ × Bool) :=
  (s.mcapi_db p).map fun m =>
    let r := mcapi_trans_initialize (s.memories m) domain_id node_id p start
    (s.write t m r.1 r.2, r.2.isSome)

/-- The caller's entry is removed, and the memory with the last one. -/
def leave [DecidableEq τ] (t : τ) (p : ℕ) (me : Whoami) (deleted released : Bool) :
    Registry τ × Bool :=
  match s.mcapi_db p with
  | none => (s, false)
  | some m =>
    let r := mcapi_trans_finalize (s.memories m) me p
    ({ s.write t m r.1 none with
        key := if r.2.1 && deleted && s.key == s.shm p then none else s.key
        mcapi_db := if r.2.2 then Function.update s.mcapi_db p none else s.mcapi_db },
      released && (deleted || !r.2.1))

/-- One call. A thread registers while it is not registered, as
`mcapi_initialize` checks, and is removed while it is. -/
def step [DecidableEq τ] (pid : τ → ℕ) : RegistrationCall τ → Option (Registry τ × Bool)
  | .init t domain_id node_id start access =>
    if s.whoami t = none then
      (s.attach (pid t) access).bind fun r =>
        if r.2 then r.1.enter t (pid t) domain_id node_id start else some r
    else none
  | .finalize t deleted released =>
    (s.whoami t).map fun me => s.leave t (pid t) me deleted released

/-! ## A memory and an identity replaced -/

section

variable [DecidableEq τ] (t : τ) (m : ℕ) (db : mcapi_database) (me : Option Whoami)

@[simp] theorem write_memories_self : (s.write t m db me).memories m = db := by
  simp [write]

theorem write_memories_of_ne {k : ℕ} (h : k ≠ m) :
    (s.write t m db me).memories k = s.memories k := by
  simp [write, h]

@[simp] theorem write_whoami_self : (s.write t m db me).whoami t = me := by
  simp [write]

theorem write_whoami_of_ne {t' : τ} (h : t' ≠ t) :
    (s.write t m db me).whoami t' = s.whoami t' := by
  simp [write, h]

end

end Registry

end MxApi
