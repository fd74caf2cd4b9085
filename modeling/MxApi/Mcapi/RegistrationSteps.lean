/-
`mcapi_trans_initialize` and `mcapi_trans_finalize` as programs of atomic steps
(`transport_sm_initialize_abb.c`, `transport_sm_finalize_abb.c`), run by any
number of threads of any number of processes in any interleaving.

Every access to a state word of the database is a step of its own. The exchange
`mrapi_atomic_xchg` is two: it reads the word and swaps it against what it read,
and does not look whether the swap succeeded. A new shared memory is zero, as
`shmget` provides it; that a resource call in front of an initialization fails
is a choice of the step, the deletion of a memory that exists succeeds.
-/
import MxApi.Lib.Run
import MxApi.Mcapi.Registration

set_option autoImplicit false

namespace MxApi

open Lib

namespace mcapi_database

variable (db : mcapi_database)

def setDomainState (d : ℕ) (w : mcapi_domain_state) : mcapi_database :=
  db.setDomain d { db.domains d with state := w }

def setNumNodes (d k : ℕ) : mcapi_database :=
  db.setDomain d { db.domains d with num_nodes := k }

def setNodeState (d n : ℕ) (w : mcapi_node_state) : mcapi_database :=
  db.setNode d n { db.node d n with state := w }

end mcapi_database

/-! ## Programs -/

/-- The arguments of `mcapi_trans_initialize`. -/
structure InitArgs where
  domain_id : ℕ
  node_id : ℕ
  start : Bool
  deriving DecidableEq, Repr

/-- What a thread does to the state word of its node once it has one: it reads
the word, changes the copy and exchanges the word for it. -/
inductive NodeUpdate
  /-- `newnstate.data.valid = MCAPI_FALSE` -/
  | invalidate (start : Bool)
  /-- `state.data.rundown = MCAPI_FALSE` -/
  | clearRundown (start : Bool)
  /-- `mcapi_trans_start` -/
  | trans_start
  /-- "mark myself as invalid" -/
  | remove
  /-- `mcapi_trans_rundown`, with what the search for other nodes has shown -/
  | rundown (last_man_standing last_man_standing_for_this_process : Bool)
  deriving DecidableEq, Repr

def NodeUpdate.apply (v : mcapi_node_state) : NodeUpdate → mcapi_node_state
  | .invalidate _ => { v with valid := false }
  | .clearRundown _ => { v with rundown := false }
  | .trans_start => { v with valid := true }
  | .remove => { v with node_num := 0, allocated := false, valid := false }
  | .rundown _ _ => { v with rundown := true }

/-- Where a thread stands. -/
inductive RegPc
  | idle
  /-- the resource calls of an initialization -/
  | attach (a : InitArgs)
  /-- `mcapi_db` is set to memory `m`, which was found or created -/
  | point (a : InitArgs) (m : ℕ) (created : Bool)
  /-- the read and the swap that set a domain's state word to zero -/
  | clearDomain (a : InitArgs) (d : ℕ)
  | clearDomainSwap (a : InitArgs) (d : ℕ) (previous : mcapi_domain_state)
  /-- the read and the swap that set a node's state word to zero -/
  | clearNode (a : InitArgs) (d n : ℕ)
  | clearNodeSwap (a : InitArgs) (d n : ℕ) (previous : mcapi_node_state)
  /-- "first see if this domain already exists" -/
  | findDomain (a : InitArgs) (d : ℕ)
  /-- "find the first available entry" -/
  | takeDomain (a : InitArgs) (d : ℕ)
  | casDomain (a : InitArgs) (d : ℕ) (olddstate : mcapi_domain_state)
  /-- the search for the node, and for the first available entry -/
  | findNode (a : InitArgs) (d n : ℕ)
  | takeNode (a : InitArgs) (d n : ℕ)
  | casNode (a : InitArgs) (d n : ℕ) (oldnstate : mcapi_node_state)
  /-- `newdstate.data.valid = MCAPI_TRUE` and the exchange of the domain's word -/
  | readDomain (w : Whoami) (start : Bool)
  | xchgDomain (w : Whoami) (start : Bool) (newdstate : mcapi_domain_state)
  | swapDomain (w : Whoami) (start : Bool) (newdstate previous : mcapi_domain_state)
  /-- the thread's identity and the node's process id -/
  | setCaller (w : Whoami) (start : Bool)
  /-- an update of the node's word: the read, and the read and swap of the exchange -/
  | readNode (u : NodeUpdate) (w : Whoami)
  | xchgNode (u : NodeUpdate) (w : Whoami) (newstate : mcapi_node_state)
  | swapNode (u : NodeUpdate) (w : Whoami) (newstate previous : mcapi_node_state)
  /-- `mrapi_atomic_inc` of `num_nodes` -/
  | incNodes (w : Whoami) (start : Bool)
  /-- "zero out all the endpoints" -/
  | zeroEndpoints (w : Whoami) (start : Bool)
  /-- `mrapi_atomic_dec` of `num_nodes` -/
  | decNodes (w : Whoami)
  /-- the search for other nodes: the entry's `allocated`, and its `pid` -/
  | scan (w : Whoami) (d i : ℕ) (last_man_standing last_man_standing_for_this_process : Bool)
  | scanPid (w : Whoami) (d i : ℕ) (last_man_standing_for_this_process : Bool)
  /-- `transport_sm_finalize` -/
  | release (last_man_standing last_man_standing_for_this_process : Bool)
  /-- `mcapi_db` is set to null -/
  | detach (last_man_standing_for_this_process : Bool)
  /-- the process ran into its null pointer -/
  | failed
  deriving DecidableEq, Repr

/-- The program point after an update of the node's word. -/
def NodeUpdate.next (w : Whoami) : NodeUpdate → RegPc
  | .invalidate start => .incNodes w start
  | .clearRundown start => if start then .readNode .trans_start w else .idle
  | .trans_start => .idle
  | .remove => .decNodes w
  | .rundown last lastHere => .release last lastHere

/-- The program point after one entry of the search for other nodes. -/
def nextScan (w : Whoami) (d i : ℕ) (last lastHere : Bool) : RegPc :=
  if i + 1 < MCA_MAX_NODES then .scan w d (i + 1) last lastHere
  else if d + 1 < MCA_MAX_DOMAINS then .scan w (d + 1) 0 last lastHere
  else .readNode (.rundown last lastHere) w

/-- The program point after a node's word has been cleared. -/
def nextClear (a : InitArgs) (d n : ℕ) : RegPc :=
  if n + 1 < MCA_MAX_NODES then .clearNode a d (n + 1)
  else if d + 1 < MCA_MAX_DOMAINS then .clearDomain a (d + 1)
  else .findDomain a 0

/-- One atomic step of a thread of process `p` on the memory `mcapi_db` points
to: the database it leaves and where the thread stands then. The program points
without such a step stay. -/
def regProgram (p : ℕ) (db : mcapi_database) : RegPc → mcapi_database × RegPc
  | .clearDomain a d => (db, .clearDomainSwap a d (db.domains d).state)
  | .clearDomainSwap a d previous =>
    (if (db.domains d).state = previous then db.setDomainState d ⟨0, false, false⟩ else db,
      .clearNode a d 0)
  | .clearNode a d n => (db, .clearNodeSwap a d n (db.node d n).state)
  | .clearNodeSwap a d n previous =>
    (if (db.node d n).state = previous then db.setNodeState d n ⟨0, false, false, false⟩ else db,
      nextClear a d n)
  | .findDomain a d =>
    (db,
      if (db.domains d).state.domain_id = a.domain_id then .findNode a d 0
      else if d + 1 < MCA_MAX_DOMAINS then .findDomain a (d + 1)
      else .takeDomain a 0)
  | .takeDomain a d => (db, .casDomain a d (db.domains d).state)
  | .casDomain a d olddstate =>
    -- the entry is expected not to be allocated
    if (db.domains d).state = { olddstate with allocated := false } then
      (db.setDomainState d { olddstate with domain_id := a.domain_id, allocated := true },
        .findNode a d 0)
    else if d + 1 < MCA_MAX_DOMAINS then (db, .takeDomain a (d + 1))
    else (db, .idle)
  | .findNode a d n =>
    (db,
      if (db.node d n).state.allocated ∧ (db.node d n).state.node_num = a.node_id then .idle
      else if n + 1 < MCA_MAX_NODES then .findNode a d (n + 1)
      else .takeNode a d 0)
  | .takeNode a d n => (db, .casNode a d n (db.node d n).state)
  | .casNode a d n oldnstate =>
    if (db.node d n).state = { oldnstate with allocated := false } then
      (db.setNodeState d n { oldnstate with node_num := a.node_id, allocated := true },
        .readDomain ⟨a.node_id, n, a.domain_id, d⟩ a.start)
    else if n + 1 < MCA_MAX_NODES then (db, .takeNode a d (n + 1))
    else (db, .idle)
  | .readDomain w start =>
    (db, .xchgDomain w start { (db.domains w.dindex).state with valid := true })
  | .xchgDomain w start newdstate =>
    (db, .swapDomain w start newdstate (db.domains w.dindex).state)
  | .swapDomain w start newdstate previous =>
    (if (db.domains w.dindex).state = previous then db.setDomainState w.dindex newdstate else db,
      .setCaller w start)
  | .setCaller w start =>
    (db.setNode w.dindex w.nindex { db.node w.dindex w.nindex with pid := p },
      .readNode (.invalidate start) w)
  | .readNode u w => (db, .xchgNode u w (u.apply (db.node w.dindex w.nindex).state))
  | .xchgNode u w newstate => (db, .swapNode u w newstate (db.node w.dindex w.nindex).state)
  | .swapNode u w newstate previous =>
    (if (db.node w.dindex w.nindex).state = previous then
        db.setNodeState w.dindex w.nindex newstate
      else db,
      u.next w)
  | .incNodes w start =>
    (db.setNumNodes w.dindex (u32 ((db.domains w.dindex).num_nodes + 1)), .zeroEndpoints w start)
  | .zeroEndpoints w start =>
    let entry := db.node w.dindex w.nindex
    (db.setNode w.dindex w.nindex
      { entry with
        endpoints := fun e => if e < MCAPI_MAX_ENDPOINTS then .zero else entry.endpoints e },
      .readNode (.clearRundown start) w)
  | .decNodes w =>
    (db.setNumNodes w.dindex (subU32 (db.domains w.dindex).num_nodes 1), .scan w 0 0 true true)
  | .scan w d i last lastHere =>
    (db,
      if (db.node d i).state.allocated then .scanPid w d i lastHere
      else nextScan w d i last lastHere)
  | .scanPid w d i lastHere =>
    (db, nextScan w d i false (lastHere && (db.node d i).pid != p))
  | pc => (db, pc)

theorem regProgram_incNodes (p : ℕ) (db : mcapi_database) (w : Whoami) (start : Bool) :
    regProgram p db (.incNodes w start) =
      (db.setNumNodes w.dindex (u32 ((db.domains w.dindex).num_nodes + 1)),
        .zeroEndpoints w start) := by
  rw [regProgram]

theorem regProgram_decNodes (p : ℕ) (db : mcapi_database) (w : Whoami) :
    regProgram p db (.decNodes w) =
      (db.setNumNodes w.dindex (subU32 (db.domains w.dindex).num_nodes 1),
        .scan w 0 0 true true) := by
  rw [regProgram]

/-! ## The system -/

/-- The memories, processes and identities, the field `num_domains` of each
memory, and where each thread stands. Two ghost fields of a memory: how many
threads found themselves the last one, and whether a node was ever taken. -/
structure RegSys (τ : Type) extends Registry τ where
  num_domains : ℕ → ℕ
  pc : τ → RegPc
  observers : ℕ → ℕ
  used : ℕ → Bool

inductive RegLabel (τ : Type)
  /-- `t` calls `mcapi_trans_initialize` -/
  | init (t : τ) (a : InitArgs)
  /-- `t` calls `mcapi_trans_finalize` -/
  | finalize (t : τ)
  /-- the next atomic step of `t`; `ok` is whether resource calls succeed -/
  | step (t : τ) (ok : Bool)

namespace RegSys

section System

variable {τ : Type} [DecidableEq τ] (pid : τ → ℕ) (s : RegSys τ)

def initial (τ : Type) : RegSys τ :=
  { Registry.initial with
    num_domains := fun _ => 0
    pc := fun _ => .idle
    observers := fun _ => 0
    used := fun _ => false }

def goto (t : τ) (pc : RegPc) : RegSys τ := { s with pc := Function.update s.pc t pc }

/-- The shared memory is looked for, and created if there is none. -/
def doAttach (t : τ) (a : InitArgs) : RegSys τ :=
  match s.key with
  | some m =>
    { s with
      shm := Function.update s.shm (pid t) (some m)
      pc := Function.update s.pc t (.point a m false) }
  | none =>
    { s with
      memories := Function.update s.memories s.created .zero
      created := s.created + 1
      key := some s.created
      shm := Function.update s.shm (pid t) (some s.created)
      pc := Function.update s.pc t (.point a s.created true) }

/-- `mrapi_atomic_xchg_ptr`, or `mrapi_atomic_cas_ptr` from null after a creation. -/
def doPoint (t : τ) (a : InitArgs) (m : ℕ) (created : Bool) : RegSys τ :=
  { s with
    mcapi_db :=
      if created = true ∧ s.mcapi_db (pid t) ≠ none then s.mcapi_db
      else Function.update s.mcapi_db (pid t) (some m)
    pc := Function.update s.pc t (if created then .clearDomain a 0 else .findDomain a 0) }

/-- The last one deletes the memory. -/
def doRelease (t : τ) (last lastHere : Bool) : RegSys τ :=
  { s with
    key := if last = true ∧ s.key = s.shm (pid t) then none else s.key
    pc := Function.update s.pc t (.detach lastHere) }

/-- The last one of a process sets its pointer to null; the thread has returned. -/
def doDetach (t : τ) (lastHere : Bool) : RegSys τ :=
  { s with
    mcapi_db := if lastHere then Function.update s.mcapi_db (pid t) none else s.mcapi_db
    whoami := Function.update s.whoami t none
    pc := Function.update s.pc t .idle }

/-- The step ends the search for other nodes without having found one. -/
def observes (pc pc' : RegPc) : Bool :=
  match pc, pc' with
  | .scan _ _ _ _ _, .readNode (.rundown true _) _ => true
  | _, _ => false

/-- The step takes a node entry. -/
def takes (pc pc' : RegPc) : Bool :=
  match pc, pc' with
  | .casNode _ _ _ _, .readDomain _ _ => true
  | _, _ => false

/-- The identity of the thread after a step. -/
def identity (who : Option Whoami) : RegPc → Option Whoami
  | .setCaller w _ => some w
  | _ => who

/-- A step on memory `m`. -/
def doProgram (t : τ) (m : ℕ) : RegSys τ :=
  let next := regProgram (pid t) (s.memories m) (s.pc t)
  { s with
    toRegistry := s.write t m next.1 (identity (s.whoami t) (s.pc t))
    pc := Function.update s.pc t next.2
    observers := if observes (s.pc t) next.2 then
        Function.update s.observers m (s.observers m + 1)
      else s.observers
    used := if takes (s.pc t) next.2 then Function.update s.used m true else s.used }

def doStep (t : τ) (ok : Bool) : Option (RegSys τ) :=
  match s.pc t with
  | .idle => none
  | .failed => none
  | .attach a => some (if ok then s.doAttach pid t a else s.goto t .idle)
  | .point a m created => some (s.doPoint pid t a m created)
  | .release last lastHere => some (s.doRelease pid t last lastHere)
  | .detach lastHere => some (s.doDetach pid t lastHere)
  | _ =>
    match s.mcapi_db (pid t) with
    | none => some (s.goto t .failed)
    | some m => some (s.doProgram pid t m)

/-- A thread initializes while it is not registered, and finalizes while it is;
finalizing in a process without memory does nothing. -/
def step : RegLabel τ → Option (RegSys τ)
  | .init t a =>
    if s.pc t = .idle ∧ s.whoami t = none then some (s.goto t (.attach a)) else none
  | .finalize t =>
    match s.pc t, s.whoami t, s.mcapi_db (pid t) with
    | .idle, some w, some _ => some (s.goto t (.readNode .remove w))
    | .idle, some _, none => some s
    | _, _, _ => none
  | .step t ok => s.doStep pid t ok

end System

end RegSys

end MxApi
