/-
The calls with which nodes use shared memory and locks (`mrapi_impl_spec_shmem_abb.c`,
`mrapi_shmem.c`, `mrapi_impl_spec_sem_abb.c`).

Each is one step: it runs in the critical section of `shmems_semid`, or in one of those of
the lock table. The results of the operating system and the state of the locks, which decide
whether a create or a delete succeeds, are arguments; `sys_shmem_attach` maps the segment in
the calling process if it has an id of it and nobody has removed it, and `sys_shmem_detach`
unmaps it. Where another process has to duplicate the id of a segment, it does so.
-/
import MxApi.Mrapi.LockTableSafety
import MxApi.Mrapi.NodeTable

set_option autoImplicit false

namespace MxApi.NodeTable

open Lib
open LockTable (MRAPI_MAX_DOMAINS MRAPI_MAX_NODES MRAPI_MAX_SEMS MRAPI_SEM_ID_ANY
  mrapi_impl_encode_hndl mrapi_impl_decode_hndl)

inductive mrapi_status_t
  | MRAPI_SUCCESS
  | MRAPI_ERR_MEM_LIMIT
  | MRAPI_ERR_NODE_NOTINIT
  | MRAPI_ERR_SEM_EXISTS
  | MRAPI_ERR_SEM_ID_INVALID
  | MRAPI_ERR_SEM_INVALID
  | MRAPI_ERR_SEM_LIMIT
  | MRAPI_ERR_SEM_LOCKED
  | MRAPI_ERR_SHM_ATTACHED
  | MRAPI_ERR_SHM_EXISTS
  | MRAPI_ERR_SHM_ID_INVALID
  | MRAPI_ERR_SHM_INVALID
  | MRAPI_ERR_SHM_NOTATTACHED
  deriving DecidableEq, Repr

open mrapi_status_t

/-- The status of a call, if it sets one, and the handle that it returns. -/
structure Outcome where
  status : Option mrapi_status_t
  hndl : ℕ
  deriving DecidableEq, Repr

def Outcome.ofStatus (status : mrapi_status_t) : Outcome := ⟨some status, 0⟩

/-- The entry of the calling node. -/
def World.me (w : World) (c : Thread) : mrapi_node_data :=
  w.db.node (w.tls c).mrapi_dindex (w.tls c).mrapi_nindex

def World.setMe (w : World) (c : Thread) (node : mrapi_node_data) : World :=
  { w with db := w.db.setNode (w.tls c).mrapi_dindex (w.tls c).mrapi_nindex node }

/-! ## Shared memory -/

def mrapi_impl_valid_shmem_hndl (w : World) (shmem : ℕ) : Bool :=
  let s := mrapi_impl_decode_hndl shmem
  s.2 && decide (s.1 < MRAPI_MAX_SHMEMS) && (w.db.shmems s.1).valid

def mrapi_impl_shmem_attached (w : World) (c : Thread) (shmem : ℕ) : Bool :=
  let s := mrapi_impl_decode_hndl shmem
  s.2 && (w.db.shmems s.1).valid && (w.me c).shmems s.1

/-- The first valid entry with a key. -/
def mrapi_database.keyedShmem (db : mrapi_database) (key : ℕ) : Option ℕ :=
  search MRAPI_MAX_SHMEMS fun s => (db.shmems s).valid && (db.shmems s).key == key

/-- The first entry that is not valid. -/
def mrapi_database.unusedShmem (db : mrapi_database) : Option ℕ :=
  search MRAPI_MAX_SHMEMS fun s => !(db.shmems s).valid

/-- `created` says whether the operating system has made the segment. -/
def mrapi_impl_shmem_create (w : World) (c : Thread) (key : ℕ) (created : Bool) :
    World × Outcome :=
  let invalid := mrapi_impl_encode_hndl MRAPI_MAX_SHMEMS
  if w.db.num_shmems = MRAPI_MAX_SHMEMS then (w, ⟨some MRAPI_ERR_MEM_LIMIT, invalid⟩)
  else if (w.db.keyedShmem key).isSome then (w, ⟨some MRAPI_ERR_SHM_EXISTS, invalid⟩)
  else if !created then (w, ⟨some MRAPI_ERR_MEM_LIMIT, invalid⟩)
  else
    match w.db.unusedShmem with
    | none => (w, ⟨some MRAPI_SUCCESS, invalid⟩)
    | some s =>
      let shmem := { mrapi_shmem_t.zero with
        key := key
        id := Function.update mrapi_shmem_t.zero.id (w.tls c).mrapi_pindex true
        valid := true }
      ({ w with
          db := { w.db.setShmem s shmem with num_shmems := u8 (w.db.num_shmems + 1) }
          mapped := fun pid s' => if s' = s then false else w.mapped pid s'
          segment := Function.update w.segment s true },
        ⟨some MRAPI_SUCCESS, mrapi_impl_encode_hndl s⟩)

def mrapi_shmem_create (w : World) (c : Thread) (key : ℕ) (created : Bool) : World × Outcome :=
  if (w.db.keyedShmem key).isSome then (w, .ofStatus MRAPI_ERR_SHM_EXISTS)
  else mrapi_impl_shmem_create w c key created

/-- Some process has an id of the segment. -/
def mrapi_shmem_t.hasId (shmem : mrapi_shmem_t) : Bool :=
  (search MRAPI_MAX_PROCESSES fun p => shmem.id p).isSome

def mrapi_impl_shmem_get (w : World) (c : Thread) (key : ℕ) : World × Option ℕ :=
  match w.db.keyedShmem key with
  | none => (w, none)
  | some s =>
    let shmem := w.db.shmems s
    if shmem.id (w.tls c).mrapi_pindex || shmem.hasId then
      ({ w with db := w.db.setShmem s { shmem with
          id := Function.update shmem.id (w.tls c).mrapi_pindex true } }, some s)
    else (w, none)

def mrapi_shmem_get (w : World) (c : Thread) (key : ℕ) : World × Outcome :=
  if (w.db.keyedShmem key).isNone then (w, .ofStatus MRAPI_ERR_SHM_ID_INVALID)
  else
    let got := mrapi_impl_shmem_get w c key
    match got.2 with
    | some s => (got.1, ⟨some MRAPI_SUCCESS, mrapi_impl_encode_hndl s⟩)
    | none => (got.1, .ofStatus MRAPI_ERR_NODE_NOTINIT)

/-- Whether an address is returned. -/
def mrapi_impl_shmem_attach (w : World) (c : Thread) (shmem : ℕ) : World × Bool :=
  let s := (mrapi_impl_decode_hndl shmem).1
  let node := w.me c
  let p := node.proc_num
  let entry := w.db.shmems s
  -- the segment is mapped, if the process has an id of it and it is still there
  let found := entry.id p && w.segment s
  let mapped := fun pid s' => w.mapped pid s' || (pid == c.pid && s' == s && found)
  let entry' := if node.shmems s then entry else { entry with refs := u8 (entry.refs + 1) }
  let entry'' := if entry'.processes p then entry' else
    { entry' with processes := Function.update entry'.processes p true
                  num_procs := u8 (entry'.num_procs + 1) }
  let w := w.setMe c { node with shmems := Function.update node.shmems s true }
  ({ w with db := w.db.setShmem s entry'', mapped := mapped }, found)

def mrapi_shmem_attach (w : World) (c : Thread) (shmem : ℕ) : World × Outcome :=
  if !mrapi_impl_valid_shmem_hndl w shmem then (w, .ofStatus MRAPI_ERR_SHM_INVALID)
  else if mrapi_impl_shmem_attached w c shmem then (w, .ofStatus MRAPI_ERR_SHM_ATTACHED)
  else
    let got := mrapi_impl_shmem_attach w c shmem
    (got.1, .ofStatus (if got.2 then MRAPI_SUCCESS else MRAPI_ERR_SHM_INVALID))

/-- No other valid node belongs to the process and to a process that is attached. -/
def lastAttached (w : World) (c : Thread) (s : ℕ) : Bool :=
  nodeIndexes.all fun i =>
    let p := (w.db.node i.1 i.2).proc_num
    i == ((w.tls c).mrapi_dindex, (w.tls c).mrapi_nindex) ||
      !((w.db.shmems s).processes p) ||
      !((w.db.node i.1 i.2).valid && (w.db.processes p).pid == c.pid)

def mrapi_impl_shmem_detach (w : World) (c : Thread) (shmem : ℕ) : World :=
  let s := (mrapi_impl_decode_hndl shmem).1
  let node := w.me c
  let w := w.setMe c { node with shmems := Function.update node.shmems s false }
  let entry := { w.db.shmems s with refs := subU8 (w.db.shmems s).refs 1 }
  if lastAttached w c s then
    let entry := { entry with
      num_procs := subU8 entry.num_procs 1
      processes := Function.update entry.processes node.proc_num false }
    { w with
      db := w.db.setShmem s entry
      mapped := fun pid s' => w.mapped pid s' && !(pid == c.pid && s' == s) }
  else { w with db := w.db.setShmem s entry }

def mrapi_shmem_detach (w : World) (c : Thread) (shmem : ℕ) : World × Outcome :=
  if !mrapi_impl_valid_shmem_hndl w shmem then (w, .ofStatus MRAPI_ERR_SHM_INVALID)
  else if !mrapi_impl_shmem_attached w c shmem then (w, .ofStatus MRAPI_ERR_SHM_NOTATTACHED)
  else (mrapi_impl_shmem_detach w c shmem, .ofStatus MRAPI_SUCCESS)

/-- `removed` says whether the operating system has removed the segment. -/
def mrapi_impl_shmem_delete (w : World) (c : Thread) (shmem : ℕ) (removed : Bool) : World × Bool :=
  let s := (mrapi_impl_decode_hndl shmem).1
  if removed then
    let entry := { w.db.shmems s with
      valid := false
      id := Function.update (w.db.shmems s).id (w.tls c).mrapi_pindex false }
    ({ w with
        db := { w.db.setShmem s entry with num_shmems := subU8 w.db.num_shmems 1 }
        segment := Function.update w.segment s false }, true)
  else (w, false)

/-- A delete that fails sets no status. -/
def mrapi_shmem_delete (w : World) (c : Thread) (shmem : ℕ) (removed : Bool) : World × Outcome :=
  if !mrapi_impl_valid_shmem_hndl w shmem then (w, .ofStatus MRAPI_ERR_SHM_INVALID)
  else
    let gone := mrapi_impl_shmem_delete w c shmem removed
    (gone.1, ⟨if gone.2 then some MRAPI_SUCCESS else none, 0⟩)

/-! ## Locks -/

def mrapi_impl_valid_sem_hndl (w : World) (sem : ℕ) : Bool :=
  let s := mrapi_impl_decode_hndl sem
  s.2 && decide (s.1 < MRAPI_MAX_SEMS) && (w.db.sems s.1).valid

/-- The first valid entry with a key. -/
def mrapi_database.existingSem (db : mrapi_database) (key : ℕ) : Option ℕ :=
  search MRAPI_MAX_SEMS fun s => (db.sems s).valid && (db.sems s).key == key

/-- The first entry that a create may take. -/
def mrapi_database.unusedSem (db : mrapi_database) : Option ℕ :=
  search MRAPI_MAX_SEMS fun s => !(db.sems s).valid && !(db.sems s).deleted

/-- The first entry with a key. -/
def mrapi_database.keyedSem (db : mrapi_database) (key : ℕ) : Option ℕ :=
  search MRAPI_MAX_SEMS fun s => key == (db.sems s).key

/-- `mrapi_impl_create_lock_locked` with what its callers add. The address of the entry is the
key of a lock that is given none. -/
def mrapi_impl_create_lock_locked (w : World) (c : Thread) (key address : ℕ)
    (ext_error_checking : Bool) : World × Outcome :=
  if key ≠ MRAPI_SEM_ID_ANY ∧ (w.db.existingSem key).isSome then
    (w, .ofStatus MRAPI_ERR_SEM_EXISTS)
  else
    match w.db.unusedSem with
    | none => (w, .ofStatus MRAPI_ERR_SEM_LIMIT)
    | some s =>
      let node := w.me c
      let sem := { mrapi_sem_t.zero with
        key := if key = MRAPI_SEM_ID_ANY then address else key
        refs := u8 (mrapi_sem_t.zero.refs + 1)
        valid := true
        ext_error_checking := ext_error_checking }
      let w := w.setMe c { node with sems := Function.update node.sems s true }
      ({ w with db := w.db.setSem s sem }, ⟨some MRAPI_SUCCESS, mrapi_impl_encode_hndl s⟩)

/-- The exchange compares two bytes, the mark of the lock and the one that follows it. -/
def marksClear (node : mrapi_node_data) (s : ℕ) : Bool :=
  !node.sems s && !(if s + 1 < MRAPI_MAX_SEMS then node.sems (s + 1) else node.shmems 0)

def mrapi_impl_sem_get (w : World) (c : Thread) (key : ℕ) : World × Outcome :=
  match w.db.keyedSem key with
  | none => (w, .ofStatus MRAPI_ERR_SEM_ID_INVALID)
  | some s =>
    let node := w.me c
    let sem := w.db.sems s
    let out : Outcome := ⟨some MRAPI_SUCCESS, mrapi_impl_encode_hndl s⟩
    if marksClear node s then
      let w := w.setMe c { node with sems := Function.update node.sems s true }
      ({ w with db := w.db.setSem s { sem with refs := u16 (sem.refs + 1) } }, out)
    else (w, out)

/-- `exclusive` says whether the caller has all the locks. -/
def mrapi_sem_delete (w : World) (sem : ℕ) (exclusive : Bool) : World × Outcome :=
  let s := (mrapi_impl_decode_hndl sem).1
  if !mrapi_impl_valid_sem_hndl w sem then (w, .ofStatus MRAPI_ERR_SEM_INVALID)
  else if exclusive then
    let entry := w.db.sems s
    ({ w with db := w.db.setSem s { entry with
        valid := false, deleted := entry.deleted || entry.ext_error_checking } },
      .ofStatus MRAPI_SUCCESS)
  else (w, .ofStatus MRAPI_ERR_SEM_LOCKED)

/-! ## The calls -/

inductive Call
  | shmem_create (key : ℕ) (created : Bool)
  | shmem_get (key : ℕ)
  | shmem_attach (shmem : ℕ)
  | shmem_detach (shmem : ℕ)
  | shmem_delete (shmem : ℕ) (removed : Bool)
  | sem_create (key address : ℕ) (ext_error_checking : Bool)
  | sem_get (key : ℕ)
  | sem_delete (sem : ℕ) (exclusive : Bool)
  deriving DecidableEq, Repr

def Call.run (w : World) (c : Thread) : Call → World × Outcome
  | .shmem_create key created => mrapi_shmem_create w c key created
  | .shmem_get key => mrapi_shmem_get w c key
  | .shmem_attach shmem => mrapi_shmem_attach w c shmem
  | .shmem_detach shmem => mrapi_shmem_detach w c shmem
  | .shmem_delete shmem removed => mrapi_shmem_delete w c shmem removed
  | .sem_create key address ext_error_checking =>
    mrapi_impl_create_lock_locked w c key address ext_error_checking
  | .sem_get key => mrapi_impl_sem_get w c key
  | .sem_delete sem exclusive => mrapi_sem_delete w sem exclusive

end MxApi.NodeTable
