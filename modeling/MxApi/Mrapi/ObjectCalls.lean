/-
What each call on an object does ([`Used`]), one case for each way through the code that writes
something.

The cases speak of the parts of the world that say who uses what ([`Views`]). The caller is
node `i`, so that what it writes to its own lists is an update at `i`.
-/
import MxApi.Mrapi.NodeLife

set_option autoImplicit false

namespace MxApi.NodeTable

open Lib
open LockTable (Node MRAPI_MAX_DOMAINS MRAPI_MAX_NODES MRAPI_MAX_SEMS MRAPI_SEM_ID_ANY
  mrapi_impl_encode_hndl mrapi_impl_decode_hndl)

/-! ## What is written -/

/-- The nodes, the objects, and where the segments are. -/
structure Views where
  node : Node → mrapi_node_data
  shmems : ℕ → mrapi_shmem_t
  sems : ℕ → mrapi_sem_t
  mapped : ℕ → ℕ → Bool
  segment : ℕ → Bool

def World.views (w : World) : Views := ⟨w.node, w.db.shmems, w.db.sems, w.mapped, w.segment⟩

/-- Node `i` comes to use a shared memory, or ceases to. -/
def Views.useShmem (v : Views) (i : Node) (s : ℕ) (b : Bool) : Node → mrapi_node_data :=
  Function.update v.node i
    { v.node i with shmems := Function.update (v.node i).shmems s b }

/-- Node `i` comes to use a lock. -/
def Views.useSem (v : Views) (i : Node) (s : ℕ) : Node → mrapi_node_data :=
  Function.update v.node i { v.node i with sems := Function.update (v.node i).sems s true }

/-- The entry of a shared memory that has just been created by process entry `p`. -/
def newShmem (key p : ℕ) : mrapi_shmem_t :=
  { mrapi_shmem_t.zero with
    key := key
    id := Function.update mrapi_shmem_t.zero.id p true
    valid := true }

/-- The entry after a node of process entry `p` has attached. -/
def attachEntry (entry : mrapi_shmem_t) (p : ℕ) : mrapi_shmem_t :=
  let entry := { entry with refs := u8 (entry.refs + 1) }
  if entry.processes p then entry else
    { entry with
      processes := Function.update entry.processes p true
      num_procs := u8 (entry.num_procs + 1) }

/-- The entry after a node of process entry `p` has detached. -/
def detachEntry (entry : mrapi_shmem_t) (p : ℕ) (last : Bool) : mrapi_shmem_t :=
  let entry := { entry with refs := subU8 entry.refs 1 }
  if last then
    { entry with
      num_procs := subU8 entry.num_procs 1
      processes := Function.update entry.processes p false }
  else entry

@[simp] theorem attachEntry_valid (entry : mrapi_shmem_t) (p : ℕ) :
    (attachEntry entry p).valid = entry.valid := by
  unfold attachEntry
  dsimp only
  split <;> rfl

@[simp] theorem attachEntry_refs (entry : mrapi_shmem_t) (p : ℕ) :
    (attachEntry entry p).refs = u8 (entry.refs + 1) := by
  unfold attachEntry
  dsimp only
  split <;> rfl

@[simp] theorem detachEntry_valid (entry : mrapi_shmem_t) (p : ℕ) (last : Bool) :
    (detachEntry entry p last).valid = entry.valid := by
  unfold detachEntry
  dsimp only
  split <;> rfl

@[simp] theorem detachEntry_refs (entry : mrapi_shmem_t) (p : ℕ) (last : Bool) :
    (detachEntry entry p last).refs = subU8 entry.refs 1 := by
  unfold detachEntry
  dsimp only
  split <;> rfl

/-- The entry of a lock that has just been created. -/
def newSem (key : ℕ) (ext_error_checking : Bool) : mrapi_sem_t :=
  { mrapi_sem_t.zero with
    key := key
    refs := u8 (mrapi_sem_t.zero.refs + 1)
    valid := true
    ext_error_checking := ext_error_checking }

/-- A call of thread `c`, which is node `i`. -/
inductive Used (w : World) (i : Node) (c : Thread) : Call → World → Prop
  | idle (call : Call) : Used w i c call w
  | shmem_create (key s : ℕ) (w' : World) (hs : w.db.unusedShmem = some s)
      (hroom : w.db.num_shmems ≠ MRAPI_MAX_SHMEMS) (hkey : w.db.keyedShmem key = none)
      (h : w'.views = { w.views with
        shmems := Function.update w.db.shmems s (newShmem key (w.tls c).mrapi_pindex)
        mapped := fun pid s' => if s' = s then false else w.mapped pid s'
        segment := Function.update w.segment s true }) :
      Used w i c (.shmem_create key true) w'
  | shmem_get (key s : ℕ) (w' : World) (id : ℕ → Bool)
      (hid : ∀ p, (w.db.shmems s).id p = true → id p = true)
      (h : w'.views = { w.views with
        shmems := Function.update w.db.shmems s { w.db.shmems s with id := id } }) :
      Used w i c (.shmem_get key) w'
  | shmem_attach (shmem s : ℕ) (w' : World) (hs : (mrapi_impl_decode_hndl shmem).1 = s)
      (hv : mrapi_impl_valid_shmem_hndl w shmem = true)
      (hnot : (w.node i).shmems s = false)
      (h : w'.views = { w.views with
        node := w.views.useShmem i s true
        shmems := Function.update w.db.shmems s
          (attachEntry (w.db.shmems s) (w.node i).proc_num)
        mapped := fun pid s' => w.mapped pid s' || (pid == c.pid && s' == s &&
          ((w.db.shmems s).id (w.node i).proc_num && w.segment s)) }) :
      Used w i c (.shmem_attach shmem) w'
  | shmem_detach (shmem s : ℕ) (w' : World) (hs : (mrapi_impl_decode_hndl shmem).1 = s)
      (hv : mrapi_impl_valid_shmem_hndl w shmem = true) (huses : (w.node i).shmems s = true)
      (h : w'.views = { w.views with
        node := w.views.useShmem i s false
        shmems := Function.update w.db.shmems s
          (detachEntry (w.db.shmems s) (w.node i).proc_num (lastAttached w c s))
        mapped := fun pid s' =>
          w.mapped pid s' && !(lastAttached w c s && pid == c.pid && s' == s) }) :
      Used w i c (.shmem_detach shmem) w'
  | shmem_delete (shmem s : ℕ) (w' : World) (hs : (mrapi_impl_decode_hndl shmem).1 = s)
      (hv : mrapi_impl_valid_shmem_hndl w shmem = true)
      (h : w'.views = { w.views with
        shmems := Function.update w.db.shmems s { w.db.shmems s with
          valid := false
          id := Function.update (w.db.shmems s).id (w.tls c).mrapi_pindex false }
        segment := Function.update w.segment s false }) :
      Used w i c (.shmem_delete shmem true) w'
  | sem_create (key address s : ℕ) (ext_error_checking : Bool) (w' : World)
      (hs : w.db.unusedSem = some s)
      (hkey : key = MRAPI_SEM_ID_ANY ∨ w.db.existingSem key = none)
      (h : w'.views = { w.views with
        node := w.views.useSem i s
        sems := Function.update w.db.sems s
          (newSem (if key = MRAPI_SEM_ID_ANY then address else key) ext_error_checking) }) :
      Used w i c (.sem_create key address ext_error_checking) w'
  | sem_get (key s : ℕ) (w' : World) (hnot : (w.node i).sems s = false)
      (h : w'.views = { w.views with
        node := w.views.useSem i s
        sems := Function.update w.db.sems s
          { w.db.sems s with refs := u16 ((w.db.sems s).refs + 1) } }) :
      Used w i c (.sem_get key) w'
  | sem_delete (sem s : ℕ) (deleted : Bool) (w' : World)
      (h : w'.views = { w.views with
        sems := Function.update w.db.sems s
          { w.db.sems s with valid := false, deleted := deleted } }) :
      Used w i c (.sem_delete sem true) w'

theorem views_eq {w : World} {v : Views} (hnode : w.node = v.node)
    (hshmems : w.db.shmems = v.shmems) (hsems : w.db.sems = v.sems) (hmapped : w.mapped = v.mapped)
    (hsegment : w.segment = v.segment) : w.views = v := by
  cases v
  cases hnode
  cases hshmems
  cases hsems
  cases hmapped
  cases hsegment
  rfl

/-! ## The calling node -/

section Caller

variable {w : World} {i : Node} {c : Thread}

theorem Named.me (hn : Named w i c) : w.me c = w.node i := by
  unfold World.me World.node
  rw [hn.dindex, hn.nindex]

theorem Named.setMe_node (hn : Named w i c) (node : mrapi_node_data) :
    (w.setMe c node).node = Function.update w.node i node := by
  funext j
  change (w.db.setNode (w.tls c).mrapi_dindex (w.tls c).mrapi_nindex node).node j.dindex j.nindex
    = _
  rw [setNode_node, hn.dindex, hn.nindex, Function.update_apply]
  by_cases hj : j = i
  · rw [if_pos hj, if_pos ⟨congrArg _ hj, congrArg _ hj⟩]
  · rw [if_neg hj, if_neg fun h => hj (node_eq h.1 h.2)]
    rfl

/-- The lists of the nodes do not matter to the question who is left. -/
theorem lastAttached_setMe (w : World) (c : Thread) (s : ℕ) (shmems : ℕ → Bool) :
    lastAttached (w.setMe c { w.me c with shmems := shmems }) c s = lastAttached w c s := by
  have ha : Aside w (w.setMe c { w.me c with shmems := shmems }) := .of_setMe rfl rfl rfl rfl
  unfold lastAttached
  congr 1
  funext place
  dsimp only
  rw [ha.proc_num, ha.valid]
  rfl

end Caller

/-! ## The calls -/

section Calls

variable {w : World} {i : Node} {c : Thread}

theorem shmem_create_used (w : World) (i : Node) (c : Thread) (key : ℕ) (created : Bool) :
    Used w i c (.shmem_create key created) (mrapi_shmem_create w c key created).1 := by
  unfold mrapi_shmem_create
  by_cases hkey : (w.db.keyedShmem key).isSome = true
  · rw [if_pos hkey]
    exact .idle _
  · rw [if_neg hkey]
    unfold mrapi_impl_shmem_create
    dsimp only
    by_cases hroom : w.db.num_shmems = MRAPI_MAX_SHMEMS
    · rw [if_pos hroom]
      exact .idle _
    · rw [if_neg hroom, if_neg hkey]
      cases created with
      | false => exact .idle _
      | true =>
        rw [if_neg (by decide)]
        cases hs : w.db.unusedShmem with
        | none => exact .idle _
        | some s =>
          exact .shmem_create key s _ hs hroom (Option.not_isSome_iff_eq_none.mp hkey) rfl

theorem shmem_get_used (w : World) (i : Node) (c : Thread) (key : ℕ) :
    Used w i c (.shmem_get key) (mrapi_shmem_get w c key).1 := by
  have hget : Used w i c (.shmem_get key) (mrapi_impl_shmem_get w c key).1 := by
    unfold mrapi_impl_shmem_get
    cases w.db.keyedShmem key with
    | none => exact .idle _
    | some s =>
      dsimp only
      split
      · refine .shmem_get key s _ _ ?_ rfl
        intro p hp
        rw [Function.update_apply]
        split
        · rfl
        · exact hp
      · exact .idle _
  unfold mrapi_shmem_get
  split
  · exact .idle _
  · dsimp only
    split
    · exact hget
    · exact hget

theorem valid_shmem_hndl {shmem : ℕ} (h : mrapi_impl_valid_shmem_hndl w shmem = true) :
    (mrapi_impl_decode_hndl shmem).2 = true ∧
      (mrapi_impl_decode_hndl shmem).1 < MRAPI_MAX_SHMEMS ∧
      (w.db.shmems (mrapi_impl_decode_hndl shmem).1).valid = true := by
  unfold mrapi_impl_valid_shmem_hndl at h
  dsimp only at h
  rw [Bool.and_eq_true, Bool.and_eq_true, decide_eq_true_eq] at h
  exact ⟨h.1.1, h.1.2, h.2⟩

theorem Named.shmem_attached (hn : Named w i c) {shmem : ℕ}
    (h : mrapi_impl_valid_shmem_hndl w shmem = true) :
    mrapi_impl_shmem_attached w c shmem =
      (w.node i).shmems (mrapi_impl_decode_hndl shmem).1 := by
  obtain ⟨hok, -, hv⟩ := valid_shmem_hndl h
  unfold mrapi_impl_shmem_attached
  dsimp only
  rw [hok, hv, hn.me, Bool.true_and, Bool.true_and]

theorem shmem_attach_used (hn : Named w i c) (shmem : ℕ) :
    Used w i c (.shmem_attach shmem) (mrapi_shmem_attach w c shmem).1 := by
  unfold mrapi_shmem_attach
  by_cases hvalid : mrapi_impl_valid_shmem_hndl w shmem = true
  · rw [if_neg (by rw [hvalid]; decide), hn.shmem_attached hvalid]
    by_cases hnot : (w.node i).shmems (mrapi_impl_decode_hndl shmem).1 = true
    · rw [if_pos hnot]
      exact .idle _
    · rw [if_neg hnot]
      rw [Bool.not_eq_true] at hnot
      refine .shmem_attach shmem _ _ rfl hvalid hnot ?_
      dsimp only
      unfold mrapi_impl_shmem_attach
      dsimp only
      rw [hn.me, hnot, if_neg Bool.false_ne_true]
      exact views_eq (hn.setMe_node _) rfl rfl rfl rfl
  · rw [if_pos (by rw [Bool.not_eq_true] at hvalid; rw [hvalid]; rfl)]
    exact .idle _

theorem shmem_detach_used (hn : Named w i c) (shmem : ℕ) :
    Used w i c (.shmem_detach shmem) (mrapi_shmem_detach w c shmem).1 := by
  unfold mrapi_shmem_detach
  by_cases hvalid : mrapi_impl_valid_shmem_hndl w shmem = true
  · rw [if_neg (by rw [hvalid]; decide), hn.shmem_attached hvalid]
    by_cases huses : (w.node i).shmems (mrapi_impl_decode_hndl shmem).1 = true
    · rw [if_neg (by rw [huses]; decide)]
      refine .shmem_detach shmem _ _ rfl hvalid huses ?_
      dsimp only
      unfold mrapi_impl_shmem_detach
      dsimp only
      rw [lastAttached_setMe, hn.me]
      have hnode := hn.setMe_node { w.node i with
        shmems := Function.update (w.node i).shmems (mrapi_impl_decode_hndl shmem).1 false }
      unfold detachEntry
      cases lastAttached w c (mrapi_impl_decode_hndl shmem).1 with
      | true =>
        rw [if_pos rfl]
        exact views_eq hnode rfl rfl rfl rfl
      | false =>
        rw [if_neg Bool.false_ne_true]
        refine views_eq hnode rfl rfl ?_ rfl
        funext pid s'
        exact (Bool.and_true (w.mapped pid s')).symm
    · rw [Bool.not_eq_true] at huses
      rw [if_pos (by rw [huses]; rfl)]
      exact .idle _
  · rw [if_pos (by rw [Bool.not_eq_true] at hvalid; rw [hvalid]; rfl)]
    exact .idle _

theorem shmem_delete_used (w : World) (i : Node) (c : Thread) (shmem : ℕ) (removed : Bool) :
    Used w i c (.shmem_delete shmem removed) (mrapi_shmem_delete w c shmem removed).1 := by
  unfold mrapi_shmem_delete
  by_cases hvalid : mrapi_impl_valid_shmem_hndl w shmem = true
  · rw [if_neg (by rw [hvalid]; decide)]
    cases removed with
    | false => exact .idle _
    | true => exact .shmem_delete shmem _ _ rfl hvalid rfl
  · rw [if_pos (by rw [Bool.not_eq_true] at hvalid; rw [hvalid]; rfl)]
    exact .idle _

theorem sem_create_used (hn : Named w i c) (key address : ℕ) (ext_error_checking : Bool) :
    Used w i c (.sem_create key address ext_error_checking)
      (mrapi_impl_create_lock_locked w c key address ext_error_checking).1 := by
  unfold mrapi_impl_create_lock_locked
  by_cases hkey : key ≠ MRAPI_SEM_ID_ANY ∧ (w.db.existingSem key).isSome = true
  · rw [if_pos hkey]
    exact .idle _
  · rw [if_neg hkey]
    cases hs : w.db.unusedSem with
    | none => exact .idle _
    | some s =>
      refine .sem_create key address s ext_error_checking _ hs ?_ ?_
      · by_cases hany : key = MRAPI_SEM_ID_ANY
        · exact .inl hany
        · exact .inr (Option.not_isSome_iff_eq_none.mp fun hsome => hkey ⟨hany, hsome⟩)
      · dsimp only
        rw [hn.me]
        exact views_eq (hn.setMe_node _) rfl rfl rfl rfl

theorem sem_get_used (hn : Named w i c) (key : ℕ) :
    Used w i c (.sem_get key) (mrapi_impl_sem_get w c key).1 := by
  unfold mrapi_impl_sem_get
  cases w.db.keyedSem key with
  | none => exact .idle _
  | some s =>
    dsimp only
    rw [hn.me]
    by_cases hclear : marksClear (w.node i) s = true
    · rw [if_pos hclear]
      have hnot : (w.node i).sems s = false := by
        unfold marksClear at hclear
        rw [Bool.and_eq_true, Bool.not_eq_true'] at hclear
        exact hclear.1
      refine .sem_get key s _ hnot ?_
      exact views_eq (hn.setMe_node _) rfl rfl rfl rfl
    · rw [if_neg hclear]
      exact .idle _

theorem sem_delete_used (w : World) (i : Node) (c : Thread) (sem : ℕ) (exclusive : Bool) :
    Used w i c (.sem_delete sem exclusive) (mrapi_sem_delete w sem exclusive).1 := by
  unfold mrapi_sem_delete
  dsimp only
  split
  · exact .idle _
  · cases exclusive with
    | false => exact .idle _
    | true => exact .sem_delete sem _ _ _ rfl

/-- **Every call on an object** goes one of these ways. -/
theorem Named.used (hn : Named w i c) (call : Call) : Used w i c call (call.run w c).1 := by
  cases call with
  | shmem_create key created => exact shmem_create_used w i c key created
  | shmem_get key => exact shmem_get_used w i c key
  | shmem_attach shmem => exact shmem_attach_used hn shmem
  | shmem_detach shmem => exact shmem_detach_used hn shmem
  | shmem_delete shmem removed => exact shmem_delete_used w i c shmem removed
  | sem_create key address ext_error_checking =>
    exact sem_create_used hn key address ext_error_checking
  | sem_get key => exact sem_get_used hn key
  | sem_delete sem exclusive => exact sem_delete_used w i c sem exclusive

end Calls

end MxApi.NodeTable
