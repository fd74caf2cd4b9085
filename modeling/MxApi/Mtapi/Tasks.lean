/-
The two tables of an MTAPI node, implementations and instances, and the functions
that search and fill them (`mtapi/src/mtapi.c`).

An implementation is a function pointer, of the type `ι`; a C string is the list
of its bytes before the terminating zero, and data with its size is a list of
bytes. A handle is a pointer to a descriptor; the code compares what handles
point to, so a handle is the descriptor, or `none` for NULL. The `task_impl` of
an instance points into the table of implementations and is the index there. A
search that meets an empty entry dereferences NULL: its result is then `none`.
Memory and threads are taken to be available.
-/
import Mathlib.Logic.Function.Basic
import Mathlib.Tactic.Common
import MxApi.Lib.Search

set_option autoImplicit false

namespace MxApi.Mtapi

open Lib

/-! ## The tables -/

abbrev CString := List UInt8

abbrev Bytes := List UInt8

def MTAPI_MAX_TASKS : ℕ := 64

def MTAPI_MAX_INSTANCES : ℕ := MTAPI_MAX_TASKS

def MTAPI_MAX_TASK_NAME_LENGTH : ℕ := 32

def MCAPI_MAX_MSG_SIZE : ℕ := 1024

/-- A command takes its kind, the domain, the node, the size and the name. -/
def MTAPI_MAX_INPUT_DATA_SIZE : ℕ :=
  MCAPI_MAX_MSG_SIZE - (4 + 4 + 4 + 4 + (MTAPI_MAX_TASK_NAME_LENGTH + 1))

/-- A reply takes its kind, the descriptor and the size. -/
def MTAPI_MAX_RETURN_DATA_SIZE : ℕ := MCAPI_MAX_MSG_SIZE - (4 + 12 + 4)

inductive mtapi_status_t
  | MTAPI_ERROR
  | MTAPI_SUCCESS
  | MTAPI_EREMOTE
  | MTAPI_ENAME_LENGTH
  | MTAPI_EMAX_TASKS
  | MTAPI_EMAX_INSTANCES
  | MTAPI_EDATA_SIZE
  | MTAPI_EBAD_HANDLE
  deriving DecidableEq, Repr

inductive mtapi_task_status_t
  | MTAPI_TASK_ERROR
  | MTAPI_TASK_SUCCESS
  deriving DecidableEq, Repr

open mtapi_status_t mtapi_task_status_t

structure mtapi_task_descriptor_t where
  domain : ℕ
  node : ℕ
  task : ℕ
  deriving DecidableEq, Repr

abbrev mtapi_task_handle_t := Option mtapi_task_descriptor_t

structure task_impl_t (ι : Type*) where
  name : Option CString
  impl : Option ι

structure local_task_descriptor_t where
  handle : mtapi_task_handle_t
  task_impl : Option ℕ
  status : mtapi_task_status_t
  input_data_size : ℕ
  input_data : Bytes
  return_data_size : ℕ
  return_data : Option Bytes

/-- The static variables of a node. -/
structure Tables (ι : Type*) where
  task_impls : ℕ → task_impl_t ι
  task_impl_count : ℕ
  task_instances : ℕ → local_task_descriptor_t
  task_instance_count : ℕ
  task_create_count : ℕ
  the_domain : ℕ
  the_listener_node : ℕ

variable {ι : Type*}

/-- The tables that `mtapi_initialize` leaves behind. -/
def mtapi_initialize (domain node : ℕ) : Tables ι where
  task_impls := fun _ => ⟨none, none⟩
  task_impl_count := 0
  task_instances := fun _ => ⟨none, none, MTAPI_TASK_ERROR, 0, [], 0, none⟩
  task_instance_count := 0
  task_create_count := 0
  the_domain := domain
  the_listener_node := node

/-! ## The searches -/

/-- `strcmp(task_name, task_impls[i].name)` on every entry in turn. -/
def get_task_impl_idx (t : Tables ι) (task_name : CString) : Option (Option ℕ) :=
  match search MTAPI_MAX_TASKS fun i =>
      decide ((t.task_impls i).name = none) || decide ((t.task_impls i).name = some task_name)
    with
  | none => some none
  | some i => if (t.task_impls i).name = none then none else some (some i)

/-- The fields of what the handles point to are compared in turn. -/
def get_task_instance_idx (t : Tables ι) (task_handle : mtapi_task_handle_t) :
    Option (Option ℕ) :=
  match task_handle with
  | none => none
  | some task =>
    match search MTAPI_MAX_TASKS fun i =>
        decide ((t.task_instances i).handle = none) ||
          decide ((t.task_instances i).handle = some task)
      with
    | none => some none
    | some i => if (t.task_instances i).handle = none then none else some (some i)

/-! ## Registering and starting -/

/-- The entry number `task_impl_count` is filled in. -/
def fillImpl (t : Tables ι) (task_name : CString) (impl : ι) : Tables ι :=
  { t with
    task_impls := Function.update t.task_impls t.task_impl_count
      ⟨some task_name, some impl⟩ }

def mtapi_register_impl (t : Tables ι) (task_name : CString) (impl : ι) :
    Tables ι × mtapi_status_t :=
  if task_name.length > MTAPI_MAX_TASK_NAME_LENGTH then (t, MTAPI_ENAME_LENGTH)
  else if t.task_impl_count ≥ MTAPI_MAX_TASKS then (t, MTAPI_EMAX_TASKS)
  else (fillImpl t task_name impl, MTAPI_SUCCESS)

/-- The next task identifier, and the tables after it was drawn. -/
def create_task_id (t : Tables ι) : Tables ι × ℕ :=
  ({ t with task_create_count := t.task_create_count + 1 }, t.task_create_count)

/-- What the thread of an instance calls its implementation with: the handle, the
data and the size. -/
structure Invocation (ι : Type*) where
  impl : Option ι
  task : mtapi_task_handle_t
  input_data : Bytes
  input_data_size : ℕ

def local_dispatcher (t : Tables ι) (instance_idx : ℕ) : Option (Invocation ι) :=
  let instance_ptr := t.task_instances instance_idx
  instance_ptr.task_impl.map fun task_impl =>
    ⟨(t.task_impls task_impl).impl, instance_ptr.handle, instance_ptr.input_data,
      instance_ptr.input_data_size⟩

/-- The entry that `start_local_task` fills in. -/
def newInstance (old : local_task_descriptor_t) (handle : mtapi_task_descriptor_t)
    (task_idx : ℕ) (input_data : Bytes) : local_task_descriptor_t :=
  { old with
    handle := some handle
    task_impl := some task_idx
    input_data_size := input_data.length
    input_data := input_data }

/-- The next entry is filled in, its thread is created, and it is counted. -/
def addInstance (t : Tables ι) (task_idx : ℕ) (input_data : Bytes) : Tables ι :=
  let (t, task) := create_task_id t
  let entry := newInstance (t.task_instances t.task_instance_count)
    ⟨t.the_domain, t.the_listener_node, task⟩ task_idx input_data
  { t with
    task_instances := Function.update t.task_instances t.task_instance_count entry
    task_instance_count := t.task_instance_count + 1 }

/-- The handle that is returned is the one of entry 0. -/
def start_local_task (t : Tables ι) (task_name : CString) (input_data : Bytes) :
    Option (Tables ι × mtapi_task_handle_t) :=
  match get_task_impl_idx t task_name with
  | none => none
  | some none => some (t, none)
  | some (some task_idx) =>
    let t := addInstance t task_idx input_data
    some (t, (t.task_instances 0).handle)

/-- What a caller gets back: the handle and `*status`. -/
structure Created where
  task : mtapi_task_handle_t
  status : mtapi_status_t
  deriving DecidableEq, Repr

/-- The status is set once more at the end, from the handle. -/
def createStatus (task : mtapi_task_handle_t) : mtapi_status_t :=
  if task = none then MTAPI_EREMOTE else MTAPI_SUCCESS

/-- `remote` is what `start_remote_task` returns. -/
def mtapi_create_task (t : Tables ι) (domain node : ℕ) (task_name : CString)
    (input_data : Bytes) (remote : mtapi_task_handle_t) : Option (Tables ι × Created) :=
  -- the status of these two checks is overwritten below
  if input_data.length > MTAPI_MAX_INPUT_DATA_SIZE then some (t, ⟨none, createStatus none⟩)
  else if t.task_instance_count ≥ MTAPI_MAX_INSTANCES then
    some (t, ⟨none, createStatus none⟩)
  else if domain = t.the_domain ∧ node = t.the_listener_node then
    match start_local_task t task_name input_data with
    | none => none
    | some (t, task) => some (t, ⟨task, createStatus task⟩)
  else some (t, ⟨remote, createStatus remote⟩)

/-! ## The searches, once and for all -/

section

variable {t : Tables ι}

/-- The entries of the implementation table before `n` are in use and have other
names; `n` has the name. -/
theorem get_task_impl_idx_found {task_name : CString} {n : ℕ} (hn : n < MTAPI_MAX_TASKS)
    (hname : (t.task_impls n).name = some task_name)
    (hbefore : ∀ i, i < n → ∃ name, (t.task_impls i).name = some name ∧ name ≠ task_name) :
    get_task_impl_idx t task_name = some (some n) := by
  have hsearch : search MTAPI_MAX_TASKS (fun i =>
      decide ((t.task_impls i).name = none) ||
        decide ((t.task_impls i).name = some task_name)) = some n := by
    rw [search_eq_some]
    refine ⟨hn, by simp [hname], fun j hj => ?_⟩
    obtain ⟨name, hj', hne⟩ := hbefore j hj
    simp [hj', hne]
  rw [get_task_impl_idx, hsearch]
  simp [hname]

/-- A name that is missing makes the search meet the first empty entry. -/
theorem get_task_impl_idx_crash {task_name : CString} {n : ℕ} (hn : n < MTAPI_MAX_TASKS)
    (hempty : (t.task_impls n).name = none)
    (hbefore : ∀ i, i < n → ∃ name, (t.task_impls i).name = some name ∧ name ≠ task_name) :
    get_task_impl_idx t task_name = none := by
  have hsearch : search MTAPI_MAX_TASKS (fun i =>
      decide ((t.task_impls i).name = none) ||
        decide ((t.task_impls i).name = some task_name)) = some n := by
    rw [search_eq_some]
    refine ⟨hn, by simp [hempty], fun j hj => ?_⟩
    obtain ⟨name, hj', hne⟩ := hbefore j hj
    simp [hj', hne]
  rw [get_task_impl_idx, hsearch]
  simp [hempty]

/-- The instances are numbered without gaps: the first `task_instance_count`
entries are in use, with identifiers that grow, and the others are empty. -/
structure Instances (t : Tables ι) : Prop where
  used : ∀ k, k < t.task_instance_count → ∃ id, id < t.task_create_count ∧
    (t.task_instances k).handle = some ⟨t.the_domain, t.the_listener_node, id⟩
  empty : ∀ k, t.task_instance_count ≤ k → (t.task_instances k).handle = none
  distinct : ∀ k j, k < t.task_instance_count → j < t.task_instance_count →
    (t.task_instances k).handle = (t.task_instances j).handle → k = j

/-- `task` is the descriptor of the instance `k`. -/
def Denotes (t : Tables ι) (task : mtapi_task_descriptor_t) (k : ℕ) : Prop :=
  k < t.task_instance_count ∧ (t.task_instances k).handle = some task

theorem mtapi_initialize_instances (domain node : ℕ) :
    Instances ( mtapi_initialize domain node : Tables ι) :=
  ⟨fun k hk => absurd hk (Nat.not_lt_zero k), fun _ _ => rfl,
    fun k _ hk => absurd hk (Nat.not_lt_zero k)⟩

/-- A descriptor denotes one instance at most. -/
theorem Instances.denotes_unique (h : Instances t) {task : mtapi_task_descriptor_t} {k j : ℕ}
    (hk : Denotes t task k) (hj : Denotes t task j) : k = j :=
  h.distinct k j hk.1 hj.1 (hk.2.trans hj.2.symm)

/-- The descriptor of an instance is searched for and found. -/
theorem Instances.idx_of_denotes (h : Instances t) {task : mtapi_task_descriptor_t} {k : ℕ}
    (hk : Denotes t task k) (hroom : k < MTAPI_MAX_TASKS) :
    get_task_instance_idx t (some task) = some (some k) := by
  have hsearch : search MTAPI_MAX_TASKS (fun i =>
      decide ((t.task_instances i).handle = none) ||
        decide ((t.task_instances i).handle = some task)) = some k := by
    rw [search_eq_some]
    refine ⟨hroom, by simp [hk.2], fun j hj => ?_⟩
    have hj' : j < t.task_instance_count := hj.trans hk.1
    obtain ⟨id, -, hhandle⟩ := h.used j hj'
    have hne : (t.task_instances j).handle ≠ some task := by
      intro heq
      have := h.denotes_unique ⟨hj', heq⟩ hk
      omega
    simp only [hne, decide_false, Bool.or_false, decide_eq_false_iff_not]
    rw [hhandle]
    exact Option.some_ne_none _
  simp only [get_task_instance_idx, hsearch]
  rw [if_neg]
  rw [hk.2]
  exact Option.some_ne_none _

/-- A descriptor that denotes nothing: a full table is searched to its end, any
other up to its first empty entry. -/
theorem Instances.idx_of_not_denotes (h : Instances t) {task : mtapi_task_descriptor_t}
    (hnone : ∀ k, k < MTAPI_MAX_TASKS → ¬ Denotes t task k) :
    get_task_instance_idx t (some task) =
      if t.task_instance_count < MTAPI_MAX_TASKS then none else some none := by
  have hne : ∀ i, i < MTAPI_MAX_TASKS → i < t.task_instance_count →
      (t.task_instances i).handle ≠ none ∧ (t.task_instances i).handle ≠ some task := by
    intro i hi hused
    obtain ⟨id, -, hhandle⟩ := h.used i hused
    refine ⟨?_, fun heq => hnone i hi ⟨hused, heq⟩⟩
    rw [hhandle]
    exact Option.some_ne_none _
  by_cases hroom : t.task_instance_count < MTAPI_MAX_TASKS
  · have hempty := h.empty t.task_instance_count (le_refl _)
    have hsearch : search MTAPI_MAX_TASKS (fun i =>
        decide ((t.task_instances i).handle = none) ||
          decide ((t.task_instances i).handle = some task)) = some t.task_instance_count := by
      rw [search_eq_some]
      refine ⟨hroom, by simp [hempty], fun j hj => ?_⟩
      obtain ⟨h1, h2⟩ := hne j (hj.trans hroom) hj
      simp [h1, h2]
    simp only [get_task_instance_idx, hsearch]
    rw [if_pos hempty, if_pos hroom]
  · have hsearch : search MTAPI_MAX_TASKS (fun i =>
        decide ((t.task_instances i).handle = none) ||
          decide ((t.task_instances i).handle = some task)) = none := by
      rw [search_eq_none]
      intro i hi
      obtain ⟨h1, h2⟩ := hne i hi (by omega)
      simp [h1, h2]
    simp only [get_task_instance_idx, hsearch]
    rw [if_neg hroom]

/-! ## The new instance -/

theorem addInstance_new (t : Tables ι) (task_idx : ℕ) (input_data : Bytes) :
    (addInstance t task_idx input_data).task_instances t.task_instance_count =
      newInstance (t.task_instances t.task_instance_count)
        ⟨t.the_domain, t.the_listener_node, t.task_create_count⟩ task_idx input_data :=
  Function.update_self ..

theorem addInstance_old (t : Tables ι) (task_idx : ℕ) (input_data : Bytes) {k : ℕ}
    (hk : k ≠ t.task_instance_count) :
    (addInstance t task_idx input_data).task_instances k = t.task_instances k :=
  Function.update_of_ne hk _ _

/-- **A start keeps the numbering**: the new identifier was never used before. -/
theorem Instances.addInstance (h : Instances t) (task_idx : ℕ) (input_data : Bytes) :
    Instances (addInstance t task_idx input_data) := by
  have hcount : (Mtapi.addInstance t task_idx input_data).task_instance_count =
      t.task_instance_count + 1 := rfl
  have hcreate : (Mtapi.addInstance t task_idx input_data).task_create_count =
      t.task_create_count + 1 := rfl
  have hnew := addInstance_new t task_idx input_data
  -- an old instance has an identifier below the one just drawn
  have hne : ∀ k, k < t.task_instance_count →
      (t.task_instances k).handle ≠
        some ⟨t.the_domain, t.the_listener_node, t.task_create_count⟩ := by
    intro k hk heq
    obtain ⟨id, hid, hhandle⟩ := h.used k hk
    rw [hhandle, Option.some.injEq, mtapi_task_descriptor_t.mk.injEq] at heq
    omega
  refine ⟨fun k hk => ?_, fun k hk => ?_, fun k j hk hj heq => ?_⟩
  · rw [hcreate]
    by_cases hkn : k = t.task_instance_count
    · refine ⟨t.task_create_count, by omega, ?_⟩
      rw [hkn, hnew]
      rfl
    · obtain ⟨id, hid, hhandle⟩ := h.used k (by omega)
      refine ⟨id, by omega, ?_⟩
      rw [addInstance_old t task_idx input_data hkn, hhandle]
      rfl
  · rw [hcount] at hk
    rw [addInstance_old t task_idx input_data (by omega)]
    exact h.empty k (by omega)
  · rw [hcount] at hk hj
    by_cases hkn : k = t.task_instance_count
    · by_cases hjn : j = t.task_instance_count
      · rw [hkn, hjn]
      · rw [hkn, hnew, addInstance_old t task_idx input_data hjn] at heq
        exact absurd heq.symm (hne j (by omega))
    · by_cases hjn : j = t.task_instance_count
      · rw [hjn, hnew, addInstance_old t task_idx input_data hkn] at heq
        exact absurd heq (hne k (by omega))
      · rw [addInstance_old t task_idx input_data hkn,
          addInstance_old t task_idx input_data hjn] at heq
        exact h.distinct k j (by omega) (by omega) heq

end

end MxApi.Mtapi
