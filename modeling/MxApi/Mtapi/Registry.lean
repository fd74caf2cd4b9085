/-
Registering implementations and creating tasks on the local node
(`mtapi_register_impl` and `mtapi_create_task` of `mtapi/src/mtapi.c`), over any
sequence of calls.

Four slips meet here. A registration fills the entry number `task_impl_count` and
does not count it, so every registration fills entry 0. The search for a name
compares it with the names of the empty entries, which are NULL. A start returns
the handle of entry 0. And the status that a check has set is overwritten at the
end of `mtapi_create_task`. What is left are the sequences with one registration
that is accepted and one create, of that name; of all other calls each one breaks
what is wanted ([`callOk_iff`]).
-/
import MxApi.Lib.Run
import MxApi.Mtapi.Tasks

set_option autoImplicit false

namespace MxApi.Mtapi

open Lib mtapi_status_t mtapi_task_status_t

variable {ι : Type*}

/-! ## Sequences of calls -/

/-- A create that returned a handle: the instance it started, and with what. -/
structure Creation where
  instance_idx : ℕ
  task_name : CString
  input_data : Bytes
  task : mtapi_task_descriptor_t

/-- The tables of the node, and what was asked of it so far. -/
structure Registry (ι : Type*) where
  tables : Tables ι
  names : List CString
  bound : List (CString × ι)
  created : List Creation

inductive Call (ι : Type*)
  | register_impl (task_name : CString) (impl : ι)
  | create_task (task_name : CString) (input_data : Bytes)

/-- A registration uses a name that was not used before. -/
def Distinct (s : Registry ι) : Call ι → Prop
  | .register_impl task_name _ => task_name ∉ s.names
  | .create_task _ _ => True

def registerCall (s : Registry ι) (task_name : CString) (impl : ι) :
    Registry ι × mtapi_status_t :=
  let (tables, status) := mtapi_register_impl s.tables task_name impl
  ({ s with
      tables := tables
      names := task_name :: s.names
      bound := if status = MTAPI_SUCCESS then (task_name, impl) :: s.bound else s.bound },
    status)

/-- A create on the local node. -/
def createCall (s : Registry ι) (task_name : CString) (input_data : Bytes) :
    Option (Registry ι × Created) :=
  let t := s.tables
  match mtapi_create_task t t.the_domain t.the_listener_node task_name input_data none with
  | none => none
  | some (tables, answer) =>
    match answer.task with
    | none => some ({ s with tables := tables }, answer)
    | some task =>
      some ({ s with
        tables := tables
        created := ⟨t.task_instance_count, task_name, input_data, task⟩ :: s.created }, answer)

/-- One call; names are distinct. -/
def callStep (s : Registry ι) : Call ι → Option (Registry ι)
  | .register_impl task_name impl =>
    if task_name ∈ s.names then none else some (registerCall s task_name impl).1
  | .create_task task_name input_data => (createCall s task_name input_data).map Prod.fst

def initialRegistry (domain node : ℕ) : Registry ι :=
  ⟨ mtapi_initialize domain node, [], [], []⟩

/-! ## What is wanted -/

/-- The implementation that a name was registered with. -/
def registered (s : Registry ι) (task_name : CString) : Option ι :=
  (s.bound.find? fun b => decide (b.1 = task_name)).map Prod.snd

/-- A name that was registered is found, with its own implementation. -/
def Bound (s : Registry ι) : Prop :=
  ∀ task_name impl, (task_name, impl) ∈ s.bound →
    ∃ i, get_task_impl_idx s.tables task_name = some (some i) ∧
      (s.tables.task_impls i).impl = some impl

/-- The thread of the instance calls the implementation of the name with a copy of
the input, and the handle denotes this instance. -/
def Started (s : Registry ι) (c : Creation) : Prop :=
  (∃ impl, registered s c.task_name = some impl ∧
    (local_dispatcher s.tables c.instance_idx).map (fun i => (i.impl, i.task, i.input_data,
      i.input_data_size)) =
        some (some impl, some c.task, c.input_data, c.input_data.length)) ∧
  get_task_instance_idx s.tables (some c.task) = some (some c.instance_idx)

/-- Every registration and every creation of the past is still good. -/
structure RegistryOk (s : Registry ι) : Prop where
  bound : Bound s
  started : ∀ c ∈ s.created, Started s c

/-- What a registration has to do. -/
def RegisterOk (s : Registry ι) (task_name : CString) (impl : ι) : Prop :=
  let p := registerCall s task_name impl
  if task_name.length > MTAPI_MAX_TASK_NAME_LENGTH then
    p.2 = MTAPI_ENAME_LENGTH ∧ p.1.tables = s.tables
  else if s.bound.length ≥ MTAPI_MAX_TASKS then
    p.2 = MTAPI_EMAX_TASKS ∧ p.1.tables = s.tables
  else p.2 = MTAPI_SUCCESS ∧ RegistryOk p.1

/-- What a create has to do. -/
def CreateOk (s : Registry ι) (task_name : CString) (input_data : Bytes) : Prop :=
  ∃ s' answer, createCall s task_name input_data = some (s', answer) ∧
    if input_data.length > MTAPI_MAX_INPUT_DATA_SIZE then
      answer = ⟨none, MTAPI_EDATA_SIZE⟩ ∧ s'.tables = s.tables
    else if s.created.length ≥ MTAPI_MAX_INSTANCES then
      answer = ⟨none, MTAPI_EMAX_INSTANCES⟩ ∧ s'.tables = s.tables
    else if registered s task_name = none then answer.task = none ∧ s'.tables = s.tables
    else ∃ task, answer = ⟨some task, MTAPI_SUCCESS⟩ ∧ RegistryOk s' ∧
      s'.created = ⟨s.created.length, task_name, input_data, task⟩ :: s.created ∧
      ∀ c ∈ s.created, c.task ≠ task

/-- The call does what it is there for. -/
def CallOk (s : Registry ι) : Call ι → Prop
  | .register_impl task_name impl => RegisterOk s task_name impl
  | .create_task task_name input_data => CreateOk s task_name input_data

/-- A registration that is refused for its name's length or is the first one; a
create of the registered name, with data that fits, that is the first one. -/
def goodTaskCall (s : Registry ι) : Call ι → Prop
  | .register_impl task_name _ =>
    task_name.length > MTAPI_MAX_TASK_NAME_LENGTH ∨ (s.tables.task_impls 0).name = none
  | .create_task task_name input_data =>
    input_data.length ≤ MTAPI_MAX_INPUT_DATA_SIZE ∧
      (s.tables.task_impls 0).name = some task_name ∧ s.tables.task_instance_count = 0

/-! ## The states that good calls reach -/

/-- At most one name is registered, at entry 0. -/
inductive Registered (s : Registry ι) : Prop
  | nothing (hbound : s.bound = []) (himpl : (s.tables.task_impls 0).name = none)
  | one (task_name : CString) (impl : ι) (hbound : s.bound = [(task_name, impl)])
      (himpl : s.tables.task_impls 0 = ⟨some task_name, some impl⟩)
      (hname : task_name ∈ s.names)

/-- At most one instance was started, of that name. -/
inductive CreatedOne (s : Registry ι) : Prop
  | nothing (hcount : s.tables.task_instance_count = 0) (hcreated : s.created = [])
  | one (task_name : CString) (impl : ι) (input_data : Bytes) (task : mtapi_task_descriptor_t)
      (hbound : s.bound = [(task_name, impl)]) (hcount : s.tables.task_instance_count = 1)
      (hcreated : s.created = [⟨0, task_name, input_data, task⟩])
      (hhandle : (s.tables.task_instances 0).handle = some task)
      (hpointer : (s.tables.task_instances 0).task_impl = some 0)
      (hdata : (s.tables.task_instances 0).input_data = input_data)
      (hsize : (s.tables.task_instances 0).input_data_size = input_data.length)

structure RegistryInv (s : Registry ι) : Prop where
  uncounted : s.tables.task_impl_count = 0
  rest : ∀ i, 0 < i → (s.tables.task_impls i).name = none
  instances : Instances s.tables
  registered : Registered s
  created : CreatedOne s

section

variable {s : Registry ι}

theorem RegistryInv.created_length (h : RegistryInv s) :
    s.created.length = s.tables.task_instance_count := by
  cases h.created with
  | nothing hcount hcreated => rw [hcount, hcreated, List.length_nil]
  | one _ _ _ _ _ hcount hcreated =>
    rw [hcount, hcreated, List.length_singleton]

theorem RegistryInv.count_le (h : RegistryInv s) : s.tables.task_instance_count ≤ 1 := by
  cases h.created with
  | nothing hcount => omega
  | one _ _ _ _ _ hcount => omega

theorem RegistryInv.bound_le (h : RegistryInv s) : s.bound.length ≤ 1 := by
  cases h.registered with
  | nothing hbound => rw [hbound, List.length_nil]; omega
  | one _ _ hbound => rw [hbound, List.length_singleton]

/-- The name at entry 0 is found there. -/
theorem idx_of_name {task_name : CString}
    (hname : (s.tables.task_impls 0).name = some task_name) :
    get_task_impl_idx s.tables task_name = some (some 0) :=
  get_task_impl_idx_found (by decide) hname fun i hi => absurd hi (Nat.not_lt_zero i)

/-- The search for any other name ends at an empty entry. -/
theorem RegistryInv.idx_of_other (h : RegistryInv s) {task_name : CString}
    (hname : (s.tables.task_impls 0).name ≠ some task_name) :
    get_task_impl_idx s.tables task_name = none := by
  cases h.registered with
  | nothing _ himpl =>
    exact get_task_impl_idx_crash (by decide) himpl
      fun i hi => absurd hi (Nat.not_lt_zero i)
  | one name impl _ himpl _ =>
    refine get_task_impl_idx_crash (n := 1) (by decide) (h.rest 1 Nat.one_pos) ?_
    intro i hi
    obtain rfl : i = 0 := by omega
    refine ⟨name, by rw [himpl], ?_⟩
    rintro rfl
    exact hname (by rw [himpl])

/-- In these states everything of the past is good. -/
theorem RegistryInv.ok (h : RegistryInv s) : RegistryOk s := by
  refine ⟨fun task_name impl hmem => ?_, fun c hc => ?_⟩
  · cases h.registered with
    | nothing hbound =>
      rw [hbound] at hmem
      cases hmem
    | one name impl' hbound himpl =>
      rw [hbound, List.mem_singleton, Prod.mk.injEq] at hmem
      obtain ⟨rfl, rfl⟩ := hmem
      exact ⟨0, idx_of_name (by rw [himpl]), by rw [himpl]⟩
  · cases h.created with
    | nothing _ hcreated =>
      rw [hcreated] at hc
      cases hc
    | one name impl input task hbound hcount hcreated hhandle hpointer hdata hsize =>
      rw [hcreated, List.mem_singleton] at hc
      subst hc
      refine ⟨⟨impl, ?_, ?_⟩, ?_⟩
      · simp [Mtapi.registered, hbound]
      · have himpl : (s.tables.task_impls 0).impl = some impl := by
          cases h.registered with
          | nothing hempty =>
            rw [hbound] at hempty
            cases hempty
          | one name' impl' hbound' himpl =>
            rw [hbound] at hbound'
            rw [himpl]
            simp only [List.cons.injEq, Prod.mk.injEq, and_true] at hbound'
            rw [hbound'.2]
        simp [local_dispatcher, hpointer, hhandle, hdata, hsize, himpl]
      · apply h.instances.idx_of_denotes ⟨by omega, hhandle⟩
        decide

/-! ## Registering -/

theorem registerCall_long {task_name : CString} {impl : ι}
    (hlong : task_name.length > MTAPI_MAX_TASK_NAME_LENGTH) :
    registerCall s task_name impl =
      ({ s with names := task_name :: s.names }, MTAPI_ENAME_LENGTH) := by
  simp [registerCall, mtapi_register_impl, hlong]

/-- Every accepted registration fills entry 0. -/
theorem RegistryInv.registerCall_short (h : RegistryInv s) {task_name : CString} {impl : ι}
    (hshort : ¬ task_name.length > MTAPI_MAX_TASK_NAME_LENGTH) :
    registerCall s task_name impl =
      (⟨fillImpl s.tables task_name impl, task_name :: s.names, (task_name, impl) :: s.bound,
        s.created⟩, MTAPI_SUCCESS) := by
  have hroom : ¬ s.tables.task_impl_count ≥ MTAPI_MAX_TASKS := by
    rw [h.uncounted]
    decide
  have hregister : mtapi_register_impl s.tables task_name impl =
      (fillImpl s.tables task_name impl, MTAPI_SUCCESS) := by
    rw [mtapi_register_impl, if_neg hshort, if_neg hroom]
  rw [registerCall, hregister]
  rfl

/-- The count stays zero, so it is always entry 0 that is filled in. -/
theorem RegistryInv.fillImpl_eq (h : RegistryInv s) (task_name : CString) (impl : ι) :
    (fillImpl s.tables task_name impl).task_impls =
      Function.update s.tables.task_impls 0 ⟨some task_name, some impl⟩ := by
  rw [fillImpl, h.uncounted]

/-- A refused registration changes no table. -/
theorem RegistryInv.rename (h : RegistryInv s) (names : List CString)
    (hnames : ∀ name ∈ s.names, name ∈ names) :
    RegistryInv { s with names := names } := by
  refine ⟨h.uncounted, h.rest, h.instances, ?_, ?_⟩
  · cases h.registered with
    | nothing hbound himpl => exact .nothing hbound himpl
    | one name impl hbound himpl hname => exact .one name impl hbound himpl (hnames name hname)
  · cases h.created with
    | nothing hcount hcreated => exact .nothing hcount hcreated
    | one name impl input task hbound hcount hcreated hhandle hpointer hdata hsize =>
      exact .one name impl input task hbound hcount hcreated hhandle hpointer hdata hsize

/-- The first registration that is accepted. -/
theorem RegistryInv.register_first (h : RegistryInv s)
    (hempty : (s.tables.task_impls 0).name = none) (task_name : CString) (impl : ι) :
    RegistryInv ⟨fillImpl s.tables task_name impl, task_name :: s.names,
      (task_name, impl) :: s.bound, s.created⟩ := by
  have hnone : s.bound = [] := by
    cases h.registered with
    | nothing hbound => exact hbound
    | one name impl' _ himpl =>
      rw [himpl] at hempty
      cases hempty
  refine ⟨h.uncounted, fun i hi => ?_, ⟨h.instances.used, h.instances.empty,
    h.instances.distinct⟩, ?_, ?_⟩
  · have hne : i ≠ 0 := by omega
    rw [h.fillImpl_eq, Function.update_of_ne hne]
    exact h.rest i hi
  · refine .one task_name impl ?_ ?_ List.mem_cons_self
    · simp only [hnone]
    · rw [h.fillImpl_eq, Function.update_self]
  · cases h.created with
    | nothing hcount hcreated => exact .nothing hcount hcreated
    | one name impl' _ _ hbound =>
      rw [hnone] at hbound
      cases hbound

/-- **A registration** does what it should exactly if it is a good one. -/
theorem RegistryInv.registerOk_iff (h : RegistryInv s) {task_name : CString} {impl : ι}
    (hdistinct : task_name ∉ s.names) :
    RegisterOk s task_name impl ↔ goodTaskCall s (.register_impl task_name impl) := by
  rw [goodTaskCall]
  by_cases hlong : task_name.length > MTAPI_MAX_TASK_NAME_LENGTH
  · refine iff_of_true ?_ (.inl hlong)
    rw [RegisterOk, registerCall_long hlong, if_pos hlong]
    exact ⟨rfl, rfl⟩
  · have hroom : ¬ s.bound.length ≥ MTAPI_MAX_TASKS := by
      have hle := h.bound_le
      have hmax : MTAPI_MAX_TASKS = 64 := rfl
      omega
    rw [RegisterOk, h.registerCall_short hlong, if_neg hlong, if_neg hroom]
    refine ⟨fun hok => ?_, fun hgood => ⟨rfl, ?_⟩⟩
    · right
      cases h.registered with
      | nothing _ himpl => exact himpl
      | one name impl' hbound himpl hname =>
        -- the name registered before is no longer found
        have hne : task_name ≠ name := by
          rintro rfl
          exact hdistinct hname
        obtain ⟨i, hidx, -⟩ := hok.2.bound name impl' (by simp [hbound])
        rw [get_task_impl_idx_crash (n := 1) (by decide)] at hidx
        · cases hidx
        · rw [h.fillImpl_eq, Function.update_of_ne Nat.one_ne_zero]
          exact h.rest 1 Nat.one_pos
        · intro j hj
          obtain rfl : j = 0 := by omega
          exact ⟨task_name, by rw [h.fillImpl_eq, Function.update_self], hne⟩
    · exact (h.register_first (hgood.resolve_left hlong) task_name impl).ok

/-! ## Creating -/

/-- The status of the size check does not reach the caller. -/
theorem createCall_long {task_name : CString} {input_data : Bytes}
    (hlong : input_data.length > MTAPI_MAX_INPUT_DATA_SIZE) :
    createCall s task_name input_data = some (s, ⟨none, MTAPI_EREMOTE⟩) := by
  simp [createCall, mtapi_create_task, hlong, createStatus]

/-- A name that is not registered makes the search dereference NULL. -/
theorem RegistryInv.createCall_unregistered (h : RegistryInv s) {task_name : CString}
    {input_data : Bytes} (hsize : ¬ input_data.length > MTAPI_MAX_INPUT_DATA_SIZE)
    (hname : (s.tables.task_impls 0).name ≠ some task_name) :
    createCall s task_name input_data = none := by
  have hroom : ¬ s.tables.task_instance_count ≥ MTAPI_MAX_INSTANCES := by
    have hle := h.count_le
    have hmax : MTAPI_MAX_INSTANCES = 64 := rfl
    omega
  have hcreate : mtapi_create_task s.tables s.tables.the_domain s.tables.the_listener_node
      task_name input_data none = none := by
    rw [mtapi_create_task, if_neg hsize, if_neg hroom, if_pos ⟨rfl, rfl⟩, start_local_task,
      h.idx_of_other hname]
  rw [createCall, hcreate]

/-- A registered name starts an instance; the handle is the one of entry 0. -/
theorem RegistryInv.createCall_registered (h : RegistryInv s) {task_name : CString}
    {input_data : Bytes} {task : mtapi_task_descriptor_t}
    (hsize : ¬ input_data.length > MTAPI_MAX_INPUT_DATA_SIZE)
    (hname : (s.tables.task_impls 0).name = some task_name)
    (htask : ((addInstance s.tables 0 input_data).task_instances 0).handle = some task) :
    createCall s task_name input_data =
      some (⟨addInstance s.tables 0 input_data, s.names, s.bound,
        ⟨s.tables.task_instance_count, task_name, input_data, task⟩ :: s.created⟩,
        ⟨some task, MTAPI_SUCCESS⟩) := by
  have hroom : ¬ s.tables.task_instance_count ≥ MTAPI_MAX_INSTANCES := by
    have hle := h.count_le
    have hmax : MTAPI_MAX_INSTANCES = 64 := rfl
    omega
  have hstart : start_local_task s.tables task_name input_data =
      some (addInstance s.tables 0 input_data, some task) := by
    rw [start_local_task, idx_of_name hname]
    simp only
    rw [htask]
  have hcreate : mtapi_create_task s.tables s.tables.the_domain s.tables.the_listener_node
      task_name input_data none =
        some (addInstance s.tables 0 input_data, ⟨some task, MTAPI_SUCCESS⟩) := by
    rw [mtapi_create_task, if_neg hsize, if_neg hroom, if_pos ⟨rfl, rfl⟩, hstart]
    rfl
  rw [createCall, hcreate]

/-- The first create. -/
theorem RegistryInv.create_first (h : RegistryInv s) {task_name : CString}
    (input_data : Bytes) (hname : (s.tables.task_impls 0).name = some task_name)
    (hcount : s.tables.task_instance_count = 0) {task : mtapi_task_descriptor_t}
    (htask : ((addInstance s.tables 0 input_data).task_instances 0).handle = some task) :
    RegistryInv ⟨addInstance s.tables 0 input_data, s.names, s.bound,
      ⟨s.tables.task_instance_count, task_name, input_data, task⟩ :: s.created⟩ := by
  have hnew := addInstance_new s.tables 0 input_data
  rw [hcount] at hnew
  have hcreated : s.created = [] := by
    have hlength := h.created_length
    rw [hcount] at hlength
    exact List.length_eq_zero_iff.mp hlength
  cases h.registered with
  | nothing _ himpl =>
    rw [himpl] at hname
    cases hname
  | one name impl hbound himpl hmem =>
    obtain rfl : name = task_name := by
      rw [himpl] at hname
      exact Option.some.inj hname
    refine ⟨h.uncounted, h.rest, h.instances.addInstance 0 input_data,
      .one name impl hbound himpl hmem, ?_⟩
    refine .one name impl input_data task hbound ?_ ?_ htask ?_ ?_ ?_
    · show s.tables.task_instance_count + 1 = 1
      rw [hcount]
    · simp only [hcount, hcreated]
    · simp only [hnew, newInstance]
    · simp only [hnew, newInstance]
    · simp only [hnew, newInstance]

/-- **A create** does what it should exactly if it is a good one. -/
theorem RegistryInv.createOk_iff (h : RegistryInv s) {task_name : CString}
    {input_data : Bytes} :
    CreateOk s task_name input_data ↔ goodTaskCall s (.create_task task_name input_data) := by
  rw [goodTaskCall, CreateOk]
  by_cases hlong : input_data.length > MTAPI_MAX_INPUT_DATA_SIZE
  · refine iff_of_false ?_ fun hgood => absurd hgood.1 (by omega)
    rintro ⟨s', answer, hcall, hok⟩
    rw [if_pos hlong] at hok
    rw [createCall_long hlong, Option.some.injEq, Prod.mk.injEq] at hcall
    rw [← hcall.2] at hok
    exact absurd hok.1 (by simp)
  by_cases hname : (s.tables.task_impls 0).name = some task_name
  swap
  · refine iff_of_false ?_ fun hgood => hname hgood.2.1
    rintro ⟨s', answer, hcall, -⟩
    rw [h.createCall_unregistered hlong hname] at hcall
    cases hcall
  have hroom : ¬ s.created.length ≥ MTAPI_MAX_INSTANCES := by
    have hle := h.count_le
    have hlength := h.created_length
    have hmax : MTAPI_MAX_INSTANCES = 64 := rfl
    omega
  have hregistered : Mtapi.registered s task_name ≠ none := by
    cases h.registered with
    | nothing _ himpl =>
      rw [himpl] at hname
      cases hname
    | one name impl hbound himpl =>
      obtain rfl : name = task_name := by
        rw [himpl] at hname
        exact Option.some.inj hname
      simp [Mtapi.registered, hbound]
  have hnew := addInstance_new s.tables 0 input_data
  by_cases hcount : s.tables.task_instance_count = 0
  · refine iff_of_true ?_ ⟨by omega, hname, hcount⟩
    have htask : ((addInstance s.tables 0 input_data).task_instances 0).handle =
        some ⟨s.tables.the_domain, s.tables.the_listener_node, s.tables.task_create_count⟩ := by
      rw [hcount] at hnew
      rw [hnew]
      rfl
    refine ⟨_, _, h.createCall_registered hlong hname htask, ?_⟩
    rw [if_neg hlong, if_neg hroom, if_neg hregistered]
    refine ⟨_, rfl, (h.create_first input_data hname hcount htask).ok, ?_, ?_⟩
    · rw [h.created_length]
    · intro c hc
      have hlength := h.created_length
      rw [hcount] at hlength
      rw [List.length_eq_zero_iff.mp hlength] at hc
      cases hc
  · refine iff_of_false ?_ fun hgood => hcount hgood.2.2
    -- the handle of the first instance is returned for the second one
    obtain ⟨id, -, hhandle⟩ := h.instances.used 0 (by omega)
    have htask : ((addInstance s.tables 0 input_data).task_instances 0).handle =
        some ⟨s.tables.the_domain, s.tables.the_listener_node, id⟩ := by
      rw [addInstance_old s.tables 0 input_data (by omega), hhandle]
    rintro ⟨s', answer, hcall, hok⟩
    rw [h.createCall_registered hlong hname htask, Option.some.injEq, Prod.mk.injEq] at hcall
    obtain ⟨rfl, rfl⟩ := hcall
    rw [if_neg hlong, if_neg hroom, if_neg hregistered] at hok
    obtain ⟨task, hanswer, -, -, hfresh⟩ := hok
    cases h.created with
    | nothing hzero => exact hcount hzero
    | one name impl input task' hbound hone hcreated hhandle' =>
      rw [hhandle, Option.some.injEq] at hhandle'
      rw [Created.mk.injEq, Option.some.injEq] at hanswer
      apply hfresh ⟨0, name, input, task'⟩ (by rw [hcreated]; exact List.mem_singleton_self _)
      rw [← hhandle', hanswer.1]

/-! ## Runs -/

/-- **One call.** What is wanted of it happens exactly if it is a good one. -/
theorem RegistryInv.callOk_iff (h : RegistryInv s) {a : Call ι} (hdistinct : Distinct s a) :
    CallOk s a ↔ goodTaskCall s a := by
  cases a with
  | register_impl task_name impl => exact h.registerOk_iff hdistinct
  | create_task task_name input_data => exact h.createOk_iff

theorem RegistryInv.step (h : RegistryInv s) {a : Call ι} {s' : Registry ι}
    (hstep : callStep s a = some s') (hgood : goodTaskCall s a) : RegistryInv s' := by
  cases a with
  | register_impl task_name impl =>
    rw [callStep] at hstep
    split at hstep
    · cases hstep
    obtain rfl := Option.some.inj hstep
    by_cases hlong : task_name.length > MTAPI_MAX_TASK_NAME_LENGTH
    · rw [registerCall_long hlong]
      exact h.rename _ fun name hname => List.mem_cons_of_mem _ hname
    · rw [h.registerCall_short hlong]
      exact h.register_first (hgood.resolve_left hlong) task_name impl
  | create_task task_name input_data =>
    obtain ⟨hsize, hname, hcount⟩ := hgood
    have htask : ((addInstance s.tables 0 input_data).task_instances 0).handle =
        some ⟨s.tables.the_domain, s.tables.the_listener_node, s.tables.task_create_count⟩ := by
      have hnew := addInstance_new s.tables 0 input_data
      rw [hcount] at hnew
      rw [hnew]
      rfl
    rw [callStep, h.createCall_registered (by omega) hname htask] at hstep
    obtain rfl := Option.some.inj hstep
    exact h.create_first input_data hname hcount htask

end

theorem initialRegistry_inv (domain node : ℕ) :
    RegistryInv (initialRegistry domain node : Registry ι) :=
  ⟨rfl, fun _ _ => rfl, mtapi_initialize_instances domain node, .nothing rfl rfl,
    .nothing rfl rfl⟩

/-- **The task registry.** In a run of good calls every registration and every
creation stays good, and the next call does what it is there for exactly if it
is a good one, too. -/
theorem task_registry_ok (domain node : ℕ) (s : Registry ι)
    (hrun : Run callStep (fun s a _ => goodTaskCall s a) (initialRegistry domain node) s) :
    RegistryOk s ∧ ∀ a, Distinct s a → (CallOk s a ↔ goodTaskCall s a) := by
  have hinv : RegistryInv s :=
    hrun.invariant (fun _ _ _ hs hstep hgood => hs.step hstep hgood)
      (initialRegistry_inv domain node)
  exact ⟨hinv.ok, fun a => hinv.callOk_iff⟩

/-- One implementation is registered and one task created: the create of a second
one would not be good. -/
def oneTask : Registry ℕ :=
  ⟨addInstance { ( mtapi_initialize 0 0 : Tables ℕ) with
      task_impls := Function.update (fun _ => ⟨none, none⟩) 0 ⟨some [116], some 7⟩ } 0 [1, 2],
    [[116]], [([116], 7)], [⟨0, [116], [1, 2], ⟨0, 0, 0⟩⟩]⟩

theorem task_registry_ok_one :
    RegistryOk oneTask ∧ ∀ a, Distinct oneTask a → (CallOk oneTask a ↔ goodTaskCall oneTask a) := by
  refine task_registry_ok 0 0 oneTask ?_
  refine .tail (a := .create_task [116] [1, 2]) (.tail (a := .register_impl [116] 7)
    (.refl _) rfl (.inr rfl)) ?_ ⟨by decide, rfl, rfl⟩
  rfl

/-- A second implementation takes the entry of the first one, which is then no
longer found. -/
theorem second_registration_unbinds :
    ∃ s, Run callStep (fun _ _ _ => True) (initialRegistry 0 0 : Registry ℕ) s ∧
      ¬ RegistryOk s := by
  refine ⟨(registerCall (registerCall (initialRegistry 0 0 : Registry ℕ) [97] 1).1 [98] 2).1,
    .tail (a := .register_impl [98] 2) (.tail (a := .register_impl [97] 1) (.refl _) rfl
      trivial) rfl trivial, ?_⟩
  intro hok
  obtain ⟨i, hidx, -⟩ := hok.bound [97] 1 (by decide)
  rw [get_task_impl_idx_crash (n := 1) (by decide) rfl] at hidx
  · cases hidx
  · intro j hj
    obtain rfl : j = 0 := by omega
    exact ⟨[98], rfl, by decide⟩

end MxApi.Mtapi
