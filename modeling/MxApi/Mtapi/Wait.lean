/-
Exiting from tasks and waiting for them, on the local node and through the
listener of another node (`mtapi_task_exit`, `mtapi_task_wait` and
`mtapi_listener` of `mtapi/src/mtapi.c`).

A node is the pair of its domain and its listener node. The system consists of
the tables of the nodes, the threads that wait, the listeners, and the messages
in flight: commands at the listeners' endpoints, replies at the requesters'
endpoints, each delivered intact and in order. `mthread_wait` returns after the
task's function has returned. A wait is several steps: the search of the handle,
the return from `mthread_wait` with the copy of the result, and for a remote
node the command, the listener's work and the reply.

Beside the state a history is kept: what each task passed to its last successful
`mtapi_task_exit`, what every wait reported, and whether a table was ever read at
an entry that is empty or outside.
-/
import MxApi.Mtapi.Tasks

set_option autoImplicit false

namespace MxApi.Mtapi

open mtapi_status_t mtapi_task_status_t

/-- Domain and listener node. -/
abbrev Node := ℕ × ℕ

/-! ## Exit and wait -/

/-- What a task passes to `mtapi_task_exit`. -/
structure Exit where
  return_data : Bytes
  task_status : mtapi_task_status_t
  deriving DecidableEq, Repr

variable {ι : Type*}

/-- The fields of an instance that an exit sets. -/
def setReturn (entry : local_task_descriptor_t) (e : Exit) : local_task_descriptor_t :=
  { entry with
    return_data := some e.return_data
    return_data_size := e.return_data.length
    status := e.task_status }

def storeReturn (t : Tables ι) (instance_idx : ℕ) (e : Exit) : Tables ι :=
  { t with
    task_instances := Function.update t.task_instances instance_idx
      (setReturn (t.task_instances instance_idx) e) }

/-- `none`: the search dereferences NULL. -/
def mtapi_task_exit (t : Tables ι) (task : mtapi_task_handle_t) (e : Exit) :
    Option (Tables ι × mtapi_status_t) :=
  match get_task_instance_idx t task with
  | none => none
  | some none => some (t, MTAPI_EBAD_HANDLE)
  | some (some instance_idx) =>
    if e.return_data.length > MTAPI_MAX_RETURN_DATA_SIZE then some (t, MTAPI_EDATA_SIZE)
    else some (storeReturn t instance_idx e, MTAPI_SUCCESS)

/-- What a wait reports. -/
structure Waited where
  status : mtapi_status_t
  return_data : Bytes
  return_data_size : ℕ
  task_status : mtapi_task_status_t
  deriving DecidableEq, Repr

/-- The end of `wait_local_task`, once the thread of the instance has returned:
`return_data_size` bytes of `return_data` are copied. -/
def waitResult (entry : local_task_descriptor_t) : Waited :=
  ⟨MTAPI_SUCCESS, (entry.return_data.getD []).take entry.return_data_size,
    entry.return_data_size, MTAPI_TASK_SUCCESS⟩

/-- What a failed remote wait reports; the data is not set. -/
def remoteError : Waited := ⟨MTAPI_EREMOTE, [], 0, MTAPI_TASK_ERROR⟩

/-! ## Messages -/

/-- A command `MTAPI_CMD_WAIT_TASK`. -/
structure mtapi_remote_cmd_t where
  from_domain : ℕ
  from_node : ℕ
  data : mtapi_task_descriptor_t
  deriving DecidableEq, Repr

inductive listener_reply_t
  | MTAPI_REPLY_ACK
  | MTAPI_REPLY_NACK
  deriving DecidableEq, Repr

open listener_reply_t

structure mtapi_remote_reply_t where
  reply : listener_reply_t
  task : mtapi_task_descriptor_t
  data_size : ℕ
  data : Bytes
  deriving DecidableEq, Repr

/-- What `send_remote_wait_response` sends for the result of `wait_local_task`. -/
def send_remote_wait_response (t : Tables ι) (cmd : mtapi_remote_cmd_t) (w : Waited) :
    mtapi_remote_reply_t :=
  let task : mtapi_task_descriptor_t := ⟨t.the_domain, t.the_listener_node, cmd.data.task⟩
  if w.status = MTAPI_SUCCESS then ⟨MTAPI_REPLY_ACK, task, w.return_data_size, w.return_data⟩
  else ⟨MTAPI_REPLY_NACK, task, 0, []⟩

/-- The end of `wait_remote_task`, with the reply that was received. A NACK leaves
the status that was set first. -/
def remoteResult (reply : mtapi_remote_reply_t) : Waited :=
  match reply.reply with
  | MTAPI_REPLY_NACK => ⟨MTAPI_SUCCESS, [], 0, MTAPI_TASK_ERROR⟩
  | MTAPI_REPLY_ACK =>
    ⟨MTAPI_SUCCESS, reply.data.take reply.data_size, reply.data_size, MTAPI_TASK_SUCCESS⟩

/-! ## The system -/

/-- Where a thread is in `mtapi_task_wait`. -/
inductive Waiting
  | idle
  -- in `mthread_wait`, for the instance found
  | joining (task : mtapi_task_descriptor_t) (instance_idx : ℕ)
  -- in `mcapi_msg_recv`, the command is sent
  | remote (task : mtapi_task_descriptor_t)
  deriving DecidableEq, Repr

/-- A finished wait: the descriptor, what the task had passed to its last
successful exit, and what was reported. -/
structure WaitEvent where
  task : mtapi_task_descriptor_t
  last : Option Exit
  result : Waited
  deriving DecidableEq, Repr

/-- A finished exit: whether the handle denotes a task of the node, and the
status. -/
structure ExitEvent where
  denotes : Bool
  status : mtapi_status_t
  deriving DecidableEq, Repr

structure System (ι τ : Type*) where
  tables : Node → Tables ι
  returned : Node → ℕ → Bool
  threads : τ → Waiting
  /-- The listener is in `mthread_wait`, with this command and instance. -/
  listener : Node → Option (mtapi_remote_cmd_t × ℕ)
  /-- At the listener's receive endpoint of a node. -/
  commands : Node → List mtapi_remote_cmd_t
  /-- At the requester's receive endpoint of a domain and a requester node. -/
  replies : ℕ × ℕ → List mtapi_remote_reply_t
  exits : Node → ℕ → Option Exit
  waits : List WaitEvent
  exited : List ExitEvent
  badRead : Bool

/-- The steps of the system. -/
inductive SysCall (ι τ : Type*)
  -- `start_local_task` on the node
  | start (n : Node) (task_name : CString) (input_data : Bytes)
  -- `mtapi_task_exit` on the node
  | exit (n : Node) (task : mtapi_task_handle_t) (e : Exit)
  -- the function of the instance returns
  | taskReturns (n : Node) (instance_idx : ℕ)
  -- `mtapi_task_wait` up to `mthread_wait` or up to `mcapi_msg_recv`
  | wait (t : τ) (task : mtapi_task_handle_t)
  -- `mthread_wait` returns to the thread
  | joined (t : τ)
  -- `mcapi_msg_recv` returns to the thread
  | received (t : τ)
  -- the listener takes a command, up to `mthread_wait`
  | listen (n : Node)
  -- `mthread_wait` returns to the listener
  | listenerJoined (n : Node)

section

variable {τ : Type*} [DecidableEq τ] (home : τ → Node) (present : Node → Bool)
variable (s : System ι τ)

/-- The instance that a descriptor denotes on the node. -/
def instanceOf (n : Node) (task : mtapi_task_descriptor_t) : Option ℕ :=
  Lib.search MTAPI_MAX_TASKS fun k =>
    decide (((s.tables n).task_instances k).handle = some task)

/-- What the task of the descriptor passed to its last successful exit. -/
def lastExit (task : mtapi_task_descriptor_t) : Option Exit :=
  (instanceOf s (task.domain, task.node) task).bind (s.exits (task.domain, task.node))

def setTables (n : Node) (t : Tables ι) : System ι τ :=
  { s with tables := Function.update s.tables n t }

def setThread (t : τ) (w : Waiting) : System ι τ :=
  { s with threads := Function.update s.threads t w }

/-- A wait is over. -/
def report (task : mtapi_task_descriptor_t) (result : Waited) : System ι τ :=
  { s with waits := ⟨task, lastExit s task, result⟩ :: s.waits }

/-- The last successful exits after an exit that reports `status`. -/
def recordExit (n : Node) (found : Option ℕ) (status : mtapi_status_t) (e : Exit) :
    Node → ℕ → Option Exit :=
  match status, found with
  | MTAPI_SUCCESS, some k => Function.update s.exits n (Function.update (s.exits n) k (some e))
  | _, _ => s.exits

def exitStep (n : Node) (task : mtapi_task_handle_t) (e : Exit) : Option (System ι τ) :=
  let found := task.bind (instanceOf s n)
  -- a task exits before its function returns
  if found.any (s.returned n) then none
  else
    match mtapi_task_exit (s.tables n) task e with
    | none => some { s with badRead := true }
    | some (tables, status) =>
      some { setTables s n tables with
        exits := recordExit s n found status e
        exited := ⟨found.isSome, status⟩ :: s.exited }

/-- The beginning of `mtapi_task_wait`. -/
def waitStep (t : τ) (task : mtapi_task_handle_t) : Option (System ι τ) :=
  if s.threads t = .idle then
    match task with
    | none => some { s with badRead := true }
    | some task =>
      let tables := s.tables (home t)
      if task.domain = tables.the_domain ∧ task.node = tables.the_listener_node then
        match get_task_instance_idx tables (some task) with
        | some (some instance_idx) => some (setThread s t (.joining task instance_idx))
        -- NULL is dereferenced, or `task_instances[-1].thread` is read
        | _ => some { s with badRead := true }
      else if present (task.domain, task.node) then
        let cmd : mtapi_remote_cmd_t := ⟨tables.the_domain, tables.the_listener_node + 1, task⟩
        let s := setThread s t (.remote task)
        some { s with
          commands := Function.update s.commands (task.domain, task.node)
            (s.commands (task.domain, task.node) ++ [cmd]) }
      else some (report s task remoteError)
  else none

def joinedStep (t : τ) : Option (System ι τ) :=
  match s.threads t with
  | .joining task instance_idx =>
    if s.returned (home t) instance_idx then
      let result := waitResult ((s.tables (home t)).task_instances instance_idx)
      some (setThread (report s task result) t .idle)
    else none
  | _ => none

def receivedStep (t : τ) : Option (System ι τ) :=
  let tables := s.tables (home t)
  let endpoint := (tables.the_domain, tables.the_listener_node + 1)
  match s.threads t, s.replies endpoint with
  | .remote task, reply :: rest =>
    let s := setThread (report s task (remoteResult reply)) t .idle
    some { s with replies := Function.update s.replies endpoint rest }
  | _, _ => none

def listenStep (n : Node) : Option (System ι τ) :=
  match s.listener n, s.commands n with
  | none, cmd :: rest =>
    let s := { s with commands := Function.update s.commands n rest }
    match get_task_instance_idx (s.tables n) (some cmd.data) with
    | some (some instance_idx) =>
      some { s with listener := Function.update s.listener n (some (cmd, instance_idx)) }
    | _ => some { s with badRead := true }
  | _, _ => none

def listenerJoinedStep (n : Node) : Option (System ι τ) :=
  match s.listener n with
  | some (cmd, instance_idx) =>
    if s.returned n instance_idx then
      let result := waitResult ((s.tables n).task_instances instance_idx)
      let reply := send_remote_wait_response (s.tables n) cmd result
      let endpoint := (cmd.from_domain, cmd.from_node)
      some { s with
        listener := Function.update s.listener n none
        replies := Function.update s.replies endpoint (s.replies endpoint ++ [reply]) }
    else none
  | none => none

/-- A start that finds the name of its implementation. -/
def startStep (n : Node) (task_name : CString) (input_data : Bytes) : Option (System ι τ) :=
  match get_task_impl_idx (s.tables n) task_name with
  | some (some task_idx) => some (setTables s n (addInstance (s.tables n) task_idx input_data))
  | _ => none

def taskReturnsStep (n : Node) (instance_idx : ℕ) : Option (System ι τ) :=
  if instance_idx < (s.tables n).task_instance_count then
    some { s with
      returned := Function.update s.returned n
        (Function.update (s.returned n) instance_idx true) }
  else none

def sysStep : SysCall ι τ → Option (System ι τ)
  | .start n task_name input_data => startStep s n task_name input_data
  | .exit n task e => exitStep s n task e
  | .taskReturns n instance_idx => taskReturnsStep s n instance_idx
  | .wait t task => waitStep home present s t task
  | .joined t => joinedStep home s t
  | .received t => receivedStep home s t
  | .listen n => listenStep s n
  | .listenerJoined n => listenerJoinedStep s n

end

end MxApi.Mtapi
