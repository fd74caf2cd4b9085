/-
The commands and replies of the remote MTAPI calls, byte by byte (`start_remote_task`,
`wait_remote_task`, `mtapi_shutdown_slave`, `mtapi_listener` and what the listener answers with, of
`mtapi/src/mtapi.c`).

Both sides share the layout of two structures. The senders fill one in, in a local variable that
holds whatever was on the stack; MCAPI delivers its bytes into another local variable. What lies
behind these variables is part of the model, so that a string or a size that is too large shows
([`Lib.Obj`]). An integer is a word, and -1 is the largest.

The tables, the search for a name and the start of a local task are those of
`Mtapi.Tasks`, and what a wait reports is that of `Mtapi.Wait`. Memory, threads and the endpoints
are taken to be available, and `mthread_wait` to have returned.
-/
import MxApi.Lib.Buffer
import MxApi.Mtapi.Wait

set_option autoImplicit false

namespace MxApi.Mtapi.Remote

open Lib Lib.Memory mtapi_status_t mtapi_task_status_t listener_reply_t

variable {ι : Type*}

/-! ## Layout -/

/-- The fields of `mtapi_remote_cmd_t`, by their offsets. -/
def CMD : ℕ := 0
def CMD_FROM_DOMAIN : ℕ := 4
def CMD_FROM_NODE : ℕ := 8
def CMD_DATA_SIZE : ℕ := 12
def CMD_TASK_NAME : ℕ := 16
def CMD_DATA : ℕ := CMD_TASK_NAME + (MTAPI_MAX_TASK_NAME_LENGTH + 1)
def SIZEOF_CMD : ℕ := CMD_DATA + MTAPI_MAX_INPUT_DATA_SIZE

/-- The fields of `mtapi_remote_reply_t`. -/
def REPLY : ℕ := 0
def REPLY_TASK : ℕ := 4
def REPLY_DATA_SIZE : ℕ := 16
def REPLY_DATA : ℕ := 20
def SIZEOF_REPLY : ℕ := REPLY_DATA + MTAPI_MAX_RETURN_DATA_SIZE

def SIZEOF_TASK_DESCRIPTOR : ℕ := 12

def MTAPI_CMD_CREATE_TASK : ℕ := 0
def MTAPI_CMD_WAIT_TASK : ℕ := 1
def MTAPI_CMD_SHUTDOWN : ℕ := 2

def replyCode : listener_reply_t → ℕ
  | MTAPI_REPLY_ACK => 0
  | MTAPI_REPLY_NACK => 1

def MINUS_ONE : ℕ := 2 ^ 32 - 1

def descriptorBytes (task : mtapi_task_descriptor_t) : Bytes :=
  toBytes task.domain ++ toBytes task.node ++ toBytes task.task

def descriptorAt (m : Memory) (off : ℕ) : mtapi_task_descriptor_t :=
  ⟨m.word off, m.word (off + 4), m.word (off + 8)⟩

/-! ## Commands -/

/-- `the_domain` and `the_requester_node` of the node that sends the command. -/
structure Requester where
  the_domain : UInt32
  the_requester_node : UInt32


/-- The three fields that every command begins with. -/
def cmdHeader (q : Requester) (stack : Memory) (cmd : ℕ) : Obj :=
  let o : Obj := ⟨stack, true⟩
  let o := o.storeWord SIZEOF_CMD CMD cmd
  let o := o.storeWord SIZEOF_CMD CMD_FROM_DOMAIN q.the_domain.toNat
  o.storeWord SIZEOF_CMD CMD_FROM_NODE q.the_requester_node.toNat

/-- `strcpy(cmd.task_name, task_name)`. -/
def copyName (o : Obj) (task_name : CString) : Obj :=
  o.store SIZEOF_CMD CMD_TASK_NAME (task_name ++ [0])

/-- The command that `start_remote_task` sends. -/
def start_remote_task (q : Requester) (stack : Memory) (task_name : CString)
    (input_data : Bytes) : Obj :=
  let cmd := cmdHeader q stack MTAPI_CMD_CREATE_TASK
  let cmd := copyName cmd task_name
  let cmd := cmd.storeWord SIZEOF_CMD CMD_DATA_SIZE input_data.length
  let cmd := cmd.store SIZEOF_CMD CMD_DATA input_data
  -- and a zero behind the data
  cmd.store SIZEOF_CMD (CMD_DATA + input_data.length) [0]

/-- The command that `wait_remote_task` sends. -/
def wait_remote_task (q : Requester) (stack : Memory) (task : mtapi_task_descriptor_t) : Obj :=
  let cmd := cmdHeader q stack MTAPI_CMD_WAIT_TASK
  let cmd := copyName cmd []
  let cmd := cmd.storeWord SIZEOF_CMD CMD_DATA_SIZE SIZEOF_TASK_DESCRIPTOR
  cmd.store SIZEOF_CMD CMD_DATA (descriptorBytes task)

/-- The command that `mtapi_shutdown_slave` sends. -/
def mtapi_shutdown_slave (q : Requester) (stack : Memory) : Obj :=
  let cmd := cmdHeader q stack MTAPI_CMD_SHUTDOWN
  let cmd := copyName cmd []
  cmd.storeWord SIZEOF_CMD CMD_DATA_SIZE 0

/-! ## The listener -/

/-- A reply, and the requester's node that it goes to. -/
structure Answer where
  domain : ℕ
  node : ℕ
  reply : Obj

def fillReply (stack : Memory) (reply : listener_reply_t) (task : mtapi_task_descriptor_t)
    (data_size : ℕ) (data : Bytes) : Obj :=
  let o : Obj := ⟨stack, true⟩
  let o := o.storeWord SIZEOF_REPLY REPLY (replyCode reply)
  let o := o.store SIZEOF_REPLY REPLY_TASK (descriptorBytes task)
  let o := o.storeWord SIZEOF_REPLY REPLY_DATA_SIZE data_size
  o.store SIZEOF_REPLY REPLY_DATA data

def answerTo (cmd : Memory) (reply : Obj) : Answer :=
  ⟨cmd.word CMD_FROM_DOMAIN, cmd.word CMD_FROM_NODE, reply⟩

def send_remote_start_response (t : Tables ι) (cmd stack : Memory) (task : mtapi_task_handle_t) :
    Answer :=
  answerTo cmd <|
    match task with
    | some task => fillReply stack MTAPI_REPLY_ACK task 0 [0]
    | none =>
      fillReply stack MTAPI_REPLY_NACK ⟨t.the_domain, t.the_listener_node, MINUS_ONE⟩ 0 [0]

/-- `w` is the result of `wait_local_task`. -/
def send_remote_wait_response (t : Tables ι) (cmd stack : Memory) (w : Waited) : Answer :=
  let task : mtapi_task_descriptor_t :=
    ⟨t.the_domain, t.the_listener_node, (descriptorAt cmd CMD_DATA).task⟩
  answerTo cmd <|
    if w.status = MTAPI_SUCCESS then
      fillReply stack MTAPI_REPLY_ACK task w.return_data_size w.return_data
    else fillReply stack MTAPI_REPLY_NACK task 0 [0]

def send_remote_shutdown_response (t : Tables ι) (cmd stack : Memory) : Answer :=
  answerTo cmd (fillReply stack MTAPI_REPLY_ACK ⟨t.the_domain, t.the_listener_node, 0⟩ 0 [])

/-- The name that is looked up, if it ends inside the command. -/
def taskName (cmd : Memory) : Option CString :=
  cmd.cString CMD_TASK_NAME (SIZEOF_CMD - CMD_TASK_NAME)

/-- One command. `none`: the name does not end, a search dereferences NULL, or a wait reads the
instance -1. -/
def mtapi_listener (t : Tables ι) (cmd stack : Memory) : Option (Tables ι × Option Answer) :=
  if cmd.word CMD = MTAPI_CMD_CREATE_TASK then
    match taskName cmd with
    | none => none
    | some task_name =>
      match start_local_task t task_name (cmd.read CMD_DATA (cmd.word CMD_DATA_SIZE)) with
      | none => none
      | some (t, task) => some (t, some (send_remote_start_response t cmd stack task))
  else if cmd.word CMD = MTAPI_CMD_WAIT_TASK then
    match get_task_instance_idx t (some (descriptorAt cmd CMD_DATA)) with
    | some (some instance_idx) =>
      let w := waitResult (t.task_instances instance_idx)
      some (t, some (send_remote_wait_response t cmd stack w))
    | _ => none
  else if cmd.word CMD = MTAPI_CMD_SHUTDOWN then
    some (t, some (send_remote_shutdown_response t cmd stack))
  else some (t, none)

/-! ## Replies -/

def replyKind (reply : Memory) : listener_reply_t :=
  if reply.word REPLY = replyCode MTAPI_REPLY_NACK then MTAPI_REPLY_NACK else MTAPI_REPLY_ACK

/-- What a reply says. -/
def readReply (reply : Memory) : mtapi_remote_reply_t :=
  ⟨replyKind reply, descriptorAt reply REPLY_TASK, reply.word REPLY_DATA_SIZE,
    reply.read REPLY_DATA (reply.word REPLY_DATA_SIZE)⟩

/-- What `start_remote_task` returns for a reply. -/
def startResult (reply : Memory) : mtapi_task_handle_t :=
  if replyKind reply = MTAPI_REPLY_NACK then none else some (descriptorAt reply REPLY_TASK)

/-- `*status` after `mtapi_shutdown_slave` has got its reply, either way. -/
def shutdownStatus (reply : Memory) : mtapi_status_t :=
  match replyKind reply with
  | MTAPI_REPLY_NACK => MTAPI_SUCCESS
  | MTAPI_REPLY_ACK => MTAPI_SUCCESS

/-! ## Exchanges -/

/-- A C string has no zero in it. -/
def CName := { s : CString // (0 : UInt8) ∉ s }

/-- Data that `mtapi_create_task` accepts. -/
def Input := { data : Bytes // data.length ≤ MTAPI_MAX_INPUT_DATA_SIZE }

/-- The fields of a descriptor are words. -/
def Descriptor :=
  { task : mtapi_task_descriptor_t //
    task.domain < 2 ^ 32 ∧ task.node < 2 ^ 32 ∧ task.task < 2 ^ 32 }

/-- The other node: the entries of its instances are filled from the first one on. -/
structure RemoteNode (ι : Type*) where
  tables : Tables ι
  instances : Instances tables

/-- What memory holds where the local variables are: the command and the reply, on the side that
fills them in and on the side that receives them. -/
structure Locals where
  cmd : Memory
  received_cmd : Memory
  reply : Memory
  received_reply : Memory

/-- What can happen between two nodes: a task is started, or waited for after it has exited; and a
reply is received by each of the three calls that expect one. -/
inductive Exchange (ι : Type*)
  | start (l : Locals) (q : Requester) (node : RemoteNode ι) (task_name : CName)
      (input_data : Input)
  | wait (l : Locals) (q : Requester) (node : RemoteNode ι) (task : Descriptor) (e : Exit)
  | startReply (t : Tables ι) (domain node : ℕ) (task_name : CString) (input_data : Bytes)
      (reply : Memory)
  | waitReply (reply : Memory)
  | shutdownReply (reply : Memory)

/-- The command as the listener receives it. -/
def receivedCmd (l : Locals) (cmd : Obj) : Memory := overlay SIZEOF_CMD cmd.mem l.received_cmd

/-- The reply as the requester receives it. -/
def receivedReply (l : Locals) (reply : Obj) : Memory :=
  overlay SIZEOF_REPLY reply.mem l.received_reply

/-! ## What is to hold -/

/-- An implementation of that name is started, in an instance of the table, with that data. -/
structure Started (t t' : Tables ι) (task_name : CString) (input_data : Bytes) : Prop where
  room : t.task_instance_count < MTAPI_MAX_INSTANCES
  impl : ∃ task_idx < MTAPI_MAX_TASKS, (t.task_impls task_idx).name = some task_name ∧
    (t'.task_instances t.task_instance_count).task_impl = some task_idx
  data : (t'.task_instances t.task_instance_count).input_data = input_data
  size : (t'.task_instances t.task_instance_count).input_data_size = input_data.length
  counted : t'.task_instance_count = t.task_instance_count + 1

/-- The answer of the listener to the command of `start_remote_task`. -/
structure Answered (q : Requester) (t t' : Tables ι) (task_name : CString) (input_data : Bytes)
    (answer : Answer) : Prop where
  domain : answer.domain = q.the_domain.toNat
  node : answer.node = q.the_requester_node.toNat
  inside : answer.reply.inside = true
  started : replyKind answer.reply.mem = MTAPI_REPLY_ACK → Started t t' task_name input_data
  refused : replyKind answer.reply.mem = MTAPI_REPLY_NACK → t' = t

structure StartRight (l : Locals) (q : Requester) (t : Tables ι) (task_name : CString)
    (input_data : Bytes) : Prop where
  inside : (start_remote_task q l.cmd task_name input_data).inside = true
  looked_up :
    taskName (receivedCmd l (start_remote_task q l.cmd task_name input_data)) = some task_name
  answered : ∃ t' answer,
    mtapi_listener t (receivedCmd l (start_remote_task q l.cmd task_name input_data)) l.reply =
      some (t', some answer) ∧ Answered q t t' task_name input_data answer

/-- The answer to a wait for a task that has exited. -/
structure WaitRight (l : Locals) (q : Requester) (t : Tables ι) (task : mtapi_task_descriptor_t)
    (e : Exit) : Prop where
  inside : (wait_remote_task q l.cmd task).inside = true
  answered : ∃ answer,
    mtapi_listener t (receivedCmd l (wait_remote_task q l.cmd task)) l.reply =
      some (t, some answer) ∧
    answer.domain = q.the_domain.toNat ∧ answer.node = q.the_requester_node.toNat ∧
    answer.reply.inside = true ∧
    remoteResult (readReply (receivedReply l answer.reply)) =
      ⟨MTAPI_SUCCESS, e.return_data, e.return_data.length, MTAPI_TASK_SUCCESS⟩

def Right : Exchange ι → Prop
  | .start l q node task_name input_data =>
    StartRight l q node.tables task_name.val input_data.val
  | .wait l q node task e => ∀ t,
    mtapi_task_exit node.tables (some task.val) e = some (t, MTAPI_SUCCESS) →
      WaitRight l q t task.val e
  | .startReply t domain node task_name input_data reply =>
    replyKind reply = MTAPI_REPLY_NACK → ¬ (domain = t.the_domain ∧ node = t.the_listener_node) →
      ∃ created, mtapi_create_task t domain node task_name input_data (startResult reply) =
        some (t, created) ∧ created.status ≠ MTAPI_SUCCESS
  | .waitReply reply =>
    replyKind reply = MTAPI_REPLY_NACK → (remoteResult (readReply reply)).status ≠ MTAPI_SUCCESS
  | .shutdownReply reply =>
    replyKind reply = MTAPI_REPLY_NACK → shutdownStatus reply ≠ MTAPI_SUCCESS

/-! ## When it does -/

/-- The search meets the name before it meets an entry that is empty, if it meets one. -/
def Searchable (t : Tables ι) (task_name : CString) : Prop :=
  ∀ i < MTAPI_MAX_TASKS, (t.task_impls i).name = none →
    ∃ j < i, (t.task_impls j).name = some task_name

structure StartFits (t : Tables ι) (task_name : CString) (input_data : Bytes) : Prop where
  /-- A byte is left behind the data. -/
  data_fits : input_data.length < MTAPI_MAX_INPUT_DATA_SIZE
  name_fits : task_name.length < (MTAPI_MAX_TASK_NAME_LENGTH + 1) + MTAPI_MAX_INPUT_DATA_SIZE
  /-- The name ends in its field, or the data happens to go on with it. -/
  name_kept : task_name.length ≤ MTAPI_MAX_TASK_NAME_LENGTH ∨
    input_data.takeWhile (· ≠ 0) = task_name.drop (MTAPI_MAX_TASK_NAME_LENGTH + 1)
  searchable : Searchable t task_name
  room : (∃ i < MTAPI_MAX_TASKS, (t.task_impls i).name = some task_name) →
    t.task_instance_count < MTAPI_MAX_INSTANCES

def Fits : Exchange ι → Prop
  | .start _ _ node task_name input_data => StartFits node.tables task_name.val input_data.val
  | .wait _ _ _ _ _ => True
  | .startReply _ _ _ _ _ _ => True
  | .waitReply reply => replyKind reply ≠ MTAPI_REPLY_NACK
  | .shutdownReply reply => replyKind reply ≠ MTAPI_REPLY_NACK

end MxApi.Mtapi.Remote
