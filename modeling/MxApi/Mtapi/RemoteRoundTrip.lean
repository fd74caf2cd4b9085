/-
Whether a remote call goes through: the name and the data that are sent are those that the other
node uses, and the value that is returned is the one that the task exited with.

Where the command is filled in inside its bounds, everything in it but the name is read back as it
was sent, and the name is read back as far as its field goes and then goes on with the data
([`taskName_received`]). What the listener does with it is the local start, which answers if the
search for the name does not meet an empty entry, and which is right if there is an instance left.
A reply is always read back; but a wait that is refused leaves its status as it was.
-/
import Mathlib.Data.List.TakeWhile
import MxApi.Mtapi.Remote

set_option autoImplicit false

namespace MxApi.Mtapi.Remote

open Lib Lib.Memory mtapi_status_t mtapi_task_status_t listener_reply_t

variable {ι : Type*}

/-! ## Layout -/

theorem CMD_DATA_eq : CMD_DATA = 49 := rfl

theorem SIZEOF_CMD_eq : SIZEOF_CMD = 1024 := rfl

theorem SIZEOF_REPLY_eq : SIZEOF_REPLY = 1024 := rfl

theorem MTAPI_MAX_INPUT_DATA_SIZE_eq : MTAPI_MAX_INPUT_DATA_SIZE = 975 := rfl

theorem MTAPI_MAX_RETURN_DATA_SIZE_eq : MTAPI_MAX_RETURN_DATA_SIZE = 1004 := rfl

theorem descriptorBytes_length (task : mtapi_task_descriptor_t) :
    (descriptorBytes task).length = 12 := rfl

/-- The three words of a descriptor are read back. -/
theorem descriptorAt_write {m : Memory} {off : ℕ} (task : Descriptor) :
    descriptorAt (m.write off (descriptorBytes task.val)) off = task.val := by
  obtain ⟨⟨domain, node, id⟩, hdomain, hnode, hid⟩ := task
  have hpart (k w : ℕ) (hk : k + 4 ≤ 12) (hw : w < 2 ^ 32)
      (hbytes : ((descriptorBytes ⟨domain, node, id⟩).drop k).take 4 = toBytes w) :
      (m.write off (descriptorBytes ⟨domain, node, id⟩)).word (off + k) = w := by
    rw [word, read_write_part hk, hbytes, ofBytes_toBytes hw]
  rw [descriptorAt, mtapi_task_descriptor_t.mk.injEq]
  exact ⟨hpart 0 domain (by omega) hdomain rfl, hpart 4 node (by omega) hnode rfl,
    hpart 8 id (by omega) hid rfl⟩

/-! ## The header of a command -/

section Header

variable (q : Requester) (stack : Memory)

theorem cmdHeader_inside (cmd : ℕ) : (cmdHeader q stack cmd).inside = true := by
  simp only [cmdHeader, Obj.storeWord_inside]
  decide

/-- The words of the header, in front of which nothing is written any more. -/
theorem word_header {m : Memory} {off off' : ℕ} {xs : List UInt8}
    (h : off + 4 ≤ CMD_DATA_SIZE) (h' : CMD_DATA_SIZE ≤ off') :
    (m.write off' xs).word off = m.word off :=
  word_write_apart (.inl (h.trans h'))

theorem cmdHeader_cmd {cmd : ℕ} (h : cmd < 2 ^ 32) :
    (cmdHeader q stack cmd).mem.word CMD = cmd := by
  simp only [cmdHeader, Obj.storeWord_mem]
  rw [word_writeWord_apart (by decide), word_writeWord_apart (by decide), word_writeWord_self h]

theorem cmdHeader_domain (cmd : ℕ) :
    (cmdHeader q stack cmd).mem.word CMD_FROM_DOMAIN = q.the_domain.toNat := by
  simp only [cmdHeader, Obj.storeWord_mem]
  rw [word_writeWord_apart (by decide), word_writeWord_self q.the_domain.toNat_lt]

theorem cmdHeader_node (cmd : ℕ) :
    (cmdHeader q stack cmd).mem.word CMD_FROM_NODE = q.the_requester_node.toNat := by
  simp only [cmdHeader, Obj.storeWord_mem]
  rw [word_writeWord_self q.the_requester_node.toNat_lt]

end Header

/-! ## The command that starts a task -/

section Start

variable (l : Locals) (q : Requester) (task_name : CString) (input_data : Bytes)

/-- **The bounds of the command.** A byte is needed behind the name and one behind the data. -/
theorem start_inside :
    (start_remote_task q l.cmd task_name input_data).inside = true ↔
      task_name.length < (MTAPI_MAX_TASK_NAME_LENGTH + 1) + MTAPI_MAX_INPUT_DATA_SIZE ∧
        input_data.length < MTAPI_MAX_INPUT_DATA_SIZE := by
  simp only [start_remote_task, copyName, Obj.store_inside, Obj.storeWord_inside, cmdHeader_inside,
    true_and, List.append_eq_nil_iff, List.cons_ne_nil, and_false, false_or, List.length_append,
    List.length_singleton]
  simp only [CMD_DATA_eq, SIZEOF_CMD_eq, MTAPI_MAX_INPUT_DATA_SIZE_eq, CMD_TASK_NAME, CMD_DATA_SIZE,
    MTAPI_MAX_TASK_NAME_LENGTH]
  constructor
  · rintro ⟨⟨⟨hname, -⟩, -⟩, hdata⟩
    omega
  · rintro ⟨hname, hdata⟩
    exact ⟨⟨⟨by omega, by omega⟩, .inr (by omega)⟩, by omega⟩

theorem start_word {off : ℕ} (h : off + 4 ≤ CMD_DATA_SIZE) :
    (receivedCmd l (start_remote_task q l.cmd task_name input_data)).word off =
      (cmdHeader q l.cmd MTAPI_CMD_CREATE_TASK).mem.word off := by
  have hdata : CMD_DATA_SIZE ≤ CMD_DATA + input_data.length := Nat.le_add_right_of_le (by decide)
  rw [receivedCmd, word_overlay (h.trans (by decide))]
  simp only [start_remote_task, copyName, Obj.store_mem, Obj.storeWord_mem, writeWord]
  rw [word_header h hdata, word_header h (by decide), word_header h (le_refl _),
    word_header h (by decide)]

variable {input_data}

/-- The size of the data. -/
theorem start_data_size (hdata : input_data.length < MTAPI_MAX_INPUT_DATA_SIZE) :
    (receivedCmd l (start_remote_task q l.cmd task_name input_data)).word CMD_DATA_SIZE =
      input_data.length := by
  rw [MTAPI_MAX_INPUT_DATA_SIZE_eq] at hdata
  have hbehind : CMD_DATA_SIZE + 4 ≤ CMD_DATA + input_data.length :=
    Nat.le_add_right_of_le (by decide)
  rw [receivedCmd, word_overlay (by decide)]
  simp only [start_remote_task, copyName, Obj.store_mem, Obj.storeWord_mem]
  rw [word_write_apart (.inl hbehind), word_write_apart (.inl (by decide)),
    word_writeWord_self (by omega)]

/-- The data, and a zero behind it. -/
theorem start_data (hdata : input_data.length < MTAPI_MAX_INPUT_DATA_SIZE) :
    (receivedCmd l (start_remote_task q l.cmd task_name input_data)).read CMD_DATA
      (input_data.length + 1) = input_data ++ [0] := by
  rw [MTAPI_MAX_INPUT_DATA_SIZE_eq] at hdata
  rw [receivedCmd, read_overlay (by rw [CMD_DATA_eq, SIZEOF_CMD_eq]; omega), read_append]
  simp only [start_remote_task, Obj.store_mem]
  rw [read_write_apart (.inl (le_refl _)), read_write_self]
  exact congrArg (input_data ++ ·) (read_write_self _ _ [0])

/-- The field of the name, as far as the name or the field goes. -/
theorem start_name {n : ℕ} (hn : n ≤ task_name.length + 1)
    (hfield : n ≤ MTAPI_MAX_TASK_NAME_LENGTH + 1) :
    (receivedCmd l (start_remote_task q l.cmd task_name input_data)).read CMD_TASK_NAME n =
      (task_name ++ [0]).take n := by
  rw [MTAPI_MAX_TASK_NAME_LENGTH] at hfield
  have hbefore : CMD_TASK_NAME + n ≤ CMD_DATA := by
    rw [CMD_TASK_NAME, CMD_DATA_eq]
    omega
  rw [receivedCmd, read_overlay (hbefore.trans (by decide))]
  simp only [start_remote_task, copyName, Obj.store_mem, Obj.storeWord_mem, writeWord]
  rw [read_write_apart (.inl (Nat.le_add_right_of_le hbefore)), read_write_apart (.inl hbefore),
    read_write_apart (.inr (show CMD_DATA_SIZE + 4 ≤ CMD_TASK_NAME by decide))]
  exact read_write_part (k := 0) (by simpa using hn)

variable {task_name}

/-- The name that the listener looks up. -/
def lookedUp (task_name : CString) (input_data : Bytes) : CString :=
  if task_name.length ≤ MTAPI_MAX_TASK_NAME_LENGTH then task_name
  else task_name.take (MTAPI_MAX_TASK_NAME_LENGTH + 1) ++ input_data.takeWhile (· ≠ 0)

/-- A name that fills its field goes on with the data. -/
example : lookedUp (List.replicate 33 97) [98, 99, 0, 100] = List.replicate 33 97 ++ [98, 99] := by
  decide

theorem lookedUp_eq_iff :
    lookedUp task_name input_data = task_name ↔
      task_name.length ≤ MTAPI_MAX_TASK_NAME_LENGTH ∨
        input_data.takeWhile (· ≠ 0) = task_name.drop (MTAPI_MAX_TASK_NAME_LENGTH + 1) := by
  unfold lookedUp
  by_cases hshort : task_name.length ≤ MTAPI_MAX_TASK_NAME_LENGTH
  · simp [hshort]
  · rw [if_neg hshort]
    have hsplit := List.take_append_drop (MTAPI_MAX_TASK_NAME_LENGTH + 1) task_name
    constructor
    · intro heq
      exact .inr (List.append_cancel_left (heq.trans hsplit.symm))
    · rintro (hle | hrest)
      · exact absurd hle hshort
      · rw [hrest, hsplit]

/-- **The name as it is received** is what is in its field, and goes on with the data if it does
not end there. -/
theorem taskName_received (hzero : (0 : UInt8) ∉ task_name)
    (hdata : input_data.length < MTAPI_MAX_INPUT_DATA_SIZE) :
    taskName (receivedCmd l (start_remote_task q l.cmd task_name input_data)) =
      some (lookedUp task_name input_data) := by
  have hfield {n : ℕ} := @start_name l q task_name input_data n
  have hdata' := start_data l q task_name hdata
  generalize receivedCmd l (start_remote_task q l.cmd task_name input_data) = m at hfield hdata' ⊢
  unfold taskName lookedUp
  by_cases hshort : task_name.length ≤ MTAPI_MAX_TASK_NAME_LENGTH
  · -- the zero behind the name is in the field
    have hname := hfield (le_refl _) (Nat.succ_le_succ hshort)
    rw [List.take_of_length_le (by simp), read_append] at hname
    obtain ⟨hname, hend⟩ := List.append_inj hname (read_length ..)
    rw [if_pos hshort, cString_of_read hname (List.singleton_inj.mp hend)]
    · rw [List.takeWhile_eq_self_iff.mpr]
      intro b hb
      exact decide_eq_true fun h0 => hzero (h0 ▸ hb)
    · exact Nat.lt_of_le_of_lt hshort (by decide)
  · rw [if_neg hshort]
    have hlong : MTAPI_MAX_TASK_NAME_LENGTH + 1 ≤ task_name.length := by omega
    have hname := hfield (Nat.le_add_right_of_le hlong) (le_refl _)
    rw [List.take_append_of_le_length hlong] at hname
    obtain ⟨hbytes, hend⟩ := List.append_inj
      ((read_append m CMD_DATA input_data.length 1).symm.trans hdata') (read_length ..)
    have hrest : m.cString CMD_DATA MTAPI_MAX_INPUT_DATA_SIZE =
        some (input_data.takeWhile (· ≠ 0)) :=
      cString_of_read hbytes (List.singleton_inj.mp hend) hdata
    have hnonzero : ∀ i, i < MTAPI_MAX_TASK_NAME_LENGTH + 1 → m (CMD_TASK_NAME + i) ≠ 0 := by
      intro i hi h0
      have hmem : m (CMD_TASK_NAME + i) ∈ m.read CMD_TASK_NAME (MTAPI_MAX_TASK_NAME_LENGTH + 1) :=
        List.mem_map.mpr ⟨i, List.mem_range.mpr hi, rfl⟩
      rw [hname, h0] at hmem
      exact hzero (List.mem_of_mem_take hmem)
    have hadd := cString_add (n := MTAPI_MAX_INPUT_DATA_SIZE) hnonzero
    rw [show CMD_TASK_NAME + (MTAPI_MAX_TASK_NAME_LENGTH + 1) = CMD_DATA from rfl, hrest,
      hname] at hadd
    exact hadd

/-- What the listener does with the command. -/
theorem listener_start (t : Tables ι) (hzero : (0 : UInt8) ∉ task_name)
    (hdata : input_data.length < MTAPI_MAX_INPUT_DATA_SIZE) :
    mtapi_listener t (receivedCmd l (start_remote_task q l.cmd task_name input_data)) l.reply =
      (start_local_task t (lookedUp task_name input_data) input_data).map fun x =>
        (x.1, some (send_remote_start_response x.1
          (receivedCmd l (start_remote_task q l.cmd task_name input_data)) l.reply x.2)) := by
  have hcmd : (receivedCmd l (start_remote_task q l.cmd task_name input_data)).word CMD =
      MTAPI_CMD_CREATE_TASK := by
    rw [start_word l q task_name input_data (by decide), cmdHeader_cmd q l.cmd (by decide)]
  have hbytes := start_data l q task_name hdata
  rw [read_append] at hbytes
  rw [mtapi_listener, if_pos hcmd, taskName_received l q hzero hdata,
    start_data_size l q task_name hdata, (List.append_inj hbytes (read_length ..)).1]
  dsimp only
  cases start_local_task t (lookedUp task_name input_data) input_data <;> rfl

end Start

/-! ## The local start -/

section LocalStart

variable {t t' : Tables ι} {task_name : CString} {input_data : Bytes}

/-- The search for a name. -/
theorem get_task_impl_idx_cases (t : Tables ι) (task_name : CString) :
    (get_task_impl_idx t task_name = none ∧ ¬ Searchable t task_name) ∨
    (get_task_impl_idx t task_name = some none ∧ Searchable t task_name ∧
      ¬ ∃ i < MTAPI_MAX_TASKS, (t.task_impls i).name = some task_name) ∨
    ∃ i, get_task_impl_idx t task_name = some (some i) ∧ Searchable t task_name ∧
      i < MTAPI_MAX_TASKS ∧ (t.task_impls i).name = some task_name := by
  cases hsearch : search MTAPI_MAX_TASKS (fun i =>
      decide ((t.task_impls i).name = none) ||
        decide ((t.task_impls i).name = some task_name)) with
  | none =>
    have hidx : get_task_impl_idx t task_name = some none := by rw [get_task_impl_idx, hsearch]
    rw [search_eq_none] at hsearch
    refine .inr (.inl ⟨hidx, ?_, ?_⟩)
    · intro i hi hempty
      simpa [hempty] using hsearch i hi
    · rintro ⟨i, hi, hname⟩
      simpa [hname] using hsearch i hi
  | some i =>
    have hidx : get_task_impl_idx t task_name =
        if (t.task_impls i).name = none then none else some (some i) := by
      rw [get_task_impl_idx, hsearch]
    rw [search_eq_some] at hsearch
    obtain ⟨hi, hstop, hbefore⟩ := hsearch
    by_cases hempty : (t.task_impls i).name = none
    · refine .inl ⟨by rw [hidx, if_pos hempty], fun hsearchable => ?_⟩
      obtain ⟨j, hj, hname⟩ := hsearchable i hi hempty
      simpa [hname] using hbefore j hj
    · have hname : (t.task_impls i).name = some task_name := by simpa [hempty] using hstop
      refine .inr (.inr ⟨i, by rw [hidx, if_neg hempty], ?_, hi, hname⟩)
      intro j hj hjempty
      -- an empty entry is behind the one that was found
      have hij : ¬ j < i := fun hlt => by simpa [hjempty] using hbefore j hlt
      have hne : i ≠ j := fun heq => hempty (heq ▸ hjempty)
      exact ⟨i, by omega, hname⟩

/-- A start in an instance of the table. -/
theorem addInstance_started {task_idx : ℕ} (hroom : t.task_instance_count < MTAPI_MAX_INSTANCES)
    (hidx : task_idx < MTAPI_MAX_TASKS) (hname : (t.task_impls task_idx).name = some task_name) :
    Started t (addInstance t task_idx input_data) task_name input_data where
  room := hroom
  impl := ⟨task_idx, hidx, hname, by rw [addInstance_new]; rfl⟩
  data := by rw [addInstance_new]; rfl
  size := by rw [addInstance_new]; rfl
  counted := rfl

/-- The handle that is returned for a start is not NULL. -/
theorem addInstance_handle (h : Instances t) (task_idx : ℕ) (input_data : Bytes) :
    ∃ task, ((addInstance t task_idx input_data).task_instances 0).handle = some task := by
  have hnew := h.addInstance task_idx input_data
  obtain ⟨id, -, hhandle⟩ := hnew.used 0 (Nat.succ_pos _)
  exact ⟨_, hhandle⟩

end LocalStart

/-! ## Replies -/

section Replies

variable (l : Locals) {stack : Memory} {reply : listener_reply_t} {task : mtapi_task_descriptor_t}
  {n : ℕ} {data : Bytes}

theorem fillReply_inside :
    (fillReply stack reply task n data).inside = true ↔
      data.length ≤ MTAPI_MAX_RETURN_DATA_SIZE := by
  simp only [fillReply, Obj.store_inside, Obj.storeWord_inside, descriptorBytes_length]
  simp only [REPLY, REPLY_TASK, REPLY_DATA_SIZE, REPLY_DATA, SIZEOF_REPLY_eq,
    MTAPI_MAX_RETURN_DATA_SIZE_eq]
  constructor
  · rintro ⟨-, hempty | hdata⟩
    · rw [hempty]
      exact Nat.zero_le _
    · omega
  · intro hdata
    exact ⟨⟨⟨⟨trivial, by omega⟩, .inr (by omega)⟩, by omega⟩, .inr (by omega)⟩

theorem replyKind_fillReply : replyKind (fillReply stack reply task n data).mem = reply := by
  have hword : (fillReply stack reply task n data).mem.word REPLY = replyCode reply := by
    simp only [fillReply, Obj.store_mem, Obj.storeWord_mem]
    rw [word_write_apart (.inl (by decide)), word_writeWord_apart (by decide),
      word_write_apart (.inl (by decide)), word_writeWord_self]
    cases reply <;> decide
  rw [replyKind, hword]
  cases reply <;> rfl

theorem replyKind_received (o : Obj) : replyKind (receivedReply l o) = replyKind o.mem := by
  rw [replyKind, receivedReply, word_overlay (by decide), replyKind]

/-- **A reply is read back**, its size and its data. -/
theorem fillReply_data (stack : Memory) (reply : listener_reply_t)
    (task : mtapi_task_descriptor_t) (hn : n ≤ data.length)
    (hdata : data.length ≤ MTAPI_MAX_RETURN_DATA_SIZE) :
    (receivedReply l (fillReply stack reply task n data)).word REPLY_DATA_SIZE = n ∧
      (receivedReply l (fillReply stack reply task n data)).read REPLY_DATA n = data.take n := by
  rw [MTAPI_MAX_RETURN_DATA_SIZE_eq] at hdata
  constructor
  · rw [receivedReply, word_overlay (by decide)]
    simp only [fillReply, Obj.store_mem, Obj.storeWord_mem]
    rw [word_write_apart (.inl (by decide)), word_writeWord_self (by omega)]
  · rw [receivedReply, read_overlay (by rw [REPLY_DATA, SIZEOF_REPLY_eq]; omega)]
    simp only [fillReply, Obj.store_mem, Obj.storeWord_mem]
    exact read_write_part (k := 0) (by simpa using hn)

/-- **The bytes say what the messages say**: a wait reports what it reports for the reply of
`Mtapi.send_remote_wait_response`. -/
theorem wait_response_refines (t : Tables ι) (cmd : Memory) {w : Waited}
    (hsize : w.return_data.length = w.return_data_size)
    (hdata : w.return_data_size ≤ MTAPI_MAX_RETURN_DATA_SIZE) :
    remoteResult (readReply (receivedReply l (send_remote_wait_response t cmd stack w).reply)) =
      remoteResult (Mtapi.send_remote_wait_response t
        ⟨cmd.word CMD_FROM_DOMAIN, cmd.word CMD_FROM_NODE, descriptorAt cmd CMD_DATA⟩ w) := by
  by_cases hstatus : w.status = MTAPI_SUCCESS
  · have hread := fillReply_data l stack MTAPI_REPLY_ACK
      ⟨t.the_domain, t.the_listener_node, (descriptorAt cmd CMD_DATA).task⟩ hsize.ge
      (hsize.trans_le hdata)
    simp only [send_remote_wait_response, Mtapi.send_remote_wait_response, if_pos hstatus, answerTo,
      readReply, remoteResult, replyKind_received, replyKind_fillReply, hread.1, hread.2,
      List.take_take, min_self]
  · simp only [send_remote_wait_response, Mtapi.send_remote_wait_response, if_neg hstatus, answerTo,
      readReply, remoteResult, replyKind_received, replyKind_fillReply]

end Replies

/-! ## Starting a task -/

section StartRight

variable {l : Locals} {q : Requester} {t : Tables ι} {task_name : CString} {input_data : Bytes}

/-- The answer to a command that was filled in right. -/
theorem start_answered_iff (h : Instances t) (hzero : (0 : UInt8) ∉ task_name)
    (hdata : input_data.length < MTAPI_MAX_INPUT_DATA_SIZE)
    (hname : lookedUp task_name input_data = task_name) :
    (∃ t' answer,
      mtapi_listener t (receivedCmd l (start_remote_task q l.cmd task_name input_data)) l.reply =
        some (t', some answer) ∧ Answered q t t' task_name input_data answer) ↔
      Searchable t task_name ∧ ((∃ i < MTAPI_MAX_TASKS, (t.task_impls i).name = some task_name) →
        t.task_instance_count < MTAPI_MAX_INSTANCES) := by
  have hdomain : (receivedCmd l (start_remote_task q l.cmd task_name input_data)).word
      CMD_FROM_DOMAIN = q.the_domain.toNat := by
    rw [start_word l q task_name input_data (by decide), cmdHeader_domain]
  have hnode : (receivedCmd l (start_remote_task q l.cmd task_name input_data)).word
      CMD_FROM_NODE = q.the_requester_node.toNat := by
    rw [start_word l q task_name input_data (by decide), cmdHeader_node]
  rw [listener_start l q t hzero hdata, hname]
  generalize receivedCmd l (start_remote_task q l.cmd task_name input_data) = cmd at hdomain hnode ⊢
  rcases get_task_impl_idx_cases t task_name with
    ⟨hidx, hnot⟩ | ⟨hidx, hsearchable, hmissing⟩ | ⟨i, hidx, hsearchable, hi, hfound⟩
  · -- NULL is dereferenced
    rw [start_local_task, hidx]
    constructor
    · rintro ⟨t', answer, hnone, -⟩
      cases hnone
    · rintro ⟨hsearchable, -⟩
      exact absurd hsearchable hnot
  · -- the table is full of other names
    rw [start_local_task, hidx]
    refine ⟨fun _ => ⟨hsearchable, fun hfound => absurd hfound hmissing⟩, fun _ => ?_⟩
    refine ⟨t, _, rfl, hdomain, hnode, ?_, ?_, fun _ => rfl⟩
    · exact fillReply_inside.mpr (by decide)
    · intro hack
      simp only [send_remote_start_response, answerTo, replyKind_fillReply] at hack
      cases hack
  · obtain ⟨task, hhandle⟩ := addInstance_handle h i input_data
    simp only [start_local_task, hidx, hhandle, Option.map_some]
    constructor
    · rintro ⟨t', answer, heq, hanswered⟩
      cases heq
      refine ⟨hsearchable, fun _ => (hanswered.started ?_).room⟩
      simp only [send_remote_start_response, answerTo, replyKind_fillReply]
    · rintro ⟨-, hroom⟩
      refine ⟨_, _, rfl, hdomain, hnode, ?_, ?_, ?_⟩
      · exact fillReply_inside.mpr (by decide)
      · intro _
        exact addInstance_started (hroom ⟨i, hi, hfound⟩) hi hfound
      · intro hnack
        simp only [send_remote_start_response, answerTo, replyKind_fillReply] at hnack
        cases hnack

/-- **Starting a task** is right exactly where the command fits and the search can be made. -/
theorem start_right_iff (h : Instances t) (hzero : (0 : UInt8) ∉ task_name) :
    StartRight l q t task_name input_data ↔ StartFits t task_name input_data := by
  constructor
  · intro hright
    obtain ⟨hname, hdata⟩ := (start_inside l q task_name input_data).mp hright.inside
    have hlooked : lookedUp task_name input_data = task_name :=
      Option.some.inj ((taskName_received l q hzero hdata).symm.trans hright.looked_up)
    obtain ⟨hsearchable, hroom⟩ :=
      (start_answered_iff h hzero hdata hlooked).mp hright.answered
    exact ⟨hdata, hname, lookedUp_eq_iff.mp hlooked, hsearchable, hroom⟩
  · intro hfits
    have hlooked := lookedUp_eq_iff.mpr hfits.name_kept
    refine ⟨(start_inside l q task_name input_data).mpr ⟨hfits.name_fits, hfits.data_fits⟩, ?_, ?_⟩
    · rw [taskName_received l q hzero hfits.data_fits, hlooked]
    · exact (start_answered_iff h hzero hfits.data_fits hlooked).mpr
        ⟨hfits.searchable, hfits.room⟩

end StartRight

/-! ## Waiting for a task -/

section WaitRight

variable {l : Locals} {q : Requester} {t t' : Tables ι} {e : Exit}

/-- An exit stores the value in the instance that the wait finds. -/
theorem exit_stored {task : mtapi_task_handle_t}
    (h : mtapi_task_exit t task e = some (t', MTAPI_SUCCESS)) :
    e.return_data.length ≤ MTAPI_MAX_RETURN_DATA_SIZE ∧
      ∃ instance_idx, get_task_instance_idx t' task = some (some instance_idx) ∧
        waitResult (t'.task_instances instance_idx) =
          ⟨MTAPI_SUCCESS, e.return_data, e.return_data.length, MTAPI_TASK_SUCCESS⟩ := by
  unfold mtapi_task_exit at h
  split at h
  · cases h
  · cases h
  · rename_i instance_idx hidx
    split at h
    · cases h
    · rename_i hsize
      cases h
      refine ⟨by omega, instance_idx, ?_, ?_⟩
      · rw [← hidx]
        have hhandle (i : ℕ) : ((storeReturn t instance_idx e).task_instances i).handle =
            (t.task_instances i).handle := by
          by_cases hi : i = instance_idx
          · subst hi
            simp [storeReturn, setReturn]
          · simp [storeReturn, hi]
        simp only [get_task_instance_idx, hhandle]
      · simp [waitResult, storeReturn, setReturn]

theorem wait_inside (task : mtapi_task_descriptor_t) :
    (wait_remote_task q l.cmd task).inside = true := by
  simp only [wait_remote_task, copyName, Obj.store_inside, Obj.storeWord_inside, cmdHeader_inside,
    descriptorBytes_length, List.nil_append, List.length_singleton]
  exact ⟨⟨⟨trivial, .inr (by decide)⟩, by decide⟩, .inr (by decide)⟩

theorem wait_word {task : mtapi_task_descriptor_t} {off : ℕ} (h : off + 4 ≤ CMD_DATA_SIZE) :
    (receivedCmd l (wait_remote_task q l.cmd task)).word off =
      (cmdHeader q l.cmd MTAPI_CMD_WAIT_TASK).mem.word off := by
  rw [receivedCmd, word_overlay (h.trans (by decide))]
  simp only [wait_remote_task, copyName, Obj.store_mem, Obj.storeWord_mem, writeWord]
  rw [word_header h (by decide), word_header h (le_refl _), word_header h (by decide)]

theorem wait_descriptor (task : Descriptor) :
    descriptorAt (receivedCmd l (wait_remote_task q l.cmd task.val)) CMD_DATA = task.val := by
  rw [descriptorAt, receivedCmd, word_overlay (by decide), word_overlay (by decide),
    word_overlay (by decide)]
  exact descriptorAt_write task

/-- **Waiting for a task** that has exited is right. -/
theorem wait_right {task : Descriptor}
    (h : mtapi_task_exit t (some task.val) e = some (t', MTAPI_SUCCESS)) :
    WaitRight l q t' task.val e := by
  obtain ⟨hsize, instance_idx, hidx, hresult⟩ := exit_stored h
  have hcmd : (receivedCmd l (wait_remote_task q l.cmd task.val)).word CMD = MTAPI_CMD_WAIT_TASK :=
    (wait_word (by decide)).trans (cmdHeader_cmd q l.cmd (by decide))
  refine ⟨wait_inside task.val,
    send_remote_wait_response t' (receivedCmd l (wait_remote_task q l.cmd task.val)) l.reply
      (waitResult (t'.task_instances instance_idx)), ?_, ?_, ?_, ?_, ?_⟩
  · rw [mtapi_listener, if_neg (by rw [hcmd]; decide), if_pos hcmd, wait_descriptor, hidx]
  · exact (wait_word (by decide)).trans (cmdHeader_domain q l.cmd _)
  · exact (wait_word (by decide)).trans (cmdHeader_node q l.cmd _)
  · rw [hresult]
    exact fillReply_inside.mpr hsize
  · rw [hresult, wait_response_refines l t' _ rfl hsize]
    simp [Mtapi.send_remote_wait_response, remoteResult]

end WaitRight

/-! ## All exchanges -/

/-- **An exchange is right exactly if it fits.** -/
theorem remote_right_iff (x : Exchange ι) : Right x ↔ Fits x := by
  cases x with
  | start l q node task_name input_data => exact start_right_iff node.instances task_name.property
  | wait l q node task e => exact ⟨fun _ => trivial, fun _ t h => wait_right h⟩
  | startReply t domain node task_name input_data reply =>
    refine ⟨fun _ => trivial, fun _ hnack hremote => ?_⟩
    have hnull : startResult reply = none := if_pos hnack
    refine ⟨⟨none, createStatus none⟩, ?_, by decide⟩
    rw [mtapi_create_task, hnull, if_neg hremote]
    split
    · rfl
    · split <;> rfl
  | waitReply reply =>
    constructor
    · intro hright hnack
      refine hright hnack ?_
      simp only [remoteResult, readReply, hnack]
    · exact fun hfits hnack => absurd hnack hfits
  | shutdownReply reply =>
    constructor
    · intro hright hnack
      refine hright hnack ?_
      rw [shutdownStatus, hnack]
    · exact fun hfits hnack => absurd hnack hfits

/-! ## The largest input -/

/-- A node with one implementation, of the name "t". -/
def registeredNode : RemoteNode Unit where
  tables := fillImpl ( mtapi_initialize 1 2) [116] ()
  instances :=
    have h : Instances ( mtapi_initialize 1 2 : Tables Unit) := mtapi_initialize_instances 1 2
    ⟨h.used, h.empty, h.distinct⟩

/-- Data of the largest size that is accepted. -/
def largestInput : Input := ⟨List.replicate MTAPI_MAX_INPUT_DATA_SIZE 65, by simp⟩

/-- **The zero behind the largest input** is written behind the command. -/
theorem largest_input_overruns : ¬ ∀ x : Exchange Unit, Right x := by
  intro hall
  have hright : StartRight ⟨fun _ => 0, fun _ => 0, fun _ => 0, fun _ => 0⟩ ⟨1, 3⟩
      registeredNode.tables [116] largestInput.val :=
    hall (.start _ _ registeredNode ⟨[116], by decide⟩ largestInput)
  have hdata := ((start_inside _ _ _ _).mp hright.inside).2
  rw [largestInput, List.length_replicate] at hdata
  exact Nat.lt_irrefl _ hdata

end MxApi.Mtapi.Remote
