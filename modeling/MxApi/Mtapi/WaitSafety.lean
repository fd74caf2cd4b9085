/-
A wait delivers the result of its own task.

The invariant says of every place where a task is on the way which instance it
is: a thread or a listener in `mthread_wait` holds the index that its descriptor
denotes, a command lies at the node of its descriptor, and a reply carries what
the task of its descriptor passed to its last successful exit, which cannot
change any more since the task's function has returned ([`WaitInv`]).

The code leaves four things unasked: whether a handle was found, what status the
task exited with and whether it exited at all, and whether a reply answers the
command that the thread has sent. The runs in which they do not matter are the
good ones ([`goodSysCall`]).
-/
import MxApi.Lib.Run
import MxApi.Mtapi.Wait

set_option autoImplicit false

namespace MxApi.Mtapi

open Lib mtapi_status_t mtapi_task_status_t listener_reply_t

variable {ι τ : Type*}

/-! ## What is wanted -/

/-- The wait reports an error, or the bytes, the size and the status of the task's
last successful exit. -/
def WaitEvent.Ok (w : WaitEvent) : Prop :=
  w.result.status = MTAPI_SUCCESS →
    ∃ e : Exit, w.last = some e ∧ w.result.return_data = e.return_data ∧
      w.result.return_data_size = e.return_data.length ∧
      w.result.task_status = e.task_status

/-- An exit for no task of the node reports an error. -/
def ExitEvent.Ok (x : ExitEvent) : Prop :=
  x.denotes = false → x.status ≠ MTAPI_SUCCESS

structure WaitsOk (s : System ι τ) : Prop where
  noBadRead : s.badRead = false
  waits : ∀ w ∈ s.waits, w.Ok
  exited : ∀ x ∈ s.exited, x.Ok

/-- The task has exited, and successfully. -/
def ExitedWell (s : System ι τ) (n : Node) (k : ℕ) : Prop :=
  ∃ return_data, s.exits n k = some ⟨return_data, MTAPI_TASK_SUCCESS⟩

/-- There is room for a start. A handle that is searched for denotes a task of the
node, or is searched for by an exit in a full table. A task that was waited for
has exited successfully. The reply that a thread receives is for the task that it
waits for. -/
def goodSysCall (home : τ → Node) (s : System ι τ) : SysCall ι τ → Prop
  | .start n _ _ => (s.tables n).task_instance_count < MTAPI_MAX_INSTANCES
  | .exit n task _ => ∃ d, task = some d ∧
      ((instanceOf s n d).isSome = true ∨
        MTAPI_MAX_INSTANCES ≤ (s.tables n).task_instance_count)
  | .taskReturns _ _ => True
  | .wait t task => ∃ d, task = some d ∧
      ((d.domain, d.node) = home t → (instanceOf s (home t) d).isSome = true)
  | .joined t => ∀ d k, s.threads t = .joining d k → ExitedWell s (home t) k
  | .received t => ∀ d reply rest, s.threads t = .remote d →
      s.replies ((home t).1, (home t).2 + 1) = reply :: rest → reply.task = d
  | .listen n => ∀ cmd rest, s.commands n = cmd :: rest →
      (instanceOf s n cmd.data).isSome = true
  | .listenerJoined n => ∀ cmd k, s.listener n = some (cmd, k) → ExitedWell s n k

/-! ## The invariant -/

/-- The tables of a node are numbered without gaps and belong to it. -/
structure NodeOk (t : Tables ι) (n : Node) : Prop where
  instances : Instances t
  domain : t.the_domain = n.1
  node : t.the_listener_node = n.2
  room : t.task_instance_count ≤ MTAPI_MAX_INSTANCES

/-- The entry holds what the task passed to its last successful exit, if it has
made one. -/
def Returned (entry : local_task_descriptor_t) : Option Exit → Prop
  | none => entry.return_data = none ∧ entry.return_data_size = 0
  | some e => entry.return_data = some e.return_data ∧
      entry.return_data_size = e.return_data.length

/-- The reply carries the result of the task of its descriptor. -/
def ReplyOk (s : System ι τ) (r : mtapi_remote_reply_t) : Prop :=
  ∃ k return_data, Denotes (s.tables (r.task.domain, r.task.node)) r.task k ∧
    s.exits (r.task.domain, r.task.node) k = some ⟨return_data, MTAPI_TASK_SUCCESS⟩ ∧
    s.returned (r.task.domain, r.task.node) k = true ∧ r.reply = MTAPI_REPLY_ACK ∧
    r.data = return_data ∧ r.data_size = return_data.length

structure WaitInv (home : τ → Node) (s : System ι τ) : Prop where
  nodes : ∀ n, NodeOk (s.tables n) n
  entries : ∀ n k, Returned ((s.tables n).task_instances k) (s.exits n k)
  threads : ∀ t d k, s.threads t = .joining d k →
    (d.domain, d.node) = home t ∧ Denotes (s.tables (home t)) d k
  listeners : ∀ n cmd k, s.listener n = some (cmd, k) →
    (cmd.data.domain, cmd.data.node) = n ∧ Denotes (s.tables n) cmd.data k
  commands : ∀ n, ∀ cmd ∈ s.commands n, (cmd.data.domain, cmd.data.node) = n
  replies : ∀ endpoint, ∀ r ∈ s.replies endpoint, ReplyOk s r
  ok : WaitsOk s

section

variable {home : τ → Node} {s s' : System ι τ} {n : Node} {d : mtapi_task_descriptor_t}
  {k : ℕ}

/-! ## The instance of a descriptor -/

theorem NodeOk.denotes_lt (h : NodeOk (s.tables n) n) (hk : Denotes (s.tables n) d k) :
    k < MTAPI_MAX_TASKS :=
  hk.1.trans_le h.room

/-- The search for the handle finds the instance that it denotes. -/
theorem NodeOk.instanceOf_iff (h : NodeOk (s.tables n) n) :
    instanceOf s n d = some k ↔ Denotes (s.tables n) d k := by
  constructor
  · intro hfound
    have hhandle := (search_some hfound).2
    simp only [decide_eq_true_eq] at hhandle
    refine ⟨?_, hhandle⟩
    by_contra hlt
    rw [h.instances.empty k (by omega)] at hhandle
    cases hhandle
  · intro hk
    rw [instanceOf, search_eq_some]
    refine ⟨h.denotes_lt hk, by simp [hk.2], fun j hj => ?_⟩
    rw [decide_eq_false_iff_not]
    intro heq
    have hjk := h.instances.denotes_unique ⟨hj.trans hk.1, heq⟩ hk
    omega

theorem NodeOk.instanceOf_none (h : NodeOk (s.tables n) n) (hnone : instanceOf s n d = none) :
    ∀ k, ¬ Denotes (s.tables n) d k := by
  intro k hk
  rw [h.instanceOf_iff.mpr hk] at hnone
  cases hnone

/-- `lastExit` is what the instance of the descriptor has exited with. -/
theorem lastExit_eq (h : NodeOk (s.tables (d.domain, d.node)) (d.domain, d.node))
    (hk : Denotes (s.tables (d.domain, d.node)) d k) :
    lastExit s d = s.exits (d.domain, d.node) k := by
  rw [lastExit, h.instanceOf_iff.mpr hk]
  rfl

/-! ## The results -/

/-- The local copy is the result of the exit. -/
theorem waitResult_eq {entry : local_task_descriptor_t} {e : Exit}
    (h : Returned entry (some e)) :
    waitResult entry =
      ⟨MTAPI_SUCCESS, e.return_data, e.return_data.length, MTAPI_TASK_SUCCESS⟩ := by
  obtain ⟨hdata, hsize⟩ := h
  rw [waitResult, hdata, hsize]
  simp

/-- A wait that reports what its task has exited with is right if the task has
exited successfully. -/
theorem report_ok (hok : WaitsOk s) {result : Waited}
    (hresult : result.status = MTAPI_SUCCESS → ∃ return_data,
      lastExit s d = some ⟨return_data, MTAPI_TASK_SUCCESS⟩ ∧
      result = ⟨MTAPI_SUCCESS, return_data, return_data.length, MTAPI_TASK_SUCCESS⟩) :
    ∀ w ∈ (report s d result).waits, w.Ok := by
  intro w hw
  rcases List.mem_cons.mp hw with rfl | hw
  · intro hstatus
    obtain ⟨return_data, hlast, hresult⟩ := hresult hstatus
    refine ⟨_, hlast, ?_⟩
    rw [hresult]
    exact ⟨rfl, rfl, rfl⟩
  · exact hok.waits w hw

/-! ## Changes of the tables -/

/-- The tables are changed so that every instance stays where it is. -/
structure Keeps (s s' : System ι τ) : Prop where
  denotes : ∀ n d k, Denotes (s.tables n) d k → Denotes (s'.tables n) d k
  exits : ∀ n k, s.returned n k = true → s'.exits n k = s.exits n k
  returned : ∀ n k, s.returned n k = true → s'.returned n k = true

/-- A reply stays right. -/
theorem ReplyOk.keep {r : mtapi_remote_reply_t} (h : ReplyOk s r) (hkeep : Keeps s s') :
    ReplyOk s' r := by
  obtain ⟨k, return_data, hk, hexit, hret, hrest⟩ := h
  refine ⟨k, return_data, hkeep.denotes _ _ _ hk, ?_, hkeep.returned _ _ hret, hrest⟩
  rw [hkeep.exits _ _ hret, hexit]

/-- A step that leaves the threads, the listeners, the messages and the history
alone keeps the invariant if it keeps the tables right. -/
theorem WaitInv.tables (h : WaitInv home s) (hkeep : Keeps s s')
    (hnodes : ∀ n, NodeOk (s'.tables n) n)
    (hentries : ∀ n k, Returned ((s'.tables n).task_instances k) (s'.exits n k))
    (hthreads : s'.threads = s.threads) (hlistener : s'.listener = s.listener)
    (hcommands : s'.commands = s.commands) (hreplies : s'.replies = s.replies)
    (hok : WaitsOk s') : WaitInv home s' := by
  refine ⟨hnodes, hentries, fun t d k ht => ?_, fun n cmd k hn => ?_, fun n cmd hcmd => ?_,
    fun endpoint r hr => ?_, hok⟩
  · rw [hthreads] at ht
    obtain ⟨hhome, hk⟩ := h.threads t d k ht
    exact ⟨hhome, hkeep.denotes _ _ _ hk⟩
  · rw [hlistener] at hn
    obtain ⟨hnode, hk⟩ := h.listeners n cmd k hn
    exact ⟨hnode, hkeep.denotes _ _ _ hk⟩
  · rw [hcommands] at hcmd
    exact h.commands n cmd hcmd
  · rw [hreplies] at hr
    exact (h.replies endpoint r hr).keep hkeep

/-! ## Tasks -/

/-- **A start.** The new instance takes an empty entry with a new identifier. -/
theorem WaitInv.start (h : WaitInv home s) {task_name : CString} {input_data : Bytes}
    (hroom : (s.tables n).task_instance_count < MTAPI_MAX_INSTANCES)
    (hstep : startStep s n task_name input_data = some s') : WaitInv home s' := by
  rw [startStep] at hstep
  split at hstep
  · rename_i task_idx _
    obtain rfl := Option.some.inj hstep
    have hold : ∀ m k, ((setTables s n (addInstance (s.tables n) task_idx
        input_data)).tables m).task_instances k = (s.tables m).task_instances k ∨
        (m = n ∧ k = (s.tables n).task_instance_count) := by
      intro m k
      by_cases hm : m = n
      · subst hm
        by_cases hk : k = (s.tables m).task_instance_count
        · exact .inr ⟨rfl, hk⟩
        · left
          simp only [setTables, Function.update_self]
          exact addInstance_old _ _ _ hk
      · left
        simp only [setTables, Function.update_of_ne hm]
    refine h.tables ⟨fun m d k hk => ?_, fun _ _ _ => rfl, fun _ _ hret => hret⟩
      (fun m => ?_) (fun m k => ?_) rfl rfl rfl rfl
      ⟨h.ok.noBadRead, h.ok.waits, h.ok.exited⟩
    · rcases hold m k with heq | ⟨rfl, rfl⟩
      · refine ⟨?_, by rw [heq]; exact hk.2⟩
        by_cases hm : m = n
        · subst hm
          have hlt := hk.1
          simp only [setTables, Function.update_self]
          show k < (s.tables m).task_instance_count + 1
          omega
        · simp only [setTables, Function.update_of_ne hm]
          exact hk.1
      · exact absurd hk.1 (lt_irrefl _)
    · by_cases hm : m = n
      · subst hm
        have hnode := h.nodes m
        simp only [setTables, Function.update_self]
        exact ⟨hnode.instances.addInstance _ _, hnode.domain, hnode.node, hroom⟩
      · simp only [setTables, Function.update_of_ne hm]
        exact h.nodes m
    · rcases hold m k with heq | ⟨rfl, rfl⟩
      · rw [heq]
        exact h.entries m k
      · have hnew := addInstance_new (s.tables m) task_idx input_data
        simp only [setTables, Function.update_self]
        rw [hnew]
        exact h.entries m _
  · cases hstep

/-- **A return.** -/
theorem WaitInv.taskReturns (h : WaitInv home s)
    (hstep : taskReturnsStep s n k = some s') : WaitInv home s' := by
  rw [taskReturnsStep] at hstep
  split at hstep
  · obtain rfl := Option.some.inj hstep
    refine h.tables ⟨fun _ _ _ hk => hk, fun _ _ _ => rfl, fun m j hret => ?_⟩ h.nodes
      h.entries rfl rfl rfl rfl ⟨h.ok.noBadRead, h.ok.waits, h.ok.exited⟩
    by_cases hm : m = n
    · subst hm
      simp only [Function.update_self]
      by_cases hj : j = k
      · rw [hj, Function.update_self]
      · rw [Function.update_of_ne hj]
        exact hret
    · simp only [Function.update_of_ne hm]
      exact hret
  · cases hstep

/-- What an exit does with the tables. -/
inductive Exited (s : System ι τ) (n : Node) (e : Exit) (found : Option ℕ) :
    Tables ι → mtapi_status_t → Prop
  -- no task of the node, in a full table
  | bad (hnone : found = none) : Exited s n e found (s.tables n) MTAPI_EBAD_HANDLE
  | long (k : ℕ) (hk : found = some k) : Exited s n e found (s.tables n) MTAPI_EDATA_SIZE
  | stored (k : ℕ) (hk : found = some k) :
      Exited s n e found (storeReturn (s.tables n) k e) MTAPI_SUCCESS

theorem NodeOk.exited (h : NodeOk (s.tables n) n) {e : Exit}
    (hgood : (instanceOf s n d).isSome = true ∨
      MTAPI_MAX_INSTANCES ≤ (s.tables n).task_instance_count) :
    ∃ t status, mtapi_task_exit (s.tables n) (some d) e = some (t, status) ∧
      Exited s n e (instanceOf s n d) t status := by
  cases hfound : instanceOf s n d with
  | none =>
    have hfull : ¬ (s.tables n).task_instance_count < MTAPI_MAX_TASKS := by
      rcases hgood with hsome | hfull
      · rw [hfound] at hsome
        cases hsome
      · exact Nat.not_lt.mpr hfull
    have hidx := h.instances.idx_of_not_denotes fun k _ => h.instanceOf_none hfound k
    rw [if_neg hfull] at hidx
    refine ⟨s.tables n, MTAPI_EBAD_HANDLE, ?_, .bad rfl⟩
    rw [mtapi_task_exit, hidx]
  | some k =>
    have hk := h.instanceOf_iff.mp hfound
    have hidx := h.instances.idx_of_denotes hk (h.denotes_lt hk)
    rw [mtapi_task_exit, hidx]
    simp only
    split
    · exact ⟨_, _, rfl, .long k rfl⟩
    · exact ⟨_, _, rfl, .stored k rfl⟩

/-- An exit keeps the instances where they are. -/
theorem storeReturn_handle (t : Tables ι) (e : Exit) (j : ℕ) :
    ((storeReturn t k e).task_instances j).handle = (t.task_instances j).handle := by
  simp only [storeReturn, Function.update_apply]
  split
  · rename_i hj
    rw [hj]
    rfl
  · rfl

theorem Instances.storeReturn {t : Tables ι} (h : Instances t) (e : Exit) :
    Instances (storeReturn t k e) := by
  refine ⟨fun j hj => ?_, fun j hj => ?_, fun i j hi hj heq => ?_⟩
  · rw [storeReturn_handle]
    exact h.used j hj
  · rw [storeReturn_handle]
    exact h.empty j hj
  · rw [storeReturn_handle, storeReturn_handle] at heq
    exact h.distinct i j hi hj heq

/-- **An exit.** It is stored with its own instance, which nobody waits for any
longer than until the task's function returns. -/
theorem WaitInv.exit (h : WaitInv home s) {e : Exit} {task : mtapi_task_handle_t}
    (hgood : goodSysCall home s (.exit n task e)) (hstep : exitStep s n task e = some s') :
    WaitInv home s' ∧
      (task.bind (instanceOf s n) = none → s'.tables = s.tables ∧ s'.exits = s.exits) := by
  obtain ⟨d, rfl, hgood⟩ := hgood
  obtain ⟨t, status, hexit, hcases⟩ := (h.nodes n).exited (e := e) hgood
  have hfound : (some d).bind (instanceOf s n) = instanceOf s n d := rfl
  rw [exitStep, hfound, hexit] at hstep
  rw [hfound]
  split at hstep
  · cases hstep
  rename_i hrunning
  obtain rfl := Option.some.inj hstep
  have hsame : setTables s n (s.tables n) = s := by
    rw [setTables, Function.update_eq_self]
  cases hcases with
  | bad hnone =>
    rw [hnone]
    refine ⟨?_, fun _ => ⟨Function.update_eq_self _ _, rfl⟩⟩
    refine h.tables ⟨fun m d k hk => ?_, fun _ _ _ => rfl, fun _ _ hret => hret⟩
      (fun m => ?_) (fun m k => ?_) rfl rfl rfl rfl
      ⟨h.ok.noBadRead, h.ok.waits, fun x hx => ?_⟩
    · rw [hsame]
      exact hk
    · rw [hsame]
      exact h.nodes m
    · rw [hsame]
      exact h.entries m k
    · rcases List.mem_cons.mp hx with rfl | hx
      · intro _
        simp
      · exact h.ok.exited x hx
  | long k hk =>
    rw [hk]
    refine ⟨?_, fun hc => by cases hc⟩
    refine h.tables ⟨fun m d k hk => ?_, fun _ _ _ => rfl, fun _ _ hret => hret⟩
      (fun m => ?_) (fun m k => ?_) rfl rfl rfl rfl
      ⟨h.ok.noBadRead, h.ok.waits, fun x hx => ?_⟩
    · rw [hsame]
      exact hk
    · rw [hsame]
      exact h.nodes m
    · rw [hsame]
      exact h.entries m k
    · rcases List.mem_cons.mp hx with rfl | hx
      · intro hc
        cases hc
      · exact h.ok.exited x hx
  | stored k hk =>
    rw [hk] at hrunning ⊢
    have hrunning : s.returned n k ≠ true := hrunning
    have hexits : recordExit s n (some k) MTAPI_SUCCESS e =
        Function.update s.exits n (Function.update (s.exits n) k (some e)) := rfl
    rw [hexits]
    refine ⟨?_, fun hc => by cases hc⟩
    refine h.tables ⟨fun m d j hj => ?_, fun m j hret => ?_, fun _ _ hret => hret⟩
      (fun m => ?_) (fun m j => ?_) rfl rfl rfl rfl
      ⟨h.ok.noBadRead, h.ok.waits, fun x hx => ?_⟩
    · by_cases hm : m = n
      · subst hm
        simp only [setTables, Function.update_self]
        exact ⟨hj.1, (storeReturn_handle _ e j).trans hj.2⟩
      · simp only [setTables, Function.update_of_ne hm]
        exact hj
    · by_cases hm : m = n
      · subst hm
        have hjk : j ≠ k := by
          rintro rfl
          exact hrunning hret
        simp only [Function.update_self, Function.update_of_ne hjk]
      · simp only [Function.update_of_ne hm]
    · by_cases hm : m = n
      · subst hm
        have hnode := h.nodes m
        simp only [setTables, Function.update_self]
        exact ⟨hnode.instances.storeReturn e, hnode.domain, hnode.node, hnode.room⟩
      · simp only [setTables, Function.update_of_ne hm]
        exact h.nodes m
    · by_cases hm : m = n
      · subst hm
        simp only [setTables, storeReturn, Function.update_self]
        by_cases hjk : j = k
        · subst hjk
          simp only [Function.update_self]
          exact ⟨rfl, rfl⟩
        · simp only [Function.update_of_ne hjk]
          exact h.entries m j
      · simp only [setTables, Function.update_of_ne hm]
        exact h.entries m j
    · rcases List.mem_cons.mp hx with rfl | hx
      · intro hc
        cases hc
      · exact h.ok.exited x hx

/-! ## Waits -/

/-- A step that leaves the tables and the tasks alone. -/
theorem WaitInv.places (h : WaitInv home s) (htables : s'.tables = s.tables)
    (hreturned : s'.returned = s.returned) (hexits : s'.exits = s.exits)
    (hthreads : ∀ t d k, s'.threads t = .joining d k →
      (d.domain, d.node) = home t ∧ Denotes (s.tables (home t)) d k)
    (hlisteners : ∀ n cmd k, s'.listener n = some (cmd, k) →
      (cmd.data.domain, cmd.data.node) = n ∧ Denotes (s.tables n) cmd.data k)
    (hcommands : ∀ n, ∀ cmd ∈ s'.commands n, (cmd.data.domain, cmd.data.node) = n)
    (hreplies : ∀ endpoint, ∀ r ∈ s'.replies endpoint, ReplyOk s r) (hok : WaitsOk s') :
    WaitInv home s' := by
  have hkeep : Keeps s s' := by
    refine ⟨fun n d k hk => ?_, fun n k _ => ?_, fun n k hret => ?_⟩
    · rw [htables]
      exact hk
    · rw [hexits]
    · rw [hreturned]
      exact hret
  refine ⟨?_, ?_, ?_, ?_, hcommands, ?_, hok⟩
  · rw [htables]
    exact h.nodes
  · rw [htables, hexits]
    exact h.entries
  · rw [htables]
    exact hthreads
  · rw [htables]
    exact hlisteners
  · exact fun endpoint r hr => (hreplies endpoint r hr).keep hkeep

end

section

variable [DecidableEq τ] {home : τ → Node} {present : Node → Bool} {s s' : System ι τ}
  {n : Node} {d : mtapi_task_descriptor_t} {k : ℕ} {t : τ}

/-- A thread moves to a place that is not `mthread_wait`, or there with the right
instance. -/
theorem WaitInv.setThread (h : WaitInv home s) {w : Waiting}
    (hw : ∀ d k, w = .joining d k →
      (d.domain, d.node) = home t ∧ Denotes (s.tables (home t)) d k) :
    ∀ u d k, (setThread s t w).threads u = .joining d k →
      (d.domain, d.node) = home u ∧ Denotes (s.tables (home u)) d k := by
  intro u d k hu
  by_cases hut : u = t
  · subst hut
    simp only [Mtapi.setThread, Function.update_self] at hu
    exact hw d k hu
  · simp only [Mtapi.setThread, Function.update_of_ne hut] at hu
    exact h.threads u d k hu

/-- **The beginning of a wait.** -/
theorem WaitInv.wait (h : WaitInv home s) {task : mtapi_task_handle_t}
    (hgood : goodSysCall home s (.wait t task))
    (hstep : waitStep home present s t task = some s') : WaitInv home s' := by
  obtain ⟨d, rfl, hgood⟩ := hgood
  have hnode := h.nodes (home t)
  rw [waitStep] at hstep
  split at hstep
  swap
  · cases hstep
  simp only at hstep
  split at hstep
  · -- a handle of this node
    rename_i hlocal
    have hhome : (d.domain, d.node) = home t := by
      rw [hlocal.1, hlocal.2, hnode.domain, hnode.node]
    obtain ⟨k, hfound⟩ := Option.isSome_iff_exists.mp (hgood hhome)
    have hk := hnode.instanceOf_iff.mp hfound
    rw [hnode.instances.idx_of_denotes hk (hnode.denotes_lt hk)] at hstep
    obtain rfl := Option.some.inj hstep
    refine h.places rfl rfl rfl (h.setThread ?_) h.listeners h.commands h.replies
      ⟨h.ok.noBadRead, h.ok.waits, h.ok.exited⟩
    intro d₁ k₁ heq
    obtain ⟨rfl, rfl⟩ := Waiting.joining.inj heq
    exact ⟨hhome, hk⟩
  split at hstep
  · obtain rfl := Option.some.inj hstep
    refine h.places rfl rfl rfl (h.setThread fun _ _ hc => by cases hc) h.listeners
      (fun n cmd hcmd => ?_) h.replies ⟨h.ok.noBadRead, h.ok.waits, h.ok.exited⟩
    by_cases hn : n = (d.domain, d.node)
    · subst hn
      simp only [Function.update_self] at hcmd
      rcases List.mem_append.mp hcmd with hcmd | hcmd
      · exact h.commands _ cmd hcmd
      · rw [List.mem_singleton.mp hcmd]
    · simp only [Function.update_of_ne hn] at hcmd
      exact h.commands n cmd hcmd
  · obtain rfl := Option.some.inj hstep
    exact h.places rfl rfl rfl h.threads h.listeners h.commands h.replies
      ⟨h.ok.noBadRead, report_ok h.ok (fun hc => by cases hc), h.ok.exited⟩

/-- **The end of a local wait.** -/
theorem WaitInv.joined (h : WaitInv home s) (hgood : goodSysCall home s (.joined t))
    (hstep : joinedStep home s t = some s') : WaitInv home s' := by
  rw [joinedStep] at hstep
  split at hstep
  · rename_i d k hthread
    obtain ⟨return_data, hexit⟩ := hgood d k hthread
    obtain ⟨hhome, hk⟩ := h.threads t d k hthread
    split at hstep
    · obtain rfl := Option.some.inj hstep
      have hentry := h.entries (home t) k
      rw [hexit] at hentry
      have hlast : lastExit s d = some ⟨return_data, MTAPI_TASK_SUCCESS⟩ := by
        rw [← hhome] at hk hexit
        rw [lastExit_eq (h.nodes _) hk, hexit]
      refine h.places rfl rfl rfl (h.setThread fun _ _ hc => by cases hc) h.listeners
        h.commands h.replies ⟨h.ok.noBadRead, ?_, h.ok.exited⟩
      exact report_ok h.ok fun _ => ⟨return_data, hlast, waitResult_eq hentry⟩
    · cases hstep
  · cases hstep

/-- **A reply arrives.** -/
theorem WaitInv.received (h : WaitInv home s) (hgood : goodSysCall home s (.received t))
    (hstep : receivedStep home s t = some s') : WaitInv home s' := by
  have hnode := h.nodes (home t)
  rw [receivedStep] at hstep
  simp only [hnode.domain, hnode.node] at hstep
  split at hstep
  · rename_i d reply rest hthread hqueue
    obtain rfl := Option.some.inj hstep
    obtain rfl := hgood d reply rest hthread hqueue
    have hreply := h.replies _ reply (by rw [hqueue]; exact List.mem_cons_self)
    obtain ⟨k, return_data, hk, hexit, -, hack, hdata, hsize⟩ := hreply
    have hlast : lastExit s reply.task = some ⟨return_data, MTAPI_TASK_SUCCESS⟩ := by
      rw [lastExit_eq (h.nodes _) hk, hexit]
    have hresult : remoteResult reply =
        ⟨MTAPI_SUCCESS, return_data, return_data.length, MTAPI_TASK_SUCCESS⟩ := by
      rw [remoteResult, hack, hdata, hsize]
      simp
    refine h.places rfl rfl rfl (h.setThread fun _ _ hc => by cases hc) h.listeners
      h.commands (fun endpoint r hr => ?_) ⟨h.ok.noBadRead, ?_, h.ok.exited⟩
    · by_cases hend : endpoint = ((home t).1, (home t).2 + 1)
      · subst hend
        simp only [Function.update_self] at hr
        apply h.replies _ r
        rw [hqueue]
        exact List.mem_cons_of_mem _ hr
      · simp only [Function.update_of_ne hend] at hr
        exact h.replies endpoint r hr
    · exact report_ok h.ok fun _ => ⟨return_data, hlast, hresult⟩
  · cases hstep

end

/-! ## The listener -/

section

variable {home : τ → Node} {s s' : System ι τ} {n : Node}

/-- **A command is taken.** -/
theorem WaitInv.listen (h : WaitInv home s) (hgood : goodSysCall home s (.listen n))
    (hstep : listenStep s n = some s') : WaitInv home s' := by
  have hnode := h.nodes n
  rw [listenStep] at hstep
  split at hstep
  · rename_i cmd rest hfree hqueue
    obtain ⟨k, hfound⟩ := Option.isSome_iff_exists.mp (hgood cmd rest hqueue)
    have hk := hnode.instanceOf_iff.mp hfound
    simp only [hnode.instances.idx_of_denotes hk (hnode.denotes_lt hk)] at hstep
    obtain rfl := Option.some.inj hstep
    refine h.places rfl rfl rfl h.threads (fun m cmd' k' hm => ?_) (fun m cmd' hcmd => ?_)
      h.replies ⟨h.ok.noBadRead, h.ok.waits, h.ok.exited⟩
    · by_cases hmn : m = n
      · subst hmn
        simp only [Function.update_self, Option.some.injEq, Prod.mk.injEq] at hm
        obtain ⟨rfl, rfl⟩ := hm
        refine ⟨h.commands m cmd ?_, hk⟩
        rw [hqueue]
        exact List.mem_cons_self
      · simp only [Function.update_of_ne hmn] at hm
        exact h.listeners m cmd' k' hm
    · by_cases hmn : m = n
      · subst hmn
        simp only [Function.update_self] at hcmd
        apply h.commands m cmd'
        rw [hqueue]
        exact List.mem_cons_of_mem _ hcmd
      · simp only [Function.update_of_ne hmn] at hcmd
        exact h.commands m cmd' hcmd
  · cases hstep

/-- **A reply is sent.** It carries the result of the task whose function has
returned. -/
theorem WaitInv.listenerJoined (h : WaitInv home s)
    (hgood : goodSysCall home s (.listenerJoined n))
    (hstep : listenerJoinedStep s n = some s') : WaitInv home s' := by
  have hnode := h.nodes n
  rw [listenerJoinedStep] at hstep
  split at hstep
  · rename_i cmd k hbusy
    obtain ⟨return_data, hexit⟩ := hgood cmd k hbusy
    obtain ⟨hdest, hk⟩ := h.listeners n cmd k hbusy
    split at hstep
    · rename_i hret
      obtain rfl := Option.some.inj hstep
      have hentry := h.entries n k
      rw [hexit] at hentry
      have hsent : send_remote_wait_response (s.tables n) cmd
          (waitResult ((s.tables n).task_instances k)) =
            ⟨MTAPI_REPLY_ACK, cmd.data, return_data.length, return_data⟩ := by
        have htask : (⟨n.1, n.2, cmd.data.task⟩ : mtapi_task_descriptor_t) = cmd.data := by
          rw [← hdest]
        rw [send_remote_wait_response, waitResult_eq hentry, hnode.domain, hnode.node]
        simp only [if_pos, htask]
      have hnew : ReplyOk s ⟨MTAPI_REPLY_ACK, cmd.data, return_data.length, return_data⟩ := by
        refine ⟨k, return_data, ?_, ?_, ?_, rfl, rfl, rfl⟩
        · rw [hdest]
          exact hk
        · rw [hdest]
          exact hexit
        · rw [hdest]
          exact hret
      refine h.places rfl rfl rfl h.threads (fun m cmd' k' hm => ?_) h.commands
        (fun endpoint r hr => ?_) ⟨h.ok.noBadRead, h.ok.waits, h.ok.exited⟩
      · by_cases hmn : m = n
        · subst hmn
          simp only [Function.update_self] at hm
          cases hm
        · simp only [Function.update_of_ne hmn] at hm
          exact h.listeners m cmd' k' hm
      · rw [hsent] at hr
        by_cases hend : endpoint = (cmd.from_domain, cmd.from_node)
        · subst hend
          simp only [Function.update_self] at hr
          rcases List.mem_append.mp hr with hr | hr
          · exact h.replies _ r hr
          · rw [List.mem_singleton.mp hr]
            exact hnew
        · simp only [Function.update_of_ne hend] at hr
          exact h.replies endpoint r hr
    · cases hstep
  · cases hstep

end

/-! ## Runs -/

/-- The system after every node was initialised; the implementation tables may
hold anything. -/
def initialSystem (τ : Type*) (task_impls : Node → ℕ → task_impl_t ι) : System ι τ where
  tables n := { ( mtapi_initialize n.1 n.2 : Tables ι) with task_impls := task_impls n }
  returned _ _ := false
  threads _ := .idle
  listener _ := none
  commands _ := []
  replies _ := []
  exits _ _ := none
  waits := []
  exited := []
  badRead := false

theorem initialSystem_inv (home : τ → Node) (task_impls : Node → ℕ → task_impl_t ι) :
    WaitInv home (initialSystem τ task_impls) := by
  refine ⟨fun n => ⟨⟨fun k hk => ?_, fun _ _ => rfl, fun k _ hk => ?_⟩, rfl, rfl, ?_⟩,
    fun _ _ => ⟨rfl, rfl⟩, (fun _ _ _ hc => by cases hc), (fun _ _ _ hc => by cases hc),
    (fun _ _ hc => by cases hc), (fun _ _ hc => by cases hc),
    ⟨rfl, (fun _ hc => by cases hc), (fun _ hc => by cases hc)⟩⟩
  · exact absurd hk (Nat.not_lt_zero k)
  · exact absurd hk (Nat.not_lt_zero k)
  · exact Nat.zero_le _

section

variable [DecidableEq τ] {home : τ → Node} {present : Node → Bool} {s s' : System ι τ}

theorem WaitInv.step (h : WaitInv home s) {a : SysCall ι τ}
    (hstep : sysStep home present s a = some s') (hgood : goodSysCall home s a) :
    WaitInv home s' := by
  cases a with
  | start n task_name input_data => exact h.start hgood hstep
  | exit n task e => exact (h.exit hgood hstep).1
  | taskReturns n k => exact h.taskReturns hstep
  | wait t task => exact h.wait hgood hstep
  | joined t => exact h.joined hgood hstep
  | received t => exact h.received hgood hstep
  | listen n => exact h.listen hgood hstep
  | listenerJoined n => exact h.listenerJoined hgood hstep

/-- No wait changes a table. -/
theorem waitStep_tables {t : τ} {task : mtapi_task_handle_t}
    (hstep : waitStep home present s t task = some s') :
    s'.tables = s.tables ∧ s'.exits = s.exits := by
  unfold waitStep at hstep
  split at hstep
  swap
  · cases hstep
  cases task with
  | none =>
    obtain rfl := Option.some.inj hstep
    exact ⟨rfl, rfl⟩
  | some d =>
    simp only at hstep
    split at hstep
    · split at hstep
      · obtain rfl := Option.some.inj hstep
        exact ⟨rfl, rfl⟩
      · obtain rfl := Option.some.inj hstep
        exact ⟨rfl, rfl⟩
    · split at hstep
      · obtain rfl := Option.some.inj hstep
        exact ⟨rfl, rfl⟩
      · obtain rfl := Option.some.inj hstep
        exact ⟨rfl, rfl⟩

end

/-- One node with one implementation. -/
def oneImpl (_ : Node) (i : ℕ) : task_impl_t ℕ :=
  if i = 0 then ⟨some [116], some 7⟩ else ⟨none, none⟩

/-- A single thread, on the node `(0, 0)`. -/
def oneHome (_ : Unit) : Node := (0, 0)

/-- A task is started, exits with `e`, returns and is waited for. -/
def oneWait (e : Exit) : List (SysCall ℕ Unit) :=
  [.start (0, 0) [116] [], .exit (0, 0) (some ⟨0, 0, 0⟩) e, .taskReturns (0, 0) 0,
    .wait () (some ⟨0, 0, 0⟩), .joined ()]

/-- `goodSysCall`, as far as `oneWait` needs it. -/
def goodOneWait (s : System ℕ Unit) : SysCall ℕ Unit → System ℕ Unit → Bool
  | .start n _ _, _ => (s.tables n).task_instance_count < MTAPI_MAX_INSTANCES
  | .exit n (some d) _, _ => (instanceOf s n d).isSome
  | .taskReturns _ _, _ => true
  | .wait t (some d), _ => (instanceOf s (oneHome t) d).isSome
  | .joined t, _ =>
    match s.threads t with
    | .joining _ k => (s.exits (oneHome t) k).any fun e => e.task_status = MTAPI_TASK_SUCCESS
    | _ => true
  | _, _ => false

theorem goodOneWait_good (s s' : System ℕ Unit) (a : SysCall ℕ Unit)
    (h : goodOneWait s a s' = true) : goodSysCall oneHome s a := by
  match a, h with
  | .start n _ _, h => exact of_decide_eq_true (p := (s.tables n).task_instance_count < _) h
  | .exit n (some d) _, h => exact ⟨d, rfl, .inl h⟩
  | .taskReturns _ _, _ => trivial
  | .wait t (some d), h => exact ⟨d, rfl, fun _ => h⟩
  | .joined t, h =>
    intro d k hthread
    simp only [goodOneWait, hthread] at h
    cases hexit : s.exits (oneHome t) k with
    | none =>
      rw [hexit] at h
      cases h
    | some e =>
      rw [hexit] at h
      have hstatus : e.task_status = MTAPI_TASK_SUCCESS := of_decide_eq_true h
      refine ⟨e.return_data, ?_⟩
      rw [← hstatus]
      exact hexit

end MxApi.Mtapi
