/-
The barrier of `sysvr4_atomic.c`: `try_atomic_barrier_acquire`,
`atomic_barrier_release`, and the loop around them that every `sys_atomic_*`
operation with a sync object runs.

Any number of clients operate on one element of a buffer. The element starts
with an `mrapi_msg_t`; of its fields the barrier uses `valid` and `counter`, and
what lies behind the header is one value `data : D`. Each client has a sync
object of its own. One step of a client is one access to the element; what a
client does between two accesses to its own memory only belongs to the step
before.

All operations have one shape: set the mode, acquire, perform one access to the
element, release, and start over while the release fails. What distinguishes
`sys_atomic_add`, `_inc`, `_or`, `_cas` and the others is the function they
apply to the element, so an operation is a read or a write with a function.

One field of a client is not the program's: `inside` records whether the client
is between a write acquire whose compare and swap succeeded and the release
after it.
-/
import Mathlib.Logic.Function.Basic
import MxApi.Lib.Word

set_option autoImplicit false

namespace MxApi.Barrier

open Lib

/-! ## Data -/

/-- `mrapi_atomic_mode_t`. -/
inductive mrapi_atomic_mode_t
  | MRAPI_ATOMIC_WRITE
  | MRAPI_ATOMIC_READ
  | MRAPI_ATOMIC_NONE
  deriving DecidableEq, Repr

open mrapi_atomic_mode_t

/-- The mode as the boolean it is compared with and stored as: `WRITE` is 0. -/
def mrapi_atomic_mode_t.valid : mrapi_atomic_mode_t → Bool
  | MRAPI_ATOMIC_WRITE => false
  | _ => true

/-- `MCA_INFINITE` on an unsigned 32-bit timeout. -/
def MCA_INFINITE : ℕ := 2 ^ 32 - 1

/-- The element: the header's `valid` and `counter`, and the data. -/
structure mrapi_msg_t (D : Type) where
  valid : Bool
  counter : ℕ
  data : D
  deriving DecidableEq, Repr

/-- `mrapi_atomic_sync_t` but for the buffer index. -/
structure mrapi_atomic_sync_t where
  last_counter : ℕ
  hold : Bool
  override : Bool
  active : Bool
  deriving DecidableEq, Repr

/-- The sync object. -/
structure mrapi_atomic_barrier_t where
  mode : mrapi_atomic_mode_t
  xchg : Bool
  timeout : ℕ
  src : ℕ
  dest : ℕ
  sync : mrapi_atomic_sync_t
  deriving DecidableEq, Repr

/-- `sys_atomic_barrier_init`. -/
def sys_atomic_barrier_init (src dest timeout : ℕ) : mrapi_atomic_barrier_t where
  mode := MRAPI_ATOMIC_NONE
  xchg := false
  timeout := timeout
  src := src
  dest := dest
  sync := ⟨0, false, false, false⟩

/-- `sys_atomic_exchange_init`. -/
def sys_atomic_exchange_init (src dest timeout : ℕ) : mrapi_atomic_barrier_t :=
  { sys_atomic_barrier_init src dest timeout with xchg := true }

/-- The sync object is used: the mode is set, the processes differ or the object
is for an exchange, and no held operation before has acquired already. -/
def mrapi_atomic_barrier_t.synced (axb : mrapi_atomic_barrier_t) : Bool :=
  axb.mode ≠ MRAPI_ATOMIC_NONE && (axb.xchg || axb.dest != axb.src) && !axb.sync.active

/-- An operation on the data: `sys_atomic_read`, or one of the others with the
function it applies. -/
inductive Op (D : Type)
  | read
  | write (f : D → D)

/-- The mode an operation sets. -/
def Op.mode {D : Type} : Op D → mrapi_atomic_mode_t
  | .read => MRAPI_ATOMIC_READ
  | .write _ => MRAPI_ATOMIC_WRITE

/-- What the operation leaves. -/
def Op.apply {D : Type} : Op D → D → D
  | .read, d => d
  | .write f, d => f d

/-! ## A client -/

/-- How an attempt got past the acquire: it acquired, it found the sync object
not in use, or it timed out. -/
inductive Access
  | acquired
  | skipped
  | timedOut
  deriving DecidableEq, Repr

/-- Where a client stands. `spin` carries the timeout still left, `flip` and
`flipCas` the values an exchange release has read. -/
inductive Pc (D : Type)
  | idle
  | enter (op : Op D)
  | spin (op : Op D) (timeout : ℕ)
  | cas (op : Op D) (timeout : ℕ)
  | body (op : Op D) (access : Access)
  | release (op : Op D) (access : Access)
  | flip (op : Op D) (access : Access) (valid : Bool)
  | flipCas (op : Op D) (access : Access) (valid previous : Bool)

/-- The operation a client is performing. -/
def Pc.op {D : Type} : Pc D → Option (Op D)
  | .idle => none
  | .enter op | .spin op _ | .cas op _ | .body op _ | .release op _ | .flip op _ _
  | .flipCas op _ _ _ => some op

/-- A client: its sync object, its position, the status and the value it is
going to report. -/
structure Client (D : Type) where
  axb : mrapi_atomic_barrier_t
  pc : Pc D
  rc : Bool
  value : Option D
  inside : Bool

variable {D τ : Type}

/-- The client with another position. -/
def Client.goto (c : Client D) (pc : Pc D) : Client D := { c with pc := pc }

/-- `axb->sync.last_counter = counter`. -/
def Client.sample (c : Client D) (counter : ℕ) : Client D :=
  { c with axb.sync.last_counter := counter }

/-- The end of `try_atomic_barrier_acquire`: `active` becomes `hold`, and the
operation is performed unless the acquire timed out. -/
def Client.proceed (c : Client D) (op : Op D) (access : Access) : Client D :=
  { c with
    axb.sync.active := c.axb.sync.hold
    pc := if access = .timedOut then .release op access else .body op access }

/-- An attempt that found the element taken: time out, or spin on. The timeout
is decremented before it is compared with 0. -/
def Client.failed (c : Client D) (op : Op D) (timeout : ℕ) : Client D :=
  if timeout = MCA_INFINITE then c.goto (.spin op timeout)
  else if timeout = 0 ∨ timeout - 1 = 0 then c.proceed op .timedOut
  else c.goto (.spin op (timeout - 1))

/-- A successful `atomic_barrier_release`. -/
def Client.finish (c : Client D) : Client D :=
  { c with axb.sync.override := false, pc := .idle }

/-- A failed `atomic_barrier_release`: the operation starts over. -/
def Client.retry (c : Client D) (op : Op D) : Client D :=
  { c with axb.sync.override := false, pc := .enter op }

/-- The client has left the section between its acquire and its release. -/
def Client.leave (c : Client D) : Client D := { c with inside := false }

/-- The client's compare and swap made the counter odd. -/
def Client.takeWrite (c : Client D) : Client D :=
  { c with axb.sync.last_counter := u16 (c.axb.sync.last_counter + 1), inside := true }

/-- One turn of the acquire loop: the flag against the mode in an exchange, the
parity of the counter otherwise. -/
def try_acquire (e : mrapi_msg_t D) (c : Client D) (op : Op D) (timeout : ℕ) :
    mrapi_msg_t D × Client D :=
  if c.axb.sync.override then
    (if c.axb.xchg then { e with valid := c.axb.mode.valid } else e, c.proceed op .acquired)
  else if c.axb.xchg then
    (e, if c.axb.mode.valid = e.valid then c.proceed op .acquired else c.failed op timeout)
  else if e.counter % 2 = 0 then
    (e, if c.axb.mode = MRAPI_ATOMIC_WRITE then (c.sample e.counter).goto (.cas op timeout)
      else (c.sample e.counter).proceed op .acquired)
  else (e, (c.sample e.counter).failed op timeout)

/-- The compare and swap of a write acquire. -/
def acquire_cas (e : mrapi_msg_t D) (c : Client D) (op : Op D) (timeout : ℕ) :
    mrapi_msg_t D × Client D :=
  if e.counter = c.axb.sync.last_counter then
    ({ e with counter := u16 (c.axb.sync.last_counter + 1) }, c.takeWrite.proceed op .acquired)
  else (e, c.failed op timeout)

/-- `atomic_barrier_release`: an exchange goes on to flip the flag, a read
compares the counter with the one it sampled, a write swaps it for the next one. -/
def atomic_barrier_release (e : mrapi_msg_t D) (c : Client D) (op : Op D) (access : Access) :
    mrapi_msg_t D × Client D :=
  if c.axb.synced = false then (e, c.finish)
  else if c.axb.xchg then (e, c.goto (.flip op access (!e.valid)))
  else if c.axb.mode = MRAPI_ATOMIC_READ then
    (e, if c.axb.sync.last_counter = e.counter then c.leave.finish else c.leave.retry op)
  else if e.counter = c.axb.sync.last_counter then
    ({ e with counter := u16 (c.axb.sync.last_counter + 1) }, c.leave.finish)
  else (e, c.leave.retry op)

/-- One step of a client. `sys_atomic_xchg` on the flag, the last two steps of
an exchange release, is a read and a compare and swap whose failure is ignored. -/
def clientStep (e : mrapi_msg_t D) (c : Client D) : Option (mrapi_msg_t D × Client D) :=
  match c.pc with
  | .idle => none
  | .enter op =>
    some (e, if c.axb.synced then c.goto (.spin op c.axb.timeout) else c.proceed op .skipped)
  | .spin op timeout => some (try_acquire e c op timeout)
  | .cas op timeout => some (acquire_cas e c op timeout)
  | .body op access =>
    some ({ e with data := op.apply e.data },
      { c with rc := true, value := some e.data, pc := .release op access })
  | .release op access => some (atomic_barrier_release e c op access)
  | .flip op access valid => some (e, c.goto (.flipCas op access valid e.valid))
  | .flipCas _ _ valid previous =>
    some (if e.valid = previous then { e with valid := valid } else e, c.finish)

/-! ## The clients together -/

/-- The element and the clients. -/
structure St (D τ : Type) where
  elem : mrapi_msg_t D
  client : τ → Client D

/-- `sys_atomic_hold`, `sys_atomic_override` and the start of an operation are
the moves of an idle client; `step` is the next step of an operation. -/
inductive Label (D τ : Type)
  | hold (t : τ) (hold : Bool)
  | override (t : τ)
  | op (t : τ) (op : Op D)
  | step (t : τ)

/-- Who moves. -/
def Label.client : Label D τ → τ
  | .hold t _ | .override t | .op t _ | .step t => t

/-- `atomic_barrier_mode`, and `rc = MRAPI_FALSE`. -/
def Client.start (c : Client D) (op : Op D) : Client D :=
  { c with axb.mode := op.mode, rc := false, value := none, pc := .enter op }

/-- What a label does to the element and to the client it names. -/
def move (e : mrapi_msg_t D) (c : Client D) : Label D τ → Option (mrapi_msg_t D × Client D)
  | .hold _ hold =>
    match c.pc with
    | .idle => some (e, { c with axb.sync.hold := hold })
    | _ => none
  | .override _ =>
    match c.pc with
    | .idle => some (e, { c with axb.sync.override := true })
    | _ => none
  | .op _ op =>
    match c.pc with
    | .idle => some (e, c.start op)
    | _ => none
  | .step _ => clientStep e c

/-- `sys_atomic_hold` sets one flag of an idle client. -/
theorem move_hold {e e' : mrapi_msg_t D} {c c' : Client D} {t : τ} {hold : Bool}
    (h : move e c (.hold t hold) = some (e', c')) :
    c.pc = .idle ∧ e' = e ∧ c' = { c with axb.sync.hold := hold } := by
  simp only [move] at h
  split at h
  · rename_i hpc
    simp only [Option.some.injEq, Prod.mk.injEq] at h
    exact ⟨hpc, h.1.symm, h.2.symm⟩
  · cases h

theorem move_override {e e' : mrapi_msg_t D} {c c' : Client D} {t : τ}
    (h : move e c (.override t) = some (e', c')) :
    c.pc = .idle ∧ e' = e ∧ c' = { c with axb.sync.override := true } := by
  simp only [move] at h
  split at h
  · rename_i hpc
    simp only [Option.some.injEq, Prod.mk.injEq] at h
    exact ⟨hpc, h.1.symm, h.2.symm⟩
  · cases h

/-- An idle client starts an operation. -/
theorem move_start {e e' : mrapi_msg_t D} {c c' : Client D} {t : τ} {op : Op D}
    (h : move e c (.op t op) = some (e', c')) : c.pc = .idle ∧ e' = e ∧ c' = c.start op := by
  simp only [move] at h
  split at h
  · rename_i hpc
    simp only [Option.some.injEq, Prod.mk.injEq] at h
    exact ⟨hpc, h.1.symm, h.2.symm⟩
  · cases h

variable [DecidableEq τ]

/-- One step of the system. -/
def step (s : St D τ) (a : Label D τ) : Option (St D τ) :=
  (move s.elem (s.client a.client) a).map fun p =>
    ⟨p.1, Function.update s.client a.client p.2⟩

/-- Fresh clients with the sync objects `axb`, and an element whose memory was
zeroed. -/
def init (axb : τ → mrapi_atomic_barrier_t) (d : D) : St D τ where
  elem := ⟨false, 0, d⟩
  client t := ⟨axb t, .idle, false, none, false⟩

/-- A step moves one client. -/
theorem step_eq_some {s s' : St D τ} {a : Label D τ} (h : step s a = some s') :
    ∃ c', move s.elem (s.client a.client) a = some (s'.elem, c') ∧
      s'.client = Function.update s.client a.client c' := by
  unfold step at h
  obtain ⟨⟨e', c'⟩, hmove, rfl⟩ := Option.map_eq_some_iff.mp h
  exact ⟨c', hmove, rfl⟩

end MxApi.Barrier
