/-
`mrapi_impl_atomic_forward` towards one target process, the handler
`mrapi_impl_atomic_hndlr` there, and the caller that waits for the result.

The target has one slot, `mrapi_db->processes[p].op`, whose field `valid` says
that it is in use. A client claims the slot with a compare and swap, copies its
operation into it and sends `SIGUSR1`. The signal is pending at most once. A
thread of the target that takes it waits until the slot is valid, copies the
operation, marks the slot as available and executes the copy; other threads may
take the next signal meanwhile. On Unix the only operation forwarded is
`MRAPI_ATOM_SHMDUP`, whose result is stored per client and shared memory
(`shmems[s].id[spindex]`), and `mrapi_impl_shmem_get` spins until it is there.

The loop around the claim, `while (sys_atomic_cas(..) && previous)`, is left
when the compare and swap fails, and also when it succeeds, because the value
replaced is 0 then. It never spins.

An operation carries a number, so that two operations of one client on one
shared memory can be told apart; with the number goes the history of a run:
which operations have been put into the slot, and which have been executed.
-/
import Mathlib.Data.Nat.Notation
import Mathlib.Logic.Function.Basic
import MxApi.Lib.Run

set_option autoImplicit false

namespace MxApi.Forward

open Lib

/-- `mrapi_atomic_op`: the source process, `u.dup.s`, and the operation's number. -/
structure Op (τ S : Type) where
  spindex : τ
  s : S
  seq : ℕ
  deriving DecidableEq, Repr

/-- Where a client stands: in the loop around the claim, before the copy, before
the signal, or waiting for the result. -/
inductive ClientPc (τ S : Type)
  | idle
  | claim (op : Op τ S)
  | write (op : Op τ S)
  | kill (op : Op τ S)
  | wait (op : Op τ S)
  deriving DecidableEq, Repr

/-- Where a thread of the target stands in the handler: waiting for the slot to be
valid, before the local copy, before the slot is marked as available, before the
execution. The slot holds no operation before the first is copied into it. -/
inductive HandlerPc (τ S : Type)
  | idle
  | spin
  | copy
  | release (op : Option (Op τ S))
  | exec (op : Option (Op τ S))
  deriving DecidableEq, Repr

/-- The slot, the signal, the clients, the target's threads and the results. The
last four fields are history: how many operations a client has started, whether
the slot holds an operation that has not been copied yet, the operations put into
the slot, and the operations executed. -/
structure St (τ S η : Type) where
  valid : Bool
  slot : Option (Op τ S)
  signal : Bool
  client : τ → ClientPc τ S
  handler : η → HandlerPc τ S
  id : τ → S → Option (Op τ S)
  started : τ → ℕ
  full : Bool
  posted : List (Op τ S)
  executed : List (Op τ S)

/-- A client forwards an operation, or takes its next step; a shared memory of a
client that is not waiting is forgotten again; a thread of the target takes the
signal, or its next step. -/
inductive Label (τ S η : Type)
  | forward (t : τ) (s : S)
  | client (t : τ)
  | forget (t : τ) (s : S)
  | deliver (h : η)
  | handler (h : η)
  deriving DecidableEq, Repr

variable {τ S η : Type} [DecidableEq τ] [DecidableEq S] [DecidableEq η]

/-- One turn of `while (sys_atomic_cas(.., &valid, &lock, &released, &previous) &&
previous)`: whether the loop goes on, and the slot's flag. -/
def claimLoop (valid : Bool) : Bool × Bool :=
  let cas := !valid
  let previous := valid
  (cas && previous, true)

/-- The next step of a client. -/
def clientStep (s : St τ S η) (t : τ) : Option (St τ S η) :=
  match s.client t with
  | .idle => none
  | .claim op =>
    let turn := claimLoop s.valid
    some { s with
      valid := turn.2
      client := Function.update s.client t (if turn.1 then .claim op else .write op) }
  | .write op =>
    -- the copy has `valid` set
    some { s with
      valid := true, slot := some op, full := true, posted := s.posted ++ [op]
      client := Function.update s.client t (.kill op) }
  | .kill op => some { s with signal := true, client := Function.update s.client t (.wait op) }
  | .wait op =>
    if (s.id t op.s).isSome then some { s with client := Function.update s.client t .idle }
    else some s

/-- The next step of a thread of the target. -/
def handlerStep (s : St τ S η) (h : η) : Option (St τ S η) :=
  match s.handler h with
  | .idle => none
  | .spin =>
    some { s with handler := Function.update s.handler h (if s.valid then .copy else .spin) }
  | .copy =>
    some { s with full := false, handler := Function.update s.handler h (.release s.slot) }
  | .release op =>
    some { s with valid := false, handler := Function.update s.handler h (.exec op) }
  | .exec none => some { s with handler := Function.update s.handler h .idle }
  | .exec (some op) =>
    some { s with
      id := Function.update s.id op.spindex (Function.update (s.id op.spindex) op.s (some op))
      executed := s.executed ++ [op]
      handler := Function.update s.handler h .idle }

/-- One step of the system. A client forwards for a shared memory it has no
identifier of. -/
def step (s : St τ S η) : Label τ S η → Option (St τ S η)
  | .forward t m =>
    match s.client t, s.id t m with
    | .idle, none =>
      some { s with
        client := Function.update s.client t (.claim ⟨t, m, s.started t⟩)
        started := Function.update s.started t (s.started t + 1) }
    | _, _ => none
  | .client t => clientStep s t
  | .forget t m =>
    match s.client t with
    | .idle => some { s with id := Function.update s.id t (Function.update (s.id t) m none) }
    | _ => none
  | .deliver h =>
    match s.signal, s.handler h with
    | true, .idle =>
      some { s with signal := false, handler := Function.update s.handler h .spin }
    | _, _ => none
  | .handler h => handlerStep s h

/-- Nothing has been forwarded. -/
def init : St τ S η where
  valid := false
  slot := none
  signal := false
  client := fun _ => .idle
  handler := fun _ => .idle
  id := fun _ _ => none
  started := fun _ => 0
  full := false
  posted := []
  executed := []

/-- The claim leaves its loop at the first turn, whatever it found. -/
theorem claimLoop_eq (valid : Bool) : claimLoop valid = (false, true) := by
  cases valid <;> rfl

end MxApi.Forward
