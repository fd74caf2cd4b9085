/-
The callbacks of resources (`Fragments/mrapi_impl_spec_resources_abb.c`):
`mrapi_impl_resource_register_callback`, `mrapi_impl_dynamic_attribute_start` and
`mrapi_impl_cause_event`.

All nodes share one array of callbacks and one array of rollover callbacks, whose indexes only
grow. An event looks for the first callback with the number of its node, increments its count,
tests the count against the frequency, and resets the count and calls the callback. The search,
the increment and the reset are critical sections; the test and the call are not. Any number of
events may be in progress.

An access outside an array sets a flag, and nothing is said about what it finds there. The
alarm that each call sets makes another event happen, and events happen at any time here.
-/
import Mathlib.Data.Fintype.Basic
import Mathlib.Logic.Function.Basic
import MxApi.Lib.Run
import MxApi.Lib.Search
import MxApi.Lib.Word

set_option autoImplicit false

namespace MxApi.Callbacks

open Lib

/-! ## Data -/

def MRAPI_MAX_CALLBACKS : ℕ := 10

inductive mrapi_status_t
  | MRAPI_SUCCESS
  | MRAPI_ERR_RSRC_INVALID_EVENT
  | MRAPI_ERR_NODE_NOTINIT
  deriving DecidableEq, Repr

open mrapi_status_t

/-- Functions and events are numbers; the event `NULL` is 0. -/
structure mrapi_callback_t where
  callback_func : ℕ
  callback_event : ℕ
  callback_frequency : ℕ
  callback_count : ℕ
  node_id : ℕ
  deriving DecidableEq, Repr

/-- `attribute_started` is what the pointer of the resource "L3 Cache" to its attribute 1 points
at. `overrun` says that an entry outside one of the two arrays has been read or written. -/
structure mrapi_database where
  rollover_callbacks_ptr : ℕ → ℕ
  rollover_index : ℕ
  callbacks_array : ℕ → mrapi_callback_t
  callback_index : ℕ
  attribute_started : Bool
  overrun : Bool

/-- What `mrapi_impl_whoami` says about a node. -/
structure Node where
  domain_id : ℕ
  node_id : ℕ
  deriving DecidableEq, Repr

def mrapi_database.setCallback (db : mrapi_database) (index : ℕ) (c : mrapi_callback_t) :
    mrapi_database :=
  if index < MRAPI_MAX_CALLBACKS then
    { db with callbacks_array := Function.update db.callbacks_array index c }
  else { db with overrun := true }

def mrapi_database.setCount (db : mrapi_database) (index count : ℕ) : mrapi_database :=
  db.setCallback index { db.callbacks_array index with callback_count := count }

/-! ## Registering and starting -/

def mrapi_impl_resource_register_callback (db : mrapi_database) (whoami : Option Node)
    (event frequency callback_function : ℕ) : mrapi_database × Bool × mrapi_status_t :=
  if event = 0 then (db, false, MRAPI_ERR_RSRC_INVALID_EVENT)
  else
    match whoami with
    | none => (db, false, MRAPI_ERR_NODE_NOTINIT)
    | some node =>
      let index := db.callback_index
      -- the index is not compared with the size of the array
      let db := db.setCallback index
        ⟨callback_function, event, u32 frequency, 0, node.node_id⟩
      ({ db with callback_index := u16 (index + 1) }, true, MRAPI_SUCCESS)

def mrapi_impl_dynamic_attribute_start (db : mrapi_database) (name : String)
    (attribute_number rollover_callback : ℕ) : mrapi_database × Bool × mrapi_status_t :=
  if name = "L3 Cache" ∧ attribute_number = 1 then
    let db := { db with attribute_started := true }
    let db :=
      if db.rollover_index < MRAPI_MAX_CALLBACKS then
        { db with rollover_callbacks_ptr :=
            Function.update db.rollover_callbacks_ptr db.rollover_index rollover_callback }
      else { db with overrun := true }
    ({ db with rollover_index := u16 (db.rollover_index + 1) }, true, MRAPI_SUCCESS)
  else (db, true, MRAPI_SUCCESS)

/-! ## Events -/

/-- Where an event is in `mrapi_impl_cause_event`. -/
inductive EventPc
  | idle
  /-- Before the search for a callback of the node. -/
  | search (node : Node)
  | increment (node : Node) (index : ℕ)
  /-- Before the count is compared with the frequency, without the lock. -/
  | test (node : Node) (index : ℕ)
  | reset (node : Node) (index : ℕ)
  | call (node : Node) (index the_event : ℕ)
  deriving DecidableEq, Repr

/-- A registration that succeeded. -/
structure Registration where
  node : Node
  func : ℕ
  event : ℕ
  frequency : ℕ
  deriving DecidableEq, Repr

/-- A call of the callback in an entry. -/
structure Invocation where
  index : ℕ
  func : ℕ
  event : ℕ
  deriving DecidableEq, Repr

/-- The last four fields are history: whether the node of an event had registered when the event
looked for a callback, the registrations, the events of each node that have ended and are
counted, and the calls of callbacks. -/
structure St (ι : Type) where
  db : mrapi_database
  pc : ι → EventPc
  counted : ι → Bool
  registered : List Registration
  ended : Node → ℕ
  calls : List Invocation

inductive Label (ι : Type)
  | register (whoami : Option Node) (event frequency callback_function : ℕ)
  | start (name : String) (attribute_number rollover_callback : ℕ)
  /-- An event happens at the node the thread belongs to, if it belongs to one. -/
  | cause (e : ι) (whoami : Option Node)
  /-- The next step of an event. -/
  | step (e : ι)

section Model

variable {ι : Type} [DecidableEq ι]

def St.goto (s : St ι) (e : ι) (pc : EventPc) : St ι :=
  { s with pc := Function.update s.pc e pc }

/-- An event returns. -/
def St.finish (s : St ι) (e : ι) (node : Node) (counted : Bool) : St ι :=
  { s.goto e .idle with
    ended := if counted then Function.update s.ended node (s.ended node + 1) else s.ended }

def mrapi_impl_cause_event (s : St ι) (e : ι) : Option (St ι) :=
  match s.pc e with
  | .idle => none
  | .search node =>
    let max_index := s.db.callback_index
    let counted := s.registered.any fun r => r.node = node
    -- only the numbers of the nodes are compared
    match Lib.search (min max_index MRAPI_MAX_CALLBACKS)
        (fun i => (s.db.callbacks_array i).node_id = node.node_id) with
    | some index =>
      some { s.goto e (.increment node index) with
        counted := Function.update s.counted e counted }
    | none =>
      -- the search has gone over all entries that are registered
      let db := { s.db with overrun := s.db.overrun || decide (MRAPI_MAX_CALLBACKS < max_index) }
      some ({ s with db := db }.finish e node counted)
  | .increment node index =>
    let count := (s.db.callbacks_array index).callback_count
    some ({ s with db := s.db.setCount index (u32 (count + 1)) }.goto e (.test node index))
  | .test node index =>
    let c := s.db.callbacks_array index
    if c.callback_count ≥ c.callback_frequency then some (s.goto e (.reset node index))
    else some (s.finish e node (s.counted e))
  | .reset node index =>
    let the_event := (s.db.callbacks_array index).callback_event
    some ({ s with db := s.db.setCount index 0 }.goto e (.call node index the_event))
  | .call node index the_event =>
    let func := (s.db.callbacks_array index).callback_func
    let calls := s.calls ++ [Invocation.mk index func the_event]
    some ({ s with calls := calls }.finish e node (s.counted e))

def step (s : St ι) : Label ι → Option (St ι)
  | .register whoami event frequency callback_function =>
    let (db, rc, _) :=
      mrapi_impl_resource_register_callback s.db whoami event frequency callback_function
    match whoami with
    | some node =>
      if rc then
        some { s with
          db := db
          registered := s.registered ++ [⟨node, callback_function, event, u32 frequency⟩] }
      else some { s with db := db }
    | none => some { s with db := db }
  | .start name attribute_number rollover_callback =>
    some { s with
      db := (mrapi_impl_dynamic_attribute_start s.db name attribute_number rollover_callback).1 }
  | .cause e whoami =>
    match s.pc e, whoami with
    | .idle, some node => some (s.goto e (.search node))
    | .idle, none => some s
    | _, _ => none
  | .step e => mrapi_impl_cause_event s e

/-- Zeroed memory. -/
def mrapi_database.zero : mrapi_database :=
  ⟨fun _ => 0, 0, fun _ => ⟨0, 0, 0, 0, 0⟩, 0, false, false⟩

def init (ι : Type) : St ι :=
  ⟨.zero, fun _ => .idle, fun _ => false, [], fun _ => 0, []⟩

end Model

/-! ## What is to hold -/

section Property

variable {ι : Type}

/-- Entry `i` is the first that the node has registered. -/
structure IsFirst (registered : List Registration) (node : Node) (i : ℕ) (r : Registration) :
    Prop where
  at_index : registered[i]? = some r
  node_eq : r.node = node
  first : ∀ j < i, ∀ r', registered[j]? = some r' → r'.node ≠ node

/-- The node of an event in progress. -/
def EventPc.node : EventPc → Option Node
  | .idle => none
  | .search node | .increment node _ | .test node _ | .reset node _ | .call node _ _ => some node

/-- No access outside the arrays; and the first callback of a node, with a frequency `f` of 1 or
more, has been called once for every `f` events of the node when none of them is in progress,
each time with its own event. -/
structure CallbacksRight (s : St ι) : Prop where
  inside : s.db.overrun = false
  fired : ∀ node i r, IsFirst s.registered node i r → 1 ≤ r.frequency →
    (∀ e, (s.pc e).node ≠ some node) →
    (s.calls.countP fun x => x.index = i) = s.ended node / r.frequency
  own : ∀ node i r, IsFirst s.registered node i r → ∀ x ∈ s.calls, x.index = i →
    x = ⟨i, r.func, r.event⟩

/-- An event stands before the test of entry `i`. -/
def EventPc.testing (i : ℕ) : EventPc → Bool
  | .test _ index => index = i
  | _ => false

/-- The next step of an event at this point is one that a run may contain. -/
def EventPc.Admitted (s : St ι) (e : ι) : EventPc → Prop
  -- no node of another domain has registered under the same number before
  | .search node =>
    ∀ r ∈ s.registered.find? (fun r => r.node.node_id = node.node_id), r.node = node
  -- no other event has reached the frequency and not yet reset the count, and none may see that
  -- this one does
  | .increment _ index =>
    1 ≤ (s.db.callbacks_array index).callback_frequency →
      (s.db.callbacks_array index).callback_count <
          (s.db.callbacks_array index).callback_frequency ∧
        ((s.db.callbacks_array index).callback_frequency ≤
            (s.db.callbacks_array index).callback_count + 1 →
          ∀ e', e' ≠ e → (s.pc e').testing index = false)
  | _ => True

/-- The steps that a run may contain. -/
def Admitted (s : St ι) : Label ι → Prop
  -- there is room for a registration
  | .register whoami event _ _ =>
    whoami.isSome → event ≠ 0 → s.db.callback_index < MRAPI_MAX_CALLBACKS
  | .start name attribute_number _ =>
    name = "L3 Cache" ∧ attribute_number = 1 → s.db.rollover_index < MRAPI_MAX_CALLBACKS
  | .cause _ _ => True
  | .step e => (s.pc e).Admitted s e

instance [Fintype ι] [DecidableEq ι] (s : St ι) (e : ι) :
    (pc : EventPc) → Decidable (pc.Admitted s e)
  | .search node => inferInstanceAs (Decidable (∀ r ∈ s.registered.find? _, r.node = node))
  | .increment _ _ => inferInstanceAs (Decidable (_ → _ ∧ (_ → ∀ e', e' ≠ e → _)))
  | .idle => isTrue trivial
  | .test _ _ => isTrue trivial
  | .reset _ _ => isTrue trivial
  | .call _ _ _ => isTrue trivial

instance [Fintype ι] [DecidableEq ι] (s : St ι) : (l : Label ι) → Decidable (Admitted s l)
  | .register _ _ _ _ => inferInstanceAs (Decidable (_ → _ → _))
  | .start _ _ _ => inferInstanceAs (Decidable (_ → _))
  | .cause _ _ => isTrue trivial
  | .step e => inferInstanceAs (Decidable ((s.pc e).Admitted s e))

end Property

end MxApi.Callbacks
