/-
The tables of the MCAPI database: domains, their nodes, the nodes' endpoints
(`transport_sm_abb.h`, `mca_config_abb.h`), and the handles that name an
endpoint by its three indices (`transport_sm_abb.c`).

As in the other models an array is a function of the index. An endpoint's
receive queue is the list of its pending messages: what its ring does below
that is the subject of the FIFO modules.
-/
import Mathlib.Tactic.Common
import MxApi.Lib.Word
import MxApi.Mcapi.Database

set_option autoImplicit false

namespace MxApi

open channel_type

def MCA_MAX_DOMAINS : ℕ := 2

def MCA_MAX_NODES : ℕ := 16

def MCAPI_MAX_ENDPOINTS : ℕ := 96

theorem MCAPI_MAX_ENDPOINTS_eq : MCAPI_MAX_ENDPOINTS = 96 := rfl

/-! ## Entries -/

/-- The two ends of the channel a queue belongs to, as endpoint handles. -/
structure queue_state where
  send_endpt : ℕ
  recv_endpt : ℕ
  deriving DecidableEq, Repr

/-- A message in a queue: its size, its bytes and its scalar. -/
structure Message where
  size : ℕ
  buff : List UInt8
  scalar : UInt64
  deriving DecidableEq, Repr

structure recv_queue where
  channel_type : channel_type
  state : queue_state
  pending : List Message
  deriving DecidableEq

/-- The state word of an endpoint; `opened` is the flag `open`. -/
structure endpoint_state where
  port_num : ℕ
  valid : Bool
  opened : Bool
  connected : Bool
  deriving DecidableEq, Repr

structure endpoint_entry where
  anonymous : Bool
  state : endpoint_state
  num_attributes : ℕ
  recv_queue : recv_queue
  deriving DecidableEq

structure mcapi_node_state where
  node_num : ℕ
  allocated : Bool
  valid : Bool
  rundown : Bool
  deriving DecidableEq, Repr

structure mcapi_node_entry where
  state : mcapi_node_state
  num_endpoints : ℕ
  endpoints : ℕ → endpoint_entry
  pid : ℕ

structure mcapi_domain_state where
  domain_id : ℕ
  allocated : Bool
  valid : Bool
  deriving DecidableEq, Repr

structure mcapi_domain_entry where
  num_nodes : ℕ
  state : mcapi_domain_state
  nodes : ℕ → mcapi_node_entry

structure mcapi_database where
  domains : ℕ → mcapi_domain_entry

/-- A receive queue of zeroed memory. -/
def recv_queue.zero : recv_queue := ⟨MCAPI_NO_CHAN, ⟨0, 0⟩, []⟩

/-- An endpoint entry of zeroed memory. -/
def endpoint_entry.zero : endpoint_entry := ⟨false, ⟨0, false, false, false⟩, 0, .zero⟩

/-- A node entry of zeroed memory. -/
def mcapi_node_entry.zero : mcapi_node_entry := ⟨⟨0, false, false, false⟩, 0, fun _ => .zero, 0⟩

/-- A database of zeroed memory. -/
def mcapi_database.zero : mcapi_database :=
  ⟨fun _ => ⟨0, ⟨0, false, false⟩, fun _ => .zero⟩⟩

/-- The statuses of the public calls that are modelled. -/
inductive CallStatus
  | MCAPI_SUCCESS
  | MCAPI_PENDING
  | MCAPI_ERR_PARAMETER
  | MCAPI_ERR_ENDP_INVALID
  | MCAPI_ERR_ENDP_NOPORTS
  | MCAPI_ERR_ENDP_LIMIT
  | MCAPI_ERR_ENDP_EXISTS
  | MCAPI_ERR_ENDP_NOTOWNER
  | MCAPI_ERR_MEM_LIMIT
  | MCAPI_ERR_REQUEST_LIMIT
  | MCAPI_ERR_REQUEST_INVALID
  | MCAPI_ERR_REQUEST_CANCELLED
  | MCAPI_ERR_MSG_TRUNCATED
  | MCAPI_ERR_CHAN_OPEN
  | MCAPI_ERR_CHAN_TYPE
  | MCAPI_ERR_CHAN_CONNECTED
  | MCAPI_ERR_CHAN_DIRECTION
  | MCAPI_ERR_CHAN_NOTOPEN
  | MCAPI_ERR_CHAN_INVALID
  | MCAPI_ERR_PKT_LIMIT
  | MCAPI_ERR_SCL_SIZE
  | MCAPI_TIMEOUT
  deriving DecidableEq, Repr

/-- The thread-local identity `mcapi_trans_whoami` reports. -/
structure Whoami where
  node_num : ℕ
  nindex : ℕ
  domain_id : ℕ
  dindex : ℕ
  deriving DecidableEq, Repr

/-! ## Access to one node and one endpoint -/

namespace mcapi_database

variable (db : mcapi_database)

def node (d n : ℕ) : mcapi_node_entry := (db.domains d).nodes n

def endpoint (d n e : ℕ) : endpoint_entry := (db.node d n).endpoints e

def setNode (d n : ℕ) (v : mcapi_node_entry) : mcapi_database :=
  ⟨Function.update db.domains d
    { db.domains d with nodes := Function.update (db.domains d).nodes n v }⟩

def setEndpoint (d n e : ℕ) (v : endpoint_entry) : mcapi_database :=
  db.setNode d n
    { db.node d n with endpoints := Function.update (db.node d n).endpoints e v }

@[simp] theorem setNode_domain_state (d n d' : ℕ) (v : mcapi_node_entry) :
    ((db.setNode d n v).domains d').state = (db.domains d').state := by
  by_cases h : d' = d
  · subst h; simp [setNode]
  · simp [setNode, h]

@[simp] theorem setNode_self (d n : ℕ) (v : mcapi_node_entry) :
    (db.setNode d n v).node d n = v := by
  simp [setNode, node]

theorem setNode_of_ne {d n d' n' : ℕ} (h : ¬ (d' = d ∧ n' = n)) (v : mcapi_node_entry) :
    (db.setNode d n v).node d' n' = db.node d' n' := by
  by_cases hd : d' = d
  · subst hd
    have hn : n' ≠ n := fun hn => h ⟨rfl, hn⟩
    simp [setNode, node, hn]
  · simp [setNode, node, hd]

theorem setEndpoint_self (d n e : ℕ) (v : endpoint_entry) :
    (db.setEndpoint d n e v).endpoint d n e = v := by
  simp [setEndpoint, endpoint]

theorem setEndpoint_of_ne {d n e d' n' e' : ℕ} (h : ¬ (d' = d ∧ n' = n ∧ e' = e))
    (v : endpoint_entry) : (db.setEndpoint d n e v).endpoint d' n' e' = db.endpoint d' n' e' := by
  by_cases hdn : d' = d ∧ n' = n
  · obtain ⟨rfl, rfl⟩ := hdn
    have he : e' ≠ e := fun he => h ⟨rfl, rfl, he⟩
    simp [setEndpoint, endpoint, he]
  · rw [endpoint, setEndpoint, setNode_of_ne _ hdn]
    rfl

end mcapi_database

/-! ## The words of an endpoint -/

/-- The domain, node and endpoint index of an endpoint. -/
abbrev Place := ℕ × ℕ × ℕ

namespace mcapi_database

variable (db : mcapi_database) (p q : Place)

/-- The entry at a place. -/
def entry : endpoint_entry := db.endpoint p.1 p.2.1 p.2.2

def setEntry (v : endpoint_entry) : mcapi_database := db.setEndpoint p.1 p.2.1 p.2.2 v

def setType (type : channel_type) : mcapi_database :=
  db.setEntry p { db.entry p with recv_queue := { (db.entry p).recv_queue with channel_type := type } }

def setQueueState (w : queue_state) : mcapi_database :=
  db.setEntry p { db.entry p with recv_queue := { (db.entry p).recv_queue with state := w } }

def setState (w : endpoint_state) : mcapi_database :=
  db.setEntry p { db.entry p with state := w }

theorem entry_setEntry (v : endpoint_entry) :
    (db.setEntry p v).entry q = if q = p then v else db.entry q := by
  by_cases h : q = p
  · subst h
    rw [if_pos rfl]
    exact db.setEndpoint_self ..
  · rw [if_neg h]
    apply db.setEndpoint_of_ne
    rintro ⟨h₁, h₂, h₃⟩
    exact h (Prod.ext h₁ (Prod.ext h₂ h₃))

/-- An update that keeps an entry's state word keeps all of them. -/
theorem state_setEntry {v : endpoint_entry} (h : v.state = (db.entry p).state) :
    ((db.setEntry p v).entry q).state = (db.entry q).state := by
  rw [entry_setEntry]
  split
  · rename_i hq
    rw [h, hq]
  · rfl

@[simp] theorem state_setType (type : channel_type) :
    ((db.setType p type).entry q).state = (db.entry q).state :=
  db.state_setEntry p q rfl

@[simp] theorem state_setQueueState (w : queue_state) :
    ((db.setQueueState p w).entry q).state = (db.entry q).state :=
  db.state_setEntry p q rfl

theorem state_setState (w : endpoint_state) :
    ((db.setState p w).entry q).state = if q = p then w else (db.entry q).state := by
  rw [setState, entry_setEntry]
  split <;> rfl

end mcapi_database

/-! ## Handles -/

/-- The three indices are in range. -/
def InRange (d n e : ℕ) : Prop :=
  d < MCA_MAX_DOMAINS ∧ n < MCA_MAX_NODES ∧ e < MCAPI_MAX_ENDPOINTS

instance (d n e : ℕ) : Decidable (InRange d n e) := by
  unfold InRange; exact inferInstance

/-- Asserts that the indices are in range. -/
def mcapi_trans_encode_handle (domain_index node_index endpoint_index : ℕ) : Option ℕ :=
  if InRange domain_index node_index endpoint_index then
    some (((domain_index <<< 8 ||| node_index) <<< 8) ||| endpoint_index)
  else none

/-- The three index bytes; the top byte of the handle is not looked at. -/
def mcapi_trans_decode_handle (handle : ℕ) : Option (ℕ × ℕ × ℕ) :=
  let domain_index := (handle &&& 0x00ff0000) >>> (8 * 2)
  let node_index := (handle &&& 0x0000ff00) >>> 8
  let endpoint_index := handle &&& 0x000000ff
  if InRange domain_index node_index endpoint_index then
    some (domain_index, node_index, endpoint_index)
  else none

/-- An encoded handle is the number with these three digits to the base 256. -/
theorem mcapi_trans_encode_handle_of_inRange {d n e : ℕ} (h : InRange d n e) :
    mcapi_trans_encode_handle d n e = some (65536 * d + 256 * n + e) := by
  have hn : n < 16 := h.2.1
  have he : e < 96 := h.2.2
  have hdn : (d <<< 8) ||| n = 256 * d + n := by
    rw [Nat.shiftLeft_eq, Nat.mul_comm]
    exact (Nat.two_pow_add_eq_or_of_lt (i := 8) (by omega : n < 2 ^ 8) d).symm
  have hdne : ((256 * d + n) <<< 8) ||| e = 256 * (256 * d + n) + e := by
    rw [Nat.shiftLeft_eq, Nat.mul_comm]
    exact (Nat.two_pow_add_eq_or_of_lt (i := 8) (by omega : e < 2 ^ 8) _).symm
  rw [mcapi_trans_encode_handle, if_pos h, hdn, hdne]
  congr 1
  omega

theorem mcapi_trans_decode_handle_eq (handle : ℕ) :
    mcapi_trans_decode_handle handle =
      if InRange (handle / 65536 % 256) (handle / 256 % 256) (handle % 256) then
        some (handle / 65536 % 256, handle / 256 % 256, handle % 256)
      else none := by
  have hd : (handle &&& 0x00ff0000) >>> (8 * 2) = handle / 65536 % 256 := by
    rw [Nat.shiftRight_and_distrib, Nat.shiftRight_eq_div_pow]
    exact Nat.and_two_pow_sub_one_eq_mod _ 8
  have hn : (handle &&& 0x0000ff00) >>> 8 = handle / 256 % 256 := by
    rw [Nat.shiftRight_and_distrib, Nat.shiftRight_eq_div_pow]
    exact Nat.and_two_pow_sub_one_eq_mod _ 8
  have he : handle &&& 0x000000ff = handle % 256 := Nat.and_two_pow_sub_one_eq_mod _ 8
  rw [mcapi_trans_decode_handle, hd, hn, he]

theorem mcapi_trans_decode_encode {d n e handle : ℕ}
    (h : mcapi_trans_encode_handle d n e = some handle) :
    mcapi_trans_decode_handle handle = some (d, n, e) := by
  by_cases hr : InRange d n e
  · rw [mcapi_trans_encode_handle_of_inRange hr, Option.some.injEq] at h
    have hd : d < 2 := hr.1
    have hn : n < 16 := hr.2.1
    have he : e < 96 := hr.2.2
    have h1 : handle / 65536 % 256 = d := by omega
    have h2 : handle / 256 % 256 = n := by omega
    have h3 : handle % 256 = e := by omega
    rw [mcapi_trans_decode_handle_eq, h1, h2, h3, if_pos hr]
  · rw [mcapi_trans_encode_handle, if_neg hr] at h
    cases h

theorem mcapi_trans_decode_inRange {d n e handle : ℕ}
    (h : mcapi_trans_decode_handle handle = some (d, n, e)) : InRange d n e := by
  rw [mcapi_trans_decode_handle_eq] at h
  split at h
  · obtain ⟨rfl, rfl, rfl⟩ := Option.some.inj h
    assumption
  · cases h

end MxApi
