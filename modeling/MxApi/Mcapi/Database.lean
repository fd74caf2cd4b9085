/-
The parts of the MCAPI shared-memory database that messages pass through:
buffer entries, queue entries and an endpoint's receive queue, with the
constants of the default configuration (`transport_sm_abb.h`,
`mca_config_abb.h`, `transport_sm_declaration_abb.c`).

Arrays are functions of the index; every access the code makes is below the
array's bound, which the invariants of the models carry where it matters. The
content of a buffer is a function of the byte offset, so that a copy can be
modelled byte by byte.
-/
import Mathlib.Logic.Function.Basic
import Mathlib.Data.Nat.Bitwise

set_option autoImplicit false

namespace MxApi

/-! ## Constants -/

def MCAPI_MAX_QUEUE_ELEMENTS : ℕ := 64

/-- The number of ring slots the FIFO counters run over. -/
def MCAPI_MAX_QUEUE_ENTRIES : ℕ := MCAPI_MAX_QUEUE_ELEMENTS + 1

def MCAPI_MAX_BUFFERS : ℕ := 1284

/-- Marker of a buffer in use. -/
def MAGIC_NUM : ℕ := 0xdeadcafe

/-- Marker of a buffer that state message exchange may write again. -/
def RESERVED_NUM : ℕ := 0xdeadbeef

/-- Shared memory is zeroed, so a buffer index is stored with this bit set. -/
def MCAPI_VALID_MASK : ℕ := 0x80000000

theorem MCAPI_MAX_QUEUE_ENTRIES_eq : MCAPI_MAX_QUEUE_ENTRIES = 65 := rfl

theorem MAGIC_NUM_ne_zero : MAGIC_NUM ≠ 0 := by decide

theorem RESERVED_NUM_ne_zero : RESERVED_NUM ≠ 0 := by decide

/-! ## Types -/

inductive channel_type
  | MCAPI_NO_CHAN
  | MCAPI_PKT_CHAN
  | MCAPI_SCL_CHAN
  deriving DecidableEq, Repr

inductive mcapi_buffer_state
  | BUFFER_FREE
  | BUFFER_RESERVED
  | BUFFER_ALLOCATED
  | BUFFER_RECEIVED
  deriving DecidableEq, Repr

/-- The statuses of the queue functions. -/
inductive mcapi_status_t
  | MCAPI_SUCCESS
  | MCAPI_ERR_QUEUE_EMPTY
  | MCAPI_ERR_QUEUE_EMPTY_PRODUCER_INSERTING
  | MCAPI_ERR_QUEUE_FULL
  | MCAPI_ERR_QUEUE_FULL_CONSUMER_READING
  deriving DecidableEq, Repr

open channel_type mcapi_buffer_state mcapi_status_t

/-- A queue entry. `buff_index` is `0` or a buffer index under
`MCAPI_VALID_MASK`. -/
structure buffer_descriptor where
  state : mcapi_buffer_state
  buff_index : ℕ
  reserved : Bool
  deriving DecidableEq, Repr

/-- A buffer of the shared pool. `parent` is the queue entry the buffer was
last bound to, by its index in the queue (`none` is `NULL`). -/
structure buffer_entry where
  magic_num : ℕ
  size : ℕ
  scalar : UInt64
  buff : ℕ → UInt8
  parent : Option ℕ

/-- An endpoint's receive queue. -/
structure queue where
  channel_type : channel_type
  update_counter : ℕ
  ack_counter : ℕ
  elements : ℕ → buffer_descriptor

/-- A queue entry of zeroed memory. -/
def buffer_descriptor.zero : buffer_descriptor := ⟨BUFFER_FREE, 0, false⟩

/-- A buffer of zeroed memory. -/
def buffer_entry.zero : buffer_entry := ⟨0, 0, 0, fun _ => 0, none⟩

/-- The queue of zeroed memory, with the type its channel was given. -/
def queue.zero (ct : MxApi.channel_type) : queue := ⟨ct, 0, 0, fun _ => .zero⟩

/-! ## Stored buffer indices -/

/-- `i | MCAPI_VALID_MASK`, what a queue entry stores for buffer `i`. -/
def validIndex (i : ℕ) : ℕ := i ||| MCAPI_VALID_MASK

/-- `buff_index &~ MCAPI_VALID_MASK` on 32 bits. -/
def bufferIndex (b : ℕ) : ℕ := b &&& (2 ^ 31 - 1)

theorem validIndex_eq {i : ℕ} (h : i < 2 ^ 31) : validIndex i = 2 ^ 31 + i := by
  rw [validIndex, Nat.lor_comm]
  exact (Nat.two_pow_add_eq_or_of_lt h 1).symm

@[simp] theorem bufferIndex_validIndex {i : ℕ} (h : i < MCAPI_MAX_BUFFERS) :
    bufferIndex (validIndex i) = i := by
  have hi : i < 2 ^ 31 := by simp only [MCAPI_MAX_BUFFERS] at h; omega
  rw [validIndex_eq hi, bufferIndex, Nat.and_two_pow_sub_one_eq_mod]
  omega

/-- A stored index is never the zero of an entry without buffer. -/
theorem validIndex_ne_zero {i : ℕ} (h : i < MCAPI_MAX_BUFFERS) : validIndex i ≠ 0 := by
  have hi : i < 2 ^ 31 := by simp only [MCAPI_MAX_BUFFERS] at h; omega
  rw [validIndex_eq hi]
  omega

theorem validIndex_inj {i j : ℕ} (hi : i < MCAPI_MAX_BUFFERS) (hj : j < MCAPI_MAX_BUFFERS)
    (h : validIndex i = validIndex j) : i = j := by
  rw [← bufferIndex_validIndex hi, h, bufferIndex_validIndex hj]

end MxApi
