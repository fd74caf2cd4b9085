/-
The invariant of FIFO message exchange.

At most one sender has a queue entry at a time, and at most one receiver: the
invariant speaks of where the one sender stands, `w`, where the one receiver
stands, `r`, of the messages sent so far, and of how many of them have been
received. The queue entries and the buffers are cells, claimed by the sender, by
the receiver, or by a message that is in the queue (`Party`); that the claims
are exclusive and true is what keeps the parties from writing what another one
reads.

The counters are the histories' lengths, counted twice and reduced to 32 bits,
plus one while a push or a pop is between its two steps.
-/
import MxApi.Lib.Claims
import MxApi.Lib.Section
import MxApi.Mcapi.Fifo

set_option autoImplicit false

namespace MxApi

open Lib channel_type mcapi_buffer_state mcapi_status_t

/-! ## What cells contain -/

/-- The entry is in state `st` and holds the stored index `b`. -/
def EntryIs (st : mcapi_buffer_state) (b : ℕ) (d : buffer_descriptor) : Prop :=
  d.state = st ∧ d.buff_index = b

theorem EntryIs.ne_free {st : mcapi_buffer_state} {b : ℕ} {d : buffer_descriptor}
    (h : EntryIs st b d) (hst : st ≠ BUFFER_FREE) : d.state ≠ BUFFER_FREE := by
  rw [h.1]
  exact hst

/-- The content of the message: its scalar, or its bytes. -/
def HasContent (ct : channel_type) (m : Msg) (b : buffer_entry) : Prop :=
  if ct = MCAPI_SCL_CHAN then b.scalar = m.scalar
  else ∀ k < m.buffer_size, b.buff k = m.buffer k

/-- The buffer is in use and holds the message. -/
structure Carries (ct : channel_type) (m : Msg) (b : buffer_entry) : Prop where
  marked : b.magic_num = MAGIC_NUM
  size : b.size = m.buffer_size
  content : HasContent ct m b

/-- What a receive with room for `buffer_size` bytes delivers of a message. -/
def deliver (ct : channel_type) (e : SendFrame) (buffer_size : ℕ) : Delivery where
  received_size := e.msg.buffer_size
  payload := match ct with
    | MCAPI_PKT_CHAN => .packet e.i
    | MCAPI_SCL_CHAN => .scalar e.msg.scalar
    | MCAPI_NO_CHAN =>
      .message ((List.range (min e.msg.buffer_size buffer_size)).map e.msg.buffer)

/-! ## What a sender with an entry claims -/

/-- The program points of a sender that has reserved an entry. -/
def SendPc.inside : SendPc → Bool
  | .allocBuffer .. | .unreserve .. | .setParent _ | .copy .. | .setSize _ | .setBuffIndex _
  | .casAllocated _ | .pushUpdate _ | .pushAck .. | .pushCas .. | .pushInc .. => true
  | .idle | .tailAck _ | .tailUpdate .. | .readBuffIndex .. | .checkBuffIndex .. | .casReserve ..
  | .failed => false

/-- The entry it claims. -/
def SendPc.entry : SendPc → Option (ℕ × (buffer_descriptor → Prop))
  | .allocBuffer _ q _ | .unreserve _ q => some (q, EntryIs BUFFER_RESERVED 0)
  | .setParent f | .copy f _ | .setSize f | .setBuffIndex f =>
    some (f.qindex, EntryIs BUFFER_RESERVED 0)
  | .casAllocated f => some (f.qindex, EntryIs BUFFER_RESERVED (validIndex f.i))
  | .pushUpdate f | .pushAck f _ | .pushCas f _ | .pushInc f _ =>
    some (f.qindex, EntryIs BUFFER_ALLOCATED (validIndex f.i))
  | _ => none

/-- The buffer it claims. -/
def SendPc.buf (ct : channel_type) : SendPc → Option (ℕ × (buffer_entry → Prop))
  | .setParent f => some (f.i, fun b => b.magic_num = MAGIC_NUM)
  | .copy f k => some (f.i, fun b => b.magic_num = MAGIC_NUM ∧
      (ct ≠ MCAPI_SCL_CHAN → ∀ n < k, b.buff n = f.msg.buffer n))
  | .setSize f => some (f.i, fun b => b.magic_num = MAGIC_NUM ∧ HasContent ct f.msg b)
  | .setBuffIndex f | .casAllocated f | .pushUpdate f | .pushAck f _ | .pushCas f _
  | .pushInc f _ => some (f.i, Carries ct f.msg)
  | _ => none

/-- What its locals are when `u` messages have been sent. -/
def SendPc.Ok (u : ℕ) : SendPc → Prop
  | .allocBuffer _ q _ | .unreserve _ q => q = ringSlot u
  | .setParent f | .copy f _ | .setSize f | .setBuffIndex f | .casAllocated f | .pushUpdate f =>
    f.qindex = ringSlot u ∧ f.i < MCAPI_MAX_BUFFERS
  | .pushAck f UC | .pushCas f UC | .pushInc f UC =>
    (f.qindex = ringSlot u ∧ f.i < MCAPI_MAX_BUFFERS) ∧ UC = u32 (2 * u)
  | _ => False

/-- One between the two counter steps of a push. -/
def pushing : Option SendPc → ℕ
  | some (.pushInc ..) => 1
  | _ => 0

theorem pushing_le_one (w : Option SendPc) : pushing w ≤ 1 := by
  cases w with
  | none => exact Nat.zero_le _
  | some p => cases p <;> simp [pushing]

/-! ## What a receiver with an entry claims -/

/-- The program points of a receiver that has taken the head. -/
def RecvPc.inside : RecvPc → Bool
  | .recvBuffIndex .. | .setParent .. | .readSize .. | .copy .. | .freeBuffer ..
  | .clearReserved .. | .clearBuffIndex .. | .setFree .. | .popAck .. | .popUpdate ..
  | .popCas .. | .popInc .. => true
  | .idle | .headUpdate _ | .headAck .. | .readState .. | .readBuffIndex .. | .casReceived ..
  | .failed => false

/-- The entry it claims while it receives the message `e`. -/
def RecvPc.entry (e : SendFrame) : RecvPc → Option (ℕ × (buffer_descriptor → Prop))
  | .recvBuffIndex _ q | .setParent _ q _ | .readSize _ q _ | .copy _ q _ _ _
  | .freeBuffer _ q _ _ | .clearReserved _ q _ | .clearBuffIndex _ q _ =>
    some (q, EntryIs BUFFER_RECEIVED (validIndex e.i))
  | .setFree _ q _ => some (q, EntryIs BUFFER_RECEIVED 0)
  | _ => none

/-- The buffer it claims: until it frees it, or to the end where the caller
keeps it. -/
def RecvPc.buf (ct : channel_type) (e : SendFrame) :
    RecvPc → Option (ℕ × (buffer_entry → Prop))
  | .recvBuffIndex .. | .setParent .. | .readSize .. | .copy .. | .freeBuffer .. =>
    some (e.i, Carries ct e.msg)
  | .clearReserved .. | .clearBuffIndex .. | .setFree .. | .popAck .. | .popUpdate ..
  | .popCas .. | .popInc .. =>
    if ct = MCAPI_PKT_CHAN then some (e.i, Carries ct e.msg) else none
  | _ => none

/-- What its locals are when `a` messages have been received before `e`. -/
def RecvPc.Ok (ct : channel_type) (e : SendFrame) (a : ℕ) : RecvPc → Prop
  | .recvBuffIndex _ q => q = ringSlot a
  | .setParent _ q index | .readSize _ q index => q = ringSlot a ∧ index = e.i
  | .copy f q index size data => q = ringSlot a ∧ index = e.i ∧ size = e.msg.buffer_size ∧
      data = (List.range data.length).map e.msg.buffer ∧ data.length ≤ min size f.buffer_size
  | .freeBuffer f q index d => q = ringSlot a ∧ index = e.i ∧ ct ≠ MCAPI_PKT_CHAN ∧
      d = deliver ct e f.buffer_size
  | .clearReserved f q d | .clearBuffIndex f q d | .setFree f q d =>
    q = ringSlot a ∧ d = deliver ct e f.buffer_size
  | .popAck f d | .popInc f d => d = deliver ct e f.buffer_size
  | .popUpdate f d AC | .popCas f d AC => d = deliver ct e f.buffer_size ∧ AC = u32 (2 * a)
  | _ => False

/-- One between the two counter steps of a pop. -/
def popping : Option RecvPc → ℕ
  | some (.popInc ..) => 1
  | _ => 0

/-- One while a receiver has taken the head. -/
def busy : Option RecvPc → ℕ
  | some _ => 1
  | none => 0

theorem popping_le_busy (r : Option RecvPc) : popping r ≤ busy r := by
  cases r with
  | none => exact Nat.zero_le _
  | some p => cases p <;> simp [popping, busy]

theorem busy_le_one (r : Option RecvPc) : busy r ≤ 1 := by
  cases r with
  | none => exact Nat.zero_le _
  | some p => exact Nat.le_refl _

/-! ## The claims -/

/-- Who may claim an entry or a buffer: the sender, the `n`-th message sent, the
receiver. -/
inductive Party
  | sender
  | elem (n : ℕ)
  | receiver

/-- The entries claimed. A message claims its entry from its push until the
receiver takes it. -/
def entryClaim (w : Option SendPc) (r : Option RecvPc) (sent : List SendFrame) (a : ℕ) :
    Party → Option (ℕ × (buffer_descriptor → Prop))
  | .sender => w.bind SendPc.entry
  | .elem n =>
    if a + busy r ≤ n then
      sent[n]?.map fun e => (ringSlot n, EntryIs BUFFER_ALLOCATED (validIndex e.i))
    else none
  | .receiver => r.bind fun p => sent[a]?.bind fun e => p.entry e

/-- The buffers claimed. A packet that was handed over keeps its buffer. -/
def bufClaim (ct : channel_type) (w : Option SendPc) (r : Option RecvPc) (sent : List SendFrame)
    (a : ℕ) : Party → Option (ℕ × (buffer_entry → Prop))
  | .sender => w.bind (SendPc.buf ct)
  | .elem n =>
    if a + busy r ≤ n ∨ (ct = MCAPI_PKT_CHAN ∧ n < a) then
      sent[n]?.map fun e => (e.i, Carries ct e.msg)
    else none
  | .receiver => r.bind fun p => sent[a]?.bind fun e => p.buf ct e

/-- The invariant of the shared memory, of the sender with an entry and of the
receiver with an entry, when `sent` has been sent and `a` of it received. -/
structure CoreInv (ct : channel_type) (w : Option SendPc) (r : Option RecvPc) (sh : Shared)
    (sent : List SendFrame) (a : ℕ) : Prop where
  channel : sh.q.channel_type = ct
  le : a ≤ sent.length
  bound : sent.length ≤ a + MCAPI_MAX_QUEUE_ENTRIES
  uc : sh.q.update_counter = u32 (2 * sent.length + pushing w)
  ac : sh.q.ack_counter = u32 (2 * a + popping r)
  sender : ∀ p, w = some p → p.Ok sent.length ∧
    2 * sent.length + 2 ≤ 2 * a + popping r + 2 * MCAPI_MAX_QUEUE_ENTRIES
  reader : ∀ p, r = some p → ∃ e, sent[a]? = some e ∧ p.Ok ct e a
  entries : Covers (EntryIs BUFFER_FREE 0) (entryClaim w r sent a) sh.q.elements
  bufs : Claims (bufClaim ct w r sent a) sh.buffers
  index : ∀ e ∈ sent, e.i < MCAPI_MAX_BUFFERS

/-! ## Claims exclude -/

section Exclude

variable {ct : channel_type} {w : Option SendPc} {r : Option RecvPc} {sent : List SendFrame}
  {a : ℕ}

/-- A claim on an entry is about its state, which is not free, and its buffer. -/
theorem entryClaim_is {o : Party} {j : ℕ} {P : buffer_descriptor → Prop}
    (h : entryClaim w r sent a o = some (j, P)) :
    ∃ st b, P = EntryIs st b ∧ st ≠ BUFFER_FREE := by
  cases o with
  | sender =>
    obtain ⟨p, -, hp⟩ := Option.bind_eq_some_iff.mp h
    cases p <;> cases hp <;> exact ⟨_, _, rfl, nofun⟩
  | elem n =>
    simp only [entryClaim, Option.ite_none_right_eq_some, Option.map_eq_some_iff] at h
    obtain ⟨-, e, -, he⟩ := h
    cases he
    exact ⟨_, _, rfl, nofun⟩
  | receiver =>
    obtain ⟨p, -, hp⟩ := Option.bind_eq_some_iff.mp h
    obtain ⟨e, -, he⟩ := Option.bind_eq_some_iff.mp hp
    cases p <;> cases he <;> exact ⟨_, _, rfl, nofun⟩

/-- A claimed entry is not free. -/
theorem entryClaim_state {o : Party} {j : ℕ} {P : buffer_descriptor → Prop}
    (h : entryClaim w r sent a o = some (j, P)) {d : buffer_descriptor} (hd : P d) :
    d.state ≠ BUFFER_FREE := by
  obtain ⟨st, b, rfl, hst⟩ := entryClaim_is h
  exact hd.ne_free hst

/-- A claimed buffer is in use. -/
theorem bufClaim_marked {o : Party} {i : ℕ} {P : buffer_entry → Prop}
    (h : bufClaim ct w r sent a o = some (i, P)) {b : buffer_entry} (hb : P b) :
    b.magic_num = MAGIC_NUM := by
  cases o with
  | sender =>
    obtain ⟨p, -, hp⟩ := Option.bind_eq_some_iff.mp h
    cases p <;> cases hp <;> first | exact hb | exact hb.1
  | elem n =>
    simp only [bufClaim, Option.ite_none_right_eq_some, Option.map_eq_some_iff] at h
    obtain ⟨-, e, -, he⟩ := h
    cases he
    exact hb.marked
  | receiver =>
    obtain ⟨p, -, hp⟩ := Option.bind_eq_some_iff.mp h
    obtain ⟨e, -, he⟩ := Option.bind_eq_some_iff.mp hp
    cases p <;> simp only [RecvPc.buf, Option.ite_none_right_eq_some, reduceCtorEq] at he <;>
      first
        | (cases he; exact hb.marked)
        | (cases he.2; exact hb.marked)

end Exclude

end MxApi
