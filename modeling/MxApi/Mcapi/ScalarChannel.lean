/-
Scalar channels: the sends and receives of scalars of four sizes (`mcapi_sclchan_send_uint64`
to `mcapi_sclchan_recv_uint8` of `mcapi_abb.c`, `Fragments/transport_sm_sclchan_abb.c`), any
sequence of them on one channel.

A receive asks for a size, but takes the scalar at the head of the queue before it looks at
the size: a scalar of another size is reported as an error and is lost. What the calls are
to do is said on the list of the scalars that are in the queue ([`scalars`]), which is read
off the memory.
-/
import MxApi.Mcapi.CheckedCalls
import MxApi.Mcapi.FifoQueue

set_option autoImplicit false

namespace MxApi.Calls

open Lib Transfers channel_type mcapi_buffer_state mcapi_status_t mcapi_buffer_type

/-! ## The calls -/

inductive ScalarSize
  | uint8
  | uint16
  | uint32
  | uint64
  deriving DecidableEq

namespace ScalarSize

/-- `exp_size` -/
def bytes : ScalarSize → ℕ
  | uint8 => 1
  | uint16 => 2
  | uint32 => 4
  | uint64 => 8

/-- The conversion of a `uint64_t` to this type, and back. -/
def truncate : ScalarSize → UInt64 → UInt64
  | uint8, v => v.toUInt8.toUInt64
  | uint16, v => v.toUInt16.toUInt64
  | uint32, v => v.toUInt32.toUInt64
  | uint64, v => v

theorem truncate_truncate (k : ScalarSize) (v : UInt64) :
    k.truncate (k.truncate v) = k.truncate v := by
  cases k with
  | uint8 => exact congrArg UInt8.toUInt64 (UInt8.toUInt8_toUInt64 _)
  | uint16 => exact congrArg UInt16.toUInt64 (UInt16.toUInt16_toUInt64 _)
  | uint32 => exact congrArg UInt32.toUInt64 (UInt32.toUInt32_toUInt64 _)
  | uint64 => rfl

theorem bytes_inj {k k' : ScalarSize} (h : k.bytes = k'.bytes) : k = k' := by
  cases k <;> cases k' <;> first | rfl | cases h

end ScalarSize

/-- What is handed to the transport: no buffer, the size and the scalar. -/
def scalarMsg (k : ScalarSize) (dataword : UInt64) : Msg :=
  ⟨fun _ => 0, k.bytes, k.truncate dataword, by cases k <;> decide⟩

/-- `*data` after the deliveries; it was `0` before. -/
def dataword (deliveries : List Delivery) : UInt64 :=
  match deliveries.getLast? with
  | some ⟨_, .scalar value⟩ => value
  | _ => 0

section

variable (w : World)

def mcapi_trans_valid_sclchan_send_handle (handle : ℕ) : Bool :=
  (mcapi_trans_decode_handle handle).any fun p =>
    decide ((w.endpoints p).recv_queue.channel_type = MCAPI_SCL_CHAN)

def mcapi_trans_valid_sclchan_recv_handle (handle : ℕ) : Bool :=
  (mcapi_trans_decode_handle handle).any fun p =>
    decide ((w.endpoints p).recv_queue.channel_type = MCAPI_SCL_CHAN)

/-- The common form of the sends. -/
def sclchanSend (k : ScalarSize) (send_handle : ℕ) (dataword : UInt64) :
    Option (World × Status) :=
  if !mcapi_trans_valid_sclchan_send_handle w send_handle then some (w, .MCAPI_ERR_CHAN_INVALID)
  else
    (mcapi_trans_sclchan_send w send_handle (scalarMsg k dataword)).map fun t =>
      (t.1, if t.2 then .MCAPI_SUCCESS else .MCAPI_ERR_MEM_LIMIT)

def mcapi_sclchan_send_uint64 := sclchanSend w .uint64

def mcapi_sclchan_send_uint32 := sclchanSend w .uint32

def mcapi_sclchan_send_uint16 := sclchanSend w .uint16

def mcapi_sclchan_send_uint8 := sclchanSend w .uint8

/-- The common form of the receives; the returned value is that of `dataword`. -/
def sclchanRecv (fuel : ℕ) (k : ScalarSize) (receive_handle : ℕ) :
    Option (World × Status × UInt64) :=
  if !mcapi_trans_valid_sclchan_recv_handle w receive_handle then
    some (w, .MCAPI_ERR_CHAN_INVALID, 0)
  else
    -- nobody else does anything while the call waits
    (mcapi_trans_sclchan_recv (fun _ w => w) fuel w receive_handle k.bytes).map fun x =>
      (x.world, if x.rc then .MCAPI_SUCCESS else .MCAPI_ERR_SCL_SIZE,
        k.truncate (dataword x.deliveries))

def mcapi_sclchan_recv_uint64 (fuel : ℕ) := sclchanRecv w fuel .uint64

def mcapi_sclchan_recv_uint32 (fuel : ℕ) := sclchanRecv w fuel .uint32

def mcapi_sclchan_recv_uint16 (fuel : ℕ) := sclchanRecv w fuel .uint16

def mcapi_sclchan_recv_uint8 (fuel : ℕ) := sclchanRecv w fuel .uint8

end

/-! ## Sequences of calls on one channel -/

/-- A channel: its handles, and the places of its ends. -/
structure ScalarChannel where
  send_handle : ℕ
  receive_handle : ℕ
  se : Place
  re : Place

/-- The channel is connected and opened. -/
structure ScalarChannel.Open (c : ScalarChannel) (w : World) : Prop where
  send_end : mcapi_trans_decode_handle c.send_handle = some c.se
  receive_end : mcapi_trans_decode_handle c.receive_handle = some c.re
  joined : (w.endpoints c.se).recv_endpt = c.receive_handle
  send_type : (w.endpoints c.se).recv_queue.channel_type = MCAPI_SCL_CHAN
  receive_type : (w.endpoints c.re).recv_queue.channel_type = MCAPI_SCL_CHAN

/-- Both ends have FIFO buffers. -/
structure ScalarChannel.Fifo (c : ScalarChannel) (w : World) : Prop where
  send_buffers : (w.endpoints c.se).buffer_type = MCAPI_ENDP_ATTR_FIFO_BUFFER
  receive_buffers : (w.endpoints c.re).buffer_type = MCAPI_ENDP_ATTR_FIFO_BUFFER

/-- A call of the application on a channel. -/
inductive ScalarCall
  | send (k : ScalarSize) (dataword : UInt64)
  | recv (k : ScalarSize)
  deriving DecidableEq

/-- A call that returned: the memory around it, its status, and the value of a receive. -/
structure ScalarReply where
  call : ScalarCall
  before : World
  after : World
  status : Status
  value : UInt64

/-- `none` if the call does not return. -/
def ScalarCall.perform (c : ScalarChannel) (fuel : ℕ) (w : World) (call : ScalarCall) :
    Option ScalarReply :=
  match call with
  | .send k dataword =>
    let sent := match k with
      | .uint64 => mcapi_sclchan_send_uint64 w c.send_handle dataword
      | .uint32 => mcapi_sclchan_send_uint32 w c.send_handle dataword
      | .uint16 => mcapi_sclchan_send_uint16 w c.send_handle dataword
      | .uint8 => mcapi_sclchan_send_uint8 w c.send_handle dataword
    sent.map fun t => ⟨call, w, t.1, t.2, 0⟩
  | .recv k =>
    let received := match k with
      | .uint64 => mcapi_sclchan_recv_uint64 w fuel c.receive_handle
      | .uint32 => mcapi_sclchan_recv_uint32 w fuel c.receive_handle
      | .uint16 => mcapi_sclchan_recv_uint16 w fuel c.receive_handle
      | .uint8 => mcapi_sclchan_recv_uint8 w fuel c.receive_handle
    received.map fun t => ⟨call, w, t.1, t.2.1, t.2.2⟩

/-- The memory, and the calls that returned. -/
structure ScalarRun where
  w : World
  replies : List ScalarReply

/-- The next call of the sequence, with fuel for its waits. -/
def scalarStep (c : ScalarChannel) (s : ScalarRun) (a : ℕ × ScalarCall) : Option ScalarRun :=
  (a.2.perform c a.1 s.w).map fun r => ⟨r.after, s.replies ++ [r]⟩

/-! ## What the calls are to do -/

/-- The buffers of the elements of the queue, from the head on. -/
def queuedBuffers (sh : Shared) : List buffer_entry :=
  (List.range (mcapi_trans_queue_elements sh.q)).map fun k =>
    let qindex := qindexOf (u32 (lastCompleted sh.q.ack_counter + 2 * k))
    sh.buffers (bufferIndex (sh.q.elements qindex).buff_index)

/-- The scalars that are pending on the channel, each with its size. -/
def scalars (c : ScalarChannel) (w : World) : List (ℕ × UInt64) :=
  (queuedBuffers (w.shared c.re)).map fun b => (b.size, b.scalar)

/-- A send adds the scalar at the end, truncated to its size, or fails and adds nothing. A
receive of the size of the first scalar returns that one and removes it, and one of another
size reports the error and leaves it. -/
def ScalarReply.Right (c : ScalarChannel) (r : ScalarReply) : Prop :=
  match r.call with
  | .send k dataword =>
    if r.status = .MCAPI_SUCCESS then
      scalars c r.after = scalars c r.before ++ [(k.bytes, k.truncate dataword)]
    else scalars c r.after = scalars c r.before
  | .recv k =>
    ∃ size value rest, scalars c r.before = (size, value) :: rest ∧
      if size = k.bytes then
        r.status = .MCAPI_SUCCESS ∧ r.value = value ∧ scalars c r.after = rest
      else r.status = .MCAPI_ERR_SCL_SIZE ∧ scalars c r.after = scalars c r.before

/-- A receive asks for the size of the first scalar. -/
def ScalarReply.Matches (c : ScalarChannel) (r : ScalarReply) : Prop :=
  match r.call with
  | .send .. => True
  | .recv k => (scalars c r.before).head?.map Prod.fst = some k.bytes

/-! ## The queue and the list -/

section

variable {c : ScalarChannel} {w w' : World} {sh : Shared} {ct : channel_type}
  {pending : List SendFrame} {x : SendFrame} {a fuel : ℕ} {k : ScalarSize} {v : UInt64}

/-- A scalar as it is in the queue. -/
def scalarOf (x : SendFrame) : ℕ × UInt64 := (x.msg.buffer_size, x.msg.scalar)

theorem scalars_eq (h : FifoQueue MCAPI_SCL_CHAN (w.shared c.re) pending a) :
    scalars c w = pending.map scalarOf := by
  rw [scalars, queuedBuffers, h.queue_elements, List.map_map]
  apply List.ext_getElem
  · rw [List.length_map, List.length_range, List.length_map]
  · intro n hn hn'
    rw [List.length_map, List.length_range] at hn
    have hmem := List.getElem_mem hn
    have hslot : qindexOf (u32 (lastCompleted (w.shared c.re).q.ack_counter + 2 * n)) =
        ringSlot (a + n) := by
      have hposition : u32 (u32 (2 * a) + 2 * n) = u32 (2 * (a + n)) := by
        unfold u32
        omega
      rw [h.ac, lastCompleted_even, hposition, qindexOf_u32]
    have hcarries := h.carries _ hmem
    have hcontent := hcarries.content
    rw [HasContent, if_pos rfl] at hcontent
    have hentry := h.entry n _ (List.getElem?_eq_getElem hn)
    simp only [List.getElem_map, List.getElem_range, Function.comp_apply, hslot, hentry.2,
      bufferIndex_validIndex (h.in_pool _ hmem), scalarOf, hcarries.size, hcontent]

/-- The waiting receive takes the first scalar at once. -/
theorem recvPolls_cons (h : FifoQueue MCAPI_SCL_CHAN (w.shared c.re) (x :: pending) a)
    (size n : ℕ) {t : World × Delivery}
    (hpolls : recvPolls (fun _ w => w) c.re size fuel n w = some t) :
    ∃ sh', t = (w.setShared c.re sh', ⟨x.msg.buffer_size, .scalar x.msg.scalar⟩) ∧
      FifoQueue MCAPI_SCL_CHAN sh' pending (a + 1) := by
  cases fuel with
  | zero => cases hpolls
  | succ fuel =>
    obtain ⟨sh', hrecv, -, hqueue⟩ := h.recv_cons size
    simp only [recvPolls, hrecv, Option.some.injEq] at hpolls
    exact ⟨sh', hpolls.symm, hqueue⟩

/-- On an empty queue it waits for ever. -/
theorem recvPolls_nil (h : FifoQueue MCAPI_SCL_CHAN (w.shared c.re) [] a) (size fuel n : ℕ) :
    recvPolls (fun _ w => w) c.re size fuel n w = none := by
  induction fuel generalizing n with
  | zero => rfl
  | succ fuel ih =>
    simp only [recvPolls, h.recv_nil size, World.setShared_shared]
    exact ih (n + 1)

end

/-! ## The steps -/

/-- The channel stays open while only the queue of its receiving end moves. -/
theorem ScalarChannel.Open.setShared {c : ScalarChannel} {w : World} {sh : Shared}
    (h : c.Open w) (hct : sh.q.channel_type = MCAPI_SCL_CHAN) : c.Open (w.setShared c.re sh) := by
  refine ⟨h.send_end, h.receive_end, ?_, ?_, ?_⟩
  · by_cases hse : c.se = c.re
    · have hjoined := h.joined
      rw [hse] at hjoined ⊢
      rw [World.endpoints_setShared_self]
      exact hjoined
    · rw [World.endpoints_setShared_of_ne _ _ _ hse]
      exact h.joined
  · by_cases hse : c.se = c.re
    · rw [hse, World.endpoints_setShared_self]
      exact hct
    · rw [World.endpoints_setShared_of_ne _ _ _ hse]
      exact h.send_type
  · rw [World.endpoints_setShared_self]
    exact hct

theorem World.buffer_type_setShared (w : World) (p p' : Place) (sh : Shared) :
    ((w.setShared p sh).endpoints p').buffer_type = (w.endpoints p').buffer_type := by
  by_cases hp : p' = p
  · rw [hp, World.endpoints_setShared_self]
  · rw [World.endpoints_setShared_of_ne _ _ _ hp]

/-- The invariant of a sequence on a channel with FIFO buffers. -/
structure ScalarInv (c : ScalarChannel) (w : World) : Prop where
  opened : c.Open w
  fifo : c.Fifo w
  queue : ∃ pending a, FifoQueue MCAPI_SCL_CHAN (w.shared c.re) pending a ∧
    ∀ x ∈ pending, ∃ k v, x.msg = scalarMsg k v

namespace ScalarInv

variable {c : ScalarChannel} {w w' : World} {r : ScalarReply} {fuel : ℕ} {k : ScalarSize}
  {v : UInt64}

theorem setShared (h : ScalarInv c w) {sh : Shared} {pending : List SendFrame} {a : ℕ}
    (hqueue : FifoQueue MCAPI_SCL_CHAN sh pending a)
    (hscalars : ∀ x ∈ pending, ∃ k v, x.msg = scalarMsg k v) :
    ScalarInv c (w.setShared c.re sh) where
  opened := h.opened.setShared hqueue.channel
  fifo := by
    constructor
    · rw [World.buffer_type_setShared]
      exact h.fifo.send_buffers
    · rw [World.buffer_type_setShared]
      exact h.fifo.receive_buffers
  queue := by
    refine ⟨pending, a, ?_, hscalars⟩
    rw [World.shared_setShared]
    exact hqueue

theorem perform_send (h : ScalarInv c w)
    (hperform : (ScalarCall.send k v).perform c fuel w = some r) :
    ScalarInv c r.after ∧ r.Right c := by
  obtain ⟨pending, a, hqueue, hscalars⟩ := h.queue
  have hvalid : mcapi_trans_valid_sclchan_send_handle w c.send_handle = true := by
    simp only [mcapi_trans_valid_sclchan_send_handle, h.opened.send_end, Option.any_some,
      h.opened.send_type, decide_true]
  have hsent : (sclchanSend w k c.send_handle v).map
      (fun t => (⟨.send k v, w, t.1, t.2, 0⟩ : ScalarReply)) = some r := by
    cases k <;> exact hperform
  simp only [sclchanSend, hvalid, Bool.not_true, Bool.false_eq_true, if_false,
    mcapi_trans_sclchan_send, h.opened.send_end, h.opened.joined, h.opened.receive_end,
    h.fifo.send_buffers, Option.map_map, Option.map_eq_some_iff] at hsent
  obtain ⟨⟨sh, ok⟩, hsend, rfl⟩ := hsent
  simp only [Function.comp_apply, ScalarReply.Right]
  rcases hqueue.send hsend with ⟨rfl, i, -, -, hqueue'⟩ | ⟨rfl, rfl⟩
  · refine ⟨h.setShared hqueue' fun x hx => ?_, ?_⟩
    · rcases List.mem_append.mp hx with hx | hx
      · exact hscalars x hx
      · rw [List.mem_singleton.mp hx]
        exact ⟨k, v, rfl⟩
    rw [if_pos rfl, if_pos rfl, scalars_eq hqueue]
    have hafter := scalars_eq (c := c) (w := w.setShared c.re sh)
      (by rw [World.shared_setShared]; exact hqueue')
    rw [hafter, List.map_append]
    rfl
  · rw [World.setShared_shared]
    refine ⟨h, ?_⟩
    rw [if_neg Bool.false_ne_true, if_neg nofun]

/-- What a receive does: it takes the first scalar, whatever its size is. A scalar of the
right size was truncated to it when it was sent. -/
theorem perform_recv (h : ScalarInv c w)
    (hperform : (ScalarCall.recv k).perform c fuel w = some r) :
    ScalarInv c r.after ∧ r.call = .recv k ∧ ∃ size value rest,
      scalars c r.before = (size, value) :: rest ∧ scalars c r.after = rest ∧
      r.status = (if size = k.bytes then .MCAPI_SUCCESS else .MCAPI_ERR_SCL_SIZE) ∧
      (size = k.bytes → r.value = value) := by
  obtain ⟨pending, a, hqueue, hscalars⟩ := h.queue
  have hvalid : mcapi_trans_valid_sclchan_recv_handle w c.receive_handle = true := by
    simp only [mcapi_trans_valid_sclchan_recv_handle, h.opened.receive_end, Option.any_some,
      h.opened.receive_type, decide_true]
  have hreceived : (sclchanRecv w fuel k c.receive_handle).map
      (fun t => (⟨.recv k, w, t.1, t.2.1, t.2.2⟩ : ScalarReply)) = some r := by
    cases k <;> exact hperform
  simp only [sclchanRecv, hvalid, Bool.not_true, Bool.false_eq_true, if_false,
    mcapi_trans_sclchan_recv, h.opened.receive_end, h.fifo.receive_buffers, Option.map_map,
    Option.map_eq_some_iff] at hreceived
  obtain ⟨t, hpolls, rfl⟩ := hreceived
  cases pending with
  | nil =>
    rw [recvPolls_nil hqueue] at hpolls
    cases hpolls
  | cons x pending =>
    obtain ⟨sh', rfl, hqueue'⟩ := recvPolls_cons hqueue _ _ hpolls
    have hafter := scalars_eq (c := c) (w := w.setShared c.re sh')
      (by rw [World.shared_setShared]; exact hqueue')
    refine ⟨h.setShared hqueue' fun y hy => hscalars y (List.mem_cons_of_mem _ hy), rfl,
      x.msg.buffer_size, x.msg.scalar, pending.map scalarOf, scalars_eq hqueue, hafter, ?_,
      fun hsize => ?_⟩
    · simp only [Function.comp_apply, decide_eq_true_eq]
    · obtain ⟨k', v, hmsg⟩ := hscalars x List.mem_cons_self
      rw [hmsg] at hsize ⊢
      obtain rfl := ScalarSize.bytes_inj hsize
      exact k'.truncate_truncate v

end ScalarInv

section

variable {c : ScalarChannel} {s s' : ScalarRun} {r : ScalarReply} {fuel : ℕ} {call : ScalarCall}

theorem perform_call (h : call.perform c fuel s.w = some r) : r.call = call ∧ r.before = s.w := by
  cases call with
  | send =>
    obtain ⟨t, -, rfl⟩ := Option.map_eq_some_iff.mp h
    exact ⟨rfl, rfl⟩
  | recv =>
    obtain ⟨t, -, rfl⟩ := Option.map_eq_some_iff.mp h
    exact ⟨rfl, rfl⟩

/-- A reply is right if the size asked for is that of the first scalar, and only then:
otherwise the scalar is gone. -/
theorem ScalarInv.reply (h : ScalarInv c s.w) (hperform : call.perform c fuel s.w = some r) :
    ScalarInv c r.after ∧ (r.Right c ↔ r.Matches c) := by
  cases call with
  | send k v =>
    obtain ⟨hinv, hright⟩ := h.perform_send hperform
    refine ⟨hinv, iff_of_true hright ?_⟩
    rw [ScalarReply.Matches, (perform_call hperform).1]
    trivial
  | recv k =>
    obtain ⟨hinv, hcall, size, value, rest, hbefore, hafter, hstatus, hvalue⟩ :=
      h.perform_recv hperform
    refine ⟨hinv, ?_⟩
    simp only [ScalarReply.Right, ScalarReply.Matches, hcall, hbefore, List.head?_cons,
      Option.map_some, Option.some.injEq]
    constructor
    · rintro ⟨size', value', rest', heq, hif⟩
      obtain ⟨hhead, rfl⟩ := List.cons.inj heq
      obtain ⟨rfl, rfl⟩ := Prod.mk.inj hhead
      by_contra hsize
      rw [if_neg hsize, hafter] at hif
      exact absurd hif.2.symm (List.cons_ne_self _ _)
    · intro hsize
      refine ⟨size, value, rest, rfl, ?_⟩
      rw [if_pos hsize] at hstatus ⊢
      exact ⟨hstatus, hvalue hsize, hafter⟩

/-- **The replies of a sequence are right if and only if each receive asks for the size of
the scalar that is first then**, for every sequence of sends and receives on a channel whose
queue was empty at first. -/
theorem scalars_right_iff {w : World} (hopen : c.Open w) (hfifo : c.Fifo w)
    (hempty : (w.endpoints c.re).recv_queue = queue.zero MCAPI_SCL_CHAN)
    (hrun : Run (scalarStep c) (fun _ _ _ => True) ⟨w, []⟩ s) :
    (∀ r ∈ s.replies, r.Right c) ↔ ∀ r ∈ s.replies, r.Matches c := by
  have hstart : ScalarInv c w := by
    refine ⟨hopen, hfifo, [], 0, ?_, by simp⟩
    rw [World.shared, hempty]
    exact .zero _ _
  obtain ⟨-, hreplies⟩ := hrun.invariant
    (I := fun s => ScalarInv c s.w ∧ ∀ r ∈ s.replies, r.Right c ↔ r.Matches c)
    (fun s a s' hs hmove _ => by
      obtain ⟨hinv, hreplies⟩ := hs
      obtain ⟨r, hperform, rfl⟩ := Option.map_eq_some_iff.mp hmove
      obtain ⟨hinv', hiff⟩ := hinv.reply hperform
      refine ⟨hinv', fun r' hr' => ?_⟩
      rcases List.mem_append.mp hr' with hr' | hr'
      · exact hreplies r' hr'
      · rw [List.mem_singleton.mp hr']
        exact hiff) ⟨hstart, by simp⟩
  exact forall₂_congr hreplies

/-! ## In send order -/

/-- The scalar that a send added. -/
def ScalarReply.added (r : ScalarReply) : List (ℕ × UInt64) :=
  match r.call with
  | .send k dataword =>
    if r.status = .MCAPI_SUCCESS then [(k.bytes, k.truncate dataword)] else []
  | .recv _ => []

/-- The scalar that a receive returned. -/
def ScalarReply.returned (r : ScalarReply) : List (ℕ × UInt64) :=
  match r.call with
  | .send .. => []
  | .recv k => if r.status = .MCAPI_SUCCESS then [(k.bytes, r.value)] else []

/-- A right reply moves what it says, and nothing else. -/
theorem ScalarReply.Right.balance (h : r.Right c) :
    scalars c r.before ++ r.added = r.returned ++ scalars c r.after := by
  unfold Right at h
  unfold added returned
  split at h
  · simp only [List.nil_append]
    split at h
    · rename_i hstatus
      rw [if_pos hstatus, h]
    · rename_i hstatus
      rw [if_neg hstatus, h, List.append_nil]
  · obtain ⟨size, value, rest, hbefore, hif⟩ := h
    rw [List.append_nil]
    split at hif
    · rename_i hsize
      obtain ⟨hstatus, hvalue, hafter⟩ := hif
      rw [if_pos hstatus, hbefore, hafter, hvalue, hsize]
      rfl
    · obtain ⟨hstatus, hafter⟩ := hif
      rw [if_neg (by rw [hstatus]; nofun), hafter, List.nil_append]

/-- Where all replies are right, the scalars returned and those pending are the scalars
sent, in this order. -/
theorem scalars_in_order {w : World}
    (hempty : (w.endpoints c.re).recv_queue = queue.zero MCAPI_SCL_CHAN)
    (hrun : Run (scalarStep c) (fun _ _ _ => True) ⟨w, []⟩ s)
    (hright : ∀ r ∈ s.replies, r.Right c) :
    s.replies.flatMap ScalarReply.added =
      s.replies.flatMap ScalarReply.returned ++ scalars c s.w := by
  refine hrun.invariant (I := fun s => (∀ r ∈ s.replies, r.Right c) →
    s.replies.flatMap ScalarReply.added =
      s.replies.flatMap ScalarReply.returned ++ scalars c s.w) ?_ ?_ hright
  · intro s a s' hs hmove _ hright'
    obtain ⟨r, hperform, rfl⟩ := Option.map_eq_some_iff.mp hmove
    have hbalance := (hright' r (List.mem_append_right _ (List.mem_singleton_self r))).balance
    rw [(perform_call hperform).2] at hbalance
    have hold := hs fun r' hr' => hright' r' (List.mem_append_left _ hr')
    simp only [List.flatMap_append, List.flatMap_cons, List.flatMap_nil, List.append_nil]
    rw [hold, List.append_assoc, hbalance, List.append_assoc]
  · intro _
    have hqueue : FifoQueue MCAPI_SCL_CHAN (w.shared c.re) [] 0 := by
      rw [World.shared, hempty]
      exact .zero _ _
    exact (scalars_eq hqueue).symm

/-- The scalar that a receive took, of whatever size. -/
def ScalarReply.taken (c : ScalarChannel) (r : ScalarReply) : List (ℕ × UInt64) :=
  match r.call with
  | .send .. => []
  | .recv _ => (scalars c r.before).take 1

theorem ScalarInv.balance (h : ScalarInv c s.w) (hperform : call.perform c fuel s.w = some r) :
    scalars c r.before ++ r.added = r.taken c ++ scalars c r.after := by
  unfold ScalarReply.taken
  cases call with
  | send k v =>
    have hbalance := (h.perform_send hperform).2.balance
    unfold ScalarReply.returned at hbalance
    rw [(perform_call hperform).1] at hbalance ⊢
    exact hbalance
  | recv k =>
    obtain ⟨-, hcall, size, value, rest, hbefore, hafter, -⟩ := h.perform_recv hperform
    rw [ScalarReply.added, hcall, hbefore, hafter, List.append_nil]
    rfl

/-- **Every scalar is taken once**, in the order of the sends. -/
theorem scalars_taken_once {w : World} (hopen : c.Open w) (hfifo : c.Fifo w)
    (hempty : (w.endpoints c.re).recv_queue = queue.zero MCAPI_SCL_CHAN)
    (hrun : Run (scalarStep c) (fun _ _ _ => True) ⟨w, []⟩ s) :
    s.replies.flatMap ScalarReply.added =
      s.replies.flatMap (ScalarReply.taken c) ++ scalars c s.w := by
  have hqueue : FifoQueue MCAPI_SCL_CHAN (w.shared c.re) [] 0 := by
    rw [World.shared, hempty]
    exact .zero _ _
  refine (hrun.invariant (I := fun s => ScalarInv c s.w ∧ s.replies.flatMap ScalarReply.added =
    s.replies.flatMap (ScalarReply.taken c) ++ scalars c s.w) ?_ ?_).2
  · rintro s a s' ⟨hinv, hs⟩ hmove -
    obtain ⟨r, hperform, rfl⟩ := Option.map_eq_some_iff.mp hmove
    have hbalance := hinv.balance hperform
    rw [(perform_call hperform).2] at hbalance
    refine ⟨(hinv.reply hperform).1, ?_⟩
    simp only [List.flatMap_append, List.flatMap_cons, List.flatMap_nil, List.append_nil]
    rw [hs, List.append_assoc, hbalance, List.append_assoc]
  · exact ⟨⟨hopen, hfifo, [], 0, hqueue, by simp⟩, (scalars_eq hqueue).symm⟩

end

/-! ## Two sequences -/

/-- Two endpoints of a scalar channel: `0` sends to `1`. -/
def scalarWorld : World where
  domains _ := true
  nodes _ _ := true
  endpoints _ := ⟨true, MCAPI_ENDP_ATTR_FIFO_BUFFER, 1, 1, queue.zero MCAPI_SCL_CHAN⟩
  buffers _ := .zero
  requests _ := ⟨.REQUEST_FREE, .OTHER, 0, 0, .MCAPI_SUCCESS, -1, false⟩

def scalarChannel : ScalarChannel := ⟨0, 1, (0, 0, 0), (0, 0, 1)⟩

theorem scalarChannel_open : scalarChannel.Open scalarWorld :=
  ⟨by decide, by decide, rfl, rfl, rfl⟩

/-- Whether a receive asks for the size of the first scalar. -/
def ScalarReply.matches (c : ScalarChannel) (r : ScalarReply) : Bool :=
  match r.call with
  | .send .. => true
  | .recv k => decide ((scalars c r.before).head?.map Prod.fst = some k.bytes)

/-- Two scalars are sent and received. -/
theorem two_scalars_received : ∃ s : ScalarRun,
    s.replies.flatMap ScalarReply.returned = [(4, 70000), (1, 255)] ∧
      ∀ r ∈ s.replies, r.Right scalarChannel := by
  have hexec : (exec (scalarStep scalarChannel) (fun _ _ _ => true) ⟨scalarWorld, []⟩
      [(0, .send .uint32 70000), (0, .send .uint8 511), (1, .recv .uint32),
        (1, .recv .uint8)]).any
      (fun s => decide (s.replies.flatMap ScalarReply.returned = [(4, 70000), (1, 255)]) &&
        s.replies.all (ScalarReply.matches scalarChannel)) = true := by
    decide +kernel
  obtain ⟨s, hrun, hs⟩ := exec_run_of_any hexec
  rw [Bool.and_eq_true, decide_eq_true_eq] at hs
  obtain ⟨hreturned, hall⟩ := hs
  refine ⟨s, hreturned, (scalars_right_iff scalarChannel_open ⟨rfl, rfl⟩ rfl
    (hrun.mono fun _ _ _ _ => trivial)).mpr fun r hr => ?_⟩
  have hmatches := List.all_eq_true.mp hall r hr
  unfold ScalarReply.matches at hmatches
  unfold ScalarReply.Matches
  split at hmatches
  · trivial
  · exact of_decide_eq_true hmatches

/-- A scalar of 32 bits is lost to a receive of 8 bits. -/
theorem mismatched_scalar_lost : ¬ ∀ (c : ScalarChannel) (w : World) (s : ScalarRun),
    c.Open w → c.Fifo w → (w.endpoints c.re).recv_queue = queue.zero MCAPI_SCL_CHAN →
      Run (scalarStep c) (fun _ _ _ => True) ⟨w, []⟩ s → ∀ r ∈ s.replies, r.Right c := by
  intro hall
  have hexec : (exec (scalarStep scalarChannel) (fun _ _ _ => true) ⟨scalarWorld, []⟩
      [(0, .send .uint32 70000), (1, .recv .uint8)]).any
      (fun s => s.replies.any fun r => decide (r.call = .recv .uint8) &&
        decide (scalars scalarChannel r.before = [(4, 70000)]) &&
        decide (scalars scalarChannel r.after = [])) = true := by
    decide +kernel
  obtain ⟨s, hrun, hs⟩ := exec_run_of_any hexec
  obtain ⟨r, hr, hdone⟩ := List.any_eq_true.mp hs
  simp only [Bool.and_eq_true, decide_eq_true_eq] at hdone
  obtain ⟨⟨hcall, hbefore⟩, hafter⟩ := hdone
  have hright := hall _ _ s scalarChannel_open ⟨rfl, rfl⟩ rfl
    (hrun.mono fun _ _ _ _ => trivial) r hr
  simp only [ScalarReply.Right, hcall, hbefore, hafter] at hright
  obtain ⟨size, value, rest, heq, hif⟩ := hright
  obtain ⟨hhead, -⟩ := List.cons.inj heq
  obtain ⟨rfl, -⟩ := Prod.mk.inj hhead
  rw [if_neg (by decide)] at hif
  cases hif.2

/-- Of two scalars, one is taken by a receive of another size and one is pending. -/
theorem mismatched_scalar_taken : ∃ s : ScalarRun, scalars scalarChannel s.w = [(1, 255)] ∧
    s.replies.flatMap ScalarReply.added =
      s.replies.flatMap (ScalarReply.taken scalarChannel) ++ scalars scalarChannel s.w := by
  have hexec : (exec (scalarStep scalarChannel) (fun _ _ _ => true) ⟨scalarWorld, []⟩
      [(0, .send .uint32 70000), (0, .send .uint8 511), (1, .recv .uint8)]).any
      (fun s => decide (scalars scalarChannel s.w = [(1, 255)])) = true := by
    decide +kernel
  obtain ⟨s, hrun, hs⟩ := exec_run_of_any hexec
  exact ⟨s, of_decide_eq_true hs, scalars_taken_once scalarChannel_open ⟨rfl, rfl⟩ rfl
    (hrun.mono fun _ _ _ _ => trivial)⟩

end MxApi.Calls
