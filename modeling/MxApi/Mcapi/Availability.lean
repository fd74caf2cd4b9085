/-
How many messages, packets or scalars are available (`mcapi_trans_msg_available`,
`mcapi_trans_pktchan_available` and `mcapi_trans_sclchan_available_i`, with
`mcapi_msg_available`, `mcapi_pktchan_available` and `mcapi_sclchan_available` of
`mcapi_abb.c`).

The count is that of the elements of the queue. It is compared with the receives that would
be served at once, one after the other ([`Serves`]), after any sequence of calls of one
client on endpoints with FIFO buffers.

A receive takes the first element, whether its entry is reserved for a request that waits
or not. So the messages that are due to such requests are among those counted.
-/
import Mathlib.Data.Finset.Card
import MxApi.Mcapi.FifoWorld
import MxApi.Mcapi.InvalidEndpoints
import MxApi.Mcapi.ScalarChannel

set_option autoImplicit false

namespace MxApi.Calls

open Lib Transfers channel_type mcapi_buffer_state mcapi_status_t mcapi_request_state
  mcapi_request_type mcapi_buffer_type

/-! ## The calls -/

section

variable (w : World)

def mcapi_trans_msg_available (receive_endpoint : ℕ) : Option ℕ :=
  (mcapi_trans_decode_handle receive_endpoint).map fun p =>
    mcapi_trans_queue_elements (w.endpoints p).recv_queue

def mcapi_trans_pktchan_available (receive_handle : ℕ) : Option ℕ :=
  (mcapi_trans_decode_handle receive_handle).map fun p =>
    mcapi_trans_queue_elements (w.endpoints p).recv_queue

def mcapi_trans_sclchan_available_i (receive_handle : ℕ) : Option ℕ :=
  (mcapi_trans_decode_handle receive_handle).map fun p =>
    mcapi_trans_queue_elements (w.endpoints p).recv_queue

def mcapi_msg_available (receive_endpoint : ℕ) : Option (ℕ × Status) :=
  if !mcapi_trans_valid_endpoint w receive_endpoint then some (0, .MCAPI_ERR_ENDP_INVALID)
  else (mcapi_trans_msg_available w receive_endpoint).map fun num => (num, .MCAPI_SUCCESS)

def mcapi_pktchan_available (receive_handle : ℕ) : Option (ℕ × Status) :=
  if !mcapi_trans_valid_pktchan_recv_handle w receive_handle then
    some (0, .MCAPI_ERR_CHAN_INVALID)
  else (mcapi_trans_pktchan_available w receive_handle).map fun num => (num, .MCAPI_SUCCESS)

def mcapi_sclchan_available (receive_handle : ℕ) : Option (ℕ × Status) :=
  if !mcapi_trans_valid_sclchan_recv_handle w receive_handle then
    some (0, .MCAPI_ERR_CHAN_INVALID)
  else (mcapi_trans_sclchan_available_i w receive_handle).map fun num => (num, .MCAPI_SUCCESS)

end

/-- What is received. -/
inductive Incoming
  | msg
  | pktchan
  | sclchan

namespace Incoming

def channel_type : Incoming → MxApi.channel_type
  | msg => MCAPI_NO_CHAN
  | pktchan => MCAPI_PKT_CHAN
  | sclchan => MCAPI_SCL_CHAN

def valid (w : World) : Incoming → ℕ → Bool
  | msg => mcapi_trans_valid_endpoint w
  | pktchan => mcapi_trans_valid_pktchan_recv_handle w
  | sclchan => mcapi_trans_valid_sclchan_recv_handle w

def available (w : World) : Incoming → ℕ → Option (ℕ × Status)
  | msg => mcapi_msg_available w
  | pktchan => mcapi_pktchan_available w
  | sclchan => mcapi_sclchan_available w

/-- A receive operation, and what it hands to its caller at once. A receive of scalars that
does not find one when it looks for the first time waits. -/
def receive (w : World) (rand size : ℕ) : Incoming → ℕ → Option (World × Option Delivery)
  | msg, handle =>
    (mcapi_trans_msg_recv_i w rand handle size 0 .MCAPI_SUCCESS).map fun c =>
      (c.world, c.delivery)
  | pktchan, handle =>
    (mcapi_trans_pktchan_recv_i w rand handle 0 .MCAPI_SUCCESS).map fun c =>
      (c.world, c.delivery)
  | sclchan, handle =>
    (mcapi_trans_sclchan_recv (fun _ w => w) 1 w handle size).map fun x =>
      (x.world, x.deliveries.head?)

end Incoming

/-- Receives number `i` to `i + n - 1` are served at once, one after the other, and the next
one is not. -/
def Serves (receive : ℕ → World → Option (World × Option Delivery)) : ℕ → ℕ → World → Prop
  | i, 0, w => ∀ w' d, receive i w ≠ some (w', some d)
  | i, n + 1, w => ∃ w' d, receive i w = some (w', some d) ∧ Serves receive (i + 1) n w'

/-- How many requests are free. -/
def World.freeRequests (w : World) : ℕ :=
  ((Finset.range MCAPI_MAX_REQUESTS).filter fun r => (w.requests r).state = REQUEST_FREE).card

/-! ## Free requests -/

section

variable {w w' : World} {r : ℕ}

theorem World.hasFree_of_pos (h : 0 < w.freeRequests) : w.HasFree := by
  obtain ⟨r, hr⟩ := Finset.card_pos.mp h
  rw [Finset.mem_filter, Finset.mem_range] at hr
  exact ⟨r, hr⟩

/-- At most one request is taken. -/
theorem World.freeRequests_le (h : ∀ r', r' ≠ r → w'.requests r' = w.requests r') :
    w.freeRequests ≤ w'.freeRequests + 1 := by
  refine (Finset.card_le_card ?_).trans (Finset.card_insert_le r _)
  intro r' hr'
  by_cases heq : r' = r
  · rw [heq]
    exact Finset.mem_insert_self ..
  · refine Finset.mem_insert_of_mem ?_
    rw [Finset.mem_filter] at hr' ⊢
    rw [h r' heq]
    exact hr'

end

/-! ## Receives, one after the other -/

/-- A number that is served is the only one. -/
theorem Serves.unique {receive : ℕ → World → Option (World × Option Delivery)} {i n n' : ℕ}
    {w : World} (h : Serves receive i n w) (h' : Serves receive i n' w) : n = n' := by
  induction n generalizing i n' w with
  | zero =>
    cases n' with
    | zero => rfl
    | succ n' =>
      obtain ⟨w', d, hreceive, -⟩ := h'
      exact absurd hreceive (h w' d)
  | succ n ih =>
    obtain ⟨w₁, d₁, hreceive, hrest⟩ := h
    cases n' with
    | zero => exact absurd hreceive (h' w₁ d₁)
    | succ n' =>
      obtain ⟨w₂, d₂, hreceive', hrest'⟩ := h'
      rw [hreceive, Option.some.injEq, Prod.mk.injEq] at hreceive'
      rw [← hreceive'.1] at hrest'
      exact congrArg (· + 1) (ih hrest hrest')

section

variable {w : World} {pending : Place → List SendFrame} {a : Place → ℕ} {p : Place}
  {handle rand size request : ℕ} {x : SendFrame} {rest : List SendFrame} {k : Incoming}

/-- A non-blocking receive with a free request takes the first element. -/
theorem FifoWorld.recv_i_cons (h : FifoWorld w pending a) (hpending : pending p = x :: rest)
    (hfree : w.HasFree) (rand handle size request : ℕ) :
    ∃ c pending' a', recv_i w rand p (some p) handle size request .MCAPI_SUCCESS = some c ∧
      c.delivery.isSome = true ∧ FifoWorld c.world pending' a' ∧ pending' p = rest ∧
      (c.world.endpoints p).recv_queue.channel_type = (w.endpoints p).recv_queue.channel_type ∧
      w.freeRequests ≤ c.world.freeRequests + 1 := by
  obtain ⟨⟨w₁, r⟩, hreserve⟩ := hfree.reserved rand
  obtain ⟨-, -, hw₁⟩ := reserve_request_some hreserve
  have h₁ := h.reserve_request hreserve
  rcases h₁.recv p size with ⟨hnil, -⟩ | ⟨x', rest', sh, hcons, hrecv, hchannel, h'⟩
  · rw [hpending] at hnil
    cases hnil
  obtain ⟨-, hrest⟩ := List.cons.inj (hpending.symm.trans hcons)
  unfold recv_i
  rw [h.buffers p]
  dsimp only
  rw [hreserve]
  dsimp only
  rw [if_pos rfl, hrecv]
  dsimp only
  unfold Calls.setup_request
  rw [if_pos rfl, Option.map_some]
  refine ⟨_, _, _, rfl, rfl, h'.setRequest r _, ?_, ?_, ?_⟩
  · rw [Function.update_self, hrest]
  · rw [World.endpoints_setRequest, World.endpoints_setShared_self]
    rw [hw₁] at hchannel
    exact hchannel
  · refine World.freeRequests_le (r := r) fun r' hr' => ?_
    rw [World.requests_setRequest_of_ne _ _ _ hr', World.requests_setShared, hw₁,
      World.requests_setRequest_of_ne _ _ _ hr']

/-- A non-blocking receive from an empty queue hands nothing out. -/
theorem FifoWorld.recv_i_nil (h : FifoWorld w pending a) (hpending : pending p = [])
    {c : Called} (hrecv : recv_i w rand p (some p) handle size request .MCAPI_SUCCESS = some c) :
    c.delivery = none := by
  unfold recv_i at hrecv
  rw [h.buffers p] at hrecv
  dsimp only at hrecv
  split at hrecv
  · cases hrecv
    rfl
  · rename_i w₁ r hreserve
    rcases (h.reserve_request hreserve).recv p size with ⟨-, hnone⟩ | ⟨x', rest', -, hcons, -⟩
    · rw [if_pos rfl, hnone] at hrecv
      obtain ⟨w₂, -, rfl⟩ := Option.map_eq_some_iff.mp hrecv
      rfl
    · rw [hpending] at hcons
      cases hcons

theorem noChannel_self (h : (w.endpoints p).recv_queue.channel_type = MCAPI_NO_CHAN) :
    noChannel w p (some p) = some p := by
  simp only [noChannel, h, decide_true, Bool.and_self, Option.filter_some, if_true]

/-- What the receive finds. -/
theorem FifoWorld.receive_cons (h : FifoWorld w pending a) (hpending : pending p = x :: rest)
    (hp : mcapi_trans_decode_handle handle = some p)
    (hct : (w.endpoints p).recv_queue.channel_type = k.channel_type)
    (hfree : k = .sclchan ∨ w.HasFree) (rand size : ℕ) :
    ∃ w' d pending' a', k.receive w rand size handle = some (w', some d) ∧
      FifoWorld w' pending' a' ∧ pending' p = rest ∧
      (w'.endpoints p).recv_queue.channel_type = k.channel_type ∧
      (k = .sclchan ∨ w.freeRequests ≤ w'.freeRequests + 1) := by
  cases k with
  | msg =>
    obtain ⟨c, pending', a', hrecv, hdelivery, h', hrest, hchannel, hle⟩ :=
      h.recv_i_cons hpending (hfree.resolve_left (by simp)) rand handle size 0
    obtain ⟨d, hd⟩ := Option.isSome_iff_exists.mp hdelivery
    refine ⟨c.world, d, pending', a', ?_, h', hrest, hchannel.trans hct, .inr hle⟩
    simp only [Incoming.receive, mcapi_trans_msg_recv_i, hp, noChannel_self hct, hrecv,
      Option.map_some, hd]
  | pktchan =>
    obtain ⟨c, pending', a', hrecv, hdelivery, h', hrest, hchannel, hle⟩ :=
      h.recv_i_cons hpending (hfree.resolve_left (by simp)) rand handle MCAPI_MAX_PKT_SIZE 0
    obtain ⟨d, hd⟩ := Option.isSome_iff_exists.mp hdelivery
    refine ⟨c.world, d, pending', a', ?_, h', hrest, hchannel.trans hct, .inr hle⟩
    simp only [Incoming.receive, mcapi_trans_pktchan_recv_i, hp, hrecv, Option.map_some, hd]
  | sclchan =>
    rcases h.recv p size with ⟨hnil, -⟩ | ⟨x', rest', sh, hcons, hrecv, hchannel, h'⟩
    · rw [hpending] at hnil
      cases hnil
    obtain ⟨-, hrest⟩ := List.cons.inj (hpending.symm.trans hcons)
    refine ⟨w.setShared p sh, deliver (w.endpoints p).recv_queue.channel_type x' size, _, _, ?_,
      h', ?_, ?_, .inl rfl⟩
    · simp only [Incoming.receive, mcapi_trans_sclchan_recv, hp, h.buffers p, recvPolls, hrecv,
        Option.map_some, List.head?_cons]
    · rw [Function.update_self, hrest]
    · rw [World.endpoints_setShared_self]
      exact hchannel.trans hct

theorem FifoWorld.receive_nil (h : FifoWorld w pending a) (hpending : pending p = [])
    (hp : mcapi_trans_decode_handle handle = some p)
    (hct : (w.endpoints p).recv_queue.channel_type = k.channel_type) (w' : World)
    (d : Delivery) : k.receive w rand size handle ≠ some (w', some d) := by
  intro hreceive
  cases k with
  | msg =>
    simp only [Incoming.receive, mcapi_trans_msg_recv_i, hp, noChannel_self hct] at hreceive
    obtain ⟨c, hrecv, heq⟩ := Option.map_eq_some_iff.mp hreceive
    rw [h.recv_i_nil hpending hrecv, Prod.mk.injEq] at heq
    cases heq.2
  | pktchan =>
    simp only [Incoming.receive, mcapi_trans_pktchan_recv_i, hp] at hreceive
    obtain ⟨c, hrecv, heq⟩ := Option.map_eq_some_iff.mp hreceive
    rw [h.recv_i_nil hpending hrecv, Prod.mk.injEq] at heq
    cases heq.2
  | sclchan =>
    rcases h.recv p size with ⟨-, hnone⟩ | ⟨x', rest', -, hcons, -⟩
    · simp only [Incoming.receive, mcapi_trans_sclchan_recv, hp, h.buffers p, recvPolls, hnone,
        Option.map_none, reduceCtorEq] at hreceive
    · rw [hpending] at hcons
      cases hcons

/-- As many receives are served as there are elements, where each finds a free request. -/
theorem FifoWorld.serves (h : FifoWorld w pending a)
    (hp : mcapi_trans_decode_handle handle = some p)
    (hct : (w.endpoints p).recv_queue.channel_type = k.channel_type)
    (hfree : k = .sclchan ∨ (pending p).length ≤ w.freeRequests) (rand size : ℕ → ℕ) (i : ℕ) :
    Serves (fun i w => k.receive w (rand i) (size i) handle) i (pending p).length w := by
  generalize hpending : pending p = l at hfree ⊢
  induction l generalizing w pending a i with
  | nil => exact h.receive_nil hpending hp hct
  | cons x rest ih =>
    have hhas : k = .sclchan ∨ w.HasFree :=
      hfree.imp_right fun hle => World.hasFree_of_pos (by rw [List.length_cons] at hle; omega)
    obtain ⟨w', d, pending', a', hreceive, h', hrest, hct', hle'⟩ :=
      h.receive_cons hpending hp hct hhas (rand i) (size i)
    refine ⟨w', d, hreceive, ih h' hct' (i + 1) hrest ?_⟩
    rcases hle' with hscl | hle'
    · exact .inl hscl
    · refine hfree.imp_right fun hle => ?_
      rw [List.length_cons] at hle
      omega

theorem Incoming.available_eq (hvalid : k.valid w handle = true)
    (hp : mcapi_trans_decode_handle handle = some p) :
    k.available w handle =
      some (mcapi_trans_queue_elements (w.endpoints p).recv_queue, .MCAPI_SUCCESS) := by
  cases k with
  | msg =>
    simp only [valid] at hvalid
    simp only [available, mcapi_msg_available, hvalid, Bool.not_true, Bool.false_eq_true, if_false,
      mcapi_trans_msg_available, hp, Option.map_some]
  | pktchan =>
    simp only [valid] at hvalid
    simp only [available, mcapi_pktchan_available, hvalid, Bool.not_true, Bool.false_eq_true,
      if_false, mcapi_trans_pktchan_available, hp, Option.map_some]
  | sclchan =>
    simp only [valid] at hvalid
    simp only [available, mcapi_sclchan_available, hvalid, Bool.not_true, Bool.false_eq_true,
      if_false, mcapi_trans_sclchan_available_i, hp, Option.map_some]

end

/-! ## After any history -/

/-- **The count is that of the receives that would be served at once**, after any sequence
of calls, where each of these receives finds a free request. It is at most the number of
entries. -/
theorem available_iff_serves {w₀ w : World} {k : Incoming} {handle : ℕ} {p : Place}
    (hfresh : w₀.Fresh) (hrun : Run fifoCallStep (fun _ _ _ => True) w₀ w)
    (hvalid : k.valid w handle = true) (hp : mcapi_trans_decode_handle handle = some p)
    (hct : (w.endpoints p).recv_queue.channel_type = k.channel_type)
    (hfree : k = .sclchan ∨
      mcapi_trans_queue_elements (w.endpoints p).recv_queue ≤ w.freeRequests)
    (rand size : ℕ → ℕ) :
    (∀ n, k.available w handle = some (n, .MCAPI_SUCCESS) ↔
      Serves (fun i w => k.receive w (rand i) (size i) handle) 0 n w) ∧
    ∃ n ≤ MCAPI_MAX_QUEUE_ENTRIES, k.available w handle = some (n, .MCAPI_SUCCESS) := by
  obtain ⟨pending, a, h⟩ := hfresh.run hrun
  have hcount : mcapi_trans_queue_elements (w.endpoints p).recv_queue = (pending p).length :=
    (h.queue p).queue_elements
  have havailable := Incoming.available_eq hvalid hp
  rw [hcount] at havailable hfree
  have hserves := h.serves hp hct hfree rand size 0
  refine ⟨fun n => ?_, (pending p).length, (h.queue p).bound, havailable⟩
  rw [havailable, Option.some.injEq, Prod.mk.injEq, and_iff_left rfl]
  constructor
  · rintro rfl
    exact hserves
  · exact hserves.unique

/-- The message `i` of the queue is due to request `r`, which waits for it. -/
structure DueTo (w : World) (p : Place) (i r : ℕ) : Prop where
  state : (w.requests r).state = REQUEST_VALID
  type : (w.requests r).type = RECV
  handle : mcapi_trans_decode_handle (w.requests r).handle = some p
  index : (w.requests r).ep_qindex =
    qindexOf (u32 (lastCompleted (w.endpoints p).recv_queue.ack_counter + 2 * i))

/-- A receive waits for a message, and two are sent: two receives would be served. -/
theorem two_messages_available : ∃ w : World,
    mcapi_msg_available w 1 = some (2, .MCAPI_SUCCESS) ∧
      Serves (fun _ w => Incoming.msg.receive w 0 8 1) 0 2 w := by
  have hexec : (exec fifoCallStep (fun _ _ _ => true) fifoWorld
      [.msg_recv_i 0 1 8 0 .MCAPI_SUCCESS, .msg_send_i 0 0 1 (shortMsg 7) 0 .MCAPI_SUCCESS,
        .msg_send_i 0 0 1 (shortMsg 8) 0 .MCAPI_SUCCESS]).any
      (fun w => decide (Incoming.msg.available w 1 = some (2, .MCAPI_SUCCESS)) &&
        decide (Incoming.msg.valid w 1 = true) &&
        decide ((w.endpoints (0, 0, 1)).recv_queue.channel_type = MCAPI_NO_CHAN) &&
        decide (mcapi_trans_queue_elements (w.endpoints (0, 0, 1)).recv_queue ≤
          w.freeRequests)) = true := by
    decide +kernel
  obtain ⟨w, hrun, hw⟩ := exec_run_of_any hexec
  simp only [Bool.and_eq_true, decide_eq_true_eq] at hw
  obtain ⟨⟨⟨havailable, hvalid⟩, hct⟩, hfree⟩ := hw
  have hfresh : fifoWorld.Fresh := ⟨fun _ => rfl, fun _ => ⟨_, rfl⟩⟩
  exact ⟨w, havailable, ((available_iff_serves (p := (0, 0, 1)) hfresh
    (hrun.mono fun _ _ _ _ => trivial) hvalid (by decide) hct (.inr hfree) (fun _ => 0)
    fun _ => 8).1 2).mp havailable⟩

/-- A message that is due to a request is counted. -/
theorem due_message_counted : ¬ ∀ (w₀ w : World) (k : Incoming) (handle n : ℕ) (p : Place),
    w₀.Fresh → Run fifoCallStep (fun _ _ _ => True) w₀ w →
      mcapi_trans_decode_handle handle = some p →
      k.available w handle = some (n, .MCAPI_SUCCESS) →
      ∀ due : List ℕ, due.Nodup →
        (∀ i ∈ due, i < mcapi_trans_queue_elements (w.endpoints p).recv_queue ∧
          ∃ r < MCAPI_MAX_REQUESTS, DueTo w p i r) →
        n + due.length ≤ mcapi_trans_queue_elements (w.endpoints p).recv_queue := by
  intro hall
  have hexec : (exec fifoCallStep (fun _ _ _ => true) fifoWorld
      [.msg_recv_i 0 1 8 0 .MCAPI_SUCCESS, .msg_send_i 0 0 1 (shortMsg 7) 0 .MCAPI_SUCCESS]).any
      (fun w => decide (Incoming.msg.available w 1 = some (1, .MCAPI_SUCCESS)) &&
        decide (mcapi_trans_queue_elements (w.endpoints (0, 0, 1)).recv_queue = 1) &&
        (decide ((w.requests 0).state = REQUEST_VALID) && decide ((w.requests 0).type = RECV) &&
        decide (mcapi_trans_decode_handle (w.requests 0).handle = some (0, 0, 1)) &&
        decide ((w.requests 0).ep_qindex = qindexOf
          (u32 (lastCompleted (w.endpoints (0, 0, 1)).recv_queue.ack_counter + 2 * 0))))) =
        true := by
    decide +kernel
  obtain ⟨w, hrun, hw⟩ := exec_run_of_any hexec
  simp only [Bool.and_eq_true, decide_eq_true_eq] at hw
  obtain ⟨⟨havailable, helements⟩, ⟨⟨hstate, htype⟩, hhandle⟩, hindex⟩ := hw
  have hle := hall fifoWorld w .msg 1 1 (0, 0, 1) ⟨fun _ => rfl, fun _ => ⟨_, rfl⟩⟩
    (hrun.mono fun _ _ _ _ => trivial) (by decide) havailable [0] (List.nodup_singleton 0)
    fun i hi => by
      rw [List.mem_singleton.mp hi, helements]
      exact ⟨Nat.one_pos, 0, by decide, hstate, htype, hhandle, hindex⟩
  rw [helements, List.length_singleton] at hle
  omega

/-- Only one request is left. -/
def lastRequestWorld : World :=
  { fifoWorld with
    requests := fun r =>
      ⟨if r = 0 then REQUEST_FREE else REQUEST_VALID, .OTHER, 0, 0, .MCAPI_SUCCESS, -1, false⟩ }

/-- A message is counted that no receive is served with, since the send has used the last
request. -/
theorem no_request_left : ¬ ∀ (w₀ w : World) (k : Incoming) (handle n : ℕ) (p : Place),
    w₀.Fresh → Run fifoCallStep (fun _ _ _ => True) w₀ w → k.valid w handle = true →
      mcapi_trans_decode_handle handle = some p →
      (w.endpoints p).recv_queue.channel_type = k.channel_type →
      k.available w handle = some (n, .MCAPI_SUCCESS) →
      Serves (fun _ w => k.receive w 0 8 handle) 0 n w := by
  intro hall
  have hexec : (exec fifoCallStep (fun _ _ _ => true) lastRequestWorld
      [.msg_send_i 0 0 1 (shortMsg 7) 0 .MCAPI_SUCCESS]).any
      (fun w => decide (Incoming.msg.available w 1 = some (1, .MCAPI_SUCCESS)) &&
        decide (Incoming.msg.valid w 1 = true) &&
        decide ((w.endpoints (0, 0, 1)).recv_queue.channel_type = MCAPI_NO_CHAN) &&
        ((Incoming.msg.receive w 0 8 1).any fun x => x.2.isNone)) = true := by
    decide +kernel
  obtain ⟨w, hrun, hw⟩ := exec_run_of_any hexec
  simp only [Bool.and_eq_true, decide_eq_true_eq] at hw
  obtain ⟨⟨⟨havailable, hvalid⟩, hct⟩, hnone⟩ := hw
  obtain ⟨w', d, hreceive, -⟩ := hall lastRequestWorld w .msg 1 1 (0, 0, 1)
    ⟨fun _ => rfl, fun _ => ⟨_, rfl⟩⟩ (hrun.mono fun _ _ _ _ => trivial) hvalid (by decide) hct
    havailable
  dsimp only at hreceive
  rw [hreceive] at hnone
  cases hnone

end MxApi.Calls
