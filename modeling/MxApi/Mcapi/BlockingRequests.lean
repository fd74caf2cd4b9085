/-
The requests that the blocking sends and receives take and give back.

Every blocking call that returns has given back what it took, and a receive that returns
`MCAPI_TRUE` has received once. But a call whose first round finds no request hands the
status `MCAPI_ERR_REQUEST_LIMIT` to its next round, which takes it for an error that was
found before: when a request becomes free, a send completes it without sending, and a
receive on FIFO buffers completes it and goes on, for ever ([`accounts_iff`]).
-/
import MxApi.Mcapi.ReceiveTiming
import MxApi.Mcapi.RequestBalance

set_option autoImplicit false

namespace MxApi.Calls

open Lib Transfers channel_type mcapi_buffer_state mcapi_status_t mcapi_request_state
  mcapi_request_type mcapi_buffer_type

/-! ## The blocking calls -/

inductive BlockingCall
  | msg_send (send_endpoint receive_endpoint : ℕ) (m : Msg)
  | pktchan_send (send_handle : ℕ) (m : Msg)
  | sclchan_send (send_handle : ℕ) (m : Msg)
  | msg_recv (receive_endpoint buffer_size : ℕ)
  | pktchan_recv (receive_handle : ℕ)
  | sclchan_recv (receive_handle size : ℕ)

namespace BlockingCall

variable (call : BlockingCall)

/-- The non-blocking call of round `n`. Scalars have none. -/
def issue (rand : ℕ → ℕ) (n : ℕ) (w : World) (request : ℕ) (status : Status) : Option Called :=
  match call with
  | msg_send send_endpoint receive_endpoint m =>
    mcapi_trans_msg_send_i w (rand n) send_endpoint receive_endpoint m request status
  | pktchan_send send_handle m =>
    mcapi_trans_pktchan_send_i w (rand n) send_handle m request status
  | msg_recv receive_endpoint buffer_size =>
    mcapi_trans_msg_recv_i w (rand n) receive_endpoint buffer_size request status
  | pktchan_recv receive_handle =>
    mcapi_trans_pktchan_recv_i w (rand n) receive_handle request status
  | sclchan_send _ _ => none
  | sclchan_recv _ _ => none

/-- A send of a scalar does not wait for anything. -/
def perform (env : Env) (rand : ℕ → ℕ) (fuel : ℕ) (w : World) : Option Returned :=
  match call with
  | msg_send send_endpoint receive_endpoint m =>
    mcapi_trans_msg_send env rand fuel w send_endpoint receive_endpoint m
  | pktchan_send send_handle m => mcapi_trans_pktchan_send env rand fuel w send_handle m
  | msg_recv receive_endpoint buffer_size =>
    mcapi_trans_msg_recv env rand fuel w receive_endpoint buffer_size
  | pktchan_recv receive_handle => mcapi_trans_pktchan_recv env rand fuel w receive_handle
  | sclchan_send send_handle m =>
    (mcapi_trans_sclchan_send w send_handle m).map fun x => ⟨x.1, x.2, .MCAPI_SUCCESS, none, []⟩
  | sclchan_recv receive_handle size => mcapi_trans_sclchan_recv env fuel w receive_handle size

def isReceive : Bool :=
  match call with
  | msg_recv _ _ | pktchan_recv _ | sclchan_recv _ _ => true
  | _ => false

/-- `*mcapi_status` of the application's call (`mcapi_abb.c`), whose variable for the size
held `received_size`. -/
def reports (received_size : ℕ) (x : Returned) : Status :=
  match call with
  | msg_send _ _ _ | pktchan_send _ _ | sclchan_send _ _ =>
    if x.rc then .MCAPI_SUCCESS else .MCAPI_ERR_MEM_LIMIT
  | msg_recv _ buffer_size => ((Receive.msg buffer_size).report received_size x).status
  | pktchan_recv _ => (Receive.pkt.report received_size x).status
  | sclchan_recv _ _ => if x.rc then .MCAPI_SUCCESS else .MCAPI_ERR_SCL_SIZE

end BlockingCall

/-- The rounds that found no request: the world, `request` and `status` before round `n`. -/
def rounds (env : Env) (call : ℕ → World → ℕ → Status → Option Called) (w : World) :
    ℕ → Option (World × ℕ × Status)
  | 0 => some (w, 0, .MCAPI_SUCCESS)
  | n + 1 =>
    (rounds env call w n).bind fun s =>
      match call n (env n s.1) s.2.1 s.2.2 with
      | none => none
      | some c =>
        if c.status = .MCAPI_ERR_REQUEST_LIMIT then some (c.world, c.request, c.status) else none

/-- Other threads leave the types and the channels of the endpoints alone, and the requests
of this one. -/
structure Env.KeepsTypes (env : Env) : Prop extends env.Respects where
  buffer_type : ∀ n w p, ((env n w).endpoints p).buffer_type = (w.endpoints p).buffer_type
  recv_endpt : ∀ n w p, ((env n w).endpoints p).recv_endpt = (w.endpoints p).recv_endpt

/-- A call that returns has given back the requests that it took. A receive that returns
`MCAPI_TRUE` has received once. If the first round found no request, then a later round
that finds one performs the operation, or the application is told of the limit. -/
structure Accounts (env : Env) (rand : ℕ → ℕ) (w : World) (call : BlockingCall) : Prop where
  balanced : ∀ fuel x, call.perform env rand fuel w = some x →
    ∀ r, (x.world.requests r).mine = (w.requests r).mine
  once : call.isReceive = true → ∀ fuel x, call.perform env rand fuel w = some x →
    x.rc = true → x.deliveries.length = 1
  served : ∀ n s, 0 < n → rounds env (call.issue rand) w n = some s → (env n s.1).HasFree →
    s.2.2 = .MCAPI_SUCCESS ∨
      ∃ fuel x received_size, call.perform env rand fuel w = some x ∧
        call.reports received_size x = .MCAPI_ERR_REQUEST_LIMIT

/-- The first round needs a request: on FIFO buffers always, and on state buffers to receive
a message that is not there yet. -/
def BlockingCall.NeedsRequest (call : BlockingCall) (w : World) : Prop :=
  match call with
  | .msg_send send_endpoint _ _ => ∃ p, mcapi_trans_decode_handle send_endpoint = some p ∧
      (w.endpoints p).buffer_type = MCAPI_ENDP_ATTR_FIFO_BUFFER
  | .pktchan_send send_handle _ => ∃ se p, mcapi_trans_decode_handle send_handle = some se ∧
      mcapi_trans_decode_handle (w.endpoints se).recv_endpt = some p ∧
      (w.endpoints se).buffer_type = MCAPI_ENDP_ATTR_FIFO_BUFFER
  | .msg_recv receive_endpoint _ => ∃ p, mcapi_trans_decode_handle receive_endpoint = some p ∧
      ((w.endpoints p).buffer_type = MCAPI_ENDP_ATTR_FIFO_BUFFER ∨
        NothingAt w p ∧ (w.endpoints p).recv_queue.channel_type = MCAPI_NO_CHAN)
  | .pktchan_recv receive_handle => ∃ p, mcapi_trans_decode_handle receive_handle = some p ∧
      ((w.endpoints p).buffer_type = MCAPI_ENDP_ATTR_FIFO_BUFFER ∨ NothingAt w p)
  | _ => False

/-- The world before round `n` if no round does anything. -/
def waited (env : Env) (w : World) : ℕ → World
  | 0 => w
  | n + 1 => env n (waited env w n)

/-! ## Every call -/

section Calls

variable {env : Env} {rand : ℕ → ℕ} {w : World} {n request : ℕ} {status : Status} {c : Called}

/-- A round of a send. -/
theorem issue_send (call : BlockingCall) (h : call.isReceive = false)
    (hc : call.issue rand n w request status = some c) :
    c = ⟨w, request, .MCAPI_ERR_REQUEST_LIMIT, none⟩ ∧ call.NeedsRequest w ∧ ¬ w.HasFree ∨
      c.status = .MCAPI_SUCCESS ∧ Ended false w c := by
  cases call with
  | msg_send send_endpoint receive_endpoint m =>
    simp only [BlockingCall.issue, mcapi_trans_msg_send_i] at hc
    split at hc
    · cases hc
    · rename_i se hse
      rcases send_i_ended hc with ⟨heq, hbt, hfree⟩ | hended
      · exact .inl ⟨heq, ⟨se, hse, hbt⟩, hfree⟩
      · exact .inr hended
  | pktchan_send send_handle m =>
    simp only [BlockingCall.issue, mcapi_trans_pktchan_send_i] at hc
    split at hc
    · cases hc
    · rename_i se hse
      split at hc
      · cases hc
      · rename_i p hp
        rcases send_i_ended hc with ⟨heq, hbt, hfree⟩ | hended
        · exact .inl ⟨heq, ⟨se, p, hse, hp, hbt⟩, hfree⟩
        · exact .inr hended
  | sclchan_send send_handle m => cases hc
  | _ => cases h

/-- The first round of a receive. -/
theorem issue_recv (call : BlockingCall) (h : call.isReceive = true)
    (hc : call.issue rand n w request .MCAPI_SUCCESS = some c) :
    (c.status = .MCAPI_ERR_REQUEST_LIMIT ∧ c.world = w ∧ call.NeedsRequest w ∧ ¬ w.HasFree) ∨
      c.status = .MCAPI_SUCCESS ∧ Ended true w c := by
  cases call with
  | msg_recv receive_endpoint buffer_size =>
    simp only [BlockingCall.issue, mcapi_trans_msg_recv_i] at hc
    split at hc
    · cases hc
    · rename_i p hp
      have hre : ∀ p' ∈ noChannel w p (some p), p' = p := fun p' hp' =>
        (Option.some.inj (Option.filter_eq_some_iff.mp hp').1).symm
      rcases recv_i_ended hre hc with ⟨hst, hworld, hfree, hcases⟩ | hended
      · refine .inl ⟨hst, hworld, ⟨p, hp, ?_⟩, hfree⟩
        rcases hcases with hbt | ⟨hnone, hno⟩
        · exact .inl hbt
        · have hchan := (Option.filter_eq_some_iff.mp hno).2
          rw [Bool.and_eq_true, decide_eq_true_eq] at hchan
          exact .inr ⟨hnone, hchan.1⟩
      · exact .inr hended
  | pktchan_recv receive_handle =>
    simp only [BlockingCall.issue, mcapi_trans_pktchan_recv_i] at hc
    split at hc
    · cases hc
    · rename_i p hp
      rcases recv_i_ended (fun p' hp' => (Option.some.inj hp').symm) hc with
        ⟨hst, hworld, hfree, hcases⟩ | hended
      · refine .inl ⟨hst, hworld, ⟨p, hp, ?_⟩, hfree⟩
        rcases hcases with hbt | ⟨hnone, -⟩
        · exact .inl hbt
        · exact .inr hnone
      · exact .inr hended
  | sclchan_recv receive_handle size => cases hc
  | _ => cases h

/-- A later round of a receive. -/
theorem issue_recv_limit (call : BlockingCall) (h : call.isReceive = true)
    (hc : call.issue rand n w request .MCAPI_ERR_REQUEST_LIMIT = some c) :
    c.status = .MCAPI_ERR_REQUEST_LIMIT := by
  cases call with
  | msg_recv receive_endpoint buffer_size =>
    simp only [BlockingCall.issue, mcapi_trans_msg_recv_i] at hc
    split at hc
    · cases hc
    · exact recv_i_limit hc
  | pktchan_recv receive_handle =>
    simp only [BlockingCall.issue, mcapi_trans_pktchan_recv_i] at hc
    split at hc
    · cases hc
    · exact recv_i_limit hc
  | sclchan_recv receive_handle size => cases hc
  | _ => cases h

theorem looped_send_balanced (call : BlockingCall) (h : call.isReceive = false)
    (henv : env.Respects) (howns : w.Owns) {fuel : ℕ} {x : Returned}
    (hx : blocking env (call.issue rand) fuel w = some x) (r : ℕ) :
    (x.world.requests r).mine = (w.requests r).mine := by
  apply blocking_send_balanced henv howns ?_ hx
  intro n w request status c hc
  rcases issue_send call h hc with ⟨heq, -⟩ | hended
  · exact .inl heq
  · exact .inr hended

theorem looped_recv_balanced (call : BlockingCall) (h : call.isReceive = true)
    (henv : env.Respects) (howns : w.Owns) {fuel : ℕ} {x : Returned}
    (hx : blocking env (call.issue rand) fuel w = some x) :
    (∀ r, (x.world.requests r).mine = (w.requests r).mine) ∧
      (x.rc = true → x.deliveries.length = 1) := by
  apply blocking_recv_balanced henv howns ?_ (fun n w request c hc => issue_recv_limit call h hc) hx
  intro n w request c hc
  rcases issue_recv call h hc with ⟨hst, -⟩ | hended
  · exact .inl hst
  · exact .inr hended

/-- **Every blocking call that returns** has given back its requests, and one that received
with success has received once. -/
theorem perform_balanced (call : BlockingCall) (henv : env.Respects) (howns : w.Owns) {fuel : ℕ}
    {x : Returned} (hx : call.perform env rand fuel w = some x) :
    (∀ r, (x.world.requests r).mine = (w.requests r).mine) ∧
      (call.isReceive = true → x.rc = true → x.deliveries.length = 1) := by
  cases call with
  | msg_send send_endpoint receive_endpoint m =>
    exact ⟨looped_send_balanced (.msg_send send_endpoint receive_endpoint m) rfl henv howns hx,
      nofun⟩
  | pktchan_send send_handle m =>
    exact ⟨looped_send_balanced (.pktchan_send send_handle m) rfl henv howns hx, nofun⟩
  | msg_recv receive_endpoint buffer_size =>
    obtain ⟨hback, honce⟩ :=
      looped_recv_balanced (.msg_recv receive_endpoint buffer_size) rfl henv howns hx
    exact ⟨hback, fun _ => honce⟩
  | pktchan_recv receive_handle =>
    obtain ⟨hback, honce⟩ := looped_recv_balanced (.pktchan_recv receive_handle) rfl henv howns hx
    exact ⟨hback, fun _ => honce⟩
  | sclchan_send send_handle m =>
    refine ⟨?_, nofun⟩
    obtain ⟨y, hy, rfl⟩ := Option.map_eq_some_iff.mp hx
    unfold mcapi_trans_sclchan_send at hy
    split at hy
    · cases hy
    · split at hy
      · cases hy
      · split at hy
        · obtain ⟨z, -, rfl⟩ := Option.map_eq_some_iff.mp hy
          exact fun _ => rfl
        · obtain ⟨z, -, rfl⟩ := Option.map_eq_some_iff.mp hy
          exact fun _ => rfl
  | sclchan_recv receive_handle size =>
    simp only [BlockingCall.perform, mcapi_trans_sclchan_recv] at hx
    split at hx
    · cases hx
    · split at hx
      · obtain ⟨y, hy, rfl⟩ := Option.map_eq_some_iff.mp hx
        exact ⟨recvPolls_balanced henv _ size fuel 0 w y hy, fun _ _ => rfl⟩
      · split at hx
        · cases hx
        · obtain rfl := Option.some.inj hx
          exact ⟨henv.mine 0 w, nofun⟩
        · obtain rfl := Option.some.inj hx
          exact ⟨henv.mine 0 w, fun _ _ => rfl⟩

/-! ### Rounds that find no request -/

/-- The handles and the types of buffers let the call go on after a round that found no
request. -/
def BlockingCall.Loops (call : BlockingCall) (w : World) : Prop :=
  match call with
  | .msg_send send_endpoint _ _ => ∃ p, mcapi_trans_decode_handle send_endpoint = some p ∧
      (w.endpoints p).buffer_type = MCAPI_ENDP_ATTR_FIFO_BUFFER
  | .pktchan_send send_handle _ => ∃ se p, mcapi_trans_decode_handle send_handle = some se ∧
      mcapi_trans_decode_handle (w.endpoints se).recv_endpt = some p ∧
      (w.endpoints se).buffer_type = MCAPI_ENDP_ATTR_FIFO_BUFFER
  | .msg_recv receive_endpoint _ => ∃ p, mcapi_trans_decode_handle receive_endpoint = some p
  | .pktchan_recv receive_handle => ∃ p, mcapi_trans_decode_handle receive_handle = some p
  | _ => False

theorem BlockingCall.Loops.round {call : BlockingCall} (h : call.Loops w) (henv : env.KeepsTypes)
    (n : ℕ) : call.Loops (env n w) := by
  cases call with
  | msg_send send_endpoint receive_endpoint m =>
    obtain ⟨p, hp, hbt⟩ := h
    exact ⟨p, hp, by rw [henv.buffer_type, hbt]⟩
  | pktchan_send send_handle m =>
    obtain ⟨se, p, hse, hp, hbt⟩ := h
    exact ⟨se, p, hse, by rw [henv.recv_endpt, hp], by rw [henv.buffer_type, hbt]⟩
  | msg_recv receive_endpoint buffer_size => exact h
  | pktchan_recv receive_handle => exact h
  | sclchan_send send_handle m => exact h
  | sclchan_recv receive_handle size => exact h

theorem BlockingCall.NeedsRequest.loops {call : BlockingCall} (h : call.NeedsRequest w) :
    call.Loops w := by
  cases call with
  | msg_send send_endpoint receive_endpoint m => exact h
  | pktchan_send send_handle m => exact h
  | msg_recv receive_endpoint buffer_size =>
    obtain ⟨p, hp, -⟩ := h
    exact ⟨p, hp⟩
  | pktchan_recv receive_handle =>
    obtain ⟨p, hp, -⟩ := h
    exact ⟨p, hp⟩
  | sclchan_send send_handle m => exact h
  | sclchan_recv receive_handle size => exact h

theorem send_i_of_none {se : Place} {re : Option Place} {handle rand : ℕ} {m : Msg}
    (hbt : (w.endpoints se).buffer_type = MCAPI_ENDP_ATTR_FIFO_BUFFER) (hnone : ¬ w.HasFree) :
    ∃ c, send_i w rand se re handle m request status = some c ∧ c.world = w ∧
      c.status = .MCAPI_ERR_REQUEST_LIMIT := by
  refine ⟨⟨w, request, .MCAPI_ERR_REQUEST_LIMIT, none⟩, ?_, rfl, rfl⟩
  unfold send_i
  simp only [hbt, reserve_request_none.mpr hnone]

theorem recv_i_of_none {p : Place} {re : Option Place} {handle room rand : ℕ}
    (hbt : (w.endpoints p).buffer_type = MCAPI_ENDP_ATTR_FIFO_BUFFER) (hnone : ¬ w.HasFree) :
    ∃ c, recv_i w rand p re handle room request status = some c ∧ c.world = w ∧
      c.status = .MCAPI_ERR_REQUEST_LIMIT := by
  refine ⟨⟨w, request, .MCAPI_ERR_REQUEST_LIMIT, none⟩, ?_, rfl, rfl⟩
  unfold recv_i
  simp only [hbt, reserve_request_none.mpr hnone]

/-- A receive on state buffers that finds nothing and no request. -/
theorem recv_i_nothing {p : Place} {handle room rand : ℕ} (hnothing : NothingAt w p)
    (hnone : ¬ w.HasFree) :
    ∃ c, recv_i w rand p (some p) handle room request .MCAPI_SUCCESS = some c ∧ c.world = w ∧
      c.status = .MCAPI_ERR_REQUEST_LIMIT := by
  cases hbt : (w.endpoints p).buffer_type with
  | MCAPI_ENDP_ATTR_FIFO_BUFFER => exact recv_i_of_none hbt hnone
  | MCAPI_ENDP_ATTR_STATE_BUFFER =>
    unfold NothingAt at hnothing
    rw [hbt] at hnothing
    have hrecv : mcapi_trans_recv_state (w.endpoints p).num_send_buffers (w.shared p) room =
        some (w.shared p, none) := (if_pos hnothing.1).trans (if_pos hnothing.2)
    refine ⟨⟨w, 0, .MCAPI_ERR_REQUEST_LIMIT, none⟩, ?_, rfl, rfl⟩
    unfold recv_i
    simp only [hbt, if_true, hrecv, World.setShared_shared, reserve_request_none.mpr hnone]

/-- The first round of a call that needs a request. -/
theorem BlockingCall.NeedsRequest.issue {call : BlockingCall} (h : call.NeedsRequest w)
    (hnone : ¬ w.HasFree) (rand : ℕ → ℕ) (n request : ℕ) :
    ∃ c, call.issue rand n w request .MCAPI_SUCCESS = some c ∧ c.world = w ∧
      c.status = .MCAPI_ERR_REQUEST_LIMIT := by
  cases call with
  | msg_send send_endpoint receive_endpoint m =>
    obtain ⟨p, hp, hbt⟩ := h
    simp only [BlockingCall.issue, mcapi_trans_msg_send_i, hp]
    exact send_i_of_none hbt hnone
  | pktchan_send send_handle m =>
    obtain ⟨se, p, hse, hp, hbt⟩ := h
    simp only [BlockingCall.issue, mcapi_trans_pktchan_send_i, hse, hp]
    exact send_i_of_none hbt hnone
  | msg_recv receive_endpoint buffer_size =>
    obtain ⟨p, hp, hbt | ⟨hnothing, hchan⟩⟩ := h
    · simp only [BlockingCall.issue, mcapi_trans_msg_recv_i, hp]
      exact recv_i_of_none hbt hnone
    · have hno : noChannel w p (some p) = some p := by
        unfold noChannel
        rw [Option.filter_some, hchan]
        rfl
      simp only [BlockingCall.issue, mcapi_trans_msg_recv_i, hp, hno]
      exact recv_i_nothing hnothing hnone
  | pktchan_recv receive_handle =>
    obtain ⟨p, hp, hbt | hnothing⟩ := h
    · simp only [BlockingCall.issue, mcapi_trans_pktchan_recv_i, hp]
      exact recv_i_of_none hbt hnone
    · simp only [BlockingCall.issue, mcapi_trans_pktchan_recv_i, hp]
      exact recv_i_nothing hnothing hnone
  | sclchan_send send_handle m => exact h.elim
  | sclchan_recv receive_handle size => exact h.elim

/-- A receive that is given the limit does not look at its endpoint. -/
theorem recv_i_given_limit {p : Place} {re : Option Place} {handle room rand : ℕ}
    (hnone : ¬ w.HasFree) :
    ∃ c, recv_i w rand p re handle room request .MCAPI_ERR_REQUEST_LIMIT = some c ∧
      c.world = w ∧ c.status = .MCAPI_ERR_REQUEST_LIMIT := by
  cases hbt : (w.endpoints p).buffer_type with
  | MCAPI_ENDP_ATTR_FIFO_BUFFER => exact recv_i_of_none hbt hnone
  | MCAPI_ENDP_ATTR_STATE_BUFFER =>
    refine ⟨⟨w, 0, .MCAPI_ERR_REQUEST_LIMIT, none⟩, ?_, rfl, rfl⟩
    unfold recv_i
    simp only [hbt, reduceCtorEq, if_false]

/-- A later round that finds no request either. -/
theorem BlockingCall.Loops.issue {call : BlockingCall} (h : call.Loops w) (hnone : ¬ w.HasFree)
    (rand : ℕ → ℕ) (n request : ℕ) :
    ∃ c, call.issue rand n w request .MCAPI_ERR_REQUEST_LIMIT = some c ∧ c.world = w ∧
      c.status = .MCAPI_ERR_REQUEST_LIMIT := by
  cases call with
  | msg_send send_endpoint receive_endpoint m =>
    obtain ⟨p, hp, hbt⟩ := h
    simp only [BlockingCall.issue, mcapi_trans_msg_send_i, hp]
    exact send_i_of_none hbt hnone
  | pktchan_send send_handle m =>
    obtain ⟨se, p, hse, hp, hbt⟩ := h
    simp only [BlockingCall.issue, mcapi_trans_pktchan_send_i, hse, hp]
    exact send_i_of_none hbt hnone
  | msg_recv receive_endpoint buffer_size =>
    obtain ⟨p, hp⟩ := h
    simp only [BlockingCall.issue, mcapi_trans_msg_recv_i, hp]
    exact recv_i_given_limit hnone
  | pktchan_recv receive_handle =>
    obtain ⟨p, hp⟩ := h
    simp only [BlockingCall.issue, mcapi_trans_pktchan_recv_i, hp]
    exact recv_i_given_limit hnone
  | sclchan_send send_handle m => exact h.elim
  | sclchan_recv receive_handle size => exact h.elim

theorem BlockingCall.Loops.waited {call : BlockingCall} (h : call.Loops (env 0 w))
    (henv : env.KeepsTypes) : ∀ n, call.Loops (waited env w (n + 1))
  | 0 => h
  | n + 1 => (BlockingCall.Loops.waited h henv n).round henv (n + 1)

/-- **Rounds without a request** do nothing but hand the limit on. -/
theorem rounds_waited {call : BlockingCall} (henv : env.KeepsTypes) (rand : ℕ → ℕ)
    (hneeds : call.NeedsRequest (env 0 w)) :
    ∀ n, (∀ i, i ≤ n → ¬ (env i (waited env w i)).HasFree) →
      ∃ request, rounds env (call.issue rand) w (n + 1) =
        some (waited env w (n + 1), request, .MCAPI_ERR_REQUEST_LIMIT)
  | 0, hnone => by
    obtain ⟨c, hc, hworld, hst⟩ := hneeds.issue (hnone 0 (Nat.le_refl 0)) rand 0 0
    refine ⟨c.request, ?_⟩
    simp only [rounds, Option.bind_some, hc, hst, if_true, hworld]
    rfl
  | n + 1, hnone => by
    obtain ⟨request, hrounds⟩ :=
      rounds_waited henv rand hneeds n (fun i hi => hnone i (by omega))
    obtain ⟨c, hc, hworld, hst⟩ := (hneeds.loops.waited henv (n + 1)).issue
      (hnone (n + 1) (Nat.le_refl _)) rand (n + 1) request
    refine ⟨c.request, ?_⟩
    rw [rounds, hrounds]
    simp only [Option.bind_some]
    have hworld' : env (n + 1) (Calls.waited env w (n + 1)) = Calls.waited env w (n + 2) := rfl
    rw [hworld', hc]
    simp only [hst, if_true, hworld]

/-- The application is never told of the limit. -/
theorem BlockingCall.reports_ne_limit (call : BlockingCall) (received_size : ℕ) (x : Returned) :
    call.reports received_size x ≠ .MCAPI_ERR_REQUEST_LIMIT := by
  have hmem : ∀ b : Bool, ∀ other : Status, other ≠ .MCAPI_ERR_REQUEST_LIMIT →
      (if b then Status.MCAPI_SUCCESS else other) ≠ .MCAPI_ERR_REQUEST_LIMIT := by
    intro b other hother
    cases b with
    | true => nofun
    | false => exact hother
  cases call with
  | msg_send send_endpoint receive_endpoint m => exact hmem x.rc _ nofun
  | pktchan_send send_handle m => exact hmem x.rc _ nofun
  | sclchan_send send_handle m => exact hmem x.rc _ nofun
  | sclchan_recv receive_handle size => exact hmem x.rc _ nofun
  | msg_recv receive_endpoint buffer_size =>
    unfold BlockingCall.reports Receive.report
    dsimp only
    split
    · nofun
    · nofun
  | pktchan_recv receive_handle =>
    unfold BlockingCall.reports Receive.report
    dsimp only
    split
    · split
      · nofun
      · nofun
    · nofun

/-- The first round ends the loop unless it needs a request and finds none. -/
theorem rounds_one (call : BlockingCall) {s : World × ℕ × Status}
    (h : rounds env (call.issue rand) w 1 = some s) :
    call.NeedsRequest (env 0 w) ∧ ¬ (env 0 w).HasFree := by
  simp only [rounds, Option.bind_some] at h
  split at h
  · cases h
  · rename_i c hc
    split at h
    · rename_i hst
      cases hrx : call.isReceive with
      | false =>
        rcases issue_send call hrx hc with ⟨-, hneeds, hnone⟩ | ⟨hok, -⟩
        · exact ⟨hneeds, hnone⟩
        · rw [hst] at hok
          cases hok
      | true =>
        rcases issue_recv call hrx hc with ⟨-, -, hneeds, hnone⟩ | ⟨hok, -⟩
        · exact ⟨hneeds, hnone⟩
        · rw [hst] at hok
          cases hok
    · cases h

theorem rounds_succ_none {call : ℕ → World → ℕ → Status → Option Called}
    (h : rounds env call w 1 = none) : ∀ n, rounds env call w (n + 1) = none
  | 0 => h
  | n + 1 => by rw [rounds, rounds_succ_none h n]; rfl

/-- **Blocking calls account for their requests** exactly if the first round needs none or
finds one, or if no request ever becomes free. -/
theorem accounts_iff (henv : env.KeepsTypes) (howns : w.Owns) (rand : ℕ → ℕ)
    (call : BlockingCall) :
    Accounts env rand w call ↔ ¬ call.NeedsRequest (env 0 w) ∨ (env 0 w).HasFree ∨
      ∀ n, ¬ (env n (waited env w n)).HasFree := by
  constructor
  · intro h
    by_contra hnot
    obtain ⟨hneeds, hnone, hfree⟩ : call.NeedsRequest (env 0 w) ∧ ¬ (env 0 w).HasFree ∧
        ∃ n, (env n (waited env w n)).HasFree := by
      refine ⟨?_, fun hfree => hnot (.inr (.inl hfree)), ?_⟩
      · by_contra hneeds
        exact hnot (.inl hneeds)
      · by_contra hnever
        exact hnot (.inr (.inr fun n hn => hnever ⟨n, hn⟩))
    -- the first round in which a request is free
    classical
    obtain ⟨n, hn, hleast⟩ : ∃ n, (env n (waited env w n)).HasFree ∧
        ∀ i, i < n → ¬ (env i (waited env w i)).HasFree :=
      ⟨Nat.find hfree, Nat.find_spec hfree, fun i hi => Nat.find_min hfree hi⟩
    cases n with
    | zero => exact hnone hn
    | succ n =>
      obtain ⟨request, hrounds⟩ := rounds_waited henv rand hneeds n
        (fun i hi => hleast i (by omega))
      rcases h.served (n + 1) _ (Nat.succ_pos n) hrounds hn with hst | ⟨-, x, size, -, hlimit⟩
      · cases hst
      · exact call.reports_ne_limit size x hlimit
  · intro hcond
    refine ⟨?_, ?_, ?_⟩
    · intro fuel x hx
      exact (perform_balanced call henv.toRespects howns hx).1
    · intro hrx fuel x hx
      exact (perform_balanced call henv.toRespects howns hx).2 hrx
    · intro n s hpos hs hfree
      obtain ⟨n, rfl⟩ := Nat.exists_eq_succ_of_ne_zero hpos.ne'
      exfalso
      cases hone : rounds env (call.issue rand) w 1 with
      | none =>
        rw [rounds_succ_none hone n] at hs
        cases hs
      | some s₁ =>
        obtain ⟨hneeds, hnone⟩ := rounds_one call hone
        rcases hcond with hno | hyes | hnever
        · exact hno hneeds
        · exact hnone hyes
        · obtain ⟨request, hrounds⟩ := rounds_waited henv rand hneeds n
            (fun i _ => hnever i)
          rw [hrounds] at hs
          obtain rfl := Option.some.inj hs
          exact hnever (n + 1) hfree

end Calls

theorem accounts_free_request :
    Accounts (fun _ w => w) (fun _ => 0) fifoWorld (.msg_send 0 1 (shortMsg 7)) := by
  have hquiet : Env.KeepsTypes fun _ w => w :=
    { kept := fun _ _ _ _ => rfl
      not_mine := fun _ _ _ hmine => hmine
      buffer_type := fun _ _ _ => rfl
      recv_endpt := fun _ _ _ => rfl }
  exact (accounts_iff hquiet (fun _ hmine => absurd hmine Bool.false_ne_true) (fun _ => 0)
    (.msg_send 0 1 (shortMsg 7))).mpr (.inr (.inl ⟨0, by decide, rfl⟩))

/-- All requests are in use by other threads. -/
def busyWorld : World :=
  { fifoWorld with
    requests := fun _ => ⟨REQUEST_VALID, RECV, 0, 0, .MCAPI_SUCCESS, -1, false⟩ }

/-- Another thread gives back a request before round `1`. -/
def freesRequest : Env := fun n w =>
  if n = 1 ∧ (w.requests 0).mine = false then
    w.setRequest 0 { w.requests 0 with state := REQUEST_FREE }
  else w

theorem freesRequest_keepsTypes : Env.KeepsTypes freesRequest where
  kept n w r hmine := by
    unfold freesRequest
    split
    · rename_i h
      apply World.requests_setRequest_of_ne
      rintro rfl
      rw [h.2] at hmine
      cases hmine
    · rfl
  not_mine n w r hmine := by
    unfold freesRequest
    split
    · by_cases hr : r = 0
      · subst hr
        rw [World.requests_setRequest_self]
        exact hmine
      · rw [World.requests_setRequest_of_ne _ _ _ hr, hmine]
    · exact hmine
  buffer_type n w p := by
    unfold freesRequest
    split
    · rfl
    · rfl
  recv_endpt n w p := by
    unfold freesRequest
    split
    · rfl
    · rfl

/-- The first round of a receive finds no request, and the second one finds one. It does not
receive, although nothing is reported. -/
theorem request_limit_ends_operation : ¬ ∀ (env : Env) (rand : ℕ → ℕ) (w : World)
    (call : BlockingCall), env.KeepsTypes → w.Owns → Accounts env rand w call := by
  intro hall
  have haccounts := hall freesRequest (fun _ => 0) busyWorld (.msg_recv 0 8)
    freesRequest_keepsTypes (fun _ hmine => absurd hmine Bool.false_ne_true)
  have hnone : ∀ i, i ≤ 0 → ¬ (freesRequest i (waited freesRequest busyWorld i)).HasFree := by
    rintro i hi ⟨r, -, hfree⟩
    obtain rfl := Nat.le_zero.mp hi
    cases hfree
  have hneeds : (BlockingCall.msg_recv 0 8).NeedsRequest (freesRequest 0 busyWorld) :=
    ⟨(0, 0, 0), rfl, .inl rfl⟩
  obtain ⟨request, hrounds⟩ :=
    rounds_waited freesRequest_keepsTypes (fun _ => 0) hneeds 0 hnone
  have hfree : (freesRequest 1 (waited freesRequest busyWorld 1)).HasFree := ⟨0, by decide, rfl⟩
  rcases haccounts.served 1 _ Nat.one_pos hrounds hfree with hst | ⟨-, x, size, -, hlimit⟩
  · cases hst
  · exact BlockingCall.reports_ne_limit _ size x hlimit

end MxApi.Calls
