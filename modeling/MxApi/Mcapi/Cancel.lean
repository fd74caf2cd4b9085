/-
Cancelling a request (`mcapi_trans_cancel` of `Fragments/transport_sm_wait_abb.c`,
`cancel_receive_request` of `Fragments/transport_sm_request_abb.c`, and `mcapi_cancel` of
`mcapi_abb.c`).

One thread cancels. The others may do anything at two points: between its look at the state
of the request and its compare-and-swap on it, where they may complete the request, and
between that and the undo for the type of the request.

The undo of a receive forgets the index of the entry that the request reserved, and leaves
the entry reserved. A request to open or to close a channel is not expected at all, and one
that is complete leaves `*mcapi_status` as it is, which the application sets to
`MCAPI_SUCCESS` before. The last section says exactly when a cancel is right in spite of
this.
-/
import MxApi.Mcapi.ReceiveTiming

set_option autoImplicit false

namespace MxApi.Calls

open Lib Transfers channel_type mcapi_buffer_state mcapi_status_t mcapi_request_state
  mcapi_request_type mcapi_buffer_type

/-! ## The calls -/

/-- The pointer to the buffer of the caller is cleared too, which is not kept here. -/
def cancel_receive_request (w : World) (request : ℕ) : Option World :=
  match mcapi_trans_decode_request_handle request with
  | none => none
  | some r =>
    let req := w.requests r
    match mcapi_trans_decode_handle req.handle with
    | none => none
    | some _ =>
      if req.ep_qindex ≠ -1 then some (w.setRequest r { req with ep_qindex := -1 }) else some w

/-- The state of the request is set by the compare-and-swap. -/
def World.cancelled (w : World) (r : ℕ) : World :=
  w.setRequest r { w.requests r with state := REQUEST_CANCELLED }

/-- `env 0` is what the other threads do before the compare-and-swap, and `env 1` after
it. -/
def mcapi_trans_cancel (env : Env) (w : World) (request : ℕ) (mcapi_status : Status) :
    Option (World × Status) :=
  match mcapi_trans_decode_request_handle request with
  | none => none
  | some r =>
    match (w.requests r).state with
    | REQUEST_FREE => some (w, .MCAPI_ERR_REQUEST_INVALID)
    | REQUEST_CANCELLED => some (w, .MCAPI_ERR_REQUEST_CANCELLED)
    | _ =>
      let w := env 0 w
      if (w.requests r).state = REQUEST_VALID then
        let w := env 1 (w.cancelled r)
        match (w.requests r).type with
        | RECV => (cancel_receive_request w request).map fun w => (w, .MCAPI_SUCCESS)
        | GET_ENDPT => some (w, .MCAPI_SUCCESS)
        -- mcapi_assert(0)
        | _ => none
      -- it is too late, the request has already completed
      else some (w, mcapi_status)

def mcapi_cancel (env : Env) (w : World) (request : ℕ) : Option (World × Status) :=
  if (mcapi_trans_decode_request_handle request).isSome then
    mcapi_trans_cancel env w request .MCAPI_SUCCESS
  else some (w, .MCAPI_ERR_REQUEST_INVALID)

/-! ## What a cancel is to do -/

/-- The receive request `r` holds entry `i` of the receive queue of endpoint `p`. -/
structure Reserves (w : World) (r : ℕ) (p : Place) (i : ℕ) : Prop where
  type : (w.requests r).type = RECV
  handle : mcapi_trans_decode_handle (w.requests r).handle = some p
  index : (w.requests r).ep_qindex = i
  reserved : ((w.endpoints p).recv_queue.elements i).reserved = true

section

variable (env : Env) (w : World) (request r : ℕ) (mcapi_status : Status)

/-- The world in which the cancel decides: that of its first look if this ends it, and that
of its compare-and-swap otherwise. -/
def decided : World :=
  match (w.requests r).state with
  | REQUEST_FREE => w
  | REQUEST_CANCELLED => w
  | _ => env 0 w

/-- A cancel of a pending request moves it to `REQUEST_CANCELLED`, where it is unless other
threads have moved it on, gives back its entry, and reports success. A cancel of a completed
request changes nothing and reports an error. Both return. -/
structure Cancels : Prop where
  returns : mcapi_trans_cancel env w request mcapi_status ≠ none
  pending : ((decided env w r).requests r).state = REQUEST_VALID →
    ∀ w' status, mcapi_trans_cancel env w request mcapi_status = some (w', status) →
      status = .MCAPI_SUCCESS ∧
      ((∀ w, (env 1 w).requests r = w.requests r) →
        (w'.requests r).state = REQUEST_CANCELLED) ∧
      ∀ p i, Reserves (decided env w r) r p i →
        ((w'.endpoints p).recv_queue.elements i).reserved = false
  completed : ((decided env w r).requests r).state = REQUEST_COMPLETED →
    ∀ w' status, mcapi_trans_cancel env w request mcapi_status = some (w', status) →
      status ≠ .MCAPI_SUCCESS ∧ w' = decided env w r

/-- The undo finds a receive with a handle or a request for an endpoint, and the entry that
the request held, if any, was released by others. -/
def Undoable : Prop :=
  let w₁ := env 1 ((decided env w r).cancelled r)
  ((w₁.requests r).type = GET_ENDPT ∨
    (w₁.requests r).type = RECV ∧
      (mcapi_trans_decode_handle (w₁.requests r).handle).isSome = true) ∧
  ∀ p i, Reserves (decided env w r) r p i →
    ((w₁.endpoints p).recv_queue.elements i).reserved = false

end

/-! ## Small lemmas -/

section

variable {env : Env} {w w₁ : World} {request r : ℕ} {status mcapi_status : Status}

@[simp] theorem World.requests_cancelled :
    (w.cancelled r).requests r = { w.requests r with state := REQUEST_CANCELLED } :=
  World.requests_setRequest_self ..

@[simp] theorem World.endpoints_cancelled : (w.cancelled r).endpoints = w.endpoints := rfl

/-- The undo of a receive needs its handle, keeps all queues, and changes nothing else in
the state of the request. -/
theorem cancel_receive_request_some (hr : mcapi_trans_decode_request_handle request = some r) :
    (cancel_receive_request w request).isSome =
      (mcapi_trans_decode_handle (w.requests r).handle).isSome ∧
    ∀ w', cancel_receive_request w request = some w' →
      w'.endpoints = w.endpoints ∧ (w'.requests r).state = (w.requests r).state := by
  cases hh : mcapi_trans_decode_handle (w.requests r).handle with
  | none => simp only [cancel_receive_request, hr, hh, Option.isSome_none, reduceCtorEq,
      false_imp_iff, implies_true, and_self]
  | some p =>
    by_cases hindex : (w.requests r).ep_qindex ≠ -1
    · simp only [cancel_receive_request, hr, hh, if_pos hindex, Option.isSome_some,
        Option.some.injEq, true_and]
      rintro w' rfl
      exact ⟨rfl, by rw [World.requests_setRequest_self]⟩
    · simp only [cancel_receive_request, hr, hh, if_neg hindex, Option.isSome_some,
        Option.some.injEq, true_and]
      rintro w' rfl
      exact ⟨rfl, rfl⟩

/-- What ends the cancel at its first look. -/
theorem cancel_looked (env : Env) (mcapi_status : Status)
    (hr : mcapi_trans_decode_request_handle request = some r)
    (h : (w.requests r).state = REQUEST_FREE ∨ (w.requests r).state = REQUEST_CANCELLED) :
    decided env w r = w ∧
      ∃ status, mcapi_trans_cancel env w request mcapi_status = some (w, status) := by
  rcases h with h | h
  · exact ⟨by simp only [decided, h], .MCAPI_ERR_REQUEST_INVALID,
      by simp only [mcapi_trans_cancel, hr, h]⟩
  · exact ⟨by simp only [decided, h], .MCAPI_ERR_REQUEST_CANCELLED,
      by simp only [mcapi_trans_cancel, hr, h]⟩

/-- A cancel that is too late leaves the status as it was. -/
theorem cancel_late (mcapi_status : Status)
    (hr : mcapi_trans_decode_request_handle request = some r)
    (hfree : (w.requests r).state ≠ REQUEST_FREE)
    (hcancelled : (w.requests r).state ≠ REQUEST_CANCELLED)
    (h : ((env 0 w).requests r).state ≠ REQUEST_VALID) :
    mcapi_trans_cancel env w request mcapi_status = some (env 0 w, mcapi_status) := by
  cases hstate : (w.requests r).state with
  | REQUEST_FREE => exact absurd hstate hfree
  | REQUEST_CANCELLED => exact absurd hstate hcancelled
  | REQUEST_VALID => simp only [mcapi_trans_cancel, hr, hstate, if_neg h]
  | REQUEST_RECEIVED => simp only [mcapi_trans_cancel, hr, hstate, if_neg h]
  | REQUEST_COMPLETED => simp only [mcapi_trans_cancel, hr, hstate, if_neg h]

/-- A cancel whose compare-and-swap succeeds returns what the undo leaves, and success. -/
theorem cancel_pending (hr : mcapi_trans_decode_request_handle request = some r)
    (hfree : (w.requests r).state ≠ REQUEST_FREE)
    (hcancelled : (w.requests r).state ≠ REQUEST_CANCELLED)
    (h : ((env 0 w).requests r).state = REQUEST_VALID)
    (hw : env 1 ((env 0 w).cancelled r) = w₁) :
    mcapi_trans_cancel env w request mcapi_status =
      match (w₁.requests r).type with
      | RECV => (cancel_receive_request w₁ request).map fun w => (w, .MCAPI_SUCCESS)
      | GET_ENDPT => some (w₁, .MCAPI_SUCCESS)
      | _ => none := by
  cases hstate : (w.requests r).state with
  | REQUEST_FREE => exact absurd hstate hfree
  | REQUEST_CANCELLED => exact absurd hstate hcancelled
  | REQUEST_VALID => simp only [mcapi_trans_cancel, hr, hstate, if_pos h, hw]
  | REQUEST_RECEIVED => simp only [mcapi_trans_cancel, hr, hstate, if_pos h, hw]
  | REQUEST_COMPLETED => simp only [mcapi_trans_cancel, hr, hstate, if_pos h, hw]

/-- What the look does not end is decided by the compare-and-swap. -/
theorem decided_later (hfree : (w.requests r).state ≠ REQUEST_FREE)
    (hcancelled : (w.requests r).state ≠ REQUEST_CANCELLED) : decided env w r = env 0 w := by
  cases hstate : (w.requests r).state with
  | REQUEST_FREE => exact absurd hstate hfree
  | REQUEST_CANCELLED => exact absurd hstate hcancelled
  | REQUEST_VALID => simp only [decided, hstate]
  | REQUEST_RECEIVED => simp only [decided, hstate]
  | REQUEST_COMPLETED => simp only [decided, hstate]

/-- Where the compare-and-swap succeeds, the look did not end the cancel. -/
theorem looked_of_valid (h : ((decided env w r).requests r).state = REQUEST_VALID) :
    (w.requests r).state ≠ REQUEST_FREE ∧ (w.requests r).state ≠ REQUEST_CANCELLED := by
  constructor <;> intro hstate
  · simp only [decided, hstate, reduceCtorEq] at h
  · simp only [decided, hstate, reduceCtorEq] at h

/-- The undo returns if and only if it finds a type that it knows, and then it keeps the
queues and the state of the request. -/
theorem cancel_undone (mcapi_status : Status)
    (hr : mcapi_trans_decode_request_handle request = some r)
    (h : ((decided env w r).requests r).state = REQUEST_VALID)
    (hw : env 1 ((decided env w r).cancelled r) = w₁) :
    (mcapi_trans_cancel env w request mcapi_status ≠ none ↔
      (w₁.requests r).type = GET_ENDPT ∨
        (w₁.requests r).type = RECV ∧
          (mcapi_trans_decode_handle (w₁.requests r).handle).isSome = true) ∧
    ∀ w' status, mcapi_trans_cancel env w request mcapi_status = some (w', status) →
      status = .MCAPI_SUCCESS ∧ w'.endpoints = w₁.endpoints ∧
        (w'.requests r).state = (w₁.requests r).state := by
  obtain ⟨hfree, hcancelled⟩ := looked_of_valid h
  have hdecided : decided env w r = env 0 w := decided_later hfree hcancelled
  rw [hdecided] at h hw
  rw [cancel_pending hr hfree hcancelled h hw]
  obtain ⟨hsome, hkept⟩ := cancel_receive_request_some (w := w₁) hr
  cases htype : (w₁.requests r).type with
  | RECV =>
    dsimp only
    constructor
    · simp only [ne_eq, Option.map_eq_none_iff, reduceCtorEq, true_and, false_or, ← hsome]
      cases cancel_receive_request w₁ request <;> simp
    · intro w' status hcall
      obtain ⟨w₂, hw₂, heq⟩ := Option.map_eq_some_iff.mp hcall
      obtain ⟨rfl, rfl⟩ := Prod.mk.inj heq
      obtain ⟨hendpoints, hstate⟩ := hkept w₂ hw₂
      exact ⟨rfl, hendpoints, hstate⟩
  | GET_ENDPT =>
    constructor
    · simp only [ne_eq, reduceCtorEq, not_false_eq_true, true_or]
    · intro w' status hcall
      obtain ⟨rfl, rfl⟩ := by simpa only [Option.some.injEq, Prod.mk.injEq] using hcall
      exact ⟨rfl, rfl, rfl⟩
  | _ => simp only [ne_eq, not_true_eq_false, reduceCtorEq, false_and, or_self, false_imp_iff,
      implies_true, and_self]

/-! ## When a cancel is right -/

/-- **A cancel of a pending request is right if and only if the undo knows its type and it
holds no entry of a queue any more, and one of a completed request if and only if the status
was an error before**: for all that other threads do. -/
theorem cancels_iff (env : Env) (w : World) (mcapi_status : Status)
    (hr : mcapi_trans_decode_request_handle request = some r) :
    Cancels env w request r mcapi_status ↔
      (((decided env w r).requests r).state = REQUEST_VALID → Undoable env w r) ∧
      (((decided env w r).requests r).state = REQUEST_COMPLETED →
        mcapi_status ≠ .MCAPI_SUCCESS) := by
  by_cases hlook : (w.requests r).state = REQUEST_FREE ∨
      (w.requests r).state = REQUEST_CANCELLED
  · -- the look ends the cancel with an error
    obtain ⟨hdecided, status, hcall⟩ := cancel_looked env mcapi_status hr hlook
    have hvalid : ((decided env w r).requests r).state ≠ REQUEST_VALID := by
      rw [hdecided]
      rcases hlook with h | h <;> rw [h] <;> decide
    have hcompleted : ((decided env w r).requests r).state ≠ REQUEST_COMPLETED := by
      rw [hdecided]
      rcases hlook with h | h <;> rw [h] <;> decide
    constructor
    · intro _
      exact ⟨fun h => absurd h hvalid, fun h => absurd h hcompleted⟩
    · intro _
      exact ⟨by rw [hcall]; nofun, fun h => absurd h hvalid, fun h => absurd h hcompleted⟩
  · obtain ⟨hfree, hcancelled⟩ := not_or.mp hlook
    have hdecided : decided env w r = env 0 w := decided_later hfree hcancelled
    by_cases hvalid : ((decided env w r).requests r).state = REQUEST_VALID
    · have hcompleted : ((decided env w r).requests r).state ≠ REQUEST_COMPLETED := by
        rw [hvalid]
        decide
      obtain ⟨hreturns, hundone⟩ := cancel_undone mcapi_status hr hvalid rfl
      constructor
      · intro h
        refine ⟨fun _ => ⟨hreturns.mp h.returns, ?_⟩, fun hc => absurd hc hcompleted⟩
        intro p i hreserves
        obtain ⟨⟨w', status⟩, hcall⟩ := Option.ne_none_iff_exists'.mp h.returns
        rw [← (hundone w' status hcall).2.1]
        exact (h.pending hvalid w' status hcall).2.2 p i hreserves
      · rintro ⟨hundoable, -⟩
        obtain ⟨hknown, hgone⟩ := hundoable hvalid
        refine ⟨hreturns.mpr hknown, fun _ w' status hcall => ?_, fun hc => absurd hc hcompleted⟩
        obtain ⟨hstatus, hendpoints, hstate⟩ := hundone w' status hcall
        refine ⟨hstatus, fun hothers => ?_, fun p i hreserves => ?_⟩
        · rw [hstate, hothers, World.requests_cancelled]
        · rw [hendpoints]
          exact hgone p i hreserves
    · have hlate : ((env 0 w).requests r).state ≠ REQUEST_VALID := by
        rwa [← hdecided]
      have hcall := cancel_late mcapi_status hr hfree hcancelled hlate
      constructor
      · intro h
        exact ⟨fun hv => absurd hv hvalid, fun hc => (h.completed hc _ _ hcall).1⟩
      · rintro ⟨-, hstatus⟩
        refine ⟨by rw [hcall]; nofun, fun hv => absurd hv hvalid, fun hc w' status hcall' => ?_⟩
        rw [hcall] at hcall'
        obtain ⟨rfl, rfl⟩ := by simpa only [Option.some.injEq, Prod.mk.injEq] using hcall'
        exact ⟨hstatus hc, hdecided.symm⟩

end

/-- A request for an endpoint holds no entry. -/
theorem cancels_get_endpt :
    Cancels (fun _ w => w)
      (fifoWorld.setRequest 0 ⟨REQUEST_VALID, GET_ENDPT, 0, 0, .MCAPI_SUCCESS, -1, true⟩)
      (requestHandle 0) 0 .MCAPI_SUCCESS :=
  (cancels_iff _ _ _ (by decide)).mpr
    ⟨fun _ => ⟨.inl rfl, fun _ _ h => nomatch h.type⟩, fun h => nomatch h⟩

/-- What a request to open a channel is before the channel is connected. Its cancel
terminates the process. -/
theorem cancel_terminates : ¬ ∀ (env : Env) (w : World) (request r : ℕ),
    mcapi_trans_decode_request_handle request = some r →
      (w.requests r).state = REQUEST_VALID → Cancels env w request r .MCAPI_SUCCESS := by
  intro hall
  have hcancels := hall (fun _ w => w)
    (fifoWorld.setRequest 0 ⟨REQUEST_VALID, OPEN_PKTCHAN, 0, 0, .MCAPI_SUCCESS, -1, true⟩)
    (requestHandle 0) 0 (by decide) rfl
  exact hcancels.returns rfl

/-! ## With no other thread -/

section

variable {w w' : World} {request r : ℕ} {status : Status}

/-- A pending request is then cancelled rightly if and only if it is a receive that holds no
entry, or a request for an endpoint. -/
theorem undoable_alone (h : (w.requests r).state = REQUEST_VALID) :
    Undoable (fun _ w => w) w r ↔
      ((w.requests r).type = GET_ENDPT ∨ (w.requests r).type = RECV ∧
        (mcapi_trans_decode_handle (w.requests r).handle).isSome = true) ∧
      ∀ p i, ¬ Reserves w r p i := by
  have hdecided : decided (fun _ w => w) w r = w := by
    simp only [decided, h]
  rw [Undoable, hdecided, World.requests_cancelled, World.endpoints_cancelled]
  refine and_congr_right fun _ => forall_congr' fun p => forall_congr' fun i => ?_
  constructor
  · intro hgone hreserves
    have hreserved := hreserves.reserved
    rw [hgone hreserves] at hreserved
    exact Bool.false_ne_true hreserved
  · exact fun hnot hreserves => absurd hreserves hnot

/-- A receive that has to wait for a message holds the entry that it was given, until a test
completes it. -/
theorem setup_reserves {handle size i : ℕ} {p : Place}
    (hp : mcapi_trans_decode_handle handle = some p)
    (hi : LockFree.firstUnreserved (w.endpoints p).recv_queue = some i)
    (h : setup_request w r handle status false size RECV = some w') : Reserves w' r p i := by
  simp only [setup_request, hp, reserveEntry, hi, Bool.false_eq_true, if_false, if_true,
    Option.map_some, Option.some.injEq] at h
  subst h
  constructor
  · rw [World.requests_setRequest_self]
  · rw [World.requests_setRequest_self]
    exact hp
  · rw [World.requests_setRequest_self]
  · rw [World.endpoints_setRequest, World.endpoints_setShared_self]
    simp only [Shared.setElement, World.shared, Function.update_self]

/-- The application is told that a completed request was cancelled. -/
theorem cancel_completed (hr : mcapi_trans_decode_request_handle request = some r)
    (h : (w.requests r).state = REQUEST_COMPLETED) :
    mcapi_cancel (fun _ w => w) w request = some (w, .MCAPI_SUCCESS) := by
  have hne : (w.requests r).state ≠ REQUEST_VALID := by
    rw [h]
    decide
  rw [mcapi_cancel, if_pos (by rw [hr]; rfl)]
  exact cancel_late _ hr (by rw [h]; decide) (by rw [h]; decide) hne

end

end MxApi.Calls
