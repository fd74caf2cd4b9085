/-
The endpoints with FIFO buffers under one client: what its sends, receives, tests and
cancellations keep.

Each queue holds its elements ([`FifoQueue`]), and the elements of two queues are in
different buffers of the pool. Nothing is asked of the requests: a request that waits for a
message reserves an entry, but the reservation is not looked at when messages are received.
-/
import MxApi.Mcapi.Cancel
import MxApi.Mcapi.FifoQueue

set_option autoImplicit false

namespace MxApi.Calls

open Lib Transfers channel_type mcapi_buffer_state mcapi_status_t mcapi_request_state
  mcapi_request_type mcapi_buffer_type

/-! ## The invariant -/

/-- The elements of the queues, and how many were received from each. -/
structure FifoWorld (w : World) (pending : Place → List SendFrame) (a : Place → ℕ) : Prop where
  buffers : ∀ p, (w.endpoints p).buffer_type = MCAPI_ENDP_ATTR_FIFO_BUFFER
  queue : ∀ p, FifoQueue (w.endpoints p).recv_queue.channel_type (w.shared p) (pending p) (a p)
  apart : ∀ p p' x y, p ≠ p' → x ∈ pending p → y ∈ pending p' → x.i ≠ y.i

/-- All endpoints have FIFO buffers, and nothing was sent to them yet. -/
structure World.Fresh (w : World) : Prop where
  buffers : ∀ p, (w.endpoints p).buffer_type = MCAPI_ENDP_ATTR_FIFO_BUFFER
  queue : ∀ p, ∃ ct, (w.endpoints p).recv_queue = queue.zero ct

theorem World.Fresh.fifoWorld {w : World} (h : w.Fresh) :
    FifoWorld w (fun _ => []) fun _ => 0 where
  buffers := h.buffers
  queue := by
    intro p
    obtain ⟨ct, hct⟩ := h.queue p
    rw [World.shared, hct]
    exact .zero ct _
  apart := nofun

namespace FifoWorld

variable {w w' : World} {pending : Place → List SendFrame} {a : Place → ℕ} {p : Place}
  {sh : Shared} {m : Msg} {size r : ℕ}

/-- The requests do not matter. -/
theorem setRequest (h : FifoWorld w pending a) (r : ℕ) (req : Request) :
    FifoWorld (w.setRequest r req) pending a :=
  ⟨h.buffers, h.queue, h.apart⟩

/-- A transfer on one endpoint that leaves the elements of the others alone. -/
theorem transfer (h : FifoWorld w pending a) {rest : List SendFrame} {n : ℕ}
    (hqueue : FifoQueue (w.endpoints p).recv_queue.channel_type sh rest n)
    (hothers : ∀ p' y, p' ≠ p → y ∈ pending p' → sh.buffers y.i = w.buffers y.i)
    (hapart : ∀ p' x y, p' ≠ p → x ∈ rest → y ∈ pending p' → x.i ≠ y.i) :
    FifoWorld (w.setShared p sh) (Function.update pending p rest) (Function.update a p n) where
  buffers := by
    intro p'
    by_cases hp : p' = p
    · rw [hp, World.endpoints_setShared_self]
      exact h.buffers p
    · rw [World.endpoints_setShared_of_ne _ _ _ hp]
      exact h.buffers p'
  queue := by
    intro p'
    by_cases hp : p' = p
    · rw [hp, World.shared_setShared, World.endpoints_setShared_self, Function.update_self,
        Function.update_self]
      exact hqueue.channel ▸ hqueue
    · rw [World.endpoints_setShared_of_ne _ _ _ hp, Function.update_of_ne hp,
        Function.update_of_ne hp]
      have hq : ((w.setShared p sh).shared p').q = (w.shared p').q :=
        congrArg Endpoint.recv_queue (World.endpoints_setShared_of_ne _ _ _ hp)
      refine (h.queue p').frame ?_ ?_ ?_ ?_ ?_ fun y hy => hothers p' y hp hy
      · rw [hq]
        rfl
      · rw [hq]
      · rw [hq]
      · rw [hq]
        exact fun _ => rfl
      · rw [hq]
        exact fun _ => rfl
  apart := by
    intro p₁ p₂ x y hne hx hy
    by_cases h₁ : p₁ = p
    · have h₂ : p₂ ≠ p := fun h₂ => hne (h₁.trans h₂.symm)
      rw [h₁, Function.update_self] at hx
      rw [Function.update_of_ne h₂] at hy
      exact hapart p₂ x y h₂ hx hy
    · rw [Function.update_of_ne h₁] at hx
      by_cases h₂ : p₂ = p
      · rw [h₂, Function.update_self] at hy
        exact (hapart p₁ y x h₁ hy hx).symm
      · rw [Function.update_of_ne h₂] at hy
        exact h.apart p₁ p₂ x y hne hx hy

/-- A buffer that is free holds no element. -/
theorem used (h : FifoWorld w pending a) {y : SendFrame} (hy : y ∈ pending p) :
    (w.buffers y.i).magic_num ≠ 0 := by
  have hmarked := ((h.queue p).carries y hy).marked
  intro hzero
  exact MAGIC_NUM_ne_zero (hmarked.symm.trans hzero)

theorem send (h : FifoWorld w pending a) {ok : Bool}
    (hsend : mcapi_trans_send (w.shared p) m = some (sh, ok)) :
    ∃ pending', FifoWorld (w.setShared p sh) pending' a := by
  rcases (h.queue p).send hsend with ⟨-, i, hmagic, hothers, hqueue⟩ | ⟨-, rfl⟩
  · have hne : ∀ p' y, y ∈ pending p' → y.i ≠ i := by
      rintro p' y hy rfl
      exact h.used hy hmagic
    have hnext := h.transfer hqueue (fun p' y _ hy => hothers y.i (hne p' y hy))
      (fun p' x y hp hx hy => ?_)
    · rw [Function.update_eq_self] at hnext
      exact ⟨_, hnext⟩
    · rcases List.mem_append.mp hx with hx | hx
      · exact (h.apart p' p y x hp hy hx).symm
      · rw [List.mem_singleton.mp hx]
        exact (hne p' y hy).symm
  · rw [World.setShared_shared]
    exact ⟨pending, h⟩

/-- The first element of one queue is taken. -/
theorem taken (h : FifoWorld w pending a) {x : SendFrame} {rest : List SendFrame}
    (hpending : pending p = x :: rest)
    (hqueue : FifoQueue (w.endpoints p).recv_queue.channel_type sh rest (a p + 1))
    (hothers : ∀ j, j ≠ x.i → sh.buffers j = w.buffers j) :
    FifoWorld (w.setShared p sh) (Function.update pending p rest)
      (Function.update a p (a p + 1)) := by
  have hx : x ∈ pending p := by
    rw [hpending]
    exact List.mem_cons_self
  refine h.transfer hqueue (fun p' y hp hy => hothers y.i (h.apart p' p y x hp hy hx))
    fun p' z y hp hz hy => ?_
  refine (h.apart p' p y z hp hy ?_).symm
  rw [hpending]
  exact List.mem_cons_of_mem _ hz

/-- **A receive** finds the first element, if there is one. -/
theorem recv (h : FifoWorld w pending a) (p : Place) (size : ℕ) :
    (pending p = [] ∧ mcapi_trans_recv (w.shared p) size = some (w.shared p, none)) ∨
    ∃ x rest sh, pending p = x :: rest ∧
      mcapi_trans_recv (w.shared p) size =
        some (sh, some (deliver (w.endpoints p).recv_queue.channel_type x size)) ∧
      sh.q.channel_type = (w.endpoints p).recv_queue.channel_type ∧
      FifoWorld (w.setShared p sh) (Function.update pending p rest)
        (Function.update a p (a p + 1)) := by
  have hqueue := h.queue p
  cases hpending : pending p with
  | nil =>
    rw [hpending] at hqueue
    exact .inl ⟨rfl, hqueue.recv_nil size⟩
  | cons x rest =>
    rw [hpending] at hqueue
    obtain ⟨sh, hrecv, hothers, hqueue'⟩ := hqueue.recv_cons size
    exact .inr ⟨x, rest, sh, rfl, hrecv, hqueue'.channel, h.taken hpending hqueue' hothers⟩

/-- Whether an entry is reserved does not matter. -/
theorem reserve (h : FifoWorld w pending a) (p : Place) (qindex : ℕ) :
    FifoWorld (w.setShared p ((w.shared p).setElement qindex
      { (w.shared p).q.elements qindex with reserved := true })) pending a := by
  have hsame : ∀ j, ((w.shared p).setElement qindex
      { (w.shared p).q.elements qindex with reserved := true }).q.elements j =
        { (w.shared p).q.elements j with
          reserved := if j = qindex then true else ((w.shared p).q.elements j).reserved } := by
    intro j
    by_cases hj : j = qindex
    · rw [hj, Shared.setElement_self, if_pos rfl]
    · rw [Shared.setElement_of_ne _ hj, if_neg hj]
  have hqueue : FifoQueue (w.endpoints p).recv_queue.channel_type
      ((w.shared p).setElement qindex
        { (w.shared p).q.elements qindex with reserved := true }) (pending p) (a p) :=
    (h.queue p).frame rfl rfl rfl (fun j => by rw [hsame]) (fun j => by rw [hsame])
      fun _ _ => rfl
  have hnext := h.transfer hqueue (fun _ _ _ _ => rfl)
    fun p' x y hp hx hy => (h.apart p' p y x hp hy hx).symm
  rw [Function.update_eq_self, Function.update_eq_self] at hnext
  exact hnext

theorem reserve_request (h : FifoWorld w pending a) {rand : ℕ}
    (hreserve : mcapi_trans_reserve_request w rand = some (w', r)) : FifoWorld w' pending a := by
  obtain ⟨-, -, rfl⟩ := reserve_request_some hreserve
  exact h.setRequest r _

end FifoWorld

/-! ## The calls -/

/-- The calls of a client, with what the application layer hands to them. -/
inductive FifoCall
  | msg_send_i (rand send_endpoint receive_endpoint : ℕ) (m : Msg) (request : ℕ)
      (mcapi_status : Status)
  | pktchan_send_i (rand send_handle : ℕ) (m : Msg) (request : ℕ) (mcapi_status : Status)
  | sclchan_send (send_handle : ℕ) (m : Msg)
  | msg_recv_i (rand receive_endpoint buffer_size request : ℕ) (mcapi_status : Status)
  | pktchan_recv_i (rand receive_handle request : ℕ) (mcapi_status : Status)
  | sclchan_recv (fuel receive_handle size : ℕ)
  | test_i (request : ℕ)
  | cancel (request : ℕ) (mcapi_status : Status)

/-- A call of the one client; nobody else does anything while it waits. -/
def fifoCallStep (w : World) : FifoCall → Option World
  | .msg_send_i rand se re m request st =>
    (mcapi_trans_msg_send_i w rand se re m request st).map Called.world
  | .pktchan_send_i rand h m request st =>
    (mcapi_trans_pktchan_send_i w rand h m request st).map Called.world
  | .sclchan_send h m => (mcapi_trans_sclchan_send w h m).map Prod.fst
  | .msg_recv_i rand re size request st =>
    (mcapi_trans_msg_recv_i w rand re size request st).map Called.world
  | .pktchan_recv_i rand h request st =>
    (mcapi_trans_pktchan_recv_i w rand h request st).map Called.world
  | .sclchan_recv fuel h size =>
    (mcapi_trans_sclchan_recv (fun _ w => w) fuel w h size).map Returned.world
  | .test_i request => (mcapi_trans_test_i w request).map Tested.world
  | .cancel request st => (mcapi_trans_cancel (fun _ w => w) w request st).map Prod.fst

/-- The endpoint that a message is sent to. -/
def FifoCall.target (w : World) : FifoCall → Option Place
  | .msg_send_i _ _ re _ _ st =>
    if st = .MCAPI_SUCCESS then mcapi_trans_decode_handle re else none
  | .pktchan_send_i _ h _ _ st =>
    if st = .MCAPI_SUCCESS then
      (mcapi_trans_decode_handle h).bind fun se =>
        mcapi_trans_decode_handle (w.endpoints se).recv_endpt
    else none
  | .sclchan_send h _ =>
    (mcapi_trans_decode_handle h).bind fun se =>
      mcapi_trans_decode_handle (w.endpoints se).recv_endpt
  | _ => none

/-- The world that a call leaves, and what it hands to its caller. -/
def fifoCallResult (w : World) : FifoCall → Option (World × List Delivery)
  | .msg_send_i rand se re m request st =>
    (mcapi_trans_msg_send_i w rand se re m request st).map fun c => (c.world, [])
  | .pktchan_send_i rand h m request st =>
    (mcapi_trans_pktchan_send_i w rand h m request st).map fun c => (c.world, [])
  | .sclchan_send h m => (mcapi_trans_sclchan_send w h m).map fun t => (t.1, [])
  | .msg_recv_i rand re size request st =>
    (mcapi_trans_msg_recv_i w rand re size request st).map fun c => (c.world, c.delivery.toList)
  | .pktchan_recv_i rand h request st =>
    (mcapi_trans_pktchan_recv_i w rand h request st).map fun c => (c.world, c.delivery.toList)
  | .sclchan_recv fuel h size =>
    (mcapi_trans_sclchan_recv (fun _ w => w) fuel w h size).map fun x => (x.world, x.deliveries)
  | .test_i request =>
    (mcapi_trans_test_i w request).map fun t => (t.world, t.delivery.toList)
  | .cancel request st =>
    (mcapi_trans_cancel (fun _ w => w) w request st).map fun t => (t.1, [])

theorem fifoCallResult_world (w : World) (c : FifoCall) :
    (fifoCallResult w c).map Prod.fst = fifoCallStep w c := by
  cases c <;> simp only [fifoCallResult, fifoCallStep, Option.map_map] <;> rfl

/-! ## What every call keeps -/

/-- A property of the world and of what was handed out, which is kept by what the calls are
made of. The endpoints that messages are sent to meet `T`. -/
structure FifoKept (T : Endpoint → Prop) (I : World → List Delivery → Prop) : Prop where
  buffers : ∀ w ds p, I w ds → (w.endpoints p).buffer_type = MCAPI_ENDP_ATTR_FIFO_BUFFER
  request : ∀ w ds r req, I w ds → I (w.setRequest r req) ds
  reserve : ∀ w ds p qindex, I w ds → I (w.setShared p ((w.shared p).setElement qindex
    { (w.shared p).q.elements qindex with reserved := true })) ds
  send : ∀ w ds p m sh ok, I w ds → T (w.endpoints p) →
    mcapi_trans_send (w.shared p) m = some (sh, ok) → I (w.setShared p sh) ds
  recv : ∀ w ds p size sh d, I w ds → mcapi_trans_recv (w.shared p) size = some (sh, d) →
    I (w.setShared p sh) (ds ++ d.toList)
  check : ∀ w ds r w' d, I w ds → check_receive_request_ w r = some (w', d) →
    I w' (ds ++ d.toList)

namespace FifoKept

variable {T : Endpoint → Prop} {I : World → List Delivery → Prop} {w w' : World}
  {ds : List Delivery} {p : Place} {m : Msg} {size rand r handle request : ℕ}
  {re : Option Place} {st : Status} {c : Called}

/-- An entry is reserved for a request, or the request fails. -/
theorem reserveEntry (hI : FifoKept T I) (h : I w ds) (r : ℕ) (req : Request) (p : Place) :
    I (Calls.reserveEntry w r req p) ds := by
  unfold Calls.reserveEntry
  dsimp only
  split
  · exact hI.request _ _ r _ (hI.reserve w ds p _ h)
  · exact hI.request _ _ r _ h

theorem setup_request (hI : FifoKept T I) (h : I w ds) {completed : Bool} {type : mcapi_request_type}
    (hsetup : Calls.setup_request w r handle st completed size type = some w') : I w' ds := by
  unfold Calls.setup_request at hsetup
  dsimp only at hsetup
  split at hsetup
  · obtain rfl := Option.some.inj hsetup
    exact hI.request _ _ r _ h
  · split at hsetup
    · obtain ⟨p, -, rfl⟩ := Option.map_eq_some_iff.mp hsetup
      exact hI.reserveEntry h r _ p
    · obtain rfl := Option.some.inj hsetup
      exact hI.request _ _ r _ h

theorem send_i (hI : FifoKept T I) (h : I w ds)
    (htarget : st = .MCAPI_SUCCESS → ∀ p', re = some p' → T (w.endpoints p'))
    (hsend : Calls.send_i w rand p re handle m request st = some c) : I c.world ds := by
  unfold Calls.send_i at hsend
  rw [hI.buffers w ds p h] at hsend
  dsimp only at hsend
  split at hsend
  · cases hsend
    exact h
  · rename_i w₁ r hreserve
    obtain ⟨-, -, rfl⟩ := reserve_request_some hreserve
    have h₁ := hI.request w ds r { w.requests r with state := REQUEST_VALID, mine := true } h
    split at hsend
    · rename_i hst
      split at hsend
      · cases hsend
      · rename_i p'
        split at hsend
        · cases hsend
        · rename_i htransfer
          obtain ⟨w₂, hsetup, rfl⟩ := Option.map_eq_some_iff.mp hsend
          exact hI.setup_request
            (hI.send _ _ p' _ _ _ h₁ (htarget hst p' rfl) htransfer) hsetup
    · obtain ⟨w₂, hsetup, rfl⟩ := Option.map_eq_some_iff.mp hsend
      exact hI.setup_request h₁ hsetup

theorem recv_i (hI : FifoKept T I) (h : I w ds)
    (hrecv : Calls.recv_i w rand p re handle size request st = some c) :
    I c.world (ds ++ c.delivery.toList) := by
  unfold Calls.recv_i at hrecv
  rw [hI.buffers w ds p h] at hrecv
  dsimp only at hrecv
  split at hrecv
  · cases hrecv
    rwa [Option.toList_none, List.append_nil]
  · rename_i w₁ r hreserve
    obtain ⟨-, -, rfl⟩ := reserve_request_some hreserve
    have h₁ := hI.request w ds r { w.requests r with state := REQUEST_VALID, mine := true } h
    split at hrecv
    · split at hrecv
      · cases hrecv
      · split at hrecv
        · cases hrecv
        · rename_i htransfer
          obtain ⟨w₂, hsetup, rfl⟩ := Option.map_eq_some_iff.mp hrecv
          exact hI.setup_request (hI.recv _ _ _ _ _ _ h₁ htransfer) hsetup
        · rename_i htransfer
          obtain ⟨w₂, hsetup, rfl⟩ := Option.map_eq_some_iff.mp hrecv
          exact hI.setup_request (hI.recv _ _ _ _ _ _ h₁ htransfer) hsetup
    · obtain ⟨w₂, hsetup, rfl⟩ := Option.map_eq_some_iff.mp hrecv
      rw [Option.toList_none, List.append_nil]
      exact hI.setup_request h₁ hsetup

theorem recvPolls (hI : FifoKept T I) {fuel n : ℕ} {t : World × Delivery} (h : I w ds)
    (hpolls : Calls.recvPolls (fun _ w => w) p size fuel n w = some t) :
    I t.1 (ds ++ [t.2]) := by
  induction fuel generalizing n w with
  | zero => cases hpolls
  | succ fuel ih =>
    simp only [Calls.recvPolls] at hpolls
    split at hpolls
    · cases hpolls
    · rename_i hrecv
      cases hpolls
      exact hI.recv _ _ _ _ _ _ h hrecv
    · rename_i hrecv
      have hnext := hI.recv _ _ _ _ _ _ h hrecv
      rw [Option.toList_none, List.append_nil] at hnext
      exact ih hnext hpolls

theorem test_i (hI : FifoKept T I) {t : Tested} (h : I w ds)
    (htest : mcapi_trans_test_i w request = some t) : I t.world (ds ++ t.delivery.toList) := by
  unfold mcapi_trans_test_i at htest
  split at htest
  · cases htest
  · rename_i w₁ rc status delivery hstate
    have h₁ : I w₁ (ds ++ delivery.toList) := by
      unfold testState at hstate
      split at hstate
      · cases hstate
        rwa [Option.toList_none, List.append_nil]
      · dsimp only at hstate
        split at hstate
        · cases hstate
          rwa [Option.toList_none, List.append_nil]
        · cases hstate
          rw [Option.toList_none, List.append_nil]
          exact hI.request _ _ _ _ h
        · cases hstate
          rwa [Option.toList_none, List.append_nil]
        · split at hstate
          · cases hstate
            rwa [Option.toList_none, List.append_nil]
          · obtain ⟨⟨w₂, d⟩, hcheck, heq⟩ := Option.map_eq_some_iff.mp hstate
            cases heq
            unfold check_receive_request at hcheck
            split at hcheck
            · cases hcheck
            · rename_i p' _
              rw [hI.buffers w ds p' h] at hcheck
              exact hI.check _ _ _ _ _ h hcheck
          · cases hstate
    dsimp only at htest
    split at htest
    · split at htest
      · cases htest
        exact hI.request _ _ _ _ h₁
      · cases htest
        exact h₁
    · cases htest

theorem cancel (hI : FifoKept T I) {t : World × Status} (h : I w ds)
    (hcancel : mcapi_trans_cancel (fun _ w => w) w request st = some t) : I t.1 ds := by
  unfold mcapi_trans_cancel at hcancel
  split at hcancel
  · cases hcancel
  · dsimp only at hcancel
    split at hcancel
    · cases hcancel
      exact h
    · cases hcancel
      exact h
    · split at hcancel
      · split at hcancel
        · obtain ⟨w₁, hundo, rfl⟩ := Option.map_eq_some_iff.mp hcancel
          unfold cancel_receive_request at hundo
          split at hundo
          · cases hundo
          · dsimp only at hundo
            split at hundo
            · cases hundo
            · split at hundo
              · cases hundo
                exact hI.request _ _ _ _ (hI.request _ _ _ _ h)
              · cases hundo
                exact hI.request _ _ _ _ h
        · cases hcancel
          exact hI.request _ _ _ _ h
        · cases hcancel
      · cases hcancel
        exact h

theorem sclchan_send (hI : FifoKept T I) {t : World × Bool} (h : I w ds)
    (htarget : ∀ se p', mcapi_trans_decode_handle handle = some se →
      mcapi_trans_decode_handle (w.endpoints se).recv_endpt = some p' → T (w.endpoints p'))
    (hsend : mcapi_trans_sclchan_send w handle m = some t) : I t.1 ds := by
  unfold mcapi_trans_sclchan_send at hsend
  split at hsend
  · cases hsend
  · rename_i se hse
    split at hsend
    · cases hsend
    · rename_i p' hp'
      rw [hI.buffers w ds se h] at hsend
      obtain ⟨⟨sh, ok⟩, htransfer, rfl⟩ := Option.map_eq_some_iff.mp hsend
      exact hI.send _ _ p' _ _ _ h (htarget se p' hse hp') htransfer

theorem sclchan_recv (hI : FifoKept T I) {t : Returned} {fuel : ℕ} (h : I w ds)
    (hrecv : mcapi_trans_sclchan_recv (fun _ w => w) fuel w handle size = some t) :
    I t.world (ds ++ t.deliveries) := by
  unfold mcapi_trans_sclchan_recv at hrecv
  split at hrecv
  · cases hrecv
  · rename_i p _
    rw [hI.buffers w ds p h] at hrecv
    obtain ⟨t', hpolls, rfl⟩ := Option.map_eq_some_iff.mp hrecv
    exact hI.recvPolls h hpolls

/-- **What one call keeps.** -/
theorem step (hI : FifoKept T I) {call : FifoCall} (ds : List Delivery) {ds' : List Delivery}
    (h : I w ds)
    (htarget : ∀ p, call.target w = some p → T (w.endpoints p))
    (hstep : fifoCallResult w call = some (w', ds')) : I w' (ds ++ ds') := by
  cases call with
  | msg_send_i rand se re m request st =>
    obtain ⟨c, hsend, heq⟩ := Option.map_eq_some_iff.mp hstep
    cases heq
    rw [List.append_nil]
    unfold mcapi_trans_msg_send_i at hsend
    split at hsend
    · cases hsend
    · refine hI.send_i h (fun hst p' hp' => htarget p' ?_) hsend
      simp only [FifoCall.target, if_pos hst]
      exact (Option.filter_eq_some_iff.mp hp').1
  | pktchan_send_i rand handle m request st =>
    obtain ⟨c, hsend, heq⟩ := Option.map_eq_some_iff.mp hstep
    cases heq
    rw [List.append_nil]
    unfold mcapi_trans_pktchan_send_i at hsend
    split at hsend
    · cases hsend
    · rename_i se hse
      split at hsend
      · cases hsend
      · rename_i p hp
        refine hI.send_i h (fun hst p' hp' => htarget p' ?_) hsend
        simp only [FifoCall.target, if_pos hst, hse, Option.bind_some, hp, hp']
  | sclchan_send handle m =>
    obtain ⟨t, hsend, heq⟩ := Option.map_eq_some_iff.mp hstep
    cases heq
    rw [List.append_nil]
    refine hI.sclchan_send h (fun se p' hse hp' => htarget p' ?_) hsend
    simp only [FifoCall.target, hse, Option.bind_some, hp']
  | msg_recv_i rand re size request st =>
    obtain ⟨c, hrecv, heq⟩ := Option.map_eq_some_iff.mp hstep
    cases heq
    unfold mcapi_trans_msg_recv_i at hrecv
    split at hrecv
    · cases hrecv
    · exact hI.recv_i h hrecv
  | pktchan_recv_i rand handle request st =>
    obtain ⟨c, hrecv, heq⟩ := Option.map_eq_some_iff.mp hstep
    cases heq
    unfold mcapi_trans_pktchan_recv_i at hrecv
    split at hrecv
    · cases hrecv
    · exact hI.recv_i h hrecv
  | sclchan_recv fuel handle size =>
    obtain ⟨t, hrecv, heq⟩ := Option.map_eq_some_iff.mp hstep
    cases heq
    exact hI.sclchan_recv h hrecv
  | test_i request =>
    obtain ⟨t, htest, heq⟩ := Option.map_eq_some_iff.mp hstep
    cases heq
    exact hI.test_i h htest
  | cancel request st =>
    obtain ⟨t, hcancel, heq⟩ := Option.map_eq_some_iff.mp hstep
    cases heq
    rw [List.append_nil]
    exact hI.cancel h hcancel

end FifoKept

/-! ## The elements of the queues -/

/-- Some elements are in the queues. -/
def IsFifoWorld (w : World) : Prop := ∃ pending a, FifoWorld w pending a

namespace IsFifoWorld

variable {w w' : World} {p : Place} {sh : Shared} {m : Msg} {size r : ℕ}

theorem send (h : IsFifoWorld w) {ok : Bool}
    (hsend : mcapi_trans_send (w.shared p) m = some (sh, ok)) :
    IsFifoWorld (w.setShared p sh) := by
  obtain ⟨pending, a, h⟩ := h
  obtain ⟨pending', h'⟩ := h.send hsend
  exact ⟨pending', a, h'⟩

theorem recv (h : IsFifoWorld w) {d : Option Delivery}
    (hrecv : mcapi_trans_recv (w.shared p) size = some (sh, d)) :
    IsFifoWorld (w.setShared p sh) := by
  obtain ⟨pending, a, h⟩ := h
  rcases h.recv p size with ⟨-, hnone⟩ | ⟨x, rest, sh', -, hsome, -, h'⟩
  · rw [hnone, Option.some.injEq, Prod.mk.injEq] at hrecv
    rw [← hrecv.1, World.setShared_shared]
    exact ⟨pending, a, h⟩
  · rw [hsome, Option.some.injEq, Prod.mk.injEq] at hrecv
    rw [← hrecv.1]
    exact ⟨_, _, h'⟩

/-- A request at the front is completed with the first element. -/
theorem check (h : IsFifoWorld w) {d : Option Delivery}
    (hcheck : check_receive_request_ w r = some (w', d)) : IsFifoWorld w' := by
  unfold check_receive_request_ at hcheck
  dsimp only at hcheck
  split at hcheck
  · cases hcheck
  · rename_i p hp
    obtain ⟨pending, a, h⟩ := h
    have hqueue := h.queue p
    cases hpending : pending p with
    | nil =>
      rw [hpending] at hqueue
      have hhead : mcapi_trans_queue_head (w.endpoints p).recv_queue =
          (ringSlot (a p), MCAPI_ERR_QUEUE_EMPTY) := hqueue.head_nil
      simp only [hhead, Option.some.injEq, Prod.mk.injEq] at hcheck
      rw [← hcheck.1]
      exact ⟨pending, a, h⟩
    | cons x rest =>
      rw [hpending] at hqueue
      have hhead : mcapi_trans_queue_head (w.endpoints p).recv_queue =
          (ringSlot (a p), MCAPI_SUCCESS) := hqueue.head_cons
      simp only [hhead] at hcheck
      split at hcheck
      · split at hcheck
        · obtain ⟨sh₁, sh₂, hrecv, hpop, hsame, hothers, -, hqueue'⟩ :=
            hqueue.take (w.requests r).size
          simp only [World.shared] at hrecv
          simp only [World.shared, hrecv, hpop, Option.some.injEq, Prod.mk.injEq] at hcheck
          rw [← hcheck.1, ← hsame]
          exact ⟨_, _, (h.taken hpending hqueue' hothers).setRequest r _⟩
        · cases hcheck
      · simp only [Option.some.injEq, Prod.mk.injEq] at hcheck
        rw [← hcheck.1]
        exact ⟨pending, a, h⟩

theorem kept : FifoKept (fun _ => True) fun w _ => IsFifoWorld w where
  buffers := by
    rintro w _ p ⟨pending, a, h⟩
    exact h.buffers p
  request := by
    rintro w _ r req ⟨pending, a, h⟩
    exact ⟨pending, a, h.setRequest r req⟩
  reserve := by
    rintro w _ p qindex ⟨pending, a, h⟩
    exact ⟨pending, a, h.reserve p qindex⟩
  send _ _ _ _ _ _ h _ hsend := h.send hsend
  recv _ _ _ _ _ _ h hrecv := h.recv hrecv
  check _ _ _ _ _ h hcheck := h.check hcheck

/-- **What one call keeps.** -/
theorem step {call : FifoCall} (h : IsFifoWorld w) (hstep : fifoCallStep w call = some w') :
    IsFifoWorld w' := by
  rw [← fifoCallResult_world, Option.map_eq_some_iff] at hstep
  obtain ⟨⟨w₁, ds⟩, hresult, rfl⟩ := hstep
  exact kept.step [] h (fun _ _ => trivial) hresult

end IsFifoWorld

/-- **What a run keeps.** -/
theorem World.Fresh.run {w w' : World} (h : w.Fresh)
    (hrun : Run fifoCallStep (fun _ _ _ => True) w w') : IsFifoWorld w' :=
  hrun.invariant (I := IsFifoWorld) (fun _ _ _ hw hstep _ => hw.step hstep)
    ⟨_, _, h.fifoWorld⟩

end MxApi.Calls
