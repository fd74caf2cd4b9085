/-
The requests that the blocking calls take, and that they give them back.

A round of a call either ends its loop, with a request that was free or with none
([`Ended`]), or it reports the limit. The wait that follows gives the request back, and a
receive that has succeeded by then has handed out one delivery ([`Ended.blocking`]).
-/
import MxApi.Mcapi.FifoRequests

set_option autoImplicit false

namespace MxApi.Calls

open Lib Transfers channel_type mcapi_buffer_state mcapi_status_t mcapi_request_state
  mcapi_request_type mcapi_buffer_type

/-! ## One round -/

/-- A request of the thread is not free. -/
def World.Owns (w : World) : Prop :=
  ∀ r, (w.requests r).mine = true → (w.requests r).state ≠ REQUEST_FREE

/-- What is known of the request of a call that `ds` was handed out for so far. -/
def Due (rx : Bool) (req : Request) (ds : List Delivery) : Prop :=
  req.state = REQUEST_VALID ∧ req.type = RECV ∧ ds = [] ∨
    req.state = REQUEST_COMPLETED ∧ (rx = true → req.status = .MCAPI_SUCCESS → ds.length = 1)

/-- A round that ends the loop has taken no request, or one that was free. -/
inductive Ended (rx : Bool) (w : World) (c : Called) : Prop
  | without (request : c.request = 0) (kept : c.world.requests = w.requests)
      (once : rx = true → c.status = .MCAPI_SUCCESS → c.delivery.toList.length = 1)
  | reserved (r : ℕ) (lt : r < MCAPI_MAX_REQUESTS) (free : (w.requests r).state = REQUEST_FREE)
      (request : c.request = requestHandle r)
      (kept : ∀ r', r' ≠ r → c.world.requests r' = w.requests r')
      (mine : (c.world.requests r).mine = true)
      (due : Due rx (c.world.requests r) c.delivery.toList)

section Rounds

variable {rx : Bool} {w w' : World} {rand handle room request r : ℕ} {p : Place}
  {re : Option Place} {m : Msg} {status : Status} {c : Called}

/-- The set-up of a request changes no other one. -/
theorem setup_request_some {completed : Bool} {size : ℕ} {type : mcapi_request_type}
    (h : setup_request w r handle status completed size type = some w') :
    (∀ r', r' ≠ r → w'.requests r' = w.requests r') ∧
      (w'.requests r).mine = (w.requests r).mine ∧
      ((w'.requests r).state = REQUEST_COMPLETED ∧
          (w'.requests r).status = (if completed then status else .MCAPI_ERR_MEM_LIMIT) ∨
        completed = false ∧ (w'.requests r).state = (w.requests r).state ∧
          (w'.requests r).type = type) := by
  unfold setup_request at h
  cases completed with
  | true =>
    obtain rfl := Option.some.inj h
    exact ⟨fun r' hr' => World.requests_setRequest_of_ne _ _ _ hr', by simp, .inl (by simp)⟩
  | false =>
    simp only [Bool.false_eq_true, if_false] at h
    split at h
    · obtain ⟨p, -, rfl⟩ := Option.map_eq_some_iff.mp h
      unfold reserveEntry
      dsimp only
      split
      · refine ⟨fun r' hr' => ?_, by simp, .inr (by simp)⟩
        rw [World.requests_setRequest_of_ne _ _ _ hr', World.requests_setShared]
      · exact ⟨fun r' hr' => World.requests_setRequest_of_ne _ _ _ hr', by simp, .inl (by simp)⟩
    · obtain rfl := Option.some.inj h
      exact ⟨fun r' hr' => World.requests_setRequest_of_ne _ _ _ hr', by simp, .inr (by simp)⟩

/-- A request that was reserved and set up. -/
theorem Ended.of_setup {completed : Bool} {size : ℕ} {type : mcapi_request_type} {w₁ w₂ : World}
    (hr : mcapi_trans_reserve_request w rand = some (w₁, r)) (hreq : w₂.requests = w₁.requests)
    (hset : setup_request w₂ r handle status completed size type = some w')
    (hcompleted : rx = true → completed = true → status = .MCAPI_SUCCESS →
      c.delivery.toList.length = 1)
    (hpending : completed = false → type = RECV ∧ c.delivery = none)
    (hworld : c.world = w') (hrequest : c.request = requestHandle r) : Ended rx w c := by
  obtain ⟨hlt, hfree, rfl⟩ := reserve_request_some hr
  obtain ⟨hothers, hmine, hcases⟩ := setup_request_some hset
  rw [hreq] at hothers hmine hcases
  rw [World.requests_setRequest_self] at hmine hcases
  refine .reserved r hlt hfree hrequest ?_ ?_ ?_
  · intro r' hr'
    rw [hworld, hothers r' hr', World.requests_setRequest_of_ne _ _ _ hr']
  · rw [hworld, hmine]
  · rw [hworld]
    rcases hcases with ⟨hstate, hst⟩ | ⟨hfalse, hstate, htype⟩
    · refine .inr ⟨hstate, ?_⟩
      intro hrx hsuccess
      cases completed with
      | true => exact hcompleted hrx rfl (hst.symm.trans hsuccess)
      | false => exact absurd (hst.symm.trans hsuccess) nofun
    · obtain ⟨hrecv, hnone⟩ := hpending hfalse
      refine .inl ⟨hstate, htype.trans hrecv, ?_⟩
      rw [hnone]
      rfl

/-- **A round of a send** that does not find the limit ends the loop, and one that does
changes nothing. -/
theorem send_i_ended {se : Place}
    (h : send_i w rand se re handle m request status = some c) :
    c = ⟨w, request, .MCAPI_ERR_REQUEST_LIMIT, none⟩ ∧
        (w.endpoints se).buffer_type = MCAPI_ENDP_ATTR_FIFO_BUFFER ∧ ¬ w.HasFree ∨
      c.status = .MCAPI_SUCCESS ∧ Ended false w c := by
  unfold send_i at h
  split at h
  · rename_i hbt
    split at h
    · rename_i hr
      obtain rfl := Option.some.inj h
      exact .inl ⟨rfl, hbt, reserve_request_none.mp hr⟩
    · rename_i w₁ r hr
      right
      split at h
      · split at h
        · cases h
        · split at h
          · cases h
          · obtain ⟨w', hset, rfl⟩ := Option.map_eq_some_iff.mp h
            exact ⟨rfl, .of_setup hr (World.requests_setShared _ _ _) hset nofun nofun rfl rfl⟩
      · obtain ⟨w', hset, rfl⟩ := Option.map_eq_some_iff.mp h
        exact ⟨rfl, .of_setup hr rfl hset nofun nofun rfl rfl⟩
  · right
    split at h
    · split at h
      · cases h
      · split at h
        · cases h
        · obtain rfl := Option.some.inj h
          exact ⟨rfl, .without rfl rfl nofun⟩
    · obtain rfl := Option.some.inj h
      exact ⟨rfl, .without rfl rfl nofun⟩

/-- A receive that finds nothing changes nothing. -/
theorem recv_state_none {K room : ℕ} {sh sh' : Shared}
    (h : mcapi_trans_recv_state K sh room = some (sh', none)) :
    entryOk K (readSlot K sh.q.update_counter) = true ∧
      (sh.q.elements (readSlot K sh.q.update_counter)).buff_index = 0 ∧ sh' = sh := by
  unfold mcapi_trans_recv_state at h
  dsimp only at h
  split at h
  · rename_i hentry
    split at h
    · rename_i hindex
      obtain ⟨rfl, -⟩ := Prod.mk.inj (Option.some.inj h)
      exact ⟨hentry, hindex, rfl⟩
    · split at h
      · cases h
      · split at h
        · cases h
        · cases h
  · cases h

/-- **The first round of a receive** ends the loop, or it needs a request and finds none. -/
theorem recv_i_ended (hre : ∀ p' ∈ re, p' = p)
    (h : recv_i w rand p re handle room request .MCAPI_SUCCESS = some c) :
    (c.status = .MCAPI_ERR_REQUEST_LIMIT ∧ c.world = w ∧ ¬ w.HasFree ∧
        ((w.endpoints p).buffer_type = MCAPI_ENDP_ATTR_FIFO_BUFFER ∨
          NothingAt w p ∧ re = some p)) ∨
      c.status = .MCAPI_SUCCESS ∧ Ended true w c := by
  unfold recv_i at h
  split at h
  · rename_i hbt
    split at h
    · rename_i hr
      obtain rfl := Option.some.inj h
      exact .inl ⟨rfl, rfl, reserve_request_none.mp hr, .inl hbt⟩
    · rename_i w₁ r hr
      right
      rw [if_pos rfl] at h
      split at h
      · cases h
      · split at h
        · cases h
        · obtain ⟨w', hset, rfl⟩ := Option.map_eq_some_iff.mp h
          exact ⟨rfl, .of_setup hr (World.requests_setShared _ _ _) hset (fun _ _ _ => rfl) nofun
            rfl rfl⟩
        · obtain ⟨w', hset, rfl⟩ := Option.map_eq_some_iff.mp h
          exact ⟨rfl, .of_setup hr (World.requests_setShared _ _ _) hset nofun
            (fun _ => ⟨rfl, rfl⟩) rfl rfl⟩
  · rename_i hbt
    rw [if_pos rfl] at h
    split at h
    · cases h
    · rename_i p'
      obtain rfl := hre p' rfl
      split at h
      · cases h
      · obtain rfl := Option.some.inj h
        exact .inr ⟨rfl, .without rfl rfl fun _ _ => rfl⟩
      · rename_i sh hnone
        obtain ⟨hentry, hindex, rfl⟩ := recv_state_none hnone
        dsimp only at h
        rw [World.setShared_shared] at h
        split at h
        · rename_i hr
          obtain rfl := Option.some.inj h
          refine .inl ⟨rfl, rfl, reserve_request_none.mp hr, .inr ⟨?_, rfl⟩⟩
          unfold NothingAt
          rw [hbt]
          exact ⟨hentry, hindex⟩
        · rename_i w₁ r hr
          obtain ⟨w', hset, rfl⟩ := Option.map_eq_some_iff.mp h
          obtain ⟨q, -, rfl⟩ := Option.map_eq_some_iff.mp hset
          obtain ⟨hlt, hfree, rfl⟩ := reserve_request_some hr
          refine .inr ⟨rfl, .reserved r hlt hfree rfl ?_ ?_ (.inl ⟨?_, ?_, rfl⟩)⟩
          · intro r' hr'
            rw [World.requests_setRequest_of_ne _ _ _ hr',
              World.requests_setRequest_of_ne _ _ _ hr']
          · simp
          · simp
          · simp

/-- **A later round of a receive** is given the limit, and finds it again. -/
theorem recv_i_limit
    (h : recv_i w rand p re handle room request .MCAPI_ERR_REQUEST_LIMIT = some c) :
    c.status = .MCAPI_ERR_REQUEST_LIMIT := by
  unfold recv_i at h
  split at h
  · split at h
    · obtain rfl := Option.some.inj h
      rfl
    · rw [if_neg nofun] at h
      obtain ⟨w', -, rfl⟩ := Option.map_eq_some_iff.mp h
      rfl
  · rw [if_neg nofun] at h
    obtain rfl := Option.some.inj h
    rfl

end Rounds

/-! ## The wait -/

/-- Request `r` and the requests `b` are those of the thread. -/
structure Holding (rx : Bool) (b : ℕ → Bool) (r : ℕ) (w : World) (ds : List Delivery) : Prop where
  mine : (w.requests r).mine = true
  others : ∀ r', r' ≠ r → (w.requests r').mine = b r'
  due : Due rx (w.requests r) ds

section Wait

variable {rx : Bool} {b : ℕ → Bool} {r : ℕ} {w w' : World} {ds : List Delivery} {env : Env}
  {t : Tested}

/-- Other threads leave the requests of this one to it. -/
theorem Env.Respects.mine (henv : env.Respects) (n : ℕ) (w : World) (r : ℕ) :
    ((env n w).requests r).mine = (w.requests r).mine := by
  cases hmine : (w.requests r).mine with
  | true => rw [henv.kept n w r hmine, hmine]
  | false => exact henv.not_mine n w r hmine

theorem Holding.round (h : Holding rx b r w ds) (henv : env.Respects) (n : ℕ) :
    Holding rx b r (env n w) ds where
  mine := by rw [henv.mine, h.mine]
  others r' hr' := by rw [henv.mine, h.others r' hr']
  due := by rw [henv.kept n w r h.mine]; exact h.due

/-- A check completes the request with what it hands out, or leaves all requests alone. -/
theorem check_receive_request_some {o : Option Delivery}
    (h : check_receive_request w r = some (w', o)) :
    o = none ∧ w'.requests = w.requests ∨
      ∃ d, o = some d ∧ (w'.requests r).state = REQUEST_COMPLETED ∧
        (w'.requests r).mine = (w.requests r).mine ∧
        ∀ r', r' ≠ r → w'.requests r' = w.requests r' := by
  -- what the request is completed with
  have hdone : ∀ (ct : channel_type) (d : Delivery),
      (completedRequest ct (w.requests r) d).state = REQUEST_COMPLETED ∧
        (completedRequest ct (w.requests r) d).mine = (w.requests r).mine := by
    intro ct d
    unfold completedRequest
    split
    · exact ⟨rfl, rfl⟩
    · exact ⟨rfl, rfl⟩
  have hcompleted : ∀ {p : Place} {sh : Shared} {ct : channel_type} {d : Delivery},
      ((w.setShared p sh).setRequest r (completedRequest ct (w.requests r) d), some d) = (w', o) →
      ∃ d, o = some d ∧ (w'.requests r).state = REQUEST_COMPLETED ∧
        (w'.requests r).mine = (w.requests r).mine ∧
        ∀ r', r' ≠ r → w'.requests r' = w.requests r' := by
    intro p sh ct d heq
    obtain ⟨rfl, rfl⟩ := Prod.mk.inj heq
    refine ⟨d, rfl, ?_, ?_, ?_⟩
    · rw [World.requests_setRequest_self, (hdone ct d).1]
    · rw [World.requests_setRequest_self, (hdone ct d).2]
    · intro r' hr'
      rw [World.requests_setRequest_of_ne _ _ _ hr', World.requests_setShared]
  unfold check_receive_request at h
  split at h
  · cases h
  · split at h
    · unfold check_receive_request_ at h
      dsimp only at h
      split at h
      · cases h
      · split at h
        · split at h
          · split at h
            · split at h
              · cases h
              · split at h
                · exact .inr (hcompleted (Option.some.inj h))
                · cases h
            · cases h
          · obtain ⟨rfl, rfl⟩ := Prod.mk.inj (Option.some.inj h)
            exact .inl ⟨rfl, rfl⟩
        · obtain ⟨rfl, rfl⟩ := Prod.mk.inj (Option.some.inj h)
          exact .inl ⟨rfl, rfl⟩
    · unfold check_receive_request_state_ at h
      dsimp only at h
      split at h
      · cases h
      · split at h
        · cases h
        · obtain ⟨rfl, rfl⟩ := Prod.mk.inj (Option.some.inj h)
          exact .inl ⟨rfl, rfl⟩
        · exact .inr (hcompleted (Option.some.inj h))

/-- The first half of a test keeps the request, with what it handed out. -/
theorem Holding.testState {rc : Bool} {status : Option Status} {o : Option Delivery}
    (h : Holding rx b r w ds) (hr : r < MCAPI_MAX_REQUESTS)
    (ht : testState w (requestHandle r) = some (w', rc, status, o)) :
    rc = false ∧ status = none ∧ Holding rx b r w' (ds ++ o.toList) := by
  unfold Calls.testState at ht
  rw [decode_requestHandle hr] at ht
  obtain ⟨hmine, hothers, hdue⟩ := h
  rcases hdue with ⟨hstate, htype, rfl⟩ | ⟨hstate, honce⟩
  · simp only [hstate, htype] at ht
    obtain ⟨x, hx, heq⟩ := Option.map_eq_some_iff.mp ht
    obtain ⟨w₁, o₁⟩ := x
    obtain ⟨rfl, rfl, rfl, rfl⟩ := by simpa only [Prod.mk.injEq] using heq
    refine ⟨rfl, rfl, ?_⟩
    rcases check_receive_request_some hx with ⟨rfl, hreq⟩ | ⟨d, rfl, hdone, hkept, hrest⟩
    · exact ⟨by rw [hreq, hmine], fun r' hr' => by rw [hreq, hothers r' hr'],
        .inl ⟨by rw [hreq, hstate], by rw [hreq, htype], rfl⟩⟩
    · exact ⟨by rw [hkept, hmine], fun r' hr' => by rw [hrest r' hr', hothers r' hr'],
        .inr ⟨hdone, fun _ _ => rfl⟩⟩
  · simp only [hstate] at ht
    obtain ⟨rfl, rfl, rfl, rfl⟩ := by simpa only [Option.some.injEq, Prod.mk.injEq] using ht
    refine ⟨rfl, rfl, hmine, hothers, .inr ⟨hstate, ?_⟩⟩
    rw [Option.toList_none, List.append_nil]
    exact honce

/-- **A test** gives the request back, and has then handed out one delivery for a receive
that succeeded. Or it leaves the request to the thread. -/
theorem Holding.test (h : Holding rx b r w ds) (hr : r < MCAPI_MAX_REQUESTS)
    (ht : mcapi_trans_test_i w (requestHandle r) = some t) :
    (t.rc = true ∧ (t.world.requests r).mine = false ∧
        (∀ r', r' ≠ r → (t.world.requests r').mine = b r') ∧
        ∃ status, t.status = some status ∧ (rx = true → status = .MCAPI_SUCCESS →
          (ds ++ t.delivery.toList).length = 1)) ∨
      t.rc = false ∧ t.request = requestHandle r ∧
        Holding rx b r t.world (ds ++ t.delivery.toList) := by
  have hindex : requestIndex (requestHandle r) = r :=
    (decode_request_handle_some (decode_requestHandle hr)).1
  unfold mcapi_trans_test_i at ht
  cases hs : Calls.testState w (requestHandle r) with
  | none =>
    rw [hs] at ht
    cases ht
  | some x =>
    obtain ⟨w₁, rc, status, o⟩ := x
    obtain ⟨rfl, rfl, hheld⟩ := h.testState hr hs
    simp only [hs, hindex, if_pos hr] at ht
    split at ht
    · left
      obtain rfl := Option.some.inj ht
      refine ⟨rfl, ?_, ?_, (w₁.requests r).status, rfl, ?_⟩
      · rw [World.requests_setRequest_self]
      · intro r' hr'
        rw [World.requests_setRequest_of_ne _ _ _ hr', hheld.others r' hr']
      · intro hrx hsuccess
        rename_i hdone
        rcases hheld.due with ⟨hvalid, -, -⟩ | ⟨-, honce⟩
        · rw [hvalid] at hdone
          rcases hdone with hdone | hdone
          · cases hdone
          · cases hdone
        · exact honce hrx hsuccess
    · right
      obtain rfl := Option.some.inj ht
      exact ⟨rfl, rfl, hheld⟩

/-- **The wait** gives the request back. -/
theorem Holding.polls (hr : r < MCAPI_MAX_REQUESTS) (hb : b r = false) (henv : env.Respects) :
    ∀ fuel n w ds x, Holding rx b r w ds →
      polls env fuel n w (requestHandle r) ds = some x →
      (∀ r', (x.1.world.requests r').mine = b r') ∧
        ∃ status, x.1.status = some status ∧ (rx = true → status = .MCAPI_SUCCESS →
          x.2.length = 1)
  | 0, _, _, _, _, _, hx => by cases hx
  | fuel + 1, n, w, ds, x, h, hx => by
    rw [Calls.polls] at hx
    cases ht : mcapi_trans_test_i (env n w) (requestHandle r) with
    | none =>
      rw [ht] at hx
      cases hx
    | some t =>
      simp only [ht] at hx
      rcases (h.round henv n).test hr ht with
        ⟨hrc, hback, hrest, status, hstatus, honce⟩ | ⟨hrc, hrequest, hheld⟩
      · rw [if_pos hrc] at hx
        obtain rfl := Option.some.inj hx
        refine ⟨?_, status, hstatus, honce⟩
        intro r'
        by_cases hne : r' = r
        · rw [hne, hback, hb]
        · exact hrest r' hne
      · simp only [hrc, hrequest, Bool.false_eq_true, if_false] at hx
        exact Holding.polls hr hb henv fuel (n + 1) t.world _ x hheld hx

end Wait

/-! ## Whole calls -/

section Blocking

variable {rx : Bool} {b : ℕ → Bool} {w w₁ : World} {ds : List Delivery} {env : Env} {c : Called}
  {n fuel : ℕ} {x : Returned} {call : ℕ → World → ℕ → Status → Option Called}

theorem World.Owns.round (h : w.Owns) (henv : env.Respects) (n : ℕ) : (env n w).Owns := by
  intro r hmine
  have hmine' : (w.requests r).mine = true := (henv.mine n w r).symm.trans hmine
  rw [henv.kept n w r hmine']
  exact h r hmine'

/-- A call whose last round has ended its loop gives back what that round took. -/
theorem Ended.blocking (h : Ended rx w₁ c) (hmine : ∀ r, (w₁.requests r).mine = b r)
    (howns : w₁.Owns) (henv : env.Respects)
    (hattempts : attempts env call fuel 0 w 0 .MCAPI_SUCCESS [] =
      some (c, n, c.delivery.toList))
    (hx : blocking env call fuel w = some x) :
    (∀ r, (x.world.requests r).mine = b r) ∧
      (rx = true → x.rc = true → x.deliveries.length = 1) := by
  unfold Calls.blocking at hx
  simp only [hattempts] at hx
  cases h with
  | without request kept once =>
    rw [if_pos request] at hx
    obtain rfl := Option.some.inj hx
    refine ⟨fun r => by rw [kept, hmine], ?_⟩
    intro hrx hrc
    exact once hrx (of_decide_eq_true hrc)
  | reserved r lt free request kept mine due =>
    have hne : ¬ c.request = 0 := by
      rw [request]
      exact Messages.requestHandle_ne_zero lt
    have hdecode : ¬ mcapi_trans_decode_request_handle c.request = none := by
      rw [request, decode_requestHandle lt]
      nofun
    rw [if_neg hne, if_neg hdecode, request] at hx
    obtain ⟨y, hy, rfl⟩ := Option.map_eq_some_iff.mp hx
    -- a request that was free was not one of the thread
    have hb : b r = false := by
      rw [← hmine r]
      cases hm : (w₁.requests r).mine with
      | true => exact absurd free (howns r hm)
      | false => rfl
    have hheld : Holding rx b r c.world c.delivery.toList :=
      ⟨mine, fun r' hr' => by rw [kept r' hr', hmine], due⟩
    obtain ⟨hback, status, hstatus, honce⟩ :=
      Holding.polls lt hb henv fuel n c.world _ y hheld hy
    refine ⟨hback, ?_⟩
    intro hrx hrc
    dsimp only at hrc
    rw [hstatus, Option.getD_some] at hrc
    exact honce hrx (of_decide_eq_true hrc)

/-- A call that hands on the limit that it is given never ends its loop. -/
theorem attempts_limit (hlimit : ∀ n w request c,
      call n w request .MCAPI_ERR_REQUEST_LIMIT = some c → c.status = .MCAPI_ERR_REQUEST_LIMIT) :
    ∀ fuel n w request ds,
      attempts env call fuel n w request .MCAPI_ERR_REQUEST_LIMIT ds = none
  | 0, _, _, _, _ => rfl
  | fuel + 1, n, w, request, ds => by
    rw [attempts]
    cases hc : call n (env n w) request .MCAPI_ERR_REQUEST_LIMIT with
    | none => rfl
    | some c =>
      have hstatus := hlimit n (env n w) request c hc
      simp only [hstatus, if_true]
      exact attempts_limit hlimit fuel (n + 1) c.world c.request _

/-- **A blocking send that returns** has given back its request. -/
theorem blocking_send_balanced (henv : env.Respects) (howns : w.Owns)
    (hcall : ∀ n w request status c, call n w request status = some c →
      c = ⟨w, request, .MCAPI_ERR_REQUEST_LIMIT, none⟩ ∨
        c.status = .MCAPI_SUCCESS ∧ Ended false w c)
    (hx : blocking env call fuel w = some x) (r : ℕ) :
    (x.world.requests r).mine = (w.requests r).mine := by
  cases hattempts : attempts env call fuel 0 w 0 .MCAPI_SUCCESS [] with
  | none =>
    rw [blocking, hattempts] at hx
    cases hx
  | some a =>
    obtain ⟨c, n, ds⟩ := a
    obtain ⟨m, w', request', status', ds', ⟨hmine, howns', rfl⟩, hc, hlimit, rfl, -⟩ :=
      attempts_spec (I := fun w' ds => (∀ r, (w'.requests r).mine = (w.requests r).mine) ∧
          w'.Owns ∧ ds = [])
        (fun n w' request status c ds hw' hc hlimit => by
          obtain ⟨hmine, howns', hds⟩ := hw'
          rcases hcall n _ request status c hc with rfl | ⟨hok, -⟩
          · rw [hds]
            exact ⟨fun r => (henv.mine n w' r).trans (hmine r), howns'.round henv n, rfl⟩
          · rw [hlimit] at hok
            cases hok)
        ⟨fun _ => rfl, howns, rfl⟩ hattempts
    rcases hcall m _ request' status' c hc with rfl | ⟨-, hended⟩
    · exact absurd rfl hlimit
    · exact (hended.blocking (fun r => (henv.mine m w' r).trans (hmine r))
        (howns'.round henv m) henv hattempts hx).1 r

/-- **A blocking receive that returns** has given back its request, and has received once if
it succeeded. -/
theorem blocking_recv_balanced (henv : env.Respects) (howns : w.Owns)
    (hfirst : ∀ n w request c, call n w request .MCAPI_SUCCESS = some c →
      c.status = .MCAPI_ERR_REQUEST_LIMIT ∨ c.status = .MCAPI_SUCCESS ∧ Ended true w c)
    (hlimit : ∀ n w request c,
      call n w request .MCAPI_ERR_REQUEST_LIMIT = some c → c.status = .MCAPI_ERR_REQUEST_LIMIT)
    (hx : blocking env call fuel w = some x) :
    (∀ r, (x.world.requests r).mine = (w.requests r).mine) ∧
      (x.rc = true → x.deliveries.length = 1) := by
  cases fuel with
  | zero => cases hx
  | succ fuel =>
    cases hc : call 0 (env 0 w) 0 .MCAPI_SUCCESS with
    | none =>
      have hattempts : attempts env call (fuel + 1) 0 w 0 .MCAPI_SUCCESS [] = none := by
        simp only [attempts, hc]
      rw [blocking, hattempts] at hx
      cases hx
    | some c =>
      rcases hfirst 0 _ 0 c hc with hst | ⟨hst, hended⟩
      · -- the loop goes on for ever
        have hattempts : attempts env call (fuel + 1) 0 w 0 .MCAPI_SUCCESS [] = none := by
          simp only [attempts, hc, hst, if_true]
          exact attempts_limit hlimit fuel _ _ _ _
        rw [blocking, hattempts] at hx
        cases hx
      · have hattempts := attempts_first fuel [] hc (by simp [hst])
        rw [List.nil_append] at hattempts
        obtain ⟨hback, honce⟩ := hended.blocking (henv.mine 0 w) (howns.round henv 0) henv
          hattempts hx
        exact ⟨hback, honce rfl⟩

/-! ### Scalars -/

/-- A receive of a scalar needs no request. -/
theorem recvPolls_balanced (henv : env.Respects) (p : Place) (size : ℕ) :
    ∀ fuel n w x, recvPolls env p size fuel n w = some x →
      ∀ r, (x.1.requests r).mine = (w.requests r).mine
  | 0, _, _, _, hx => by cases hx
  | fuel + 1, n, w, x, hx => by
    intro r
    rw [recvPolls] at hx
    split at hx
    · cases hx
    · obtain rfl := Option.some.inj hx
      exact henv.mine n w r
    · rw [recvPolls_balanced henv p size fuel (n + 1) _ x hx r]
      exact henv.mine n w r

end Blocking

end MxApi.Calls
