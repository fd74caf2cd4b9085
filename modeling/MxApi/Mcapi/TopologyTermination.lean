/-
When connecting a topology ends.

`while(0 < nchan)` counts the channels whose endpoint was asked for. A channel is counted
out when its request is completed; when the wait for it times out the result becomes
`MCAPI_FALSE`, but the channel stays in the count and is waited for again. So the call
returns exactly if every endpoint that is asked for is found in the end, whatever the
timeout, and if it gets that far: the entries of the node and the requests of the process
suffice for the channels. Where it returns, each channel of the node is connected, or the
result is `MCAPI_FALSE` ([`connect_ends_iff`]).

That it returns under the condition is shown loop by loop. The tests of a request are
counted, so that after as many rounds of the second loop as the slowest request needs
tests no request is left.
-/
import MxApi.Mcapi.TopologyTuples

set_option autoImplicit false

namespace MxApi.Topology

open Lib Attributes channel_type CallStatus mcapi_buffer_type mcapi_direction_t
  mcapi_chan_state_t RequestType

/-! ## What is expected, and when -/

/-- A channel is active, and its endpoints were connected unless it is for messages. -/
structure Connected (config : mcapi_config_t) (s : Frame) (i : ℕ) : Prop where
  state : (s.chan i).state = MCAPI_ACTIVE_STATE
  joined : (config.chan i).type ≠ MCAPI_NO_CHAN → ∃ x ∈ s.joined, x.chan = i

/-- The entries of the calling node that are not valid. -/
def unused (db : mcapi_database) (me : Whoami) (e : ℕ) : Bool :=
  !(db.endpoint me.dindex me.nindex e).state.valid

/-- The node has room for the endpoints of its channels, there is a request for each channel
that asks, and each endpoint that is asked for is found in the end. -/
structure Completes (E : Surroundings) (me : Whoami) (config : mcapi_config_t)
    (db : mcapi_database) (free : ℕ) : Prop where
  count : Nat.count (fun i => config.creates i = true) config.nchans = 0 ∨
    (db.node me.dindex me.nindex).num_endpoints +
      Nat.count (fun i => config.creates i = true) config.nchans ≤ MCAPI_MAX_ENDPOINTS
  entries : Nat.count (fun i => config.creates i = true) config.nchans ≤
    Nat.count (fun e => unused db me e = true) MCAPI_MAX_ENDPOINTS
  requests : Nat.count (fun i => config.asks i = true) config.nchans ≤ free
  answered : ∀ i, i < config.nchans → config.asks i = true →
    Answered E i (config.requestTuple i)

section

variable {E : Surroundings} {me : Whoami} {timeout fuel : ℕ} {config : mcapi_config_t}
  {W : ℕ → mcapi_endpoint_data_t → Prop} {s s' : Frame} {i m : ℕ}
  {db : mcapi_database} {attributes : Place → Entries} {free : ℕ}

/-! ## What the first loop uses up -/

theorem tally_count (p : ℕ → Prop) [DecidablePred p] (n : ℕ) :
    Tally (fun i => i < n ∧ p i) (Nat.count p n) := by
  have hset : {i | i < n ∧ p i} = ((Finset.range n).filter p : Set ℕ) := by
    ext i
    simp
  refine ⟨?_, ?_⟩
  · rw [hset]
    exact Finset.finite_toSet _
  · rw [hset, Set.ncard_coe_finset, Nat.count_eq_card_filter_range]

/-- The more parties are counted the more there are. -/
theorem tally_mono {p q : ℕ → Prop} {j k : ℕ} (hp : Tally p j) (hq : Tally q k)
    (h : ∀ i, p i → q i) : j ≤ k := by
  rw [← hp.card, ← hq.card]
  exact Set.ncard_le_ncard h hq.finite

/-- The requests that are in use and those that are free. -/
def Requests (free : ℕ) (s : Frame) : Prop :=
  ∃ k, Tally (fun i => (s.chan i).request ≠ none) k ∧ s.free + k = free

/-- What is left after the first loop has come to channel `m`. -/
structure Spent (me : Whoami) (config : mcapi_config_t) (db : mcapi_database) (free m : ℕ)
    (s : Frame) : Prop where
  num : (s.db.node me.dindex me.nindex).num_endpoints =
    (db.node me.dindex me.nindex).num_endpoints + Nat.count (fun i => config.creates i = true) m
  room : Nat.count (fun i => config.creates i = true) m = 0 ∨
    (db.node me.dindex me.nindex).num_endpoints + Nat.count (fun i => config.creates i = true) m ≤
      MCAPI_MAX_ENDPOINTS
  entries : ∃ f, Tally (fun e => e < MCAPI_MAX_ENDPOINTS ∧ unused s.db me e = true) f ∧
    f + Nat.count (fun i => config.creates i = true) m =
      Nat.count (fun e => unused db me e = true) MCAPI_MAX_ENDPOINTS
  requests : Requests free s
  waiting : ∀ i, config.remoteNamed i ∈ s.named → (s.chan i).request ≠ none

theorem Spent.start (hfresh : Fresh config) :
    Spent me config db free 0 (Frame.start db attributes config free) where
  num := by simp [Frame.start]
  room := .inl (Nat.count_zero _)
  entries := ⟨_, tally_count _ _, by rw [Nat.count_zero, Nat.add_zero]; rfl⟩
  requests := by
    refine ⟨0, Tally.none fun i hi => hi (hfresh.request i), ?_⟩
    simp [Frame.start]
  waiting i hi := by cases hi

/-- A create takes an entry that was unused. -/
theorem unused_created {port e : ℕ} (e' : ℕ) :
    unused (created db me port e) me e' = true ↔ e' ≠ e ∧ unused db me e' = true := by
  unfold unused
  simp only [mcapi_database.endpoint, created, mcapi_database.setNode_self]
  by_cases h : e' = e
  · subst h
    simp
  · simp [h]

theorem Spent.createLocal (h : Spent me config db free m s)
    (hrun : createLocal me config s m (config.local m) (config.localSide m) = some s') :
    Spent me config db free (m + 1) s' := by
  rcases createLocal_some hrun with ⟨hnot, rfl⟩ |
    ⟨hcreates, hnum, e, hd, attributes, he, hvalid, -, hs'⟩
  · have hcount : Nat.count (fun i => config.creates i = true) (m + 1) =
        Nat.count (fun i => config.creates i = true) m := by
      rw [Nat.count_succ, if_neg (by simp [hnot]), Nat.add_zero]
    exact ⟨hcount ▸ h.num, hcount ▸ h.room, hcount ▸ h.entries, h.requests, h.waiting⟩
  · have hcount : Nat.count (fun i => config.creates i = true) (m + 1) =
        Nat.count (fun i => config.creates i = true) m + 1 := by
      rw [Nat.count_succ, if_pos hcreates]
    have hold := h.num
    subst hs'
    refine ⟨?_, ?_, ?_, h.requests, ?_⟩
    · rw [hcount]
      dsimp only [Frame.createdAt]
      rw [created_num hnum]
      omega
    · right
      omega
    · obtain ⟨f, htally, hf⟩ := h.entries
      obtain ⟨f', rfl, htally'⟩ : ∃ f', f = f' + 1 ∧ Tally (fun e' => e' < MCAPI_MAX_ENDPOINTS ∧
          unused (created s.db me (config.data (config.local m)).port e) me e' = true) f' := by
        refine htally.leave (o := e) ⟨he, ?_⟩ ?_ ?_
        · simp [unused, hvalid]
        · rw [unused_created]
          simp
        · intro e' he'
          rw [unused_created, and_iff_right he']
      exact ⟨f', htally', by omega⟩
    · intro i hi
      apply h.waiting
      rcases List.mem_cons.mp hi with heq | hmem
      · exact absurd heq mcapi_config_t.localNamed_ne
      · exact hmem

/-- Of the four cases of a request the last two take one. -/
theorem Spent.requestRemote (h : Spent me config db free (m + 1) s) (hst : s.status = MCAPI_SUCCESS)
    (hnone : (s.chan m).request = none)
    (hrun : requestRemote E config s m (config.remote m) (config.requestTuple m)
      (config.remoteSide m) = some s') :
    Spent me config db free (m + 1) s' := by
  have htake : 0 < s.free → ∀ r : Request,
      Requests free (s.askedFor m (config.remoteNamed m) r) ∧
      ∀ i, config.remoteNamed i ∈ (s.askedFor m (config.remoteNamed m) r).named →
        ((s.askedFor m (config.remoteNamed m) r).chan i).request ≠ none := by
    intro hfree r
    constructor
    · obtain ⟨k, htally, hk⟩ := h.requests
      refine ⟨k + 1, htally.enter (o := m) (fun hne => hne hnone) ?_ ?_, ?_⟩
      · simp [Frame.askedFor]
      · intro i hi
        simp only [Frame.askedFor, Function.update_of_ne hi]
      · dsimp only [Frame.askedFor]
        omega
    · intro i hi
      by_cases him : i = m
      · rw [him]
        simp [Frame.askedFor]
      · simp only [Frame.askedFor, Function.update_of_ne him]
        apply h.waiting
        rcases List.mem_cons.mp hi with heq | hmem
        · exact absurd (mcapi_config_t.remoteNamed_inj heq) him
        · exact hmem
  rcases requestRemote_some hst hrun with ⟨-, rfl⟩ | ⟨-, -, rfl⟩ | ⟨-, hfree, -, handle, rfl⟩ |
    ⟨-, hfree, hd, -, rfl⟩
  · exact h
  · exact ⟨h.num, h.room, h.entries, h.requests, h.waiting⟩
  · obtain ⟨hreq, hwait⟩ := htake hfree _
    exact ⟨h.num, h.room, h.entries, hreq, hwait⟩
  · obtain ⟨hreq, hwait⟩ := htake hfree _
    exact ⟨h.num, h.room, h.entries, hreq, hwait⟩

/-- Before a channel's turn it has no request. -/
theorem Asking.request_none (h : Asking E me config W m s) : (s.chan m).request = none := by
  cases hr : (s.chan m).request with
  | none => rfl
  | some r => exact absurd (h.request m r hr).1 (lt_irrefl m)

theorem Spent.establish (hW : Known me config W) (hm : m < config.nchans)
    (h : Spent me config db free m s) (ha : Asking E me config W m s)
    (hst : s.status = MCAPI_SUCCESS) (hrun : establish E me config m s = some s') :
    Spent me config db free (m + 1) s' := by
  rw [establish_eq] at hrun
  obtain ⟨t, hcreate, hask⟩ := Option.bind_eq_some_iff.mp hrun
  obtain ⟨ht, hst', -⟩ := ha.createLocal hW hm hcreate hst
  exact (h.createLocal hcreate).requestRemote hst' ht.request_none hask

/-- What the first loop leaves. -/
theorem establish_run (hW : Known me config W) (hfresh : Fresh config)
    (hrun : forLoop (establish E me config) config.nchans (Frame.start db attributes config free) =
      some s) :
    Asking E me config W config.nchans s ∧ s.status = MCAPI_SUCCESS ∧
      Spent me config db free config.nchans s := by
  refine forLoop_inv (fun m s => Asking E me config W m s ∧ s.status = MCAPI_SUCCESS ∧
    Spent me config db free m s) ?_ ⟨Asking.start hfresh, rfl, Spent.start hfresh⟩ hrun
  rintro m s s' hm ⟨ha, hst, hs⟩ hstep
  obtain ⟨ha', hst'⟩ := ha.establish hW hm hst hstep
  exact ⟨ha', hst', hs.establish hW hm ha hst hstep⟩

/-! ## The condition is necessary -/

theorem complete_named (h : Asking E me config W config.nchans s)
    (hrun : complete E timeout fuel config i s = some s') : s'.named = s.named := by
  cases hr : (s.chan i).request with
  | none =>
    rw [complete_none hr, Option.some.injEq] at hrun
    rw [hrun]
  | some r =>
    obtain ⟨-, hasked⟩ := h.request i r hr
    rcases complete_some hr hasked hrun with ⟨-, rfl⟩ | ⟨-, j, hd, -, -, -, rfl⟩ | ⟨-, t, -, -, rfl⟩
    · rfl
    · rfl
    · rfl

/-- A call that returns has found all it asked for, and had what it took. -/
theorem completes_of_returns (hfresh : Fresh config)
    (hrun : mcapi_trans_connect E me timeout fuel config (Frame.start db attributes config free) =
      some s) : Completes E me config db free := by
  have hW : Known me config (fun _ _ => True) := ⟨fun _ _ _ => trivial, fun _ _ _ => trivial⟩
  obtain ⟨s₁, s₂, h1, h2, -, hdone, hn, -⟩ := connect_some hW hfresh hrun
  obtain ⟨ha, -, hspent⟩ := establish_run hW hfresh h1
  obtain ⟨⟨-, hnamed⟩, -⟩ := whileLoop_inv
    (fun s => Asking E me config (fun _ _ => True) config.nchans s ∧ s.named = s₁.named)
    (fun s s' h _ hround => forLoop_inv
      (fun _ s => Asking E me config (fun _ _ => True) config.nchans s ∧ s.named = s₁.named)
      (fun i s s' _ h hstep => ⟨h.1.complete hW hstep, (complete_named h.1 hstep).trans h.2⟩)
      h hround) ⟨ha, rfl⟩ h2
  refine ⟨hspent.room, ?_, ?_, fun i hi hasks => ?_⟩
  · obtain ⟨f, -, hf⟩ := hspent.entries
    omega
  · -- each channel that asks has been given a request of its own
    obtain ⟨k, htally, hk⟩ := hspent.requests
    have hle := tally_mono (tally_count (fun i => config.asks i = true) config.nchans) htally ?_
    · omega
    · rintro i ⟨hi, hasks⟩
      apply hspent.waiting
      rw [← hnamed]
      exact (hdone.all_done hn hi hasks).1
  · exact (hdone.answered i hi (hdone.all_done hn hi hasks)).1

/-! ## The first loop passes -/

/-- For `W` in what follows: only endpoints that a channel uses get handles. -/
def Used (config : mcapi_config_t) (k : ℕ) (_ : mcapi_endpoint_data_t) : Prop :=
  (config.endpoint k).initialized = true

theorem Used.known : Known me config (Used config) :=
  ⟨fun _ _ hc => hc, fun _ _ ha => ha⟩

theorem count_lt {p : ℕ → Prop} [DecidablePred p] {n : ℕ} (hm : m < n) (hp : p m) :
    Nat.count p m + 1 ≤ Nat.count p n := by
  have hsucc : Nat.count p (m + 1) = Nat.count p m + 1 := by rw [Nat.count_succ, if_pos hp]
  rw [← hsucc]
  exact Nat.count_monotone p (by omega)

theorem createLocal_ends (hme : me.dindex < MCA_MAX_DOMAINS ∧ me.nindex < MCA_MAX_NODES)
    (hc : Completes E me config db free) (hm : m < config.nchans)
    (h : Spent me config db free m s) :
    ∃ s', createLocal me config s m (config.local m) (config.localSide m) = some s' := by
  unfold createLocal
  by_cases hinit : (config.endpoint (config.local m)).initialized = true
  · have hcount := count_lt (p := fun i => config.creates i = true) hm hinit
    have hnum : (s.db.node me.dindex me.nindex).num_endpoints < MCAPI_MAX_ENDPOINTS := by
      have hn := h.num
      rcases hc.count with hzero | hroom
      · omega
      · omega
    -- some entry is unused, since fewer are taken than there were
    obtain ⟨f, htally, hf⟩ := h.entries
    have hsome : ∃ e, e < MCAPI_MAX_ENDPOINTS ∧ unused s.db me e = true := by
      by_contra hno
      have hzero := htally.eq_zero fun e he => hno ⟨e, he⟩
      have hentries := hc.entries
      omega
    obtain ⟨e, he, hunused⟩ := hsome
    obtain ⟨e', hfind⟩ : ∃ e', (List.range MCAPI_MAX_ENDPOINTS).find?
        (fun i => !((s.db.node me.dindex me.nindex).endpoints i).state.valid) = some e' := by
      cases hf : (List.range MCAPI_MAX_ENDPOINTS).find?
          (fun i => !((s.db.node me.dindex me.nindex).endpoints i).state.valid) with
      | some e' => exact ⟨e', rfl⟩
      | none => exact absurd hunused (List.find?_eq_none.mp hf e (List.mem_range.mpr he))
    obtain ⟨-, he', -⟩ := List.find?_range_eq_some.mp hfind
    have henc := mcapi_trans_encode_handle_of_inRange ⟨hme.1, hme.2, List.mem_range.mp he'⟩
    have hcreate : mcapi_trans_endpoint_create s.db me (config.data (config.local m)).port false =
        some (created s.db me (config.data (config.local m)).port e',
          some (65536 * me.dindex + 256 * me.nindex + e')) := by
      rw [mcapi_trans_endpoint_create, if_pos hnum]
      simp only [hfind, henc, Option.map_some]
      rfl
    rw [if_pos hinit]
    simp only [hcreate, Option.bind_eq_bind, Option.bind_some, mcapi_trans_decode_encode henc,
      set_num_send_buffers, if_true]
    exact ⟨_, rfl⟩
  · exact ⟨s, if_neg hinit⟩

/-- Every channel before `m` that asks has asked. -/
def AllAsked (config : mcapi_config_t) (m : ℕ) (s : Frame) : Prop :=
  ∀ i, i < m → config.asks i = true → config.remoteNamed i ∈ s.named

theorem Asking.requests_lt (h : Asking E me config W m s) {k : ℕ}
    (htally : Tally (fun i => (s.chan i).request ≠ none) k) :
    k ≤ Nat.count (fun i => config.asks i = true) m := by
  apply tally_mono htally (tally_count _ m)
  intro i hi
  obtain ⟨r, hr⟩ := Option.ne_none_iff_exists'.mp hi
  obtain ⟨him, hasked⟩ := h.request i r hr
  exact ⟨him, hasked.asks⟩

theorem Answered.lookup_ne_none {ep : mcapi_endpoint_data_t} (h : Answered E i ep) {n : ℕ}
    (hbefore : ∀ k, k < n → E.lookup i ep k = some none) : ∃ o, E.lookup i ep n = some o := by
  obtain ⟨j, hd, hfound, hmiss⟩ := h
  rcases lt_trichotomy n j with hlt | rfl | hgt
  · exact ⟨none, hmiss n hlt⟩
  · exact ⟨some hd, hfound⟩
  · rw [hbefore j hgt] at hfound
    cases hfound

theorem requestRemote_ends (hc : Completes E me config db free) (hm : m < config.nchans)
    (ha : Asking E me config W m s) (h : Requests free s) (hst : s.status = MCAPI_SUCCESS) :
    ∃ s', requestRemote E config s m (config.remote m) (config.requestTuple m)
      (config.remoteSide m) = some s' ∧
      (config.asks m = true → config.remoteNamed m ∈ s'.named) ∧ ∀ x ∈ s.named, x ∈ s'.named := by
  have hrun : ∃ s', requestRemote E config s m (config.remote m) (config.requestTuple m)
      (config.remoteSide m) = some s' := by
    unfold requestRemote
    by_cases hinit : (config.endpoint (config.remote m)).initialized = true
    · rw [if_pos hinit]
      unfold mcapi_trans_endpoint_get_i
      split
      · dsimp only
        rw [if_pos hst]
        obtain ⟨o, ho⟩ := (hc.answered m hm hinit).lookup_ne_none (n := 0) fun k hk => by omega
        rw [ho]
        cases o with
        | none => exact ⟨_, if_pos hst⟩
        | some hd => exact ⟨_, if_pos hst⟩
      · exact ⟨_, if_pos hst⟩
    · exact ⟨s, if_neg hinit⟩
  obtain ⟨s', hs'⟩ := hrun
  refine ⟨s', hs', ?_⟩
  rcases requestRemote_some hst hs' with ⟨hnot, rfl⟩ | ⟨hasks, hfree, -⟩ |
    ⟨-, -, -, handle, rfl⟩ | ⟨-, -, hd, -, rfl⟩
  · refine ⟨fun hasks => ?_, fun x hx => hx⟩
    rw [hnot] at hasks
    cases hasks
  · -- fewer requests are in use than there are
    obtain ⟨k, htally, hk⟩ := h
    have hle := ha.requests_lt htally
    have hlt := count_lt (p := fun i => config.asks i = true) hm hasks
    have hall := hc.requests
    omega
  · exact ⟨fun _ => List.mem_cons_self, fun x hx => List.mem_cons_of_mem _ hx⟩
  · exact ⟨fun _ => List.mem_cons_self, fun x hx => List.mem_cons_of_mem _ hx⟩

theorem establish_ends (hme : me.dindex < MCA_MAX_DOMAINS ∧ me.nindex < MCA_MAX_NODES)
    (hW : Known me config W) (hc : Completes E me config db free) (hm : m < config.nchans)
    (ha : Asking E me config W m s) (hst : s.status = MCAPI_SUCCESS)
    (h : Spent me config db free m s) (hall : AllAsked config m s) :
    ∃ s', establish E me config m s = some s' ∧ AllAsked config (m + 1) s' := by
  obtain ⟨t, ht⟩ := createLocal_ends hme hc hm h
  obtain ⟨hat, hstt, -⟩ := ha.createLocal hW hm ht hst
  obtain ⟨s', hs', hasked, hkeep⟩ :=
    requestRemote_ends hc hm hat (h.createLocal ht).requests hstt
  refine ⟨s', ?_, ?_⟩
  · rw [establish_eq, ht]
    exact hs'
  · intro i hi hasks
    by_cases him : i = m
    · rw [him] at hasks ⊢
      exact hasked hasks
    · apply hkeep
      have hmem := hall i (by omega) hasks
      rcases createLocal_some ht with ⟨-, rfl⟩ | ⟨-, -, e, hd, attributes, -, -, -, rfl⟩
      · exact hmem
      · exact List.mem_cons_of_mem _ hmem

/-! ## Waiting -/

/-- A wait with a finite timeout ends if no test of the request fails. -/
theorem waitLoop_ends {time : ℕ} {r : Request} (P : Request → Prop)
    (htest : ∀ r, P r → ∃ p, mcapi_trans_test_i E i s r = some p ∧
      ∀ q, p.2 = some q → P q ∧ p.1 = s)
    (hP : P r) (hfuel : 0 < fuel) (hleft : timeout ≤ time + fuel) (htime : time ≤ timeout)
    (hfinite : timeout < MCA_INFINITE) :
    ∃ s' done, waitLoop E timeout i fuel time s r = some (s', done) := by
  induction fuel generalizing time r with
  | zero => omega
  | succ fuel ih =>
    have hlt : timeout < 2 ^ 32 - 1 := hfinite
    have htime' : u32 (time + 1) = time + 1 := u32_of_lt (by omega)
    obtain ⟨⟨t, o⟩, hp, hkeep⟩ := htest r hP
    unfold waitLoop
    rw [hp, Option.bind_some]
    cases o with
    | none => exact ⟨_, _, rfl⟩
    | some q =>
      obtain ⟨hq, hts⟩ := hkeep q rfl
      dsimp only at hts ⊢
      rw [htime', hts]
      split
      · exact ⟨_, _, rfl⟩
      · rename_i hgo
        have hmore : time + 1 < timeout := by
          by_contra hle
          exact hgo ⟨by omega, by omega⟩
        exact ih hq (by omega) (by omega) (by omega)

/-- A request for an endpoint that is answered can be tested. -/
theorem test_get_ends {r : Request} (hans : Answered E i (config.requestTuple i))
    (hr : r.type = GET_ENDPT ∧ r.ep = config.requestTuple i ∧ (r.completed = false →
      ∀ k, k ≤ r.tests → E.lookup i (config.requestTuple i) k = some none)) :
    ∃ p, mcapi_trans_test_i E i s r = some p ∧ ∀ q, p.2 = some q →
      (q.type = GET_ENDPT ∧ q.ep = config.requestTuple i ∧ (q.completed = false →
        ∀ k, k ≤ q.tests → E.lookup i (config.requestTuple i) k = some none)) ∧ p.1 = s := by
  obtain ⟨type, completed, status, handle, ep_endpoint, ep, tests⟩ := r
  obtain ⟨htype, hep, hmiss⟩ := hr
  dsimp only at htype hep hmiss
  subst htype hep
  unfold mcapi_trans_test_i
  cases completed with
  | true =>
    refine ⟨_, rfl, fun q hq => ?_⟩
    simp at hq
  | false =>
    obtain ⟨o, ho⟩ := hans.lookup_ne_none (n := tests + 1) fun k hk => hmiss rfl k (by omega)
    cases o with
    | some hd =>
      refine ⟨({ s.obtain ep_endpoint hd (config.requestTuple i) with
        status := MCAPI_SUCCESS, free := s.free + 1 }, none), ?_, fun q hq => by cases hq⟩
      simp only [Bool.false_eq_true, if_false, checkRequest, ho, Option.map_some, if_true]
      rfl
    | none =>
      refine ⟨(s, some ⟨GET_ENDPT, false, status, handle, ep_endpoint, config.requestTuple i,
        tests + 1⟩), ?_, fun q hq => ?_⟩
      · simp only [Bool.false_eq_true, if_false, checkRequest, ho, Option.map_some]
      · rw [Option.some.injEq] at hq
        subst hq
        refine ⟨⟨rfl, rfl, fun _ k hk => ?_⟩, rfl⟩
        dsimp only at hk
        by_cases hlast : k = tests + 1
        · rw [hlast]
          exact ho
        · exact hmiss rfl k (by omega)

/-- What can be tested of the other requests. -/
def Testable (r : Request) : Prop :=
  r.completed = true ∨ ∃ type p, r.type = openType type ∧ mcapi_trans_decode_handle r.handle = some p

theorem test_other_ends {r : Request} (hr : Testable r) :
    ∃ p, mcapi_trans_test_i E i s r = some p ∧ ∀ q, p.2 = some q → Testable q ∧ p.1 = s := by
  obtain ⟨type, completed, status, handle, ep_endpoint, ep, tests⟩ := r
  unfold mcapi_trans_test_i
  rcases hr with hc | ⟨t, p, htype, hp⟩
  · dsimp only at hc
    subst hc
    refine ⟨_, rfl, fun q hq => ?_⟩
    simp at hq
  · dsimp only at htype hp
    subst htype
    cases completed with
    | true =>
      refine ⟨_, rfl, fun q hq => ?_⟩
      simp at hq
    | false =>
      have hcheck : checkRequest E i s ⟨openType t, false, status, handle, ep_endpoint, ep, tests⟩ =
          some (s, ⟨openType t, ((E.channels i (tests + 1)).entry p).state.connected, status, handle,
            ep_endpoint, ep, tests + 1⟩) := by
        have hkind : openType t = OPEN_PKTCHAN ∨ openType t = OPEN_SCLCHAN := by
          unfold openType
          split
          · exact .inl rfl
          · exact .inr rfl
        rcases hkind with hkind | hkind
        · simp only [hkind, checkRequest, hp, Option.map_some]
        · simp only [hkind, checkRequest, hp, Option.map_some]
      simp only [Bool.false_eq_true, if_false, hcheck, Option.map_some]
      refine ⟨_, rfl, fun q hq => ?_⟩
      split at hq
      · cases hq
      · rename_i hopen
        rw [if_neg hopen]
        rw [Option.some.injEq] at hq
        subst hq
        exact ⟨.inr ⟨t, p, rfl, hp⟩, rfl⟩

/-! ## The second loop ends -/

/-- The time that is left for a wait, also without a timeout of zero. -/
theorem mcapi_trans_wait_ends (P : Request → Prop)
    (htest : ∀ r, P r → ∃ p, mcapi_trans_test_i E i s r = some p ∧
      ∀ q, p.2 = some q → P q ∧ p.1 = s)
    (hP : ∀ r, (s.chan i).request = some r → P r) (hfuel : timeout < fuel)
    (hfinite : timeout < MCA_INFINITE) :
    ∃ s' done, mcapi_trans_wait E timeout fuel i s = some (s', done) := by
  unfold mcapi_trans_wait
  cases hr : (s.chan i).request with
  | none => exact ⟨s, true, rfl⟩
  | some r => exact waitLoop_ends P htest (hP r hr) (by omega) (by omega) (by omega) hfinite

/-- What a round of the second loop has done so far: the requests before channel `i` have
been tested once more. -/
structure Rounds (config : mcapi_config_t) (free p i : ℕ) (s : Frame) : Prop where
  asked : AllAsked config config.nchans s
  requests : Requests free s
  before : ∀ j r, j < i → (s.chan j).request = some r → r.completed = false ∧ p + 1 ≤ r.tests
  behind : ∀ j r, i ≤ j → (s.chan j).request = some r →
    p = 0 ∨ (r.completed = false ∧ p ≤ r.tests)
  status : s.status = MCAPI_SUCCESS ∨ ∃ j, (s.chan j).request ≠ none

/-- The requests of the other channels and their number, after channel `i` was looked at. -/
theorem Requests.answer (h : Requests free s) (hi : (s.chan i).request ≠ none)
    (hnone : (s'.chan i).request = none)
    (hothers : ∀ j, j ≠ i → (s'.chan j).request = (s.chan j).request)
    (hfree : s'.free = s.free + 1) : Requests free s' := by
  obtain ⟨k, htally, hk⟩ := h
  obtain ⟨j, rfl, hj⟩ : ∃ j, k = j + 1 ∧ Tally (fun i => (s'.chan i).request ≠ none) j :=
    htally.leave (o := i) hi (fun hne => hne hnone) fun j hj => by rw [hothers j hj]
  exact ⟨j, hj, by omega⟩

theorem Requests.same (h : Requests free s)
    (hothers : ∀ j, (s'.chan j).request ≠ none ↔ (s.chan j).request ≠ none)
    (hfree : s'.free = s.free) : Requests free s' := by
  obtain ⟨k, htally, hk⟩ := h
  exact ⟨k, htally.congr hothers, by omega⟩

theorem complete_ends (hc : Completes E me config db free)
    (ha : Asking E me config W config.nchans s) (hfuel : timeout < fuel)
    (hfinite : timeout < MCA_INFINITE) :
    ∃ s', complete E timeout fuel config i s = some s' := by
  cases hr : (s.chan i).request with
  | none => exact ⟨s, complete_none hr⟩
  | some r =>
    obtain ⟨hi, hasked⟩ := ha.request i r hr
    have hans := hc.answered i hi hasked.asks
    have hwait := mcapi_trans_wait_ends _ (fun r hr => test_get_ends hans hr) (fun q hq => by
      obtain ⟨-, hasked⟩ := ha.request i q hq
      exact ⟨hasked.type, hasked.ep, hasked.missed⟩) hfuel hfinite
    obtain ⟨t, done, ht⟩ := hwait
    have hnot : ¬ ((s.chan i).request.isNone = true) := by simp [hr]
    rw [complete, if_neg hnot, ht]
    cases done with
    | false => exact ⟨_, rfl⟩
    | true =>
      have hst : t.status = MCAPI_SUCCESS := by
        rw [mcapi_trans_wait, hr] at ht
        rcases waitLoop_get hasked.type ht with ⟨-, -, rfl⟩ | ⟨-, -, j, hd, -, -, -, rfl⟩ |
          ⟨hfalse, -⟩
        · exact hasked.status
        · rfl
        · cases hfalse
      simp only [Option.bind_eq_bind, Option.bind_some, if_true, if_pos hst]
      exact ⟨_, rfl⟩

/-- A channel is looked at in a round. -/
theorem Rounds.complete {p : ℕ} (ha : Asking E me config W config.nchans s)
    (h : Rounds config free p i s) (hrun : complete E timeout fuel config i s = some s') :
    Rounds config free p (i + 1) s' := by
  cases hr : (s.chan i).request with
  | none =>
    rw [complete_none hr, Option.some.injEq] at hrun
    subst hrun
    refine ⟨h.asked, h.requests, fun j r hj hjr => ?_, fun j r hj hjr => ?_, h.status⟩
    · by_cases hji : j = i
      · rw [hji, hr] at hjr
        cases hjr
      · exact h.before j r (by omega) hjr
    · exact h.behind j r (by omega) hjr
  | some r =>
    obtain ⟨hi, hasked⟩ := ha.request i r hr
    have hne : (s.chan i).request ≠ none := by simp [hr]
    -- where the request is completed no other one changes
    have hanswer : ∀ t : Frame, t.chan = s.chan → t.free = s.free → t.named = s.named →
        Rounds config free p (i + 1) (t.answered i (config.remote i)) := by
      intro t hchan hfree hnamed
      have hself : ((t.answered i (config.remote i)).chan i).request = none := by
        simp [Frame.answered]
      have hothers : ∀ j, j ≠ i →
          ((t.answered i (config.remote i)).chan j).request = (s.chan j).request := by
        intro j hj
        simp only [Frame.answered, Function.update_of_ne hj, hchan]
      refine ⟨?_, ?_, ?_, ?_, .inl rfl⟩
      · intro j hj hasks
        dsimp only [Frame.answered]
        rw [hnamed]
        exact h.asked j hj hasks
      · apply h.requests.answer hne hself hothers
        simp [Frame.answered, hfree]
      · intro j q hj hq
        by_cases hji : j = i
        · rw [hji, hself] at hq
          cases hq
        · rw [hothers j hji] at hq
          exact h.before j q (by omega) hq
      · intro j q hj hq
        rw [hothers j (by omega)] at hq
        exact h.behind j q (by omega) hq
    rcases complete_some hr hasked hrun with ⟨-, rfl⟩ | ⟨-, j, hd, -, -, -, rfl⟩ | ⟨hc, t, ht, -, rfl⟩
    · exact hanswer s rfl rfl rfl
    · exact hanswer (s.obtain (config.remote i) hd (config.requestTuple i)) rfl rfl rfl
    · have hothers : ∀ j, j ≠ i → ((({ s with status := MCAPI_TIMEOUT, rc := false } : Frame).setRequest i
          (some { r with tests := t })).chan j).request = (s.chan j).request := by
        intro j hj
        simp only [Frame.setRequest, Frame.setChan, Function.update_of_ne hj]
      refine ⟨h.asked, h.requests.same (fun j => ?_) rfl, ?_, ?_, .inr ⟨i, ?_⟩⟩
      · by_cases hj : j = i
        · subst hj
          simp [Frame.setRequest, Frame.setChan, hr]
        · rw [hothers j hj]
      · intro j q hj hq
        by_cases hji : j = i
        · subst hji
          simp only [Frame.setRequest, Frame.setChan, Function.update_self, Option.some.injEq] at hq
          subst hq
          refine ⟨hc, ?_⟩
          rcases h.behind j r (le_refl j) hr with rfl | ⟨-, hp⟩
          · dsimp only
            omega
          · dsimp only
            omega
        · rw [hothers j hji] at hq
          exact h.before j q (by omega) hq
      · intro j q hj hq
        rw [hothers j (by omega)] at hq
        exact h.behind j q (by omega) hq
      · simp [Frame.setRequest, Frame.setChan]

/-- One number of tests is enough for all channels. -/
theorem exists_bound (n : ℕ) (p : ℕ → Prop) (t : ℕ → mcapi_endpoint_data_t)
    (h : ∀ i, i < n → p i → Answered E i (t i)) :
    ∃ N, ∀ i, i < n → p i → ∃ j hd, j ≤ N ∧ E.lookup i (t i) j = some (some hd) := by
  induction n with
  | zero => exact ⟨0, fun i hi => by omega⟩
  | succ n ih =>
    obtain ⟨N, hN⟩ := ih fun i hi => h i (by omega)
    by_cases hp : p n
    · obtain ⟨j, hd, hfound, -⟩ := h n (by omega) hp
      refine ⟨max N j, fun i hi hpi => ?_⟩
      by_cases hin : i = n
      · subst hin
        exact ⟨j, hd, le_max_right N j, hfound⟩
      · obtain ⟨j', hd', hle, hfound'⟩ := hN i (by omega) hpi
        exact ⟨j', hd', hle.trans (le_max_left N j), hfound'⟩
    · refine ⟨N, fun i hi hpi => ?_⟩
      by_cases hin : i = n
      · rw [hin] at hpi
        exact absurd hpi hp
      · exact hN i (by omega) hpi

/-- Without a request there is nothing to count. -/
theorem Asking.nchan_zero (h : Asking E me config W config.nchans s)
    (hall : AllAsked config config.nchans s) (hnone : ∀ i, (s.chan i).request = none) :
    s.nchan = 0 := by
  obtain ⟨k, hk, htally⟩ := h.outstanding
  have hzero := htally.eq_zero fun i hi => hi.2.2 ⟨hall i hi.1 hi.2.1, hnone i⟩
  rw [hk, hzero]
  rfl

/-- The second loop ends and leaves no request. -/
theorem completeAll_ends (hW : Known me config W) (hc : Completes E me config db free)
    (ha : Asking E me config W config.nchans s) (hst : s.status = MCAPI_SUCCESS)
    (hall : AllAsked config config.nchans s) (hreq : Requests free s)
    (hfinite : timeout < MCA_INFINITE) :
    ∃ N, ∀ fuel, timeout < fuel → N < fuel → ∃ s',
      whileLoop (fun s => decide (0 < s.nchan)) (completeAll E timeout fuel config) fuel s =
        some s' ∧ Asking E me config W config.nchans s' ∧ s'.nchan ≤ 0 ∧
        s'.status = MCAPI_SUCCESS ∧ Requests free s' := by
  obtain ⟨N, hN⟩ := exists_bound config.nchans (fun i => config.asks i = true)
    config.requestTuple hc.answered
  refine ⟨N + 1, fun fuel htimeout hfuel => ?_⟩
  have hround : ∀ p s, p < N + 1 → Asking E me config W config.nchans s ∧
      Rounds config free p 0 s → decide (0 < s.nchan) = true →
      ∃ s', completeAll E timeout fuel config s = some s' ∧
        Asking E me config W config.nchans s' ∧ Rounds config free (p + 1) 0 s' := by
    rintro p s - ⟨ha, hround⟩ -
    obtain ⟨s', hs', ha', hround'⟩ := forLoop_ends
      (fun i s => Asking E me config W config.nchans s ∧ Rounds config free p i s)
      (fun i s _ h => by
        obtain ⟨t, ht⟩ := complete_ends (i := i) hc h.1 htimeout hfinite
        exact ⟨t, ht, h.1.complete hW ht, h.2.complete h.1 ht⟩)
      ⟨ha, hround⟩
    refine ⟨s', hs', ha', hround'.asked, hround'.requests, fun _ _ hj => by omega, ?_,
      hround'.status⟩
    intro j r _ hr
    exact .inr (hround'.before j r (ha'.request j r hr).1 hr)
  -- a request that is left would have been tested when its endpoint is found
  have hlast : ∀ s, Asking E me config W config.nchans s ∧ Rounds config free (N + 1) 0 s →
      decide (0 < s.nchan) = false := by
    rintro s ⟨ha, hround⟩
    have hnone : ∀ i, (s.chan i).request = none := by
      intro i
      cases hr : (s.chan i).request with
      | none => rfl
      | some r =>
        obtain ⟨hi, hasked⟩ := ha.request i r hr
        obtain ⟨j, hd, hj, hfound⟩ := hN i hi hasked.asks
        rcases hround.behind i r (Nat.zero_le i) hr with hzero | ⟨hopen, htests⟩
        · omega
        · rw [hasked.missed hopen j (by omega)] at hfound
          cases hfound
    have hzero := ha.nchan_zero hround.asked hnone
    simp [hzero]
  obtain ⟨s', hrun, ⟨p, ha', hend⟩, htest⟩ := whileLoop_ends
    (fun p s => Asking E me config W config.nchans s ∧ Rounds config free p 0 s) hround hlast hfuel
    ⟨ha, hall, hreq, fun _ _ hj => by omega, fun _ _ _ _ => .inl rfl, .inl hst⟩
  have hn : s'.nchan ≤ 0 := by simpa using htest
  refine ⟨s', hrun, ha', hn, ?_, hend.requests⟩
  rcases hend.status with hst' | ⟨j, hj⟩
  · exact hst'
  · exact absurd (ha'.no_request hn j) hj

/-! ## The loops that connect -/

/-- The channel is one of the node: both its endpoints are in use. -/
def Local (config : mcapi_config_t) (i : ℕ) : Prop :=
  config.creates i = true ∧ config.asks i = true

/-- The channels of the node before `m` are valid and their endpoints are connected. -/
def JoinedBefore (config : mcapi_config_t) (m : ℕ) (s : Frame) : Prop :=
  ∀ j, j < m → Local config j → (s.chan j).valid = true ∧
    ((config.chan j).type ≠ MCAPI_NO_CHAN → ∃ x ∈ s.joined, x.chan = j)

/-- The two ends of a channel are its local and its remote endpoint. -/
theorem mcapi_config_t.ends_iff (p : ℕ → Prop) :
    (p (config.chan i).from_ep ∧ p (config.chan i).to_ep) ↔
      (p (config.local i) ∧ p (config.remote i)) := by
  unfold mcapi_config_t.local mcapi_config_t.remote
  cases (config.chan i).direction with
  | MCAPI_SEND_DIRECTION => exact Iff.rfl
  | MCAPI_RECV_DIRECTION => exact And.comm

/-- What the third loop has done before it comes to channel `m`. -/
structure Joins (config : mcapi_config_t) (free : ℕ) (named : List Named) (m : ℕ) (s : Frame) :
    Prop where
  joining : Joining config (Used config) named s
  status : s.status = MCAPI_SUCCESS
  requests : Requests free s
  owner : ∀ j r, (s.chan j).request = some r →
    j < m ∧ config.asks j = true ∧ r.completed = true
  ends : ∀ i, i < config.nchans →
    (config.creates i = true → (s.endpoint (config.local i)).valid = true) ∧
    (config.asks i = true → (s.endpoint (config.remote i)).valid = true)
  joined : JoinedBefore config m s

theorem Written.decodes {k : ℕ} (hh : Handles W s) (h : Written W s k) :
    ∃ p, mcapi_trans_decode_handle (s.endpoint k).endpoint = some p := by
  obtain ⟨t, -, hmem⟩ := h
  have hdecodes := hh.decodes _ hmem
  exact hdecodes

theorem JoinedBefore.next (h : JoinedBefore config m s)
    (hvalid : ∀ j, (s.chan j).valid = true → (s'.chan j).valid = true)
    (hjoined : ∀ x ∈ s.joined, x ∈ s'.joined)
    (hm : Local config m → (s'.chan m).valid = true ∧
      ((config.chan m).type ≠ MCAPI_NO_CHAN → ∃ x ∈ s'.joined, x.chan = m)) :
    JoinedBefore config (m + 1) s' := by
  intro j hj hlocal
  by_cases hjm : j = m
  · rw [hjm] at hlocal ⊢
    exact hm hlocal
  · obtain ⟨hv, hx⟩ := h j (by omega) hlocal
    refine ⟨hvalid j hv, fun htype => ?_⟩
    obtain ⟨x, hmem, hchan⟩ := hx htype
    exact ⟨x, hjoined x hmem, hchan⟩

/-- A channel for messages becomes valid. -/
theorem Joins.message {named : List Named} (h : Joins config free named m s)
    (htype : (config.chan m).type = MCAPI_NO_CHAN)
    (hrun : connectChannel config m s = some (s.setChan m { s.chan m with valid := true })) :
    Joins config free named (m + 1) (s.setChan m { s.chan m with valid := true }) := by
  have hrequest : ∀ j, ((s.setChan m { s.chan m with valid := true }).chan j).request =
      (s.chan j).request := by
    intro j
    by_cases hj : j = m
    · subst hj
      simp [Frame.setChan]
    · simp [Frame.setChan, Function.update_of_ne hj]
  refine ⟨h.joining.connectChannel hrun, h.status, ?_, ?_, h.ends, ?_⟩
  · exact Requests.same h.requests (fun j => by rw [hrequest j]) rfl
  · intro j r hr
    rw [hrequest j] at hr
    obtain ⟨hjm, hrest⟩ := h.owner j r hr
    exact ⟨by omega, hrest⟩
  · refine JoinedBefore.next h.joined (fun j hv => ?_) (fun x hx => hx) fun _ => ⟨?_, ?_⟩
    · by_cases hj : j = m
      · subst hj
        simp [Frame.setChan]
      · simpa [Frame.setChan, Function.update_of_ne hj] using hv
    · simp [Frame.setChan]
    · intro hne
      exact absurd htype hne

/-- The frame after the endpoints `x` and `y` of channel `m` were connected. -/
def Frame.connectedAt (s : Frame) (db : mcapi_database) (m : ℕ) (type : channel_type) (x y : ℕ) :
    Frame :=
  { s with
    free := s.free - 1
    db := db
    chan := Function.update s.chan m
      { s.chan m with
        valid := true
        state := MCAPI_CONN_STATE
        request := some ⟨connType type, true, MCAPI_SUCCESS, y, 0, ⟨0, 0, 0⟩, 0⟩ }
    joined := ⟨m, x, y⟩ :: s.joined }

theorem Joins.connect {named : List Named} {type : channel_type} {x y : ℕ}
    (h : Joins config free named m s) (hasks : config.asks m = true) (hfree : 0 < s.free)
    (hrun : connectChannel config m s = some (s.connectedAt db m type x y)) :
    Joins config free named (m + 1) (s.connectedAt db m type x y) := by
  have hnone : (s.chan m).request = none := by
    cases hr : (s.chan m).request with
    | none => rfl
    | some r => exact absurd (h.owner m r hr).1 (lt_irrefl m)
  refine ⟨h.joining.connectChannel hrun, h.status, ?_, ?_, h.ends, ?_⟩
  · obtain ⟨k, htally, hk⟩ := h.requests
    refine ⟨k + 1, htally.enter (o := m) (fun hne => hne hnone) ?_ ?_, ?_⟩
    · simp [Frame.connectedAt]
    · intro j hj
      simp only [Frame.connectedAt, Function.update_of_ne hj]
    · dsimp only [Frame.connectedAt]
      omega
  · intro j r hr
    by_cases hj : j = m
    · subst hj
      simp only [Frame.connectedAt, Function.update_self, Option.some.injEq] at hr
      rw [← hr]
      exact ⟨by omega, hasks, rfl⟩
    · simp only [Frame.connectedAt, Function.update_of_ne hj] at hr
      obtain ⟨hjm, hrest⟩ := h.owner j r hr
      exact ⟨by omega, hrest⟩
  · refine JoinedBefore.next h.joined (fun j hv => ?_) (fun x hx => List.mem_cons_of_mem _ hx)
      fun _ => ⟨?_, fun _ => ⟨_, List.mem_cons_self, rfl⟩⟩
    · by_cases hj : j = m
      · subst hj
        simp [Frame.connectedAt]
      · simpa [Frame.connectedAt, Function.update_of_ne hj] using hv
    · simp [Frame.connectedAt]

/-- A request is free for channel `m`: those in use belong to other channels that asked. -/
theorem Joins.free_pos {named : List Named} (hc : Completes E me config db free)
    (hm : m < config.nchans) (h : Joins config free named m s) (hasks : config.asks m = true) :
    0 < s.free := by
  obtain ⟨k, htally, hk⟩ := h.requests
  have hle : k ≤ Nat.count (fun i => config.asks i = true) m := by
    apply tally_mono htally (tally_count _ m)
    intro j hj
    obtain ⟨r, hr⟩ := Option.ne_none_iff_exists'.mp hj
    exact ⟨(h.owner j r hr).1, (h.owner j r hr).2.1⟩
  have hlt := count_lt (p := fun i => config.asks i = true) hm hasks
  have hall := hc.requests
  omega

/-- The assertion on the two endpoints of a channel holds. -/
theorem Joins.asserted {named : List Named} (hm : m < config.nchans)
    (h : Joins config free named m s) :
    ((!(config.endpoint (config.chan m).from_ep).initialized ||
      (s.endpoint (config.chan m).from_ep).valid) &&
      (!(config.endpoint (config.chan m).to_ep).initialized ||
      (s.endpoint (config.chan m).to_ep).valid)) = true := by
  obtain ⟨hlocal, hremote⟩ := h.ends m hm
  rw [Bool.and_eq_true]
  apply (mcapi_config_t.ends_iff fun k =>
    (!(config.endpoint k).initialized || (s.endpoint k).valid) = true).mpr
  constructor
  · cases hinit : (config.endpoint (config.local m)).initialized with
    | false => rfl
    | true => simp [hlocal hinit]
  · cases hinit : (config.endpoint (config.remote m)).initialized with
    | false => rfl
    | true => simp [hremote hinit]

theorem connectChannel_ends {named : List Named} (hc : Completes E me config db free)
    (hm : m < config.nchans) (h : Joins config free named m s) :
    ∃ s', connectChannel config m s = some s' ∧ Joins config free named (m + 1) s' := by
  have hassert := h.asserted hm
  by_cases hboth : (s.endpoint (config.chan m).from_ep).valid = true ∧
      (s.endpoint (config.chan m).to_ep).valid = true
  · have hfrom := h.joining.handles.written _ hboth.1
    have hto := h.joining.handles.written _ hboth.2
    -- only endpoints in use are valid, so the channel is one that has asked
    have hused : Local config m := by
      apply (mcapi_config_t.ends_iff fun k => (config.endpoint k).initialized = true).mp
      obtain ⟨_, huf, -⟩ := hfrom
      obtain ⟨_, hut, -⟩ := hto
      exact ⟨huf, hut⟩
    have hskip : ¬ ((!(s.endpoint (config.chan m).from_ep).valid ||
        !(s.endpoint (config.chan m).to_ep).valid) = true) := by
      simp [hboth.1, hboth.2]
    by_cases htype : (config.chan m).type = MCAPI_NO_CHAN
    · have hrun : connectChannel config m s =
          some (s.setChan m { s.chan m with valid := true }) := by
        unfold connectChannel
        dsimp only
        rw [if_pos hassert, if_neg hskip, if_pos htype]
      exact ⟨_, hrun, h.message htype hrun⟩
    · have hfree := h.free_pos hc hm hused.2
      obtain ⟨sp, hsp⟩ := hfrom.decodes h.joining.handles
      obtain ⟨rp, hrp⟩ := hto.decodes h.joining.handles
      obtain ⟨db', hdb⟩ : ∃ db', Channel.mcapi_trans_connect_channel s.db
          (s.endpoint (config.chan m).from_ep).endpoint (s.endpoint (config.chan m).to_ep).endpoint
          (config.chan m).type = some db' := by
        unfold Channel.mcapi_trans_connect_channel
        rw [hsp, hrp]
        exact ⟨_, rfl⟩
      have hrun : connectChannel config m s = some (s.connectedAt db' m (config.chan m).type
          (s.endpoint (config.chan m).from_ep).endpoint
          (s.endpoint (config.chan m).to_ep).endpoint) := by
        unfold connectChannel
        dsimp only
        rw [if_pos hassert, if_neg hskip, if_neg htype]
        unfold connect_i
        rw [if_pos hfree]
        dsimp only [Frame.setRequest, Frame.setChan]
        rw [if_pos h.status, hdb]
        simp [Frame.connectedAt, h.status]
      exact ⟨_, hrun, h.connect hused.2 hfree hrun⟩
  · have hrun : connectChannel config m s = some s := by
      unfold connectChannel
      dsimp only
      rw [if_pos hassert, if_pos]
      by_contra hno
      apply hboth
      simpa using hno
    refine ⟨s, hrun, h.joining, h.status, h.requests, ?_, h.ends, ?_⟩
    · intro j r hr
      obtain ⟨hjm, hrest⟩ := h.owner j r hr
      exact ⟨by omega, hrest⟩
    · refine JoinedBefore.next h.joined (fun j hv => hv) (fun x hx => hx) ?_
      intro hused
      obtain ⟨hlocal, hremote⟩ := h.ends m hm
      exact absurd ((mcapi_config_t.ends_iff fun k => (s.endpoint k).valid = true).mpr
        ⟨hlocal hused.1, hremote hused.2⟩) hboth

/-! ## The loops that open and finish -/

/-- What the last two loops start from: the requests that are left can be tested, and the
node's channels are connected. -/
structure Opens (config : mcapi_config_t) (named : List Named) (s : Frame) : Prop where
  joining : Joining config (Used config) named s
  testable : ∀ j r, (s.chan j).request = some r → Testable r
  joined : JoinedBefore config config.nchans s

/-- A channel is changed whose new request can be tested. -/
theorem Opens.setChan {named : List Named} {c : ChannelRun} (h : Opens config named s)
    (hrequest : ∀ r, c.request = some r →
      (s.chan i).request = some r ∨ (Testable r ∧ r.type ≠ GET_ENDPT))
    (hvalid : c.valid = (s.chan i).valid) : Opens config named (s.setChan i c) where
  joining := h.joining.setChan (fun r hr => (hrequest r hr).imp_right And.right)
    fun hv => .inl (hvalid ▸ hv)
  testable j r hr := by
    by_cases hj : j = i
    · subst hj
      simp only [Frame.setChan, Function.update_self] at hr
      rcases hrequest r hr with hold | hnew
      · exact h.testable j r hold
      · exact hnew.1
    · simp only [Frame.setChan, Function.update_of_ne hj] at hr
      exact h.testable j r hr
  joined j hj hlocal := by
    obtain ⟨hv, hx⟩ := h.joined j hj hlocal
    refine ⟨?_, hx⟩
    by_cases hji : j = i
    · subst hji
      simpa [Frame.setChan, hvalid] using hv
    · simpa [Frame.setChan, Function.update_of_ne hji] using hv

theorem Opens.others {named : List Named} (h : Opens config named s) (status : CallStatus)
    (free : ℕ) (rc : Bool) (db : mcapi_database) :
    Opens config named { s with status := status, free := free, rc := rc, db := db } :=
  ⟨h.joining.others status free rc db, h.testable, h.joined⟩

/-- A wait of one of the last loops returns, and if in vain leaves a request to test. -/
theorem Opens.wait_ends {named : List Named} (h : Opens config named s) (hfuel : timeout < fuel)
    (hfinite : timeout < MCA_INFINITE) :
    ∃ s' done, mcapi_trans_wait E timeout fuel i s = some (s', done) := by
  apply mcapi_trans_wait_ends Testable (fun r hr => test_other_ends hr) (h.testable i) hfuel hfinite

/-- A wait with a completed request succeeds at once. -/
theorem wait_completed {r : Request} (hr : (s.chan i).request = some r) (hc : r.completed = true)
    (hfuel : 0 < fuel) :
    mcapi_trans_wait E timeout fuel i s =
      some ({ s with status := r.status, free := s.free + 1 }.setRequest i none, true) := by
  obtain ⟨f, rfl⟩ : ∃ f, fuel = f + 1 := ⟨fuel - 1, by omega⟩
  rw [mcapi_trans_wait, hr]
  dsimp only
  rw [waitLoop, mcapi_trans_test_i, if_pos hc]
  simp [hc]

/-- A wait that succeeds has removed the request. -/
theorem waitLoop_done {time : ℕ} {r : Request}
    (h : waitLoop E timeout i fuel time s r = some (s', true)) : (s'.chan i).request = none := by
  induction fuel generalizing time s r with
  | zero => cases h
  | succ fuel ih =>
    unfold waitLoop at h
    obtain ⟨⟨t, o⟩, -, hrest⟩ := Option.bind_eq_some_iff.mp h
    cases o with
    | none =>
      simp only [Option.some.injEq, Prod.mk.injEq] at hrest
      rw [← hrest.1]
      simp [Frame.setRequest, Frame.setChan]
    | some q =>
      dsimp only at hrest
      split at hrest
      · simp at hrest
      · exact ih hrest

/-- A request that can be tested is left so by a wait in vain. -/
theorem waitLoop_testable {time : ℕ} {r : Request} (hr : Testable r)
    (h : waitLoop E timeout i fuel time s r = some (s', false)) :
    ∀ q, (s'.chan i).request = some q → Testable q := by
  induction fuel generalizing time s r with
  | zero => cases h
  | succ fuel ih =>
    unfold waitLoop at h
    obtain ⟨⟨t, o⟩, htest, hrest⟩ := Option.bind_eq_some_iff.mp h
    obtain ⟨p, hp, hkeep⟩ := test_other_ends (E := E) (i := i) (s := s) hr
    rw [htest, Option.some.injEq] at hp
    subst hp
    cases o with
    | none => simp at hrest
    | some q =>
      obtain ⟨hq, -⟩ := hkeep q rfl
      dsimp only at hrest
      split at hrest
      · simp only [Option.some.injEq, Prod.mk.injEq] at hrest
        intro q' hq'
        rw [← hrest.1] at hq'
        simp only [Frame.setRequest, Frame.setChan, Function.update_self, Option.some.injEq] at hq'
        exact hq' ▸ hq
      · exact ih hq hrest

theorem open_i_ends {named : List Named} (type : channel_type) {x : ℕ} {p : Place}
    (h : Opens config named s) (hx : mcapi_trans_decode_handle x = some p)
    (hlocal : HandleOf (Used config) s (config.local i) x) :
    ∃ s', open_i E s i type x = some s' ∧ Opens config named s' ∧
      (∀ j, j ≠ i → s'.chan j = s.chan j) ∧ s'.rc = s.rc := by
  have hrun : ∃ s', open_i E s i type x = some s' := by
    unfold open_i
    dsimp only
    split
    · split
      · rw [hx]
        exact ⟨_, rfl⟩
      · exact ⟨_, rfl⟩
    · exact ⟨_, rfl⟩
  obtain ⟨s', hs'⟩ := hrun
  have hjoining := h.joining.open_i hlocal hs'
  refine ⟨s', hs', ?_⟩
  unfold open_i at hs'
  split at hs'
  · dsimp only at hs'
    split at hs'
    · rw [hx, Option.map_some, Option.some.injEq] at hs'
      subst hs'
      refine ⟨⟨hjoining, fun j r hr => ?_, fun j hj hjl => ?_⟩, fun j hj => ?_, rfl⟩
      · by_cases hj : j = i
        · subst hj
          simp only [Frame.setChan, Function.update_self, Option.some.injEq] at hr
          rw [← hr]
          exact .inr ⟨type, p, rfl, hx⟩
        · simp only [Frame.setChan, Function.update_of_ne hj] at hr
          exact h.testable j r hr
      · obtain ⟨hv, hmem⟩ := h.joined j hj hjl
        refine ⟨?_, hmem⟩
        by_cases hji : j = i
        · subst hji
          simpa [Frame.setChan] using hv
        · simpa [Frame.setChan, Function.update_of_ne hji] using hv
      · simp only [Frame.setChan, Function.update_of_ne hj]
    · rw [Option.some.injEq] at hs'
      subst hs'
      refine ⟨(h.others s.status (s.free - 1) s.rc s.db).setChan (fun r hr => .inr ?_) rfl,
        fun j hj => ?_, rfl⟩
      · rw [Option.some.injEq] at hr
        rw [← hr]
        exact ⟨.inl rfl, openType_ne type⟩
      · simp only [Frame.setRequest, Frame.setChan, Function.update_of_ne hj]
  · rw [Option.some.injEq] at hs'
    subst hs'
    exact ⟨h.others _ s.free s.rc s.db, fun j _ => rfl, rfl⟩

/-- The requests of the channels that the fourth loop has still to look at are connects. -/
def ConnectsFrom (m : ℕ) (s : Frame) : Prop :=
  ∀ j r, m ≤ j → (s.chan j).request = some r → r.completed = true

theorem ConnectsFrom.next (h : ConnectsFrom m s)
    (hothers : ∀ j, j ≠ m → s'.chan j = s.chan j) : ConnectsFrom (m + 1) s' := by
  intro j r hj hr
  rw [hothers j (by omega)] at hr
  exact h j r (by omega) hr

theorem openChannel_ends {named : List Named} (hfuel : timeout < fuel)
    (h : Opens config named s) (hconn : ConnectsFrom m s) :
    ∃ s', openChannel E timeout fuel config m s = some s' ∧ Opens config named s' ∧
      ConnectsFrom (m + 1) s' := by
  have hsame : ConnectsFrom (m + 1) s := hconn.next fun j _ => rfl
  unfold openChannel
  dsimp only
  split
  · rename_i hvalid
    rw [Bool.and_eq_true] at hvalid
    obtain ⟨p, hp⟩ := (h.joining.handles.written _ hvalid.2).decodes h.joining.handles
    obtain ⟨q, hq⟩ := (h.joining.local_written hvalid.1).decodes h.joining.handles
    have hstatus := h.others MCAPI_SUCCESS s.free s.rc s.db
    rw [hp]
    simp only [Option.bind_eq_bind, Option.bind_some]
    split
    · refine ⟨_, rfl, ⟨?_, h.testable, h.joined⟩, hsame⟩
      refine hstatus.joining.change (fun k => ?_) rfl rfl (fun _ _ hr => .inl hr)
        (fun _ hv => .inl hv) (fun _ hz => .inl hz) fun _ hz => .inl hz
      by_cases hk : k = config.remote m
      · subst hk
        simp [Frame.setEndpoint]
      · simp [Frame.setEndpoint, Function.update_of_ne hk]
    · split
      · exact ⟨_, rfl, hstatus, hsame⟩
      · rename_i hpending
        obtain ⟨r, hr⟩ : ∃ r, (s.chan m).request = some r := by
          cases hr : (s.chan m).request with
          | some r => exact ⟨r, rfl⟩
          | none => simp [hr] at hpending
        have hwait : mcapi_trans_wait E timeout fuel m { s with status := MCAPI_SUCCESS } =
            some ({ s with status := r.status, free := s.free + 1 }.setRequest m none, true) :=
          wait_completed hr (hconn m r (le_refl m) hr) (by omega)
        rw [hwait]
        simp only [Option.bind_some, if_true]
        -- the connect is done, and the local endpoint is opened
        have hdone : Opens config named
            ({ s with status := r.status, free := s.free + 1 }.setRequest m none) :=
          (h.others r.status (s.free + 1) s.rc s.db).setChan (fun q hq => by cases hq) rfl
        have hlocal : HandleOf (Used config)
            ({ s with status := r.status, free := s.free + 1 }.setRequest m none) (config.local m)
            (s.endpoint (config.local m)).endpoint := by
          obtain ⟨t, ht, hmem⟩ := h.joining.local_written hvalid.1
          exact ⟨t, ht, hmem⟩
        obtain ⟨u, hu, hou, hothers, -⟩ :=
          open_i_ends (E := E) (config.chan m).type hdone hq hlocal
        refine ⟨u.setChan m { u.chan m with state := MCAPI_CONN_STATE }, ?_,
          hou.setChan (fun r hr => .inl hr) rfl, hconn.next fun j hj => ?_⟩
        · have hrun : open_i E ({ s with status := r.status, free := s.free + 1 }.setRequest m none)
              m (config.chan m).type (s.endpoint (config.local m)).endpoint = some u := hu
          dsimp only [Frame.setRequest, Frame.setChan] at hrun ⊢
          rw [hrun]
          rfl
        · simp only [Frame.setChan, Function.update_of_ne hj]
          rw [hothers j hj]
          simp only [Frame.setRequest, Frame.setChan, Function.update_of_ne hj]
  · exact ⟨s, rfl, h, hsame⟩

/-- The channels before `m` are active, or a request was waited for in vain. -/
def ActiveBefore (m : ℕ) (s : Frame) : Prop :=
  s.rc = false ∨ ∀ j, j < m → (s.chan j).valid = true → (s.chan j).state = MCAPI_ACTIVE_STATE

theorem ActiveBefore.next (h : ActiveBefore m s) (hrc : s'.rc = s.rc)
    (hothers : ∀ j, j ≠ m → s'.chan j = s.chan j)
    (hm : (s'.chan m).valid = true → (s'.chan m).state = MCAPI_ACTIVE_STATE) :
    ActiveBefore (m + 1) s' := by
  rcases h with hfalse | hactive
  · exact .inl (hrc.trans hfalse)
  · refine .inr fun j hj hv => ?_
    by_cases hjm : j = m
    · rw [hjm] at hv ⊢
      exact hm hv
    · rw [hothers j hjm] at hv ⊢
      exact hactive j (by omega) hv

theorem finishChannel_ends {named : List Named} (hfuel : timeout < fuel)
    (hfinite : timeout < MCA_INFINITE) (h : Opens config named s) (ha : ActiveBefore m s) :
    ∃ s', finishChannel E timeout fuel m s = some s' ∧ Opens config named s' ∧
      ActiveBefore (m + 1) s' := by
  have hactive : ∀ t : Frame, Opens config named t → t.rc = s.rc →
      (∀ j, j ≠ m → t.chan j = s.chan j) →
      Opens config named (t.setChan m { t.chan m with state := MCAPI_ACTIVE_STATE }) ∧
      ActiveBefore (m + 1) (t.setChan m { t.chan m with state := MCAPI_ACTIVE_STATE }) := by
    intro t ht hrc hothers
    refine ⟨ht.setChan (fun r hr => .inl hr) rfl, ha.next hrc (fun j hj => ?_) fun _ => ?_⟩
    · simp only [Frame.setChan, Function.update_of_ne hj]
      exact hothers j hj
    · simp [Frame.setChan]
  unfold finishChannel
  split
  · split
    · obtain ⟨hopens, hnext⟩ := hactive s h rfl fun _ _ => rfl
      exact ⟨_, rfl, hopens, hnext⟩
    · rename_i hpending
      obtain ⟨r, hr⟩ : ∃ r, (s.chan m).request = some r := by
        cases hr : (s.chan m).request with
        | some r => exact ⟨r, rfl⟩
        | none => simp [hr] at hpending
      have hstatus := h.others MCAPI_SUCCESS s.free s.rc s.db
      obtain ⟨t, done, ht⟩ := hstatus.wait_ends (E := E) (i := m) hfuel hfinite
      -- the wait changes the channel's request only
      have hjoining := (hstatus.joining.wait ht).1
      have hkeep : t.rc = s.rc ∧ t.joined = s.joined ∧ (∀ j, j ≠ m → t.chan j = s.chan j) ∧
          (t.chan m).valid = (s.chan m).valid := by
        have hloop := ht
        rw [mcapi_trans_wait, hr] at hloop
        obtain ⟨status, free, request, rfl, -⟩ :=
          waitLoop_other (h.joining.request m r hr) hloop
        refine ⟨rfl, rfl, fun j hj => ?_, ?_⟩
        · simp only [Frame.setRequest, Frame.setChan, Function.update_of_ne hj]
        · simp [Frame.setRequest, Frame.setChan]
      obtain ⟨hrc, hjoined, hothers, hvalid⟩ := hkeep
      have htjoined : JoinedBefore config config.nchans t := by
        intro j hj hlocal
        obtain ⟨hv, hx⟩ := h.joined j hj hlocal
        refine ⟨?_, fun htype => hjoined ▸ hx htype⟩
        by_cases hjm : j = m
        · rw [hjm] at hv ⊢
          exact hvalid.trans hv
        · rw [hothers j hjm]
          exact hv
      rw [ht]
      simp only [Option.bind_eq_bind, Option.bind_some]
      cases done with
      | true =>
        have hnone : (t.chan m).request = none := by
          have hloop := ht
          rw [mcapi_trans_wait, hr] at hloop
          exact waitLoop_done hloop
        have htopens : Opens config named t := by
          refine ⟨hjoining, fun j q hq => ?_, htjoined⟩
          by_cases hjm : j = m
          · rw [hjm, hnone] at hq
            cases hq
          · rw [hothers j hjm] at hq
            exact h.testable j q hq
        obtain ⟨hopens, hnext⟩ := hactive t htopens hrc hothers
        exact ⟨_, rfl, hopens, hnext⟩
      | false =>
        refine ⟨{ t with rc := false }, rfl, ⟨hjoining.others t.status t.free false t.db, ?_,
          htjoined⟩, .inl rfl⟩
        intro j q hq
        by_cases hjm : j = m
        · subst hjm
          have hloop := ht
          rw [mcapi_trans_wait, hr] at hloop
          exact waitLoop_testable (h.testable j r hr) hloop q hq
        · rw [show t.chan j = s.chan j from hothers j hjm] at hq
          exact h.testable j q hq
  · rename_i hinvalid
    refine ⟨s, rfl, h, ha.next rfl (fun _ _ => rfl) fun hv => ?_⟩
    exact absurd hv hinvalid

/-! ## The whole call -/

/-- Under the condition the call returns, with every channel of the node connected or without
success. -/
theorem connect_ends (hfresh : Fresh config)
    (hme : me.dindex < MCA_MAX_DOMAINS ∧ me.nindex < MCA_MAX_NODES)
    (hfinite : timeout < MCA_INFINITE) (hc : Completes E me config db free) :
    ∃ fuel s, mcapi_trans_connect E me timeout fuel config
        (Frame.start db attributes config free) = some s ∧
      (s.rc = false ∨ ∀ i, i < config.nchans → config.creates i = true → config.asks i = true →
        Connected config s i) := by
  have hW : Known me config (Used config) := Used.known
  obtain ⟨s₁, h1, ⟨ha₁, hst₁, hspent⟩, hall⟩ := forLoop_ends
    (fun m s => (Asking E me config (Used config) m s ∧ s.status = MCAPI_SUCCESS ∧
      Spent me config db free m s) ∧ AllAsked config m s)
    (fun m s hm h => by
      obtain ⟨⟨ha, hst, hs⟩, hall⟩ := h
      obtain ⟨s', hs', hall'⟩ := establish_ends hme hW hc hm ha hst hs hall
      obtain ⟨ha', hst'⟩ := ha.establish hW hm hst hs'
      exact ⟨s', hs', ⟨ha', hst', hs.establish hW hm ha hst hs'⟩, hall'⟩)
    (s := Frame.start db attributes config free)
    ⟨⟨Asking.start hfresh, rfl, Spent.start hfresh⟩, fun _ hj => by omega⟩
  obtain ⟨N, hN⟩ := completeAll_ends hW hc ha₁ hst₁ hall hspent.requests hfinite
  obtain ⟨s₂, h2, ha₂, hn, hst₂, hreq⟩ := hN (max timeout N + 1) (by omega) (by omega)
  have hfuel : timeout < max timeout N + 1 := by omega
  -- all that asked is answered, so that the endpoints of the node's channels are valid
  have hends : ∀ i, i < config.nchans →
      (config.creates i = true → (s₂.endpoint (config.local i)).valid = true) ∧
      (config.asks i = true → (s₂.endpoint (config.remote i)).valid = true) := by
    intro i hi
    refine ⟨fun hcr => (ha₂.created i hi hcr).2, fun hask => ?_⟩
    exact (ha₂.answered i hi (ha₂.all_done hn hi hask)).2
  obtain ⟨s₃, h3, hjoins⟩ := forLoop_ends (Joins config free s₂.named)
    (fun m s hm h => connectChannel_ends hc hm h)
    ⟨ha₂.joining hn, hst₂, hreq, fun j r hr => (by rw [ha₂.no_request hn j] at hr; cases hr), hends,
      fun _ hj => by omega⟩
  have hopens : Opens config s₂.named s₃ :=
    ⟨hjoins.joining, fun j r hr => .inl (hjoins.owner j r hr).2.2, hjoins.joined⟩
  obtain ⟨s₄, h4, hopens₄, -⟩ := forLoop_ends (n := config.nchans)
    (fun m s => Opens config s₂.named s ∧ ConnectsFrom m s)
    (fun m s _ h => openChannel_ends (E := E) hfuel h.1 h.2)
    ⟨hopens, fun j r _ hr => (hjoins.owner j r hr).2.2⟩
  obtain ⟨s₅, h5, hopens₅, hactive⟩ := forLoop_ends (n := config.nchans)
    (fun m s => Opens config s₂.named s ∧ ActiveBefore m s)
    (fun m s _ h => finishChannel_ends (E := E) hfuel hfinite h.1 h.2)
    ⟨hopens₄, .inr fun _ hj => by omega⟩
  refine ⟨max timeout N + 1, s₅, ?_, ?_⟩
  · unfold mcapi_trans_connect
    simp only [h1, h2, h3, h4, h5, Option.bind_eq_bind, Option.bind_some]
  · refine hactive.imp_right fun hstate i hi hcr hask => ?_
    obtain ⟨hv, hx⟩ := hopens₅.joined i hi ⟨hcr, hask⟩
    exact ⟨hstate i hi hv, hx⟩

/-- **Connecting a topology ends**, with all channels of the node connected or without success,
exactly if all that is asked for is found in the end and the node has what the channels take. -/
theorem connect_ends_iff (hfresh : Fresh config)
    (hme : me.dindex < MCA_MAX_DOMAINS ∧ me.nindex < MCA_MAX_NODES)
    (hfinite : timeout < MCA_INFINITE) :
    (∃ fuel s, mcapi_trans_connect E me timeout fuel config
        (Frame.start db attributes config free) = some s ∧
      (s.rc = false ∨ ∀ i, i < config.nchans → config.creates i = true → config.asks i = true →
        Connected config s i)) ↔
    Completes E me config db free := by
  constructor
  · rintro ⟨fuel, s, hrun, -⟩
    exact completes_of_returns hfresh hrun
  · exact connect_ends hfresh hme hfinite

end

/-! ## The channel between two nodes -/

/-- The sending node finds the endpoint of the other, and returns with the channel connected. -/
theorem sender_connect_ends : ∃ fuel s, mcapi_trans_connect pairSurroundings ⟨1, 0, 1, 0⟩ 10 fuel
      (pairConfig MCAPI_SEND_DIRECTION 0 1)
      (Frame.start (pairDatabase 0) (fun _ => .zero) (pairConfig MCAPI_SEND_DIRECTION 0 1) 1023) =
        some s ∧
    (s.rc = false ∨ ∀ i, i < 1 → (pairConfig MCAPI_SEND_DIRECTION 0 1).creates i = true →
      (pairConfig MCAPI_SEND_DIRECTION 0 1).asks i = true →
      Connected (pairConfig MCAPI_SEND_DIRECTION 0 1) s i) := by
  apply (connect_ends_iff (pair_fresh _ _ _) (by decide) (by decide)).mpr
  refine ⟨.inr (by decide +kernel), by decide +kernel, by decide +kernel, fun i hi _ => ?_⟩
  obtain rfl : i = 0 := Nat.lt_one_iff.mp hi
  refine ⟨0, 256, by decide +kernel, fun k hk => ?_⟩
  omega

/-- Node 2 has not created its endpoint, and does not do it. -/
def aloneSurroundings : Surroundings :=
  { pairSurroundings with
    lookups := fun _ _ => ⟨fun d => if d = 0 then
        ⟨1, ⟨1, true, true⟩, fun n => if n = 0 then pairNode 1 10 1 else .zero⟩
      else ⟨0, ⟨0, false, false⟩, fun _ => .zero⟩⟩ }

/-- With a timeout of one test the call does not return in any number of rounds. -/
theorem sender_alone_never_returns : ¬ ∃ fuel s, mcapi_trans_connect aloneSurroundings ⟨1, 0, 1, 0⟩
      1 fuel (pairConfig MCAPI_SEND_DIRECTION 0 1)
      (Frame.start (pairDatabase 0) (fun _ => .zero) (pairConfig MCAPI_SEND_DIRECTION 0 1) 1023) =
        some s := by
  rintro ⟨fuel, s, hrun⟩
  obtain ⟨j, hd, hfound, -⟩ :=
    (completes_of_returns (pair_fresh _ _ _) hrun).answered 0 (by decide) (by decide)
  have hmissed : aloneSurroundings.lookup 0
      ((pairConfig MCAPI_SEND_DIRECTION 0 1).requestTuple 0) 0 = some none := by decide +kernel
  have hfirst : aloneSurroundings.lookup 0
      ((pairConfig MCAPI_SEND_DIRECTION 0 1).requestTuple 0) 0 = some (some hd) := hfound
  rw [hmissed] at hfirst
  cases hfirst

end MxApi.Topology
