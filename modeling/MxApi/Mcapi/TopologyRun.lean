/-
What holds while the channels of a topology are connected.

The first two loops create endpoints and ask for the other ones; each handle that comes
into the configuration was obtained under a triple, and what is asked for a channel is
found before the channel counts as answered ([`Asking`]). The other three loops connect
and open valid endpoints only ([`Joining`]). The invariants have a parameter: what is
known of the triples under which the handles of an endpoint are obtained.
-/
import Mathlib.Data.Nat.Count
import MxApi.Lib.Tally
import MxApi.Mcapi.Topology

set_option autoImplicit false

namespace MxApi.Topology

open Lib Attributes channel_type CallStatus mcapi_buffer_type mcapi_direction_t
  mcapi_chan_state_t RequestType

/-! ## What the first loop does for a channel -/

namespace mcapi_config_t

variable (config : mcapi_config_t) (me : Whoami) (i : ℕ)

/-- Another node is asked for an endpoint. -/
def asks : Bool := (config.endpoint (config.remote i)).initialized

/-- An endpoint is created. -/
def creates : Bool := (config.endpoint (config.local i)).initialized

def remoteSide : Side :=
  match (config.chan i).direction with
  | MCAPI_SEND_DIRECTION => .to_ep
  | MCAPI_RECV_DIRECTION => .from_ep

def localSide : Side :=
  match (config.chan i).direction with
  | MCAPI_SEND_DIRECTION => .from_ep
  | MCAPI_RECV_DIRECTION => .to_ep

/-- The tuple that is asked for, whatever the direction. -/
def requestTuple : mcapi_endpoint_data_t := config.data (config.chan i).to_ep

/-- The created endpoint is one of the calling node. -/
def createdTuple : mcapi_endpoint_data_t :=
  ⟨me.domain_id, me.node_num, (config.data (config.local i)).port⟩

/-- The request of a channel, in the record of what was named. -/
def remoteNamed : Named := ⟨i, config.remoteSide i, config.requestTuple i⟩

def localNamed : Named := ⟨i, config.localSide i, config.createdTuple me i⟩

end mcapi_config_t

section

variable {E : Surroundings} {me : Whoami} {timeout fuel : ℕ} {config : mcapi_config_t}
  {s s' : Frame} {i : ℕ}

theorem establish_eq :
    establish E me config i s =
      (createLocal me config s i (config.local i) (config.localSide i)).bind fun s =>
        requestRemote E config s i (config.remote i) (config.requestTuple i)
          (config.remoteSide i) := by
  unfold establish
  cases h : (config.chan i).direction <;>
    simp only [mcapi_config_t.local, mcapi_config_t.localSide, mcapi_config_t.remote,
      mcapi_config_t.remoteSide, mcapi_config_t.requestTuple, h] <;> rfl

/-! ## One lemma for each function -/

theorem endpoint_create_some {db : mcapi_database × Option ℕ} {db₀ : mcapi_database}
    {port : ℕ} {hd : ℕ} (hhd : db.2 = some hd)
    (h : mcapi_trans_endpoint_create db₀ me port false = some db) :
    (db₀.node me.dindex me.nindex).num_endpoints < MCAPI_MAX_ENDPOINTS ∧
      ∃ e, e < MCAPI_MAX_ENDPOINTS ∧
        (db₀.endpoint me.dindex me.nindex e).state.valid = false ∧
        mcapi_trans_decode_handle hd = some (me.dindex, me.nindex, e) ∧
        db.1 = created db₀ me port e := by
  unfold mcapi_trans_endpoint_create at h
  dsimp only at h
  split at h
  · rename_i hnum
    refine ⟨hnum, ?_⟩
    split at h
    · rw [Option.some.injEq] at h
      rw [← h] at hhd
      cases hhd
    · rename_i e hfind
      obtain ⟨hfree, he, -⟩ := List.find?_range_eq_some.mp hfind
      obtain ⟨hd', henc, rfl⟩ := Option.map_eq_some_iff.mp h
      rw [Option.some.injEq] at hhd
      rw [hhd] at henc
      have hvalid : ((db₀.node me.dindex me.nindex).endpoints e).state.valid = false := by
        simpa using hfree
      exact ⟨e, List.mem_range.mp he, hvalid, mcapi_trans_decode_encode henc, rfl⟩
  · cases h

/-- The frame after an endpoint was created for a channel. -/
def Frame.createdAt (s : Frame) (db : mcapi_database) (attributes : Place → Entries)
    (named : Named) (k hd : ℕ) : Frame :=
  { s with
    db := db
    attributes := attributes
    status := MCAPI_SUCCESS
    named := named :: s.named
    endpoint := Function.update s.endpoint k ⟨true, hd⟩
    obtained := (hd, named.data) :: s.obtained }

theorem set_num_send_buffers (entries : Entries) (attr : ℤ) :
    (mcapi_trans_endpoint_set_attribute entries MCAPI_ENDP_ATTR_NUM_SEND_BUFFERS attr).2 =
      .MCAPI_SUCCESS := by
  have hne : MCAPI_ENDP_ATTR_NUM_SEND_BUFFERS ≠ MCAPI_ENDP_ATTR_BUFFER_TYPE := by decide
  rw [mcapi_trans_endpoint_set_attribute, if_neg hne, if_pos rfl]

theorem createLocal_some (h : createLocal me config s i (config.local i) (config.localSide i) =
    some s') :
    (config.creates i = false ∧ s' = s) ∨
    (config.creates i = true ∧
      (s.db.node me.dindex me.nindex).num_endpoints < MCAPI_MAX_ENDPOINTS ∧
      ∃ e hd attributes, e < MCAPI_MAX_ENDPOINTS ∧
        (s.db.endpoint me.dindex me.nindex e).state.valid = false ∧
        mcapi_trans_decode_handle hd = some (me.dindex, me.nindex, e) ∧
        s' = s.createdAt (created s.db me (config.data (config.local i)).port e) attributes
          (config.localNamed me i) (config.local i) hd) := by
  unfold createLocal at h
  split at h
  · rename_i hinit
    obtain ⟨p, hp, h⟩ := Option.bind_eq_some_iff.mp h
    obtain ⟨hd, hhd, h⟩ := Option.bind_eq_some_iff.mp h
    obtain ⟨hnum, e, he, hvalid, hdecode, hdb⟩ := endpoint_create_some hhd hp
    obtain ⟨place, hplace, h⟩ := Option.bind_eq_some_iff.mp h
    dsimp only at h
    rw [set_num_send_buffers, if_pos rfl, Option.some.injEq] at h
    refine .inr ⟨hinit, hnum, e, hd, s'.attributes, he, hvalid, hdecode, ?_⟩
    rw [← h, hdb]
    simp only [Frame.obtain, Frame.setEndpoint, Function.update_idem, Frame.createdAt]
    rfl
  · rename_i hinit
    rw [Option.some.injEq] at h
    exact .inl ⟨Bool.eq_false_iff.mpr hinit, h.symm⟩

/-- What a lookup finds is the handle of an entry. -/
theorem lookup_some {ep : mcapi_endpoint_data_t} {k hd : ℕ} (h : E.lookup i ep k = some (some hd)) :
    ∃ p, mcapi_trans_decode_handle hd = some p := by
  unfold Surroundings.lookup mcapi_trans_endpoint_get_ at h
  split at h
  · cases h
  · rename_i d n e _
    obtain ⟨hd', henc, heq⟩ := Option.map_eq_some_iff.mp h
    rw [Option.some.injEq] at heq
    rw [heq] at henc
    exact ⟨(d, n, e), mcapi_trans_decode_encode henc⟩

/-- The frame after another node was asked for an endpoint with a request. -/
def Frame.askedFor (s : Frame) (i : ℕ) (named : Named) (r : Request) : Frame :=
  { s with
    free := s.free - 1
    nchan := s.nchan + 1
    named := named :: s.named
    chan := Function.update s.chan i { s.chan i with request := some r } }

/-- The request that asks for an endpoint. -/
def getRequest (completed : Bool) (handle k : ℕ) (ep : mcapi_endpoint_data_t) : Request :=
  ⟨GET_ENDPT, completed, MCAPI_SUCCESS, handle, k, ep, 0⟩

theorem requestRemote_some (hst : s.status = MCAPI_SUCCESS)
    (h : requestRemote E config s i (config.remote i) (config.requestTuple i)
      (config.remoteSide i) = some s') :
    (config.asks i = false ∧ s' = s) ∨
    (config.asks i = true ∧ s.free = 0 ∧ s' = { s with nchan := s.nchan + 1 }) ∨
    (config.asks i = true ∧ 0 < s.free ∧ E.lookup i (config.requestTuple i) 0 = some none ∧
      ∃ handle, s' = s.askedFor i (config.remoteNamed i)
        (getRequest false handle (config.remote i) (config.requestTuple i))) ∨
    (config.asks i = true ∧ 0 < s.free ∧
      ∃ hd, E.lookup i (config.requestTuple i) 0 = some (some hd) ∧
        s' = (s.askedFor i (config.remoteNamed i)
          (getRequest true hd (config.remote i) (config.requestTuple i))).obtain (config.remote i) hd
            (config.requestTuple i)) := by
  unfold requestRemote at h
  split at h
  · rename_i hinit
    right
    obtain ⟨t, hget, h⟩ := Option.bind_eq_some_iff.mp h
    unfold mcapi_trans_endpoint_get_i at hget
    by_cases hfree : 0 < s.free
    · right
      rw [if_pos hfree] at hget
      dsimp only at hget
      rw [if_pos hst] at hget
      split at hget
      · cases hget
      · rename_i hlook
        rw [Option.some.injEq] at hget
        subst hget
        rw [Frame.setRequest, Frame.setChan, if_pos hst, Option.some.injEq] at h
        refine .inl ⟨hinit, hfree, hlook, (s.endpoint (config.remote i)).endpoint, ?_⟩
        rw [← h, Frame.askedFor, getRequest, hst]
        rfl
      · rename_i hd hlook
        rw [Option.some.injEq] at hget
        subst hget
        rw [Frame.setRequest, Frame.setChan, Frame.obtain, Frame.setEndpoint, if_pos hst,
          Option.some.injEq] at h
        refine .inr ⟨hinit, hfree, hd, hlook, ?_⟩
        rw [← h, Frame.askedFor, getRequest, hst]
        rfl
    · rw [if_neg hfree, Option.some.injEq] at hget
      subst hget
      rw [if_pos hst, Option.some.injEq] at h
      exact .inl ⟨hinit, by omega, h.symm⟩
  · rename_i hinit
    rw [Option.some.injEq] at h
    exact .inl ⟨Bool.eq_false_iff.mpr hinit, h.symm⟩

/-- A request for an endpoint that is waited for is completed when it is found, or is tested
at least once more in vain. -/
theorem waitLoop_get {time : ℕ} {r : Request} {done : Bool} (hr : r.type = GET_ENDPT)
    (h : waitLoop E timeout i fuel time s r = some (s', done)) :
    (done = true ∧ r.completed = true ∧
      s' = { s with status := r.status, free := s.free + 1 }.setRequest i none) ∨
    (done = true ∧ r.completed = false ∧
      ∃ j hd, r.tests < j ∧ E.lookup i r.ep j = some (some hd) ∧
        (∀ k, r.tests < k → k < j → E.lookup i r.ep k = some none) ∧
        s' = { s.obtain r.ep_endpoint hd r.ep with
          status := MCAPI_SUCCESS, free := s.free + 1 }.setRequest i none) ∨
    (done = false ∧ r.completed = false ∧
      ∃ t, r.tests < t ∧ (∀ k, r.tests < k → k ≤ t → E.lookup i r.ep k = some none) ∧
        s' = { s with status := MCAPI_TIMEOUT }.setRequest i (some { r with tests := t })) := by
  induction fuel generalizing time r with
  | zero => cases h
  | succ fuel ih =>
    obtain ⟨type, completed, status, handle, ep_endpoint, ep, tests⟩ := r
    dsimp only at hr ⊢
    subst hr
    unfold waitLoop at h
    obtain ⟨⟨t, o⟩, htest, h⟩ := Option.bind_eq_some_iff.mp h
    unfold mcapi_trans_test_i at htest
    cases completed with
    | true =>
      left
      simp only [if_true, Option.map_some, Option.some.injEq, Prod.mk.injEq] at htest
      obtain ⟨rfl, rfl⟩ := htest
      simp only [Option.some.injEq, Prod.mk.injEq] at h
      exact ⟨h.2.symm, rfl, h.1.symm⟩
    | false =>
      right
      simp only [Bool.false_eq_true, if_false, checkRequest] at htest
      cases hlook : E.lookup i ep (tests + 1) with
      | none => simp [hlook] at htest
      | some found =>
        cases found with
        | some hd =>
          simp only [hlook, Option.map_some, if_true, Option.some.injEq, Prod.mk.injEq] at htest
          obtain ⟨rfl, rfl⟩ := htest
          simp only [Option.some.injEq, Prod.mk.injEq] at h
          refine .inl ⟨h.2.symm, rfl, tests + 1, hd, by omega, hlook, ?_, h.1.symm⟩
          intro k hk hk'
          omega
        | none =>
          simp only [hlook, Option.map_some, Bool.false_eq_true, if_false, Option.some.injEq,
            Prod.mk.injEq] at htest
          obtain ⟨rfl, rfl⟩ := htest
          dsimp only at h
          have hmiss : ∀ k, tests < k → k ≤ tests + 1 → E.lookup i ep k = some none := by
            intro k hk hk'
            obtain rfl : k = tests + 1 := by omega
            exact hlook
          split at h
          · simp only [Option.some.injEq, Prod.mk.injEq] at h
            exact .inr ⟨h.2.symm, rfl, tests + 1, by omega, hmiss, h.1.symm⟩
          · -- the tests go on, with one more of them in vain
            rcases ih rfl h with ⟨-, hcomp, -⟩ | ⟨hd, -, j, hh, hj, hfound, hbefore, hs'⟩ |
              ⟨hd, -, t, ht, hbefore, hs'⟩
            · cases hcomp
            · dsimp only at hj hfound hbefore
              refine .inl ⟨hd, rfl, j, hh, by omega, hfound, ?_, hs'⟩
              intro k hk hk'
              by_cases hfirst : k ≤ tests + 1
              · exact hmiss k hk hfirst
              · exact hbefore k (by omega) hk'
            · dsimp only at ht hbefore
              refine .inr ⟨hd, rfl, t, by omega, ?_, hs'⟩
              intro k hk hk'
              by_cases hfirst : k ≤ tests + 1
              · exact hmiss k hk hfirst
              · exact hbefore k (by omega) hk'

end

/-! ## Handles and what is asked -/

section

variable (E : Surroundings) (me : Whoami) (config : mcapi_config_t)
  (W : ℕ → mcapi_endpoint_data_t → Prop)

/-- `W` is known of the triples under which the call obtains handles. -/
structure Known : Prop where
  creates : ∀ i, i < config.nchans → config.creates i = true →
    W (config.local i) (config.createdTuple me i)
  asks : ∀ i, i < config.nchans → config.asks i = true →
    W (config.remote i) (config.requestTuple i)

/-- The handle of endpoint `k` was obtained under a triple of which `W` is known. -/
def Written (s : Frame) (k : ℕ) : Prop := ∃ t, W k t ∧ ((s.endpoint k).endpoint, t) ∈ s.obtained

structure Handles (s : Frame) : Prop where
  written : ∀ k, (s.endpoint k).valid = true → Written W s k
  decodes : ∀ x ∈ s.obtained, ∃ p, mcapi_trans_decode_handle x.1 = some p

/-- An endpoint that channel `i` asks for is found, and before that no lookup fails. -/
def Answered (i : ℕ) (ep : mcapi_endpoint_data_t) : Prop :=
  ∃ j hd, E.lookup i ep j = some (some hd) ∧ ∀ k, k < j → E.lookup i ep k = some none

/-- What is true of a request `r` of channel `i`. -/
structure Asked (s : Frame) (i : ℕ) (r : Request) : Prop where
  asks : config.asks i = true
  named : config.remoteNamed i ∈ s.named
  type : r.type = GET_ENDPT
  ep_endpoint : r.ep_endpoint = config.remote i
  ep : r.ep = config.requestTuple i
  status : r.status = MCAPI_SUCCESS
  found : r.completed = true →
    Answered E i (config.requestTuple i) ∧ Written W s (config.remote i)
  missed : r.completed = false →
    ∀ k, k ≤ r.tests → E.lookup i (config.requestTuple i) k = some none

/-- The request of channel `i` was made and is completed. -/
def Done (s : Frame) (i : ℕ) : Prop :=
  config.remoteNamed i ∈ s.named ∧ (s.chan i).request = none

/-- The first loop has come to channel `m`, or the second loop runs. -/
structure Asking (m : ℕ) (s : Frame) : Prop where
  handles : Handles W s
  fresh : ∀ i, (s.chan i).valid = false
  request : ∀ i r, (s.chan i).request = some r → i < m ∧ Asked E config W s i r
  answered : ∀ i, i < m → Done config s i →
    Answered E i (config.requestTuple i) ∧ (s.endpoint (config.remote i)).valid = true
  created : ∀ i, i < m → config.creates i = true →
    config.localNamed me i ∈ s.named ∧ (s.endpoint (config.local i)).valid = true
  named : ∀ x ∈ s.named, ∃ i, i < config.nchans ∧
    ((config.creates i = true ∧ x = config.localNamed me i) ∨
      (i < m ∧ config.asks i = true ∧ x = config.remoteNamed i))
  joined : s.joined = [] ∧ s.opened = []
  outstanding : ∃ k : ℕ, s.nchan = k ∧
    Tally (fun i => i < m ∧ config.asks i = true ∧ ¬ Done config s i) k

end

section

variable {E : Surroundings} {me : Whoami} {timeout fuel : ℕ} {config : mcapi_config_t}
  {W : ℕ → mcapi_endpoint_data_t → Prop} {s s' : Frame} {i m : ℕ}

theorem mcapi_config_t.remoteNamed_inj {j : ℕ}
    (h : config.remoteNamed i = config.remoteNamed j) : i = j := (Named.mk.inj h).1

theorem mcapi_config_t.localNamed_ne {j : ℕ} : config.remoteNamed i ≠ config.localNamed me j := by
  intro h
  obtain ⟨rfl, hside, -⟩ := Named.mk.inj h
  unfold mcapi_config_t.remoteSide mcapi_config_t.localSide at hside
  cases hd : (config.chan i).direction <;> simp [hd] at hside

/-- A handle that is filled in is written, and what was written stays so. -/
theorem Written.obtain {k hd : ℕ} {t : mcapi_endpoint_data_t} (hW : W k t) (s : Frame) :
    Written W (s.obtain k hd t) k := by
  refine ⟨t, hW, ?_⟩
  simp [Frame.obtain, Frame.setEndpoint]

theorem Written.after {k k' hd : ℕ} {t : mcapi_endpoint_data_t} (hW : W k t)
    (h : Written W s k') : Written W (s.obtain k hd t) k' := by
  by_cases hk : k' = k
  · rw [hk]
    exact Written.obtain hW s
  · obtain ⟨u, hu, hmem⟩ := h
    refine ⟨u, hu, ?_⟩
    simp only [Frame.obtain, Frame.setEndpoint, Function.update_of_ne hk]
    exact List.mem_cons_of_mem _ hmem

theorem Handles.obtain {k hd : ℕ} {t : mcapi_endpoint_data_t} (h : Handles W s) (hW : W k t)
    (hdecode : ∃ p, mcapi_trans_decode_handle hd = some p) : Handles W (s.obtain k hd t) where
  written k' hv := by
    apply Written.after hW
    apply h.written
    by_cases hk : k' = k
    · subst hk
      simpa [Frame.obtain, Frame.setEndpoint] using hv
    · simpa [Frame.obtain, Frame.setEndpoint, Function.update_of_ne hk] using hv
  decodes x hx := by
    rcases List.mem_cons.mp hx with rfl | hx
    · exact hdecode
    · exact h.decodes x hx

theorem Asked.mono {r : Request} (h : Asked E config W s i r)
    (hnamed : ∀ x ∈ s.named, x ∈ s'.named)
    (hwritten : Written W s (config.remote i) → Written W s' (config.remote i)) :
    Asked E config W s' i r where
  asks := h.asks
  named := hnamed _ h.named
  type := h.type
  ep_endpoint := h.ep_endpoint
  ep := h.ep
  status := h.status
  found hc := ⟨(h.found hc).1, hwritten (h.found hc).2⟩
  missed := h.missed

/-! ## The first loop -/

/-- The frame with a created endpoint, seen from the handles. -/
theorem Written.createdAt {db : mcapi_database} {attributes : Place → Entries} {n : Named}
    {k k' hd : ℕ} (hW : W k n.data) (h : k' ≠ k → Written W s k') :
    Written W (s.createdAt db attributes n k hd) k' := by
  by_cases hk : k' = k
  · subst hk
    refine ⟨n.data, hW, ?_⟩
    simp [Frame.createdAt]
  · obtain ⟨u, hu, hmem⟩ := h hk
    refine ⟨u, hu, ?_⟩
    simp only [Frame.createdAt, Function.update_of_ne hk]
    exact List.mem_cons_of_mem _ hmem

theorem Asking.createLocal (hW : Known me config W) (hm : m < config.nchans)
    (h : Asking E me config W m s)
    (hrun : createLocal me config s m (config.local m) (config.localSide m) = some s')
    (hst : s.status = MCAPI_SUCCESS) :
    Asking E me config W m s' ∧ s'.status = MCAPI_SUCCESS ∧ (config.creates m = true →
      config.localNamed me m ∈ s'.named ∧ (s'.endpoint (config.local m)).valid = true) := by
  rcases createLocal_some hrun with ⟨hnot, rfl⟩ |
    ⟨hcreates, -, e, hd, attributes, -, -, hdecode, hs'⟩
  · refine ⟨h, hst, fun hc => ?_⟩
    rw [hnot] at hc
    cases hc
  · generalize MxApi.created s.db me (config.data (config.local m)).port e = db at hs'
    subst hs'
    have hknown := hW.creates m hm hcreates
    -- the new handle is that of the channel's tuple; the flags of the others are as before
    have hwritten : ∀ k, Written W s k → Written W (s.createdAt db attributes
        (config.localNamed me m) (config.local m) hd) k :=
      fun k hk => Written.createdAt hknown fun _ => hk
    have hvalid : ∀ k, (s.endpoint k).valid = true → ((s.createdAt db attributes
        (config.localNamed me m) (config.local m) hd).endpoint k).valid = true := by
      intro k hk
      by_cases hkl : k = config.local m
      · subst hkl
        simp [Frame.createdAt]
      · simpa [Frame.createdAt, Function.update_of_ne hkl] using hk
    have hdone : ∀ i, Done config (s.createdAt db attributes (config.localNamed me m)
        (config.local m) hd) i ↔ Done config s i := by
      intro i
      refine and_congr ?_ Iff.rfl
      rw [Frame.createdAt, List.mem_cons]
      exact or_iff_right mcapi_config_t.localNamed_ne
    refine ⟨⟨⟨?_, ?_⟩, h.fresh, ?_, ?_, ?_, ?_, h.joined, ?_⟩, rfl, fun _ => ⟨List.mem_cons_self, ?_⟩⟩
    · intro k hk
      apply Written.createdAt hknown
      intro hkl
      apply h.handles.written
      simpa [Frame.createdAt, Function.update_of_ne hkl] using hk
    · intro x hx
      rcases List.mem_cons.mp hx with rfl | hx
      · exact ⟨_, hdecode⟩
      · exact h.handles.decodes x hx
    · intro i r hr
      obtain ⟨hi, hasked⟩ := h.request i r hr
      exact ⟨hi, hasked.mono (fun x hx => List.mem_cons_of_mem _ hx) (hwritten _)⟩
    · intro i hi hd
      obtain ⟨hans, hv⟩ := h.answered i hi ((hdone i).mp hd)
      exact ⟨hans, hvalid _ hv⟩
    · intro i hi hc
      obtain ⟨hn, hv⟩ := h.created i hi hc
      exact ⟨List.mem_cons_of_mem _ hn, hvalid _ hv⟩
    · intro x hx
      rcases List.mem_cons.mp hx with rfl | hx
      · exact ⟨m, hm, .inl ⟨hcreates, rfl⟩⟩
      · exact h.named x hx
    · obtain ⟨k, hk, htally⟩ := h.outstanding
      exact ⟨k, hk, htally.congr fun i => by rw [hdone]⟩
    · simp [Frame.createdAt]

/-- Only channels that the loop has come to have asked. -/
theorem Asking.asked (h : Asking E me config W m s) (hi : config.remoteNamed i ∈ s.named) :
    i < m ∧ config.asks i = true := by
  obtain ⟨j, -, ⟨-, hx⟩ | ⟨hj, hasks, hx⟩⟩ := h.named _ hi
  · exact absurd hx mcapi_config_t.localNamed_ne
  · obtain rfl := mcapi_config_t.remoteNamed_inj hx
    exact ⟨hj, hasks⟩

theorem Frame.obtain_valid {k k' hd : ℕ} {t : mcapi_endpoint_data_t} :
    ((s.obtain k hd t).endpoint k').valid = (s.endpoint k').valid := by
  by_cases hk : k' = k
  · subst hk
    simp [Frame.obtain, Frame.setEndpoint]
  · simp [Frame.obtain, Frame.setEndpoint, Function.update_of_ne hk]

theorem Asking.obtain {k hd : ℕ} {t : mcapi_endpoint_data_t} (h : Asking E me config W m s)
    (hW : W k t) (hdecode : ∃ p, mcapi_trans_decode_handle hd = some p) :
    Asking E me config W m (s.obtain k hd t) where
  handles := h.handles.obtain hW hdecode
  fresh := h.fresh
  request i r hr := by
    obtain ⟨hi, hasked⟩ := h.request i r hr
    exact ⟨hi, hasked.mono (fun x hx => hx) fun hw => hw.after hW⟩
  answered i hi hdone := by
    rw [Frame.obtain_valid]
    exact h.answered i hi hdone
  created i hi hc := by
    rw [Frame.obtain_valid]
    exact h.created i hi hc
  named := h.named
  joined := h.joined
  outstanding := h.outstanding

/-- A request is made for channel `m`. -/
theorem Asking.askedFor {r : Request} (hm : m < config.nchans) (h : Asking E me config W m s)
    (hcreated : config.creates m = true →
      config.localNamed me m ∈ s.named ∧ (s.endpoint (config.local m)).valid = true)
    (hr : Asked E config W (s.askedFor m (config.remoteNamed m) r) m r) :
    Asking E me config W (m + 1) (s.askedFor m (config.remoteNamed m) r) := by
  have hnot : config.remoteNamed m ∉ s.named := fun hn => absurd (h.asked hn).1 (lt_irrefl m)
  have hdone : ∀ i, i ≠ m →
      (Done config (s.askedFor m (config.remoteNamed m) r) i ↔ Done config s i) := by
    intro i hi
    have hne : config.remoteNamed i ≠ config.remoteNamed m :=
      fun heq => hi (mcapi_config_t.remoteNamed_inj heq)
    refine and_congr ?_ ?_
    · rw [Frame.askedFor, List.mem_cons]
      exact or_iff_right hne
    · simp only [Frame.askedFor, Function.update_of_ne hi]
  have hopen : ¬ Done config (s.askedFor m (config.remoteNamed m) r) m := by
    rintro ⟨-, hnone⟩
    simp [Frame.askedFor] at hnone
  refine ⟨⟨fun k hk => h.handles.written k hk, h.handles.decodes⟩, ?_, ?_, ?_, ?_, ?_, h.joined, ?_⟩
  · intro i
    by_cases hi : i = m
    · subst hi
      simpa [Frame.askedFor] using h.fresh i
    · simpa [Frame.askedFor, Function.update_of_ne hi] using h.fresh i
  · intro i r' hr'
    by_cases hi : i = m
    · subst hi
      simp only [Frame.askedFor, Function.update_self, Option.some.injEq] at hr'
      rw [← hr']
      exact ⟨by omega, hr⟩
    · simp only [Frame.askedFor, Function.update_of_ne hi] at hr'
      obtain ⟨him, hasked⟩ := h.request i r' hr'
      exact ⟨by omega, hasked.mono (fun x hx => List.mem_cons_of_mem _ hx) fun hw => hw⟩
  · intro i hi hd
    by_cases him : i = m
    · rw [him] at hd
      exact absurd hd hopen
    · exact h.answered i (by omega) ((hdone i him).mp hd)
  · intro i hi hc
    by_cases him : i = m
    · subst him
      exact ⟨List.mem_cons_of_mem _ (hcreated hc).1, (hcreated hc).2⟩
    · obtain ⟨hn, hv⟩ := h.created i (by omega) hc
      exact ⟨List.mem_cons_of_mem _ hn, hv⟩
  · intro x hx
    rcases List.mem_cons.mp hx with rfl | hx
    · exact ⟨m, hm, .inr ⟨by omega, hr.asks, rfl⟩⟩
    · obtain ⟨i, hi, hcase⟩ := h.named x hx
      refine ⟨i, hi, hcase.imp_right ?_⟩
      rintro ⟨him, hrest⟩
      exact ⟨by omega, hrest⟩
  · obtain ⟨k, hk, htally⟩ := h.outstanding
    refine ⟨k + 1, ?_, htally.enter (o := m) ?_ ⟨by omega, hr.asks, hopen⟩ ?_⟩
    · simp [Frame.askedFor, hk]
    · rintro ⟨hlt, -⟩
      exact absurd hlt (lt_irrefl m)
    · intro i him
      rw [hdone i him]
      refine and_congr_left fun _ => ⟨fun hi => by omega, fun hi => by omega⟩

/-- No request is made for channel `m`: it asks for nothing, or no request is left. -/
theorem Asking.pass (h : Asking E me config W m s)
    (hcreated : config.creates m = true →
      config.localNamed me m ∈ s.named ∧ (s.endpoint (config.local m)).valid = true) :
    (config.asks m = false → Asking E me config W (m + 1) s) ∧
    (config.asks m = true → Asking E me config W (m + 1) { s with nchan := s.nchan + 1 }) := by
  have hnot : config.remoteNamed m ∉ s.named := fun hn => absurd (h.asked hn).1 (lt_irrefl m)
  have hrequest : ∀ i r, (s.chan i).request = some r → i < m + 1 ∧ Asked E config W s i r := by
    intro i r hr
    obtain ⟨hi, hasked⟩ := h.request i r hr
    exact ⟨by omega, hasked⟩
  have hanswered : ∀ i, i < m + 1 → Done config s i →
      Answered E i (config.requestTuple i) ∧ (s.endpoint (config.remote i)).valid = true := by
    intro i _ hd
    exact h.answered i (h.asked hd.1).1 hd
  have hcreate : ∀ i, i < m + 1 → config.creates i = true →
      config.localNamed me i ∈ s.named ∧ (s.endpoint (config.local i)).valid = true := by
    intro i hi hc
    by_cases him : i = m
    · rw [him] at hc ⊢
      exact hcreated hc
    · exact h.created i (by omega) hc
  have hnamed : ∀ x ∈ s.named, ∃ i, i < config.nchans ∧
      ((config.creates i = true ∧ x = config.localNamed me i) ∨
        (i < m + 1 ∧ config.asks i = true ∧ x = config.remoteNamed i)) := by
    intro x hx
    obtain ⟨i, hi, hcase⟩ := h.named x hx
    refine ⟨i, hi, hcase.imp_right ?_⟩
    rintro ⟨him, hrest⟩
    exact ⟨by omega, hrest⟩
  obtain ⟨k, hk, htally⟩ := h.outstanding
  have hbelow : ∀ i, i ≠ m → ((i < m + 1 ∧ config.asks i = true ∧ ¬ Done config s i) ↔
      (i < m ∧ config.asks i = true ∧ ¬ Done config s i)) := by
    intro i him
    refine and_congr_left fun _ => ⟨fun hi => by omega, fun hi => by omega⟩
  constructor
  · intro hasks
    refine ⟨h.handles, h.fresh, hrequest, hanswered, hcreate, hnamed, h.joined, k, hk, ?_⟩
    apply htally.congr
    intro i
    by_cases him : i = m
    · rw [him, hasks]
      simp
    · exact hbelow i him
  · intro hasks
    refine ⟨⟨h.handles.written, h.handles.decodes⟩, h.fresh, ?_, hanswered, hcreate, hnamed,
      h.joined, k + 1, ?_, ?_⟩
    · intro i r hr
      obtain ⟨hi, hasked⟩ := hrequest i r hr
      exact ⟨hi, hasked.mono (fun x hx => hx) fun hw => hw⟩
    · simp [hk]
    · refine htally.enter (o := m) ?_ ⟨by omega, hasks, fun hd => hnot hd.1⟩ hbelow
      rintro ⟨hlt, -⟩
      exact absurd hlt (lt_irrefl m)

theorem Asking.requestRemote (hW : Known me config W) (hm : m < config.nchans)
    (h : Asking E me config W m s)
    (hcreated : config.creates m = true →
      config.localNamed me m ∈ s.named ∧ (s.endpoint (config.local m)).valid = true)
    (hrun : requestRemote E config s m (config.remote m) (config.requestTuple m)
      (config.remoteSide m) = some s') (hst : s.status = MCAPI_SUCCESS) :
    Asking E me config W (m + 1) s' ∧ s'.status = MCAPI_SUCCESS := by
  rcases requestRemote_some hst hrun with ⟨hasks, rfl⟩ | ⟨hasks, -, rfl⟩ |
    ⟨hasks, -, hlook, handle, rfl⟩ | ⟨hasks, -, hd, hlook, rfl⟩
  · exact ⟨(h.pass hcreated).1 hasks, hst⟩
  · exact ⟨(h.pass hcreated).2 hasks, hst⟩
  · refine ⟨h.askedFor hm hcreated ⟨hasks, List.mem_cons_self, rfl, rfl, rfl, rfl, ?_, ?_⟩, hst⟩
    · intro hc
      cases hc
    · intro _ k hk
      obtain rfl : k = 0 := Nat.le_zero.mp hk
      exact hlook
  · -- the handle is filled in before the request is set up; the order does not matter
    have hknown := hW.asks m hm hasks
    have hobtained := h.obtain hknown (lookup_some hlook)
    refine ⟨hobtained.askedFor hm ?_ ⟨hasks, List.mem_cons_self, rfl, rfl, rfl, rfl, ?_, ?_⟩, hst⟩
    · intro hc
      rw [Frame.obtain_valid]
      exact hcreated hc
    · intro _
      refine ⟨⟨0, hd, hlook, fun k hk => ?_⟩, Written.obtain hknown s⟩
      omega
    · intro hc
      cases hc

/-- The first loop keeps the invariant. -/
theorem Asking.establish (hW : Known me config W) (hm : m < config.nchans)
    (h : Asking E me config W m s) (hst : s.status = MCAPI_SUCCESS)
    (hrun : establish E me config m s = some s') :
    Asking E me config W (m + 1) s' ∧ s'.status = MCAPI_SUCCESS := by
  rw [establish_eq] at hrun
  obtain ⟨t, hcreate, hask⟩ := Option.bind_eq_some_iff.mp hrun
  obtain ⟨ht, hst', hcreated⟩ := h.createLocal hW hm hcreate hst
  exact ht.requestRemote hW hm hcreated hask hst'

/-! ## The second loop -/

/-- The frame after the request of channel `i` was completed, for endpoint `k`. -/
def Frame.answered (s : Frame) (i k : ℕ) : Frame :=
  { s with
    status := MCAPI_SUCCESS
    free := s.free + 1
    nchan := s.nchan - 1
    chan := Function.update s.chan i { s.chan i with request := none }
    endpoint := Function.update s.endpoint k { s.endpoint k with valid := true } }

theorem complete_none (hr : (s.chan i).request = none) :
    complete E timeout fuel config i s = some s := by
  rw [complete, hr]
  rfl

theorem complete_some {r : Request} (hr : (s.chan i).request = some r)
    (hasked : Asked E config W s i r) (hrun : complete E timeout fuel config i s = some s') :
    (r.completed = true ∧ s' = s.answered i (config.remote i)) ∨
    (r.completed = false ∧
      ∃ j hd, r.tests < j ∧ E.lookup i (config.requestTuple i) j = some (some hd) ∧
        (∀ k, r.tests < k → k < j → E.lookup i (config.requestTuple i) k = some none) ∧
        s' = (s.obtain (config.remote i) hd (config.requestTuple i)).answered i (config.remote i)) ∨
    (r.completed = false ∧
      ∃ t, r.tests < t ∧
        (∀ k, r.tests < k → k ≤ t → E.lookup i (config.requestTuple i) k = some none) ∧
        s' = { s with status := MCAPI_TIMEOUT, rc := false }.setRequest i
          (some { r with tests := t })) := by
  have hnot : ¬ ((s.chan i).request.isNone = true) := by simp [hr]
  rw [complete, if_neg hnot] at hrun
  obtain ⟨⟨t, done⟩, hwait, hrest⟩ := Option.bind_eq_some_iff.mp hrun
  rw [mcapi_trans_wait, hr] at hwait
  dsimp only at hwait hrest
  have htuple := hasked.ep
  rcases waitLoop_get hasked.type hwait with ⟨rfl, hc, rfl⟩ |
    ⟨rfl, hc, j, hd, hj, hfound, hbefore, rfl⟩ | ⟨rfl, hc, n, hn, hbefore, rfl⟩
  · left
    have hst : (({ s with status := r.status, free := s.free + 1 } : Frame).setRequest i none).status =
        MCAPI_SUCCESS := hasked.status
    rw [if_pos rfl, if_pos hst, Option.some.injEq] at hrest
    refine ⟨hc, ?_⟩
    rw [← hrest, Frame.setRequest, Frame.setChan, Frame.setEndpoint, Frame.answered, hasked.status]
  · right
    left
    rw [htuple] at hfound hbefore hrest
    rw [hasked.ep_endpoint, if_pos rfl, if_pos (by rfl), Option.some.injEq] at hrest
    refine ⟨hc, j, hd, hj, hfound, hbefore, ?_⟩
    rw [← hrest]
    rfl
  · right
    right
    rw [htuple] at hbefore
    simp only [Bool.false_eq_true, if_false, Option.some.injEq] at hrest
    refine ⟨hc, n, hn, hbefore, ?_⟩
    rw [← hrest]
    rfl

/-- A completed request counts one channel less. -/
theorem Asking.answer {r : Request} (h : Asking E me config W m s)
    (hr : (s.chan i).request = some r) (hc : r.completed = true) :
    Asking E me config W m (s.answered i (config.remote i)) := by
  obtain ⟨him, hasked⟩ := h.request i r hr
  obtain ⟨hans, hwr⟩ := hasked.found hc
  have hwritten : ∀ k, Written W s k → Written W (s.answered i (config.remote i)) k := by
    rintro k ⟨t, ht, hmem⟩
    refine ⟨t, ht, ?_⟩
    by_cases hk : k = config.remote i
    · subst hk
      simpa [Frame.answered] using hmem
    · simpa [Frame.answered, Function.update_of_ne hk] using hmem
  have hvalid : ∀ k, (s.endpoint k).valid = true →
      ((s.answered i (config.remote i)).endpoint k).valid = true := by
    intro k hk
    by_cases hkr : k = config.remote i
    · subst hkr
      simp [Frame.answered]
    · simpa [Frame.answered, Function.update_of_ne hkr] using hk
  have hdone : ∀ j, j ≠ i → (Done config (s.answered i (config.remote i)) j ↔ Done config s j) := by
    intro j hj
    refine and_congr Iff.rfl ?_
    simp only [Frame.answered, Function.update_of_ne hj]
  have hself : Done config (s.answered i (config.remote i)) i :=
    ⟨hasked.named, by simp [Frame.answered]⟩
  refine ⟨⟨?_, h.handles.decodes⟩, ?_, ?_, ?_, ?_, h.named, h.joined, ?_⟩
  · intro k hk
    apply hwritten
    by_cases hkr : k = config.remote i
    · rw [hkr]
      exact hwr
    · apply h.handles.written
      simpa [Frame.answered, Function.update_of_ne hkr] using hk
  · intro j
    by_cases hj : j = i
    · subst hj
      simpa [Frame.answered] using h.fresh j
    · simpa [Frame.answered, Function.update_of_ne hj] using h.fresh j
  · intro j r' hr'
    by_cases hj : j = i
    · subst hj
      simp [Frame.answered] at hr'
    · simp only [Frame.answered, Function.update_of_ne hj] at hr'
      obtain ⟨hjm, hasked'⟩ := h.request j r' hr'
      exact ⟨hjm, hasked'.mono (fun x hx => hx) (hwritten _)⟩
  · intro j hjm hd
    by_cases hj : j = i
    · rw [hj]
      exact ⟨hans, by simp [Frame.answered]⟩
    · obtain ⟨ha, hv⟩ := h.answered j hjm ((hdone j hj).mp hd)
      exact ⟨ha, hvalid _ hv⟩
  · intro j hjm hcr
    obtain ⟨hn, hv⟩ := h.created j hjm hcr
    exact ⟨hn, hvalid _ hv⟩
  · obtain ⟨k, hk, htally⟩ := h.outstanding
    have hopen : ¬ Done config s i := by
      rintro ⟨-, hnone⟩
      rw [hr] at hnone
      cases hnone
    obtain ⟨j, rfl, hj⟩ : ∃ j, k = j + 1 ∧ Tally (fun j => j < m ∧ config.asks j = true ∧
        ¬ Done config (s.answered i (config.remote i)) j) j :=
      htally.leave (o := i) ⟨him, hasked.asks, hopen⟩ (fun hp => hp.2.2 hself)
        (fun j hj => by rw [hdone j hj])
    refine ⟨j, ?_, hj⟩
    simp [Frame.answered, hk]

/-- The request of channel `i` is replaced by one that asks for the same. -/
theorem Asking.setRequest {r q : Request} (h : Asking E me config W m s)
    (hr : (s.chan i).request = some r) (hq : Asked E config W s i q) :
    Asking E me config W m (s.setRequest i (some q)) := by
  have hdone : ∀ j, Done config (s.setRequest i (some q)) j ↔ Done config s j := by
    intro j
    refine and_congr Iff.rfl ?_
    by_cases hj : j = i
    · subst hj
      simp [Frame.setRequest, Frame.setChan, hr]
    · simp only [Frame.setRequest, Frame.setChan, Function.update_of_ne hj]
  refine ⟨⟨fun k hk => h.handles.written k hk, h.handles.decodes⟩, ?_, ?_, ?_, h.created, h.named,
    h.joined, ?_⟩
  · intro j
    by_cases hj : j = i
    · subst hj
      simpa [Frame.setRequest, Frame.setChan] using h.fresh j
    · simpa [Frame.setRequest, Frame.setChan, Function.update_of_ne hj] using h.fresh j
  · intro j p hp
    by_cases hj : j = i
    · subst hj
      simp only [Frame.setRequest, Frame.setChan, Function.update_self, Option.some.injEq] at hp
      rw [← hp]
      exact ⟨(h.request j r hr).1, hq.mono (fun x hx => hx) fun hw => hw⟩
    · simp only [Frame.setRequest, Frame.setChan, Function.update_of_ne hj] at hp
      obtain ⟨hjm, hasked⟩ := h.request j p hp
      exact ⟨hjm, hasked.mono (fun x hx => hx) fun hw => hw⟩
  · intro j hjm hd
    exact h.answered j hjm ((hdone j).mp hd)
  · obtain ⟨k, hk, htally⟩ := h.outstanding
    exact ⟨k, hk, htally.congr fun j => by rw [hdone]⟩

/-- The status and the result do not matter. -/
theorem Asking.withStatus (h : Asking E me config W m s) (status : CallStatus) (rc : Bool) :
    Asking E me config W m { s with status := status, rc := rc } where
  handles := ⟨h.handles.written, h.handles.decodes⟩
  fresh := h.fresh
  request i r hr := by
    obtain ⟨hi, hasked⟩ := h.request i r hr
    exact ⟨hi, hasked.mono (fun x hx => hx) fun hw => hw⟩
  answered := h.answered
  created := h.created
  named := h.named
  joined := h.joined
  outstanding := h.outstanding

/-- Lookups that fail are carried together. -/
theorem lookup_none_before {r : Request} {ep : mcapi_endpoint_data_t} {j : ℕ}
    (hmissed : ∀ k, k ≤ r.tests → E.lookup i ep k = some none)
    (hbefore : ∀ k, r.tests < k → k < j → E.lookup i ep k = some none) :
    ∀ k, k < j → E.lookup i ep k = some none := by
  intro k hk
  by_cases hkr : k ≤ r.tests
  · exact hmissed k hkr
  · exact hbefore k (by omega) hk

/-- The second loop keeps the invariant. -/
theorem Asking.complete (hW : Known me config W) (h : Asking E me config W config.nchans s)
    (hrun : complete E timeout fuel config i s = some s') :
    Asking E me config W config.nchans s' := by
  cases hr : (s.chan i).request with
  | none =>
    rw [complete_none hr, Option.some.injEq] at hrun
    rw [← hrun]
    exact h
  | some r =>
    obtain ⟨hi, hasked⟩ := h.request i r hr
    rcases complete_some hr hasked hrun with ⟨hc, rfl⟩ | ⟨hc, j, hd, hj, hfound, hbefore, rfl⟩ |
      ⟨hc, t, ht, hbefore, rfl⟩
    · exact h.answer hr hc
    · -- as if the request had been completed when the handle was filled in
      have hknown := hW.asks i hi hasked.asks
      have hanswered : Answered E i (config.requestTuple i) :=
        ⟨j, hd, hfound, lookup_none_before (hasked.missed hc) hbefore⟩
      have hobtained := h.obtain hknown (lookup_some hfound)
      have hfilled := hobtained.setRequest (i := i) (q := { r with completed := true }) hr
        ⟨hasked.asks, hasked.named, hasked.type, hasked.ep_endpoint, hasked.ep, hasked.status,
          fun _ => ⟨hanswered, Written.obtain hknown s⟩, fun hc => by cases hc⟩
      have hdone := hfilled.answer (i := i) (r := { r with completed := true })
        (by simp [Frame.setRequest, Frame.setChan]) rfl
      simpa [Frame.answered, Frame.setRequest, Frame.setChan, Frame.obtain, Frame.setEndpoint,
        Function.update_idem] using hdone
    · apply (h.withStatus MCAPI_TIMEOUT false).setRequest hr
      refine ⟨hasked.asks, hasked.named, hasked.type, hasked.ep_endpoint, hasked.ep, hasked.status,
        ?_, ?_⟩
      · intro hc'
        rw [show r.completed = true from hc'] at hc
        cases hc
      · intro _ k hk
        apply lookup_none_before (hasked.missed hc) (j := t + 1) _ k (by dsimp only at hk; omega)
        intro k hk hk'
        exact hbefore k hk (by omega)

end

/-! ## The loops that connect -/

section

variable (config : mcapi_config_t) (W : ℕ → mcapi_endpoint_data_t → Prop)

/-- The handle of a side of a channel, obtained under a triple of which `W` is known. -/
def HandleOf (s : Frame) (k handle : ℕ) : Prop := ∃ t, W k t ∧ (handle, t) ∈ s.obtained

structure JoinedRight (s : Frame) (x : Joined) : Prop where
  send : HandleOf W s (config.chan x.chan).from_ep x.send_endpoint
  receive : HandleOf W s (config.chan x.chan).to_ep x.receive_endpoint

/-- What the last three loops keep: no endpoint is asked for any more, a valid channel has
two endpoints, and what was connected and opened are handles of these. -/
structure Joining (named : List Named) (s : Frame) : Prop where
  handles : Handles W s
  request : ∀ i r, (s.chan i).request = some r → r.type ≠ GET_ENDPT
  valid : ∀ i, (s.chan i).valid = true →
    Written W s (config.chan i).from_ep ∧ Written W s (config.chan i).to_ep
  joined : ∀ x ∈ s.joined, JoinedRight config W s x
  opened : ∀ x ∈ s.opened, HandleOf W s (config.local x.1) x.2
  named : s.named = named

end

section

variable {E : Surroundings} {me : Whoami} {timeout fuel : ℕ} {config : mcapi_config_t}
  {W : ℕ → mcapi_endpoint_data_t → Prop} {s s' : Frame} {i : ℕ} {named : List Named}

/-- After the second loop every channel that asked is answered. -/
theorem Asking.all_done (h : Asking E me config W config.nchans s) (hn : s.nchan ≤ 0)
    (hi : i < config.nchans) (hasks : config.asks i = true) : Done config s i := by
  obtain ⟨k, hk, htally⟩ := h.outstanding
  by_contra hnot
  have hne := htally.ne_zero (o := i) ⟨hi, hasks, hnot⟩
  omega

theorem Asking.no_request (h : Asking E me config W config.nchans s) (hn : s.nchan ≤ 0) (i : ℕ) :
    (s.chan i).request = none := by
  cases hr : (s.chan i).request with
  | none => rfl
  | some r =>
    obtain ⟨hi, hasked⟩ := h.request i r hr
    have hdone := (h.all_done hn hi hasked.asks).2
    rw [hr] at hdone
    cases hdone

theorem Asking.joining (h : Asking E me config W config.nchans s) (hn : s.nchan ≤ 0) :
    Joining config W s.named s where
  handles := h.handles
  request i r hr := by
    rw [h.no_request hn i] at hr
    cases hr
  valid i hv := by
    rw [h.fresh i] at hv
    cases hv
  joined x hx := by
    rw [h.joined.1] at hx
    cases hx
  opened x hx := by
    rw [h.joined.2] at hx
    cases hx
  named := rfl

/-- A frame with the same handles, whose new entries are right. -/
theorem Joining.change (h : Joining config W named s)
    (hendpoint : ∀ k, (s'.endpoint k).endpoint = (s.endpoint k).endpoint ∧
      ((s'.endpoint k).valid = true → (s.endpoint k).valid = true))
    (hobtained : s'.obtained = s.obtained) (hnamed : s'.named = s.named)
    (hrequest : ∀ j r, (s'.chan j).request = some r →
      (s.chan j).request = some r ∨ r.type ≠ GET_ENDPT)
    (hvalid : ∀ j, (s'.chan j).valid = true → (s.chan j).valid = true ∨
      (Written W s (config.chan j).from_ep ∧ Written W s (config.chan j).to_ep))
    (hjoined : ∀ x ∈ s'.joined, x ∈ s.joined ∨ JoinedRight config W s x)
    (hopened : ∀ x ∈ s'.opened, x ∈ s.opened ∨ HandleOf W s (config.local x.1) x.2) :
    Joining config W named s' := by
  have hhandle : ∀ k hd, HandleOf W s k hd → HandleOf W s' k hd := by
    rintro k hd ⟨t, ht, hmem⟩
    exact ⟨t, ht, hobtained ▸ hmem⟩
  have hwritten : ∀ k, Written W s k → Written W s' k := by
    rintro k ⟨t, ht, hmem⟩
    refine ⟨t, ht, ?_⟩
    rw [(hendpoint k).1, hobtained]
    exact hmem
  have hright : ∀ x, JoinedRight config W s x → JoinedRight config W s' x :=
    fun x hx => ⟨hhandle _ _ hx.send, hhandle _ _ hx.receive⟩
  refine ⟨⟨fun k hk => ?_, fun x hx => ?_⟩, fun j r hr => ?_, fun j hj => ?_, fun x hx => ?_,
    fun x hx => ?_, ?_⟩
  · exact hwritten k (h.handles.written k ((hendpoint k).2 hk))
  · rw [hobtained] at hx
    exact h.handles.decodes x hx
  · rcases hrequest j r hr with hold | hnew
    · exact h.request j r hold
    · exact hnew
  · have hboth : Written W s (config.chan j).from_ep ∧ Written W s (config.chan j).to_ep := by
      rcases hvalid j hj with hold | hnew
      · exact h.valid j hold
      · exact hnew
    exact ⟨hwritten _ hboth.1, hwritten _ hboth.2⟩
  · rcases hjoined x hx with hold | hnew
    · exact hright x (h.joined x hold)
    · exact hright x hnew
  · rcases hopened x hx with hold | hnew
    · exact hhandle _ _ (h.opened x hold)
    · exact hhandle _ _ hnew
  · rw [hnamed, h.named]

/-- A channel is changed. -/
theorem Joining.setChan {c : ChannelRun} (h : Joining config W named s)
    (hrequest : ∀ r, c.request = some r → (s.chan i).request = some r ∨ r.type ≠ GET_ENDPT)
    (hvalid : c.valid = true → (s.chan i).valid = true ∨
      (Written W s (config.chan i).from_ep ∧ Written W s (config.chan i).to_ep)) :
    Joining config W named (s.setChan i c) := by
  refine h.change (fun k => ⟨rfl, fun hk => hk⟩) rfl rfl ?_ ?_ (fun x hx => .inl hx)
    (fun x hx => .inl hx)
  · intro j r hr
    by_cases hj : j = i
    · subst hj
      simp only [Frame.setChan, Function.update_self] at hr
      exact hrequest r hr
    · simp only [Frame.setChan, Function.update_of_ne hj] at hr
      exact .inl hr
  · intro j hv
    by_cases hj : j = i
    · subst hj
      simp only [Frame.setChan, Function.update_self] at hv
      exact hvalid hv
    · simp only [Frame.setChan, Function.update_of_ne hj] at hv
      exact .inl hv

/-- What is not about handles does not matter. -/
theorem Joining.others (h : Joining config W named s) (status : CallStatus) (free : ℕ) (rc : Bool)
    (db : mcapi_database) :
    Joining config W named { s with status := status, free := free, rc := rc, db := db } :=
  h.change (fun _ => ⟨rfl, fun hk => hk⟩) rfl rfl (fun _ _ hr => .inl hr) (fun _ hv => .inl hv)
    (fun _ hx => .inl hx) fun _ hx => .inl hx

theorem connType_ne (type : channel_type) : connType type ≠ GET_ENDPT := by
  unfold connType
  split <;> decide

theorem openType_ne (type : channel_type) : openType type ≠ GET_ENDPT := by
  unfold openType
  split <;> decide

theorem Joining.connect_i {type : channel_type} {x y : ℕ} (h : Joining config W named s)
    (hright : JoinedRight config W s ⟨i, x, y⟩)
    (hrun : connect_i s i type x y = some s') : Joining config W named s' ∧
      s'.obtained = s.obtained ∧ s'.endpoint = s.endpoint := by
  have htype := connType_ne type
  have hset : ∀ r : Request, r.type ≠ GET_ENDPT → ∀ db, Joining config W named
      ({ s with free := s.free - 1, db := db }.setRequest i (some r)) := by
    intro r hr db
    refine (h.others s.status (s.free - 1) s.rc db).setChan ?_ fun hv => .inl hv
    intro q hq
    rw [Option.some.injEq] at hq
    rw [← hq]
    exact .inr hr
  unfold Topology.connect_i at hrun
  split at hrun
  · dsimp only at hrun
    split at hrun
    · obtain ⟨db, -, hs'⟩ := Option.bind_eq_some_iff.mp hrun
      rw [Option.some.injEq] at hs'
      subst hs'
      refine ⟨?_, rfl, rfl⟩
      refine (hset _ htype db).change (fun k => ⟨rfl, fun hk => hk⟩) rfl rfl
        (fun _ _ hr => .inl hr) (fun _ hv => .inl hv) ?_ fun _ hx => .inl hx
      intro z hz
      rcases List.mem_cons.mp hz with rfl | hz
      · exact .inr ⟨hright.send, hright.receive⟩
      · exact .inl hz
    · rw [Option.some.injEq] at hrun
      subst hrun
      exact ⟨hset _ htype s.db, rfl, rfl⟩
  · rw [Option.some.injEq] at hrun
    subst hrun
    exact ⟨h.others _ s.free s.rc s.db, rfl, rfl⟩

theorem Joining.connectChannel (h : Joining config W named s)
    (hrun : connectChannel config i s = some s') : Joining config W named s' := by
  unfold Topology.connectChannel at hrun
  dsimp only at hrun
  split at hrun
  · split at hrun
    · rw [Option.some.injEq] at hrun
      exact hrun ▸ h
    · rename_i hvalid
      simp only [Bool.or_eq_true, Bool.not_eq_true', not_or, Bool.not_eq_false] at hvalid
      have hfrom := h.handles.written _ hvalid.1
      have hto := h.handles.written _ hvalid.2
      split at hrun
      · rw [Option.some.injEq] at hrun
        subst hrun
        exact h.setChan (fun r hr => .inl hr) fun _ => .inr ⟨hfrom, hto⟩
      · obtain ⟨t, hconn, hs'⟩ := Option.bind_eq_some_iff.mp hrun
        rw [Option.some.injEq] at hs'
        subst hs'
        obtain ⟨ht, hobtained, hendpoint⟩ := h.connect_i ⟨hfrom, hto⟩ hconn
        have hkeep : ∀ k, Written W s k → Written W t k := by
          rintro k ⟨u, hu, hmem⟩
          refine ⟨u, hu, ?_⟩
          rw [hobtained, hendpoint]
          exact hmem
        exact ht.setChan (fun r hr => .inl hr) fun _ => .inr ⟨hkeep _ hfrom, hkeep _ hto⟩
  · cases hrun

/-- The request of a channel that is connected or opened is tested and no handle changes. -/
theorem waitLoop_other {time : ℕ} {r : Request} {done : Bool} (hr : r.type ≠ GET_ENDPT)
    (h : waitLoop E timeout i fuel time s r = some (s', done)) :
    ∃ status free request, s' = { s with status := status, free := free }.setRequest i request ∧
      ∀ q, request = some q → q.type ≠ GET_ENDPT := by
  induction fuel generalizing time r with
  | zero => cases h
  | succ fuel ih =>
    unfold waitLoop at h
    obtain ⟨⟨t, o⟩, htest, hrest⟩ := Option.bind_eq_some_iff.mp h
    -- a test leaves the handles, and a request of the same type if any
    have hstep : ∃ status free, t = { s with status := status, free := free } ∧
        ((o = none) ∨ ∃ q, o = some q ∧ q.type ≠ GET_ENDPT ∧ t = s) := by
      unfold mcapi_trans_test_i at htest
      obtain ⟨⟨u, q⟩, hcheck, heq⟩ := Option.map_eq_some_iff.mp htest
      have hsame : u = s ∧ q.type ≠ GET_ENDPT := by
        by_cases hc : r.completed = true
        · rw [if_pos hc, Option.some.injEq, Prod.mk.injEq] at hcheck
          exact ⟨hcheck.1.symm, hcheck.2 ▸ hr⟩
        · rw [if_neg hc] at hcheck
          unfold checkRequest at hcheck
          split at hcheck
          · rename_i heq
            exact absurd heq hr
          · rw [Option.some.injEq, Prod.mk.injEq] at hcheck
            exact ⟨hcheck.1.symm, hcheck.2 ▸ hr⟩
          · rw [Option.some.injEq, Prod.mk.injEq] at hcheck
            exact ⟨hcheck.1.symm, hcheck.2 ▸ hr⟩
          all_goals
            obtain ⟨p, -, hp⟩ := Option.map_eq_some_iff.mp hcheck
            rw [Prod.mk.injEq] at hp
            obtain ⟨rfl, rfl⟩ := hp
            exact ⟨rfl, hr⟩
      obtain ⟨rfl, hq⟩ := hsame
      dsimp only at heq
      split at heq
      · rw [Prod.mk.injEq] at heq
        obtain ⟨rfl, rfl⟩ := heq
        exact ⟨_, _, rfl, .inl rfl⟩
      · rw [Prod.mk.injEq] at heq
        obtain ⟨rfl, rfl⟩ := heq
        exact ⟨_, _, rfl, .inr ⟨q, rfl, hq, rfl⟩⟩
    obtain ⟨status, free, ht, hnone | ⟨q, hq, htype, hsame⟩⟩ := hstep
    · subst hnone ht
      simp only [Option.some.injEq, Prod.mk.injEq] at hrest
      refine ⟨status, free, none, hrest.1.symm, fun q hq => ?_⟩
      cases hq
    · subst hq hsame
      dsimp only at hrest
      split at hrest
      · simp only [Option.some.injEq, Prod.mk.injEq] at hrest
        refine ⟨MCAPI_TIMEOUT, t.free, some q, hrest.1.symm, fun p hp => ?_⟩
        rw [Option.some.injEq] at hp
        exact hp ▸ htype
      · exact ih htype hrest

theorem Joining.wait {done : Bool} (h : Joining config W named s)
    (hrun : mcapi_trans_wait E timeout fuel i s = some (s', done)) :
    Joining config W named s' ∧ s'.endpoint = s.endpoint ∧ s'.obtained = s.obtained ∧
      ∀ j, (s'.chan j).valid = (s.chan j).valid := by
  unfold mcapi_trans_wait at hrun
  split at hrun
  · rw [Option.some.injEq, Prod.mk.injEq] at hrun
    obtain ⟨rfl, -⟩ := hrun
    exact ⟨h, rfl, rfl, fun _ => rfl⟩
  · rename_i r hr
    obtain ⟨status, free, request, rfl, hother⟩ := waitLoop_other (h.request i r hr) hrun
    refine ⟨?_, rfl, rfl, fun j => ?_⟩
    · refine (h.others status free s.rc s.db).setChan (fun q hq => .inr (hother q hq)) fun hv => .inl hv
    · by_cases hj : j = i
      · subst hj
        simp [Frame.setRequest, Frame.setChan]
      · simp [Frame.setRequest, Frame.setChan, Function.update_of_ne hj]

theorem Joining.open_i {type : channel_type} {x : ℕ} (h : Joining config W named s)
    (hx : HandleOf W s (config.local i) x) (hrun : open_i E s i type x = some s') :
    Joining config W named s' := by
  unfold Topology.open_i at hrun
  split at hrun
  · dsimp only at hrun
    split at hrun
    · obtain ⟨p, -, hs'⟩ := Option.map_eq_some_iff.mp hrun
      subst hs'
      have hopened : Joining config W named { s with
          free := s.free - 1
          db := Channel.mcapi_trans_open_channel s.db p
          opened := (i, x) :: s.opened } := by
        refine h.change (fun k => ⟨rfl, fun hk => hk⟩) rfl rfl (fun _ _ hr => .inl hr)
          (fun _ hv => .inl hv) (fun _ hz => .inl hz) ?_
        intro z hz
        rcases List.mem_cons.mp hz with rfl | hz
        · exact .inr hx
        · exact .inl hz
      refine hopened.setChan (fun r hr => .inr ?_) fun hv => .inl hv
      rw [Option.some.injEq] at hr
      rw [← hr]
      exact openType_ne type
    · rw [Option.some.injEq] at hrun
      subst hrun
      refine (h.others s.status (s.free - 1) s.rc s.db).setChan (fun r hr => .inr ?_)
        fun hv => .inl hv
      rw [Option.some.injEq] at hr
      rw [← hr]
      exact openType_ne type
  · rw [Option.some.injEq] at hrun
    subst hrun
    exact h.others _ s.free s.rc s.db

/-- The local endpoint of a channel is one of its two. -/
theorem Joining.local_written (h : Joining config W named s) (hv : (s.chan i).valid = true) :
    Written W s (config.local i) := by
  unfold mcapi_config_t.local
  split
  · exact (h.valid i hv).1
  · exact (h.valid i hv).2

theorem Joining.openChannel (h : Joining config W named s)
    (hrun : openChannel E timeout fuel config i s = some s') : Joining config W named s' := by
  unfold Topology.openChannel at hrun
  dsimp only at hrun
  split at hrun
  · rename_i hvalid
    rw [Bool.and_eq_true] at hvalid
    obtain ⟨p, -, hrun⟩ := Option.bind_eq_some_iff.mp hrun
    have hstatus := h.others MCAPI_SUCCESS s.free s.rc s.db
    split at hrun
    · rw [Option.some.injEq] at hrun
      subst hrun
      -- the endpoint of the other node is not valid any more
      refine hstatus.change (fun k => ?_) rfl rfl (fun _ _ hr => .inl hr) (fun _ hv => .inl hv)
        (fun _ hz => .inl hz) fun _ hz => .inl hz
      by_cases hk : k = config.remote i
      · subst hk
        simp [Frame.setEndpoint]
      · simp [Frame.setEndpoint, Function.update_of_ne hk]
    · split at hrun
      · rw [Option.some.injEq] at hrun
        subst hrun
        exact hstatus
      · obtain ⟨⟨t, done⟩, hwait, hrun⟩ := Option.bind_eq_some_iff.mp hrun
        obtain ⟨ht, hendpoint, hobtained, -⟩ := hstatus.wait hwait
        dsimp only at hrun
        split at hrun
        · obtain ⟨u, hopen, hs'⟩ := Option.bind_eq_some_iff.mp hrun
          rw [Option.some.injEq] at hs'
          subst hs'
          obtain ⟨d, hd, hmem⟩ := h.local_written hvalid.1
          have hlocal : HandleOf W t (config.local i) (t.endpoint (config.local i)).endpoint := by
            refine ⟨d, hd, ?_⟩
            rw [hendpoint, hobtained]
            exact hmem
          exact (ht.open_i hlocal hopen).setChan (fun r hr => .inl hr) fun hv => .inl hv
        · rw [Option.some.injEq] at hrun
          subst hrun
          exact ht.others t.status t.free false t.db
  · rw [Option.some.injEq] at hrun
    exact hrun ▸ h

theorem Joining.finishChannel (h : Joining config W named s)
    (hrun : finishChannel E timeout fuel i s = some s') : Joining config W named s' := by
  unfold Topology.finishChannel at hrun
  split at hrun
  · split at hrun
    · rw [Option.some.injEq] at hrun
      subst hrun
      exact h.setChan (fun r hr => .inl hr) fun hv => .inl hv
    · obtain ⟨⟨t, done⟩, hwait, hrun⟩ := Option.bind_eq_some_iff.mp hrun
      obtain ⟨ht, -⟩ := (h.others MCAPI_SUCCESS s.free s.rc s.db).wait hwait
      dsimp only at hrun
      split at hrun
      · rw [Option.some.injEq] at hrun
        subst hrun
        exact ht.setChan (fun r hr => .inl hr) fun hv => .inl hv
      · rw [Option.some.injEq] at hrun
        subst hrun
        exact ht.others t.status t.free false t.db
  · rw [Option.some.injEq] at hrun
    exact hrun ▸ h

/-! ## The whole call -/

/-- A configuration as `mcapi_trans_collect` leaves it, before it is connected. -/
structure Fresh (config : mcapi_config_t) : Prop where
  endpoint : ∀ k, (config.endpoint k).valid = false
  chan : ∀ i, (config.chan i).valid = false
  request : ∀ i, (config.chan i).request = none

variable {db : mcapi_database} {attributes : Place → Entries} {free : ℕ}

theorem Asking.start (hfresh : Fresh config) :
    Asking E me config W 0 (Frame.start db attributes config free) where
  handles := by
    refine ⟨fun k hk => ?_, fun x hx => ?_⟩
    · have hv := hfresh.endpoint k
      rw [show (config.endpoint k).valid = true from hk] at hv
      cases hv
    · cases hx
  fresh i := hfresh.chan i
  request i r hr := by
    have hnone := hfresh.request i
    rw [show (config.chan i).request = some r from hr] at hnone
    cases hnone
  answered i hi := by omega
  created i hi := by omega
  named x hx := by cases hx
  joined := ⟨rfl, rfl⟩
  outstanding := by
    refine ⟨0, rfl, Tally.none ?_⟩
    rintro i ⟨hi, -⟩
    omega

/-- What the loops make of a fresh configuration: after the first all is asked for, after the
second all is answered, and the others connect. -/
theorem connect_some (hW : Known me config W) (hfresh : Fresh config)
    (hrun : mcapi_trans_connect E me timeout fuel config (Frame.start db attributes config free) =
      some s) :
    ∃ s₁ s₂, forLoop (establish E me config) config.nchans
        (Frame.start db attributes config free) = some s₁ ∧
      whileLoop (fun s => decide (0 < s.nchan)) (completeAll E timeout fuel config) fuel s₁ =
        some s₂ ∧
      Asking E me config W config.nchans s₁ ∧ Asking E me config W config.nchans s₂ ∧
      s₂.nchan ≤ 0 ∧ Joining config W s₂.named s := by
  obtain ⟨s₁, h1, hrun⟩ := Option.bind_eq_some_iff.mp hrun
  obtain ⟨s₂, h2, hrun⟩ := Option.bind_eq_some_iff.mp hrun
  obtain ⟨s₃, h3, hrun⟩ := Option.bind_eq_some_iff.mp hrun
  obtain ⟨s₄, h4, h5⟩ := Option.bind_eq_some_iff.mp hrun
  have hest := forLoop_inv (fun m s => Asking E me config W m s ∧ s.status = MCAPI_SUCCESS)
    (fun m s s' hm h hstep => h.1.establish hW hm h.2 hstep) ⟨Asking.start hfresh, rfl⟩ h1
  obtain ⟨hdone, htest⟩ := whileLoop_inv (Asking E me config W config.nchans)
    (fun s s' h _ hround => forLoop_inv (fun _ => Asking E me config W config.nchans)
      (fun i s s' _ h hstep => h.complete hW hstep) h hround) hest.1 h2
  have hn : s₂.nchan ≤ 0 := by simpa using htest
  have hconn := forLoop_inv (fun _ => Joining config W s₂.named)
    (fun i s s' _ h hstep => h.connectChannel hstep) (hdone.joining hn) h3
  have hopen := forLoop_inv (fun _ => Joining config W s₂.named)
    (fun i s s' _ h hstep => h.openChannel hstep) hconn h4
  have hend := forLoop_inv (fun _ => Joining config W s₂.named)
    (fun i s s' _ h hstep => h.finishChannel hstep) hopen h5
  exact ⟨s₁, s₂, h1, h2, hest.1, hdone, hn, hend⟩

end

end MxApi.Topology
