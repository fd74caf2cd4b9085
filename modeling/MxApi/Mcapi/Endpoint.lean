/-
Creating, finding and deleting the endpoints of a node
(`transport_sm_endpoint_abb.c`, `transport_sm_check_abb.c`, `mcapi_abb.c`).

A node's endpoints are entries of an array. Creating one takes the first entry
that is not valid, deleting one leaves a hole. `mcapi_trans_endpoint_exists`
looks at the whole array, `mcapi_trans_endpoint_get_` only at as many entries as
the node has endpoints; a failed assertion is `none`.
-/
import MxApi.Lib.Agreement
import MxApi.Mcapi.Tables

set_option autoImplicit false

namespace MxApi

open Lib CallStatus

/-- `~0` as a port number. -/
def MCAPI_PORT_ANY : ℕ := 2 ^ 32 - 1

section

variable (db : mcapi_database) (me : Whoami)

/-! ## The transport functions -/

def mcapi_trans_endpoint_exists (port_num : ℕ) : Bool :=
  if port_num = MCAPI_PORT_ANY then false
  else (List.range MCAPI_MAX_ENDPOINTS).any fun i =>
    let state := (db.endpoint me.dindex me.nindex i).state
    state.valid && port_num == state.port_num

/-- The new database and the handle, or no handle if there is no free entry. -/
def mcapi_trans_endpoint_create (port_num : ℕ) (anonymous : Bool) :
    Option (mcapi_database × Option ℕ) :=
  let node := db.node me.dindex me.nindex
  -- mcapi_assert
  if node.num_endpoints < MCAPI_MAX_ENDPOINTS then
    match (List.range MCAPI_MAX_ENDPOINTS).find? fun i => !(node.endpoints i).state.valid with
    | none => some (db, none)
    | some endpoint_index =>
      let entry := node.endpoints endpoint_index
      let db := db.setNode me.dindex me.nindex
        { node with
          num_endpoints := u32 (node.num_endpoints + 1)
          endpoints := Function.update node.endpoints endpoint_index
            { entry with
              anonymous := anonymous
              num_attributes := 0
              recv_queue := .zero
              state := { entry.state with port_num := port_num, opened := false, valid := true } } }
      (mcapi_trans_encode_handle me.dindex me.nindex endpoint_index).map fun ep => (db, some ep)
  else none

/-- The indices of the first endpoint found for the triple. -/
def findEndpoint (domain_id node_num port_num : ℕ) : Option (ℕ × ℕ × ℕ) :=
  (List.range MCA_MAX_DOMAINS).findSome? fun d =>
    if (db.domains d).state.valid && domain_id == (db.domains d).state.domain_id then
      (List.range MCA_MAX_NODES).findSome? fun n =>
        if (db.node d n).state.valid && node_num == (db.node d n).state.node_num then
          ((List.range (db.node d n).num_endpoints).find? fun e =>
            (db.endpoint d n e).state.valid && port_num == (db.endpoint d n e).state.port_num).map
              fun e => (d, n, e)
        else none
    else none

/-- The handle, or `some none` for `MCAPI_FALSE`. -/
def mcapi_trans_endpoint_get_ (domain_id node_num port_num : ℕ) : Option (Option ℕ) :=
  match findEndpoint db domain_id node_num port_num with
  | none => some none
  | some (d, n, e) => (mcapi_trans_encode_handle d n e).map some

def mcapi_trans_valid_endpoint (endpoint : ℕ) : Bool :=
  match mcapi_trans_decode_handle endpoint with
  | none => false
  | some (d, n, e) =>
    (db.domains d).state.valid && (db.node d n).state.valid && (db.endpoint d n e).state.valid

def mcapi_trans_endpoint_isowner (d n e : ℕ) : Bool :=
  (db.endpoint d n e).state.valid && (db.node d n).state.node_num == me.node_num

def mcapi_trans_endpoint_channel_isopen (d n e : ℕ) : Bool :=
  (db.endpoint d n e).state.opened

/-- Decrements the node's count and zeroes the entry. -/
def mcapi_trans_endpoint_delete (d n e : ℕ) : mcapi_database :=
  let node := db.node d n
  db.setNode d n
    { node with
      num_endpoints := subU32 node.num_endpoints 1
      endpoints := Function.update node.endpoints e .zero }

/-! ## The public calls -/

/-- `mcapi_endpoint_create`, on an initialized node. -/
def mcapi_endpoint_create (port_id : ℕ) : Option (mcapi_database × CallStatus) :=
  if mcapi_trans_endpoint_exists db me port_id then some (db, MCAPI_ERR_ENDP_EXISTS)
  else if (db.node me.dindex me.nindex).num_endpoints = MCAPI_MAX_ENDPOINTS then
    some (db, MCAPI_ERR_ENDP_LIMIT)
  else (mcapi_trans_endpoint_create db me port_id false).map fun r =>
    (r.1, if r.2.isSome then MCAPI_SUCCESS else MCAPI_ERR_ENDP_NOPORTS)

def mcapi_endpoint_delete (endpoint : ℕ) : mcapi_database × CallStatus :=
  if !mcapi_trans_valid_endpoint db endpoint then (db, MCAPI_ERR_ENDP_INVALID)
  else
    match mcapi_trans_decode_handle endpoint with
    | none => (db, MCAPI_ERR_ENDP_INVALID)
    | some (d, n, e) =>
      if !mcapi_trans_endpoint_isowner db me d n e then (db, MCAPI_ERR_ENDP_NOTOWNER)
      else if mcapi_trans_endpoint_channel_isopen db d n e then (db, MCAPI_ERR_CHAN_OPEN)
      else (mcapi_trans_endpoint_delete db d n e, MCAPI_SUCCESS)

/-- The calls that change a node's endpoints. -/
inductive EndpointCall
  | create (port_id : ℕ)
  | delete (endpoint : ℕ)
  deriving DecidableEq, Repr

def EndpointCall.perform : EndpointCall → Option (mcapi_database × CallStatus)
  | .create port_id => mcapi_endpoint_create db me port_id
  | .delete endpoint => some (mcapi_endpoint_delete db me endpoint)

end

/-! ## What is expected of a lookup -/

/-- The caller's own entries: valid, with its numbers, and the only valid ones
that have them. -/
structure Registered (db : mcapi_database) (me : Whoami) : Prop where
  dindex_lt : me.dindex < MCA_MAX_DOMAINS
  nindex_lt : me.nindex < MCA_MAX_NODES
  domain : (db.domains me.dindex).state.valid = true ∧
    (db.domains me.dindex).state.domain_id = me.domain_id
  node : (db.node me.dindex me.nindex).state.valid = true ∧
    (db.node me.dindex me.nindex).state.node_num = me.node_num
  domain_unique : ∀ d < MCA_MAX_DOMAINS, (db.domains d).state.valid = true →
    (db.domains d).state.domain_id = me.domain_id → d = me.dindex
  node_unique : ∀ n < MCA_MAX_NODES, (db.node me.dindex n).state.valid = true →
    (db.node me.dindex n).state.node_num = me.node_num → n = me.nindex

section

variable (db : mcapi_database) (me : Whoami)

/-- Entry `e` of the caller's node is a valid endpoint with port `p`. -/
def HasPort (e p : ℕ) : Prop :=
  e < MCAPI_MAX_ENDPOINTS ∧ (db.endpoint me.dindex me.nindex e).state.valid = true ∧
    (db.endpoint me.dindex me.nindex e).state.port_num = p

/-- Lookup agrees with the table. -/
structure LookupAgrees : Prop where
  /-- No assertion of the lookup fails. -/
  returns : ∀ p, mcapi_trans_endpoint_get_ db me.domain_id me.node_num p ≠ none
  /-- It succeeds exactly for the ports reported to exist. -/
  get_iff : ∀ p, (∃ h, mcapi_trans_endpoint_get_ db me.domain_id me.node_num p = some (some h)) ↔
    mcapi_trans_endpoint_exists db me p = true
  /-- The handle is that of the one valid endpoint with the port. -/
  handle : ∀ p h, mcapi_trans_endpoint_get_ db me.domain_id me.node_num p = some (some h) →
    mcapi_trans_valid_endpoint db h = true ∧
    ∃ e, mcapi_trans_decode_handle h = some (me.dindex, me.nindex, e) ∧ HasPort db me e p ∧
      ∀ e', HasPort db me e' p → e' = e
  /-- No two valid endpoints have the same port. -/
  unique : ∀ e e' p, HasPort db me e p → HasPort db me e' p → e = e'

/-- The caller's endpoints fit the count: every valid one is among the first
`num_endpoints`, they have different ports, and none is `MCAPI_PORT_ANY`. -/
structure EndpointsFit : Prop where
  num_le : (db.node me.dindex me.nindex).num_endpoints ≤ MCAPI_MAX_ENDPOINTS
  below : ∀ e p, HasPort db me e p → e < (db.node me.dindex me.nindex).num_endpoints
  not_any : ∀ e, ¬ HasPort db me e MCAPI_PORT_ANY
  unique : ∀ e e' p, HasPort db me e p → HasPort db me e' p → e = e'

/-- The calls that keep the endpoints fitting: a port is not `MCAPI_PORT_ANY`
unless the node is full, and no valid endpoint lies at or behind the count that
a deletion leaves. -/
def Keeps : EndpointCall → Prop
  | .create port_id => port_id = MCAPI_PORT_ANY →
      (db.node me.dindex me.nindex).num_endpoints = MCAPI_MAX_ENDPOINTS
  | .delete endpoint => ∀ e p, mcapi_trans_decode_handle endpoint = some (me.dindex, me.nindex, e) →
      HasPort db me e p → (db.endpoint me.dindex me.nindex e).state.opened = false →
      ∀ e' p', HasPort db me e' p' → e' ≠ e →
        e' < (db.node me.dindex me.nindex).num_endpoints - 1

end

/-! ## The lookup of a registered node -/

theorem findSome?_range_of_unique {α : Type} {f : ℕ → Option α} {k : ℕ} :
    ∀ {n : ℕ}, k < n → (∀ i < n, i ≠ k → f i = none) → (List.range n).findSome? f = f k
  | n + 1, hk, h => by
    rw [List.range_succ, List.findSome?_append]
    by_cases hkn : k = n
    · subst hkn
      have hnone : (List.range k).findSome? f = none := by
        rw [List.findSome?_eq_none_iff]
        intro i hi
        have hik := List.mem_range.mp hi
        exact h i (by omega) (by omega)
      simp [hnone]
    · have ih := findSome?_range_of_unique (f := f) (k := k) (n := n) (by omega)
        (fun i hi => h i (by omega))
      rw [ih]
      simp [h n (by omega) (Ne.symm hkn)]

section

variable {db : mcapi_database} {me : Whoami}

/-- Only the caller's own node can match its domain id and node number. -/
theorem findEndpoint_eq (hreg : Registered db me) (p : ℕ) :
    findEndpoint db me.domain_id me.node_num p =
      ((List.range (db.node me.dindex me.nindex).num_endpoints).find? fun e =>
        (db.endpoint me.dindex me.nindex e).state.valid &&
          p == (db.endpoint me.dindex me.nindex e).state.port_num).map
        fun e => (me.dindex, me.nindex, e) := by
  rw [findEndpoint, findSome?_range_of_unique hreg.dindex_lt]
  · rw [hreg.domain.1, hreg.domain.2, findSome?_range_of_unique hreg.nindex_lt]
    · simp [hreg.node.1, hreg.node.2]
    · intro n hn hne
      rw [if_neg]
      intro h
      rw [Bool.and_eq_true, beq_iff_eq] at h
      exact hne (hreg.node_unique n hn h.1 h.2.symm)
  · intro d hd hne
    rw [if_neg]
    intro h
    rw [Bool.and_eq_true, beq_iff_eq] at h
    exact hne (hreg.domain_unique d hd h.1 h.2.symm)

theorem matches_iff (e p : ℕ) :
    ((db.endpoint me.dindex me.nindex e).state.valid &&
      p == (db.endpoint me.dindex me.nindex e).state.port_num) = true ↔
    (db.endpoint me.dindex me.nindex e).state.valid = true ∧
      (db.endpoint me.dindex me.nindex e).state.port_num = p := by
  rw [Bool.and_eq_true, beq_iff_eq, eq_comm (a := p)]

/-- The whole array is looked at, except for `MCAPI_PORT_ANY`. -/
theorem mcapi_trans_endpoint_exists_iff (p : ℕ) :
    mcapi_trans_endpoint_exists db me p = true ↔ p ≠ MCAPI_PORT_ANY ∧ ∃ e, HasPort db me e p := by
  rw [mcapi_trans_endpoint_exists]
  by_cases hp : p = MCAPI_PORT_ANY
  · simp [hp]
  · rw [if_neg hp, List.any_eq_true]
    constructor
    · rintro ⟨e, he, hm⟩
      exact ⟨hp, e, List.mem_range.mp he, (matches_iff e p).mp hm⟩
    · rintro ⟨-, e, he, hm⟩
      exact ⟨e, List.mem_range.mpr he, (matches_iff e p).mpr hm⟩

/-- A found endpoint is the first match below the count. -/
theorem findEndpoint_some (hreg : Registered db me)
    (hnum : (db.node me.dindex me.nindex).num_endpoints ≤ MCAPI_MAX_ENDPOINTS) {p d n e : ℕ}
    (h : findEndpoint db me.domain_id me.node_num p = some (d, n, e)) :
    d = me.dindex ∧ n = me.nindex ∧ HasPort db me e p ∧
      e < (db.node me.dindex me.nindex).num_endpoints := by
  rw [findEndpoint_eq hreg] at h
  obtain ⟨e', he', heq⟩ := Option.map_eq_some_iff.mp h
  obtain ⟨rfl, rfl, rfl⟩ := heq
  obtain ⟨hm, hlt, -⟩ := List.find?_range_eq_some.mp he'
  have hlt := List.mem_range.mp hlt
  exact ⟨rfl, rfl, ⟨lt_of_lt_of_le hlt hnum, (matches_iff _ _).mp hm⟩, hlt⟩

/-- An endpoint below the count is found, or one before it with the same port. -/
theorem findEndpoint_of_below (hreg : Registered db me) {e p : ℕ} (he : HasPort db me e p)
    (hlt : e < (db.node me.dindex me.nindex).num_endpoints) :
    ∃ t, findEndpoint db me.domain_id me.node_num p = some t := by
  rw [findEndpoint_eq hreg]
  cases hf : (List.range (db.node me.dindex me.nindex).num_endpoints).find? (fun e =>
      (db.endpoint me.dindex me.nindex e).state.valid &&
        p == (db.endpoint me.dindex me.nindex e).state.port_num) with
  | none =>
    have hno := List.find?_eq_none.mp hf e (List.mem_range.mpr hlt)
    exact absurd ((matches_iff e p).mpr he.2) hno
  | some e' => exact ⟨_, rfl⟩

theorem mcapi_trans_endpoint_get_eq (hreg : Registered db me)
    (hnum : (db.node me.dindex me.nindex).num_endpoints ≤ MCAPI_MAX_ENDPOINTS) {p d n e : ℕ}
    (h : findEndpoint db me.domain_id me.node_num p = some (d, n, e)) :
    ∃ hd, mcapi_trans_encode_handle me.dindex me.nindex e = some hd ∧
      mcapi_trans_endpoint_get_ db me.domain_id me.node_num p = some (some hd) := by
  obtain ⟨rfl, rfl, he, -⟩ := findEndpoint_some hreg hnum h
  have henc := mcapi_trans_encode_handle_of_inRange ⟨hreg.dindex_lt, hreg.nindex_lt, he.1⟩
  exact ⟨_, henc, by rw [mcapi_trans_endpoint_get_, h]; simp only [henc, Option.map_some]⟩

/-- Endpoints that fit are looked up correctly. -/
theorem EndpointsFit.lookup (hreg : Registered db me) (hfit : EndpointsFit db me) :
    LookupAgrees db me where
  returns p := by
    cases hf : findEndpoint db me.domain_id me.node_num p with
    | none => simp [mcapi_trans_endpoint_get_, hf]
    | some t =>
      obtain ⟨hd, -, hget⟩ := mcapi_trans_endpoint_get_eq hreg hfit.num_le (p := p) hf
      rw [hget]
      exact Option.some_ne_none _
  get_iff p := by
    rw [mcapi_trans_endpoint_exists_iff]
    constructor
    · rintro ⟨hd, hget⟩
      cases hf : findEndpoint db me.domain_id me.node_num p with
      | none => simp [mcapi_trans_endpoint_get_, hf] at hget
      | some t =>
        obtain ⟨-, -, he, -⟩ := findEndpoint_some hreg hfit.num_le (p := p) hf
        refine ⟨?_, _, he⟩
        rintro rfl
        exact hfit.not_any _ he
    · rintro ⟨-, e, he⟩
      obtain ⟨t, hf⟩ := findEndpoint_of_below hreg he (hfit.below e p he)
      obtain ⟨hd, -, hget⟩ := mcapi_trans_endpoint_get_eq hreg hfit.num_le (p := p) hf
      exact ⟨hd, hget⟩
  handle p hd hget := by
    cases hf : findEndpoint db me.domain_id me.node_num p with
    | none => simp [mcapi_trans_endpoint_get_, hf] at hget
    | some t =>
      obtain ⟨d, n, e⟩ := t
      obtain ⟨hd', henc, hget'⟩ := mcapi_trans_endpoint_get_eq hreg hfit.num_le hf
      obtain ⟨-, -, he, -⟩ := findEndpoint_some hreg hfit.num_le hf
      obtain rfl : hd' = hd := by simpa [hget'] using hget
      have hdec := mcapi_trans_decode_encode henc
      refine ⟨?_, e, hdec, he, fun e' he' => hfit.unique e' e p he' he⟩
      rw [mcapi_trans_valid_endpoint, hdec]
      simp [hreg.domain.1, hreg.node.1, he.2.1]
  unique := hfit.unique

/-! ## One call -/

/-- Replacing a node entry by one with the same state word registers nobody
else. -/
theorem Registered.setNode (hreg : Registered db me) {d n : ℕ} {v : mcapi_node_entry}
    (hv : v.state = (db.node d n).state) : Registered (db.setNode d n v) me := by
  have hnode : ∀ d' n', ((db.setNode d n v).node d' n').state = (db.node d' n').state := by
    intro d' n'
    by_cases h : d' = d ∧ n' = n
    · obtain ⟨rfl, rfl⟩ := h
      rw [mcapi_database.setNode_self, hv]
    · rw [mcapi_database.setNode_of_ne _ h]
  exact
    { dindex_lt := hreg.dindex_lt
      nindex_lt := hreg.nindex_lt
      domain := by simpa using hreg.domain
      node := by simpa [hnode] using hreg.node
      domain_unique := by simpa using hreg.domain_unique
      node_unique := by simpa [hnode] using hreg.node_unique }

/-- The database after a successful create in the free entry `i`. -/
def created (db : mcapi_database) (me : Whoami) (port_num i : ℕ) : mcapi_database :=
  let node := db.node me.dindex me.nindex
  db.setNode me.dindex me.nindex
    { node with
      num_endpoints := u32 (node.num_endpoints + 1)
      endpoints := Function.update node.endpoints i
        { node.endpoints i with
          anonymous := false
          num_attributes := 0
          recv_queue := .zero
          state := { (node.endpoints i).state with
            port_num := port_num, opened := false, valid := true } } }

theorem created_registered (hreg : Registered db me) (port_num i : ℕ) :
    Registered (created db me port_num i) me :=
  hreg.setNode rfl

theorem created_num {port_num i : ℕ}
    (h : (db.node me.dindex me.nindex).num_endpoints < MCAPI_MAX_ENDPOINTS) :
    ((created db me port_num i).node me.dindex me.nindex).num_endpoints
      = (db.node me.dindex me.nindex).num_endpoints + 1 := by
  rw [MCAPI_MAX_ENDPOINTS_eq] at h
  rw [created, mcapi_database.setNode_self]
  exact u32_of_lt (by omega)

theorem created_hasPort {port_num i e p : ℕ} (hi : i < MCAPI_MAX_ENDPOINTS) :
    HasPort (created db me port_num i) me e p ↔
      (e = i ∧ port_num = p) ∨ (e ≠ i ∧ HasPort db me e p) := by
  simp only [HasPort, mcapi_database.endpoint, created, mcapi_database.setNode_self]
  by_cases h : e = i
  · subst h
    simp [hi]
  · simp [h]

/-- A node whose endpoints fit and that is not full has a free entry, not behind
the count. -/
theorem exists_free (hfit : EndpointsFit db me)
    (hnum : (db.node me.dindex me.nindex).num_endpoints < MCAPI_MAX_ENDPOINTS) :
    ∃ i ≤ (db.node me.dindex me.nindex).num_endpoints,
      (∀ p, ¬ HasPort db me i p) ∧
      (List.range MCAPI_MAX_ENDPOINTS).find?
        (fun i => !((db.node me.dindex me.nindex).endpoints i).state.valid) = some i := by
  set num := (db.node me.dindex me.nindex).num_endpoints with hdef
  have hfree : (!((db.node me.dindex me.nindex).endpoints num).state.valid) = true := by
    rw [Bool.not_eq_true', Bool.eq_false_iff]
    intro hv
    have hlt := hfit.below num _ ⟨hnum, hv, rfl⟩
    omega
  cases hf : (List.range MCAPI_MAX_ENDPOINTS).find?
      (fun i => !((db.node me.dindex me.nindex).endpoints i).state.valid) with
  | none => exact absurd hfree (List.find?_eq_none.mp hf num (List.mem_range.mpr hnum))
  | some i =>
    obtain ⟨hi, hlt, hbefore⟩ := List.find?_range_eq_some.mp hf
    refine ⟨i, ?_, fun p hp => ?_, rfl⟩
    · by_contra hgt
      have hval := hbefore num (by omega)
      rw [hfree] at hval
      exact Bool.noConfusion hval
    · have hval := hp.2.1
      rw [mcapi_database.endpoint] at hval
      rw [hval] at hi
      exact Bool.noConfusion hi

/-- A create is refused without a change, or takes a free entry not behind the
count for a port that no endpoint has. -/
theorem mcapi_endpoint_create_cases (hreg : Registered db me) (hfit : EndpointsFit db me)
    (port_id : ℕ) :
    (∃ st, mcapi_endpoint_create db me port_id = some (db, st) ∧
      (port_id = MCAPI_PORT_ANY →
        (db.node me.dindex me.nindex).num_endpoints = MCAPI_MAX_ENDPOINTS)) ∨
    (∃ i, mcapi_endpoint_create db me port_id = some (created db me port_id i, MCAPI_SUCCESS) ∧
      i ≤ (db.node me.dindex me.nindex).num_endpoints ∧
      (db.node me.dindex me.nindex).num_endpoints < MCAPI_MAX_ENDPOINTS ∧
      (∀ p, ¬ HasPort db me i p) ∧ (port_id ≠ MCAPI_PORT_ANY → ∀ e, ¬ HasPort db me e port_id)) := by
  rw [mcapi_endpoint_create]
  by_cases hex : mcapi_trans_endpoint_exists db me port_id = true
  · left
    refine ⟨MCAPI_ERR_ENDP_EXISTS, if_pos hex, fun hany => ?_⟩
    exact absurd hany (mcapi_trans_endpoint_exists_iff port_id |>.mp hex).1
  · rw [if_neg hex]
    by_cases hfull : (db.node me.dindex me.nindex).num_endpoints = MCAPI_MAX_ENDPOINTS
    · left
      exact ⟨MCAPI_ERR_ENDP_LIMIT, if_pos hfull, fun _ => hfull⟩
    · right
      have hnum := lt_of_le_of_ne hfit.num_le hfull
      obtain ⟨i, hi, hfree, hfind⟩ := exists_free hfit hnum
      have henc := mcapi_trans_encode_handle_of_inRange
        ⟨hreg.dindex_lt, hreg.nindex_lt, lt_of_le_of_lt hi hnum⟩
      refine ⟨i, ?_, hi, hnum, hfree, fun hany e he => ?_⟩
      · rw [if_neg hfull, mcapi_trans_endpoint_create, if_pos hnum]
        simp only [hfind, henc, Option.map_some, Option.isSome_some, if_true]
        rfl
      · exact hex ((mcapi_trans_endpoint_exists_iff port_id).mpr ⟨hany, e, he⟩)

/-- The database after endpoint `e` of the caller's node is deleted. -/
theorem deleted_hasPort {e e' p : ℕ} :
    HasPort (mcapi_trans_endpoint_delete db me.dindex me.nindex e) me e' p ↔
      e' ≠ e ∧ HasPort db me e' p := by
  simp only [HasPort, mcapi_database.endpoint, mcapi_trans_endpoint_delete,
    mcapi_database.setNode_self]
  by_cases h : e' = e
  · subst h
    simp [endpoint_entry.zero]
  · simp [h]

theorem deleted_num {e : ℕ} (hpos : 0 < (db.node me.dindex me.nindex).num_endpoints)
    (hle : (db.node me.dindex me.nindex).num_endpoints ≤ MCAPI_MAX_ENDPOINTS) :
    ((mcapi_trans_endpoint_delete db me.dindex me.nindex e).node me.dindex me.nindex).num_endpoints
      = (db.node me.dindex me.nindex).num_endpoints - 1 := by
  rw [MCAPI_MAX_ENDPOINTS_eq] at hle
  rw [mcapi_trans_endpoint_delete, mcapi_database.setNode_self]
  exact subU32_of_le (by omega) hpos

/-- A deletion elsewhere does not concern the caller's node. -/
theorem deleted_elsewhere {d n e : ℕ} (h : ¬ (me.dindex = d ∧ me.nindex = n)) :
    (mcapi_trans_endpoint_delete db d n e).node me.dindex me.nindex
      = db.node me.dindex me.nindex := by
  rw [mcapi_trans_endpoint_delete, mcapi_database.setNode_of_ne _ h]

/-- A deletion is refused without a change, or removes a valid, closed endpoint. -/
theorem mcapi_endpoint_delete_cases (hreg : Registered db me) (endpoint : ℕ) :
    (∃ st, mcapi_endpoint_delete db me endpoint = (db, st) ∧
      ∀ e p, mcapi_trans_decode_handle endpoint = some (me.dindex, me.nindex, e) →
        HasPort db me e p → (db.endpoint me.dindex me.nindex e).state.opened = true) ∨
    (∃ d n e, mcapi_endpoint_delete db me endpoint
        = (mcapi_trans_endpoint_delete db d n e, MCAPI_SUCCESS) ∧
      mcapi_trans_decode_handle endpoint = some (d, n, e) ∧
      (db.endpoint d n e).state.valid = true ∧ (db.endpoint d n e).state.opened = false) := by
  rw [mcapi_endpoint_delete]
  by_cases hvalid : mcapi_trans_valid_endpoint db endpoint = true
  · rw [if_neg (by rw [hvalid]; decide)]
    cases hdec : mcapi_trans_decode_handle endpoint with
    | none => simp [mcapi_trans_valid_endpoint, hdec] at hvalid
    | some t =>
      obtain ⟨d, n, e⟩ := t
      simp only [mcapi_trans_valid_endpoint, hdec, Bool.and_eq_true] at hvalid
      dsimp only
      by_cases howner : mcapi_trans_endpoint_isowner db me d n e = true
      · rw [if_neg (by rw [howner]; decide)]
        by_cases hopen : mcapi_trans_endpoint_channel_isopen db d n e = true
        · left
          refine ⟨MCAPI_ERR_CHAN_OPEN, if_pos hopen, fun e' p heq _ => ?_⟩
          obtain ⟨rfl, rfl, rfl⟩ := Option.some.inj heq
          exact hopen
        · right
          rw [if_neg hopen]
          exact ⟨d, n, e, rfl, rfl, hvalid.2, Bool.eq_false_iff.mpr hopen⟩
      · left
        refine ⟨MCAPI_ERR_ENDP_NOTOWNER, if_pos (by rw [Bool.eq_false_iff.mpr howner]; decide), ?_⟩
        intro e' p heq _
        obtain ⟨rfl, rfl, rfl⟩ := Option.some.inj heq
        refine absurd ?_ howner
        rw [mcapi_trans_endpoint_isowner, hvalid.2, hreg.node.2]
        simp
  · left
    refine ⟨MCAPI_ERR_ENDP_INVALID, if_pos (by rw [Bool.eq_false_iff.mpr hvalid]; decide), ?_⟩
    intro e p hdec he
    refine absurd ?_ hvalid
    simp [mcapi_trans_valid_endpoint, hdec, hreg.domain.1, hreg.node.1, he.2.1]

/-- A database whose own node is the same fits as before. -/
theorem EndpointsFit.of_node_eq {db' : mcapi_database} (hfit : EndpointsFit db me)
    (h : db'.node me.dindex me.nindex = db.node me.dindex me.nindex) : EndpointsFit db' me := by
  have hport : ∀ e p, HasPort db' me e p ↔ HasPort db me e p := by
    intro e p
    simp only [HasPort, mcapi_database.endpoint, h]
  exact
    { num_le := by rw [h]; exact hfit.num_le
      below := by simpa only [hport, h] using hfit.below
      not_any := by simpa only [hport] using hfit.not_any
      unique := by simpa only [hport] using hfit.unique }

/-- A create for a port other than `MCAPI_PORT_ANY` keeps the endpoints fitting,
one for `MCAPI_PORT_ANY` makes an endpoint that is found but not reported. -/
theorem created_step (hreg : Registered db me) (hfit : EndpointsFit db me) {port_id i : ℕ}
    (hi : i ≤ (db.node me.dindex me.nindex).num_endpoints)
    (hnum : (db.node me.dindex me.nindex).num_endpoints < MCAPI_MAX_ENDPOINTS)
    (hnew : port_id ≠ MCAPI_PORT_ANY → ∀ e, ¬ HasPort db me e port_id) :
    (port_id ≠ MCAPI_PORT_ANY → EndpointsFit (created db me port_id i) me) ∧
    (port_id = MCAPI_PORT_ANY → ¬ LookupAgrees (created db me port_id i) me) := by
  have hilt := lt_of_le_of_lt hi hnum
  have hcount := @created_num db me port_id i hnum
  constructor
  · intro hany
    refine ⟨by omega, fun e p he => ?_, fun e he => ?_, fun e e' p he he' => ?_⟩
    · rw [hcount]
      rcases (created_hasPort hilt).mp he with ⟨rfl, -⟩ | ⟨-, he⟩
      · omega
      · have hlt := hfit.below e p he
        omega
    · rcases (created_hasPort hilt).mp he with ⟨-, hp⟩ | ⟨-, he⟩
      · exact hany hp
      · exact hfit.not_any e he
    · rcases (created_hasPort hilt).mp he with ⟨rfl, hp⟩ | ⟨-, hold⟩ <;>
        rcases (created_hasPort hilt).mp he' with ⟨rfl, hp'⟩ | ⟨-, hold'⟩
      · rfl
      · exact absurd (hp ▸ hold') (hnew hany e')
      · exact absurd (hp' ▸ hold) (hnew hany e)
      · exact hfit.unique e e' p hold hold'
  · rintro rfl hlook
    have hport : HasPort (created db me MCAPI_PORT_ANY i) me i MCAPI_PORT_ANY :=
      (created_hasPort hilt).mpr (Or.inl ⟨rfl, rfl⟩)
    have hreg' := created_registered hreg MCAPI_PORT_ANY i
    obtain ⟨t, hf⟩ := findEndpoint_of_below hreg' hport (by omega)
    obtain ⟨hd, -, hget⟩ := mcapi_trans_endpoint_get_eq hreg' (by omega) (p := MCAPI_PORT_ANY) hf
    have hex := (hlook.get_iff MCAPI_PORT_ANY).mp ⟨hd, hget⟩
    exact (mcapi_trans_endpoint_exists_iff _ |>.mp hex).1 rfl

/-- A deletion that leaves a valid endpoint at or behind the new count hides it
from the lookup. -/
theorem deleted_step (hreg : Registered db me) (hfit : EndpointsFit db me) {e p : ℕ}
    (he : HasPort db me e p) :
    ((∀ e' p', HasPort db me e' p' → e' ≠ e →
        e' < (db.node me.dindex me.nindex).num_endpoints - 1) →
      EndpointsFit (mcapi_trans_endpoint_delete db me.dindex me.nindex e) me) ∧
    (∀ e' p', HasPort db me e' p' → e' ≠ e →
        ¬ e' < (db.node me.dindex me.nindex).num_endpoints - 1 →
      ¬ LookupAgrees (mcapi_trans_endpoint_delete db me.dindex me.nindex e) me) := by
  have hlt := hfit.below e p he
  have hcount := @deleted_num db me e (by omega) hfit.num_le
  have hnum := hfit.num_le
  constructor
  · intro hbelow
    refine ⟨by omega, fun e' p' he' => ?_, fun e' he' => ?_, fun e' e'' p' he' he'' => ?_⟩
    · obtain ⟨hne, hold⟩ := deleted_hasPort.mp he'
      rw [hcount]
      exact hbelow e' p' hold hne
    · exact hfit.not_any e' (deleted_hasPort.mp he').2
    · exact hfit.unique e' e'' p' (deleted_hasPort.mp he').2 (deleted_hasPort.mp he'').2
  · intro e' p' he' hne hbehind hlook
    have hreg' : Registered (mcapi_trans_endpoint_delete db me.dindex me.nindex e) me :=
      hreg.setNode rfl
    have hnot : p' ≠ MCAPI_PORT_ANY := by
      rintro rfl
      exact hfit.not_any e' he'
    have hex := (mcapi_trans_endpoint_exists_iff p').mpr
      ⟨hnot, e', deleted_hasPort.mpr ⟨hne, he'⟩⟩
    obtain ⟨hd, hget⟩ := (hlook.get_iff p').mpr hex
    cases hf : findEndpoint (mcapi_trans_endpoint_delete db me.dindex me.nindex e)
        me.domain_id me.node_num p' with
    | none => simp [mcapi_trans_endpoint_get_, hf] at hget
    | some t =>
      -- what is found has the same port, so it is the endpoint behind the count
      obtain ⟨-, -, hfound, hfoundlt⟩ := findEndpoint_some hreg' (by omega) (p := p') hf
      have heq := hfit.unique _ _ p' (deleted_hasPort.mp hfound).2 he'
      omega

/-- One call: it returns, keeps the endpoints fitting if the condition holds,
and makes the lookup wrong otherwise. -/
theorem endpointCall_step (hreg : Registered db me) (hfit : EndpointsFit db me)
    (call : EndpointCall) :
    ∃ db' st, call.perform db me = some (db', st) ∧
      (Keeps db me call → Registered db' me ∧ EndpointsFit db' me) ∧
      (¬ Keeps db me call → ¬ LookupAgrees db' me) := by
  cases call with
  | create port_id =>
    rcases mcapi_endpoint_create_cases hreg hfit port_id with
      ⟨st, hst, hany⟩ | ⟨i, hst, hi, hnum, -, hnew⟩
    · exact ⟨db, st, hst, fun _ => ⟨hreg, hfit⟩, fun h => absurd hany h⟩
    · obtain ⟨hok, hbad⟩ := created_step hreg hfit hi hnum hnew
      refine ⟨_, _, hst, fun hkeep => ⟨created_registered hreg port_id i, hok fun hany => ?_⟩,
        fun hkeep => hbad ?_⟩
      · exact absurd (hkeep hany) (by omega)
      · by_contra hany
        exact hkeep fun h => absurd h hany
  | delete endpoint =>
    rcases mcapi_endpoint_delete_cases hreg endpoint with
      ⟨st, hst, hopen⟩ | ⟨d, n, e, hst, hdec, hvalid, hclosed⟩
    · refine ⟨db, st, congrArg some hst, fun _ => ⟨hreg, hfit⟩, fun h => absurd ?_ h⟩
      intro e p hdec he hclosed
      exact absurd (hopen e p hdec he) (by rw [hclosed]; decide)
    · refine ⟨_, _, congrArg some hst, ?_⟩
      by_cases hown : me.dindex = d ∧ me.nindex = n
      · obtain ⟨rfl, rfl⟩ := hown
        have he : HasPort db me e (db.endpoint me.dindex me.nindex e).state.port_num :=
          ⟨(mcapi_trans_decode_inRange hdec).2.2, hvalid, rfl⟩
        obtain ⟨hok, hbad⟩ := deleted_step hreg hfit he
        refine ⟨fun hkeep => ⟨hreg.setNode rfl, hok (hkeep e _ hdec he hclosed)⟩, fun hkeep => ?_⟩
        by_contra hlook
        refine hkeep fun e'' p hdec' _ _ e' p' he' hne => ?_
        obtain ⟨-, -, rfl⟩ := Option.some.inj (hdec.symm.trans hdec')
        by_contra hbehind
        exact hbad e' p' he' hne hbehind hlook
      · refine ⟨fun _ => ⟨hreg.setNode rfl, hfit.of_node_eq (deleted_elsewhere hown)⟩,
          fun hkeep => absurd ?_ hkeep⟩
        intro e' p hdec' _ _
        obtain ⟨rfl, rfl, rfl⟩ := Option.some.inj (hdec.symm.trans hdec')
        exact absurd ⟨rfl, rfl⟩ hown

end

/-! ## Sequences of calls -/

/-- The caller's node has no endpoint yet. -/
def NoEndpoints (db : mcapi_database) (me : Whoami) : Prop :=
  (db.node me.dindex me.nindex).num_endpoints ≤ MCAPI_MAX_ENDPOINTS ∧ ∀ e p, ¬ HasPort db me e p

theorem NoEndpoints.fit {db : mcapi_database} {me : Whoami} (h : NoEndpoints db me) :
    EndpointsFit db me where
  num_le := h.1
  below e p he := absurd he (h.2 e p)
  not_any e := h.2 e _
  unique e _ p he := absurd he (h.2 e p)

/-- **Lookup agrees with the table** after every initial segment of a sequence
of creates and deletes exactly when every call keeps the endpoints fitting the
count. -/
theorem endpoint_lookup_agrees_iff {db : mcapi_database} {me : Whoami} (hreg : Registered db me)
    (hnone : NoEndpoints db me) (calls : List EndpointCall) :
    (∀ k, ∃ r, answers (fun db call => EndpointCall.perform db me call) db (calls.take k) = some r ∧
        LookupAgrees r.1 me) ↔
      AllSteps (fun db call => EndpointCall.perform db me call) (fun db call => Keeps db me call)
        db calls := by
  refine take_reaches_iff (I := fun db => Registered db me ∧ EndpointsFit db me)
    (fun db h => h.2.lookup h.1) (fun db call h => ?_) calls db ⟨hreg, hnone.fit⟩
  exact endpointCall_step h.1 h.2 call

/-! ## Two sequences of calls -/

/-- A database with one registered node: domain 1, node 1. -/
def oneNode : mcapi_database :=
  ⟨fun d => if d = 0 then
      ⟨1, ⟨1, true, true⟩, fun n => if n = 0 then
        ⟨⟨1, true, true, false⟩, 0, fun _ => .zero, 0⟩ else .zero⟩
    else ⟨0, ⟨0, false, false⟩, fun _ => .zero⟩⟩

theorem oneNode_registered : Registered oneNode ⟨1, 0, 1, 0⟩ where
  dindex_lt := by decide
  nindex_lt := by decide
  domain := by decide
  node := by decide
  domain_unique := by decide
  node_unique := by decide

theorem oneNode_noEndpoints : NoEndpoints oneNode ⟨1, 0, 1, 0⟩ :=
  ⟨by decide, fun _ _ he => Bool.noConfusion he.2.1⟩

/-- Two endpoints are created and the second one is deleted. -/
theorem endpoint_lookup_agrees_iff_two :
    (∀ k, ∃ r, answers (fun db call => EndpointCall.perform db ⟨1, 0, 1, 0⟩ call) oneNode
        ([.create 10, .create 11, .delete 1].take k) = some r ∧ LookupAgrees r.1 ⟨1, 0, 1, 0⟩) ↔
      AllSteps (fun db call => EndpointCall.perform db ⟨1, 0, 1, 0⟩ call)
        (fun db call => Keeps db ⟨1, 0, 1, 0⟩ call) oneNode
        [.create 10, .create 11, .delete 1] :=
  endpoint_lookup_agrees_iff oneNode_registered oneNode_noEndpoints _

/-- Two endpoints are created and the first one is deleted: the second one
exists and is not found. And two endpoints created for `MCAPI_PORT_ANY` have the
same port. -/
theorem endpoint_lookup_disagrees :
    (∃ r, answers (fun db call => EndpointCall.perform db ⟨1, 0, 1, 0⟩ call) oneNode
        [.create 10, .create 11, .delete 0] = some r ∧ ¬ LookupAgrees r.1 ⟨1, 0, 1, 0⟩) ∧
    (∃ r, answers (fun db call => EndpointCall.perform db ⟨1, 0, 1, 0⟩ call) oneNode
        [.create MCAPI_PORT_ANY, .create MCAPI_PORT_ANY] = some r ∧
      ¬ LookupAgrees r.1 ⟨1, 0, 1, 0⟩) := by
  constructor
  · refine ⟨_, rfl, fun h => ?_⟩
    obtain ⟨hd, hget⟩ := (h.get_iff 11).mpr (by decide)
    have hnone := hget.symm.trans (show _ = some none from by decide)
    exact Option.some_ne_none hd (Option.some.inj hnone)
  · refine ⟨_, rfl, fun h => ?_⟩
    have heq := h.unique 0 1 MCAPI_PORT_ANY ⟨by decide, by decide, by decide⟩
      ⟨by decide, by decide, by decide⟩
    exact absurd heq (by decide)

end MxApi
