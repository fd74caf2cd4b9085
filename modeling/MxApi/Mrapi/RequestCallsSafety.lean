/-
The requests of remote memory under any interleaving.

The requests in use are exclusive claims on the table ([`Inv.claims`]): the steps of a call
`_i` change a request that is the client's own, a set-up finds one that nobody claims, and
the test of an outstanding request gives its claim up. A set-up that finds no request and the
test of a handle that is not outstanding end the process, or give away the result of another
handle with the same index: handles are decoded by truncation. Without these two the
contract holds, and with either it does not ([`requests_ok`]).
-/
import MxApi.Lib.Claims
import MxApi.Mrapi.RequestCalls
import MxApi.Mrapi.TransferBounds

set_option autoImplicit false

namespace MxApi.Transfer

open Lib
open LockTable (Node node0 mrapi_impl_encode_hndl mrapi_impl_decode_hndl decode_encode_hndl)
open mrapi_status_t

/-! ## The invariant -/

/-- What is known of a request in use. -/
def Sys.Content (s : Sys) (o : ℕ ⊕ ℕ) (e : mrapi_request_data) : Prop :=
  e.valid = true ∧
    match o with
    | .inl c =>
      match s.pc c with
      | .completed _ _ _ => e.completed = true
      | .stored _ _ status => e.completed = true ∧ e.status = status
      | _ => True
    | .inr k => e.completed = true ∧ e.status = (s.issues k).status

/-- The requests in use, with what is known of them. -/
def Sys.claim (s : Sys) (o : ℕ ⊕ ℕ) : Option (ℕ × (mrapi_request_data → Prop)) :=
  (s.index o).map fun r => (r, s.Content o)

/-- The status of a call is the one that the call that waits would return. -/
def Pc.Reports (pc : Pc) (x : Db) (c : Node) : Prop :=
  match pc with
  | .reserved _ op status => checkTransfer x c op.rmem op.a = MRAPI_SUCCESS ∧ status = MRAPI_SUCCESS
  | .moved _ op status | .completed _ op status | .stored _ op status => op.Reports x c status
  | _ => True

structure Inv (x : Db) (node : ℕ → Node) (s : Sys) : Prop where
  claims : Claims s.claim s.table
  index_lt : ∀ o r, s.index o = some r → r < MRAPI_MAX_REQUESTS
  cancelled : ∀ r, (s.table r).cancelled = false
  calls : ∀ c, (s.pc c).Reports x (node c)
  issues : ∀ k, k < s.count →
    (s.issues k).op.Reports x (node (s.issues k).client) (s.issues k).status
  once : ∀ k, s.yielded k = [] ∨ k < s.count ∧ s.yielded k = [(s.issues k).status]

variable {x : Db} {node : ℕ → Node} {s t : Sys} {c r k request : ℕ} {op : Op}
  {status : mrapi_status_t} {o o' : ℕ ⊕ ℕ} {pc : Pc}

theorem claim_some {P : mrapi_request_data → Prop} :
    s.claim o = some (r, P) ↔ s.index o = some r ∧ s.Content o = P := by
  unfold Sys.claim
  rw [Option.map_eq_some_iff]
  constructor
  · rintro ⟨r', hr', heq⟩
    obtain ⟨rfl, hP⟩ := Prod.mk.inj heq
    exact ⟨hr', hP⟩
  · rintro ⟨hr, rfl⟩
    exact ⟨r, hr, rfl⟩

/-- Two requests in use do not share an index. -/
theorem Inv.apart (h : Inv x node s) (ho : s.index o = some r) (ho' : s.index o' = some r) :
    o = o' :=
  h.claims.excl (claim_some.mpr ⟨ho, rfl⟩) (claim_some.mpr ⟨ho', rfl⟩)

theorem Inv.content (h : Inv x node s) (ho : s.index o = some r) : s.Content o (s.table r) :=
  h.claims.content (claim_some.mpr ⟨ho, rfl⟩)

theorem Inv.good (h : Inv x node s) : Good x node s where
  apart _ _ _ := h.apart
  once k hk := by
    rcases h.once k with hnone | ⟨_, hone⟩
    · exact .inl hnone
    · exact .inr ⟨_, hone, h.issues k hk⟩

theorem Inv.init : Inv x node init where
  claims := by
    have hnone : ∀ o, Transfer.init.claim o = none := by
      rintro (c | k)
      · rfl
      · rfl
    constructor
    · intro o _ _ _ _ ho
      rw [hnone o] at ho
      cases ho
    · intro o _ _ ho
      rw [hnone o] at ho
      cases ho
  index_lt := by
    rintro (c | k) r ho
    · cases ho
    · cases ho
  cancelled _ := rfl
  calls _ := trivial
  issues _ hk := absurd hk (Nat.not_lt_zero _)
  once _ := .inl rfl

/-! ## A client goes on -/

/-- A client that is where it was claims what it claimed. -/
theorem claim_client {c' : ℕ} (hpc : t.pc c' = s.pc c') :
    t.claim (.inl c') = s.claim (.inl c') := by
  have hindex : t.index (.inl c') = s.index (.inl c') := congrArg Pc.index hpc
  have hcontent : t.Content (.inl c') = s.Content (.inl c') := by
    funext e
    simp only [Sys.Content, hpc]
  unfold Sys.claim
  rw [hindex, hcontent]

/-- An issued request that is still in use is claimed as it was. -/
theorem claim_issued (hindex : t.index (.inr k) = s.index (.inr k))
    (hissue : t.issues k = s.issues k) : t.claim (.inr k) = s.claim (.inr k) := by
  have hcontent : t.Content (.inr k) = s.Content (.inr k) := by
    funext e
    simp only [Sys.Content, hissue]
  unfold Sys.claim
  rw [hindex, hcontent]

/-- What a client does leaves the claims of the others. -/
theorem claim_goto (q : Requests) (reply : Reply) (ho : o ≠ .inl c) :
    Sys.claim { s.goto c pc with table := q, reply := reply } o = s.claim o := by
  cases o with
  | inl c' =>
    have hc : c' ≠ c := fun heq => ho (by rw [heq])
    exact claim_client (Function.update_of_ne hc _ _)
  | inr k => exact claim_issued rfl rfl

/-- **A client goes on** with a request that is its own or that it finds not in use. -/
theorem Inv.goto (h : Inv x node s) (q : Requests) (reply : Reply) {r : ℕ}
    (hcell : ∀ o', s.index o' = some r → o' = .inl c)
    (hq : ∀ r', r' ≠ r → q r' = s.table r') (hcancelled : (q r).cancelled = false)
    (hindex : ∀ r', pc.index = some r' → r' = r ∧ r < MRAPI_MAX_REQUESTS)
    (hcontent : pc.index = some r →
      Sys.Content { s.goto c pc with table := q, reply := reply } (.inl c) (q r))
    (hreports : pc.Reports x (node c)) :
    Inv x node { s.goto c pc with table := q, reply := reply } where
  claims := by
    refine h.claims.change (.inl c) r ?_ (fun o' ho' => claim_goto q reply ho') hq ?_
    · intro o' P ho'
      exact hcell o' (claim_some.mp ho').1
    · intro r' P ho
      obtain ⟨hr', rfl⟩ := claim_some.mp ho
      change Pc.index (Function.update s.pc c pc c) = some r' at hr'
      rw [Function.update_self] at hr'
      have hr := (hindex r' hr').1
      rw [hr] at hr'
      exact ⟨hr, hcontent hr'⟩
  index_lt := by
    rintro (c' | k) r' ho
    · by_cases hc : c' = c
      · change Pc.index (Function.update s.pc c pc c') = some r' at ho
        rw [hc, Function.update_self] at ho
        obtain ⟨rfl, hlt⟩ := hindex r' ho
        exact hlt
      · change Pc.index (Function.update s.pc c pc c') = some r' at ho
        rw [Function.update_of_ne hc] at ho
        exact h.index_lt (.inl c') r' ho
    · exact h.index_lt (.inr k) r' ho
  cancelled := by
    intro r'
    by_cases hr : r' = r
    · rw [hr]
      exact hcancelled
    · change (q r').cancelled = false
      rw [hq r' hr]
      exact h.cancelled r'
  calls := by
    intro c'
    change Pc.Reports (Function.update s.pc c pc c') x (node c')
    by_cases hc : c' = c
    · rw [hc, Function.update_self]
      exact hreports
    · rw [Function.update_of_ne hc]
      exact h.calls c'
  issues := h.issues
  once := h.once

/-! ## The steps of a call -/

/-- The request that is free is nobody's. -/
theorem Inv.start (h : Inv x node s)
    (hmeets : Meets x node s (.start c op)) : Inv x node (s.start x node c op) := by
  unfold Sys.start
  split
  · rename_i hcheck
    obtain ⟨i, hi, hfree⟩ := hmeets hcheck
    cases hunused : s.table.unused with
    | none =>
      have hused := search_eq_none.mp hunused i hi
      rw [hfree] at hused
      cases hused
    | some r =>
      obtain ⟨hr, hvalid⟩ := search_some hunused
      have hsetup : mrapi_impl_setup_request s.table = some (Function.update s.table r
          { s.table r with valid := true, cancelled := false }, r) := by
        unfold mrapi_impl_setup_request
        rw [hunused]
      rw [hsetup]
      apply h.goto (r := r)
      · intro o' ho'
        -- a request in use is valid
        have hused := (h.content ho').1
        rw [hused] at hvalid
        cases hvalid
      · intro r' hr'
        exact Function.update_of_ne hr' _ _
      · rw [Function.update_self]
      · intro r' hr'
        exact ⟨(Option.some.inj hr').symm, hr⟩
      · intro _
        rw [Function.update_self]
        refine ⟨rfl, ?_⟩
        simp only [Sys.goto, Function.update_self]
      · exact ⟨hcheck, rfl⟩
  · exact ⟨h.claims, h.index_lt, h.cancelled, h.calls, h.issues, h.once⟩

/-- A client's own request is nobody else's. -/
theorem Inv.own (h : Inv x node s) (hindex : (s.pc c).index = some r) :
    ∀ o', s.index o' = some r → o' = .inl c := by
  have hown : s.index (.inl c) = some r := hindex
  exact fun _ ho' => h.apart ho' hown

/-- The transfer leaves the status alone, and the call that waits returns that. -/
theorem reports_of_impl {fuel : ℕ} {m : Moved}
    (hcheck : checkTransfer x (node c) op.rmem op.a = MRAPI_SUCCESS)
    (himpl : op.d.impl x op.rmem op.local_buf op.a fuel = some m) :
    op.Reports x (node c) MRAPI_SUCCESS := by
  refine ⟨fuel, ⟨MRAPI_SUCCESS, m⟩, ?_, rfl⟩
  rw [call_checked hcheck, himpl]
  rfl

theorem Inv.transfer (h : Inv x node s) {fuel : ℕ} {m : Moved}
    (hpc : s.pc c = .reserved r op status)
    (himpl : op.d.impl x op.rmem op.local_buf op.a fuel = some m) :
    Inv x node (s.goto c (.moved r op status)) := by
  have hindex : (s.pc c).index = some r := by
    rw [hpc]
    rfl
  have hcall := h.calls c
  rw [hpc] at hcall
  obtain ⟨hcheck, rfl⟩ := hcall
  apply h.goto (r := r) s.table .quiet (h.own hindex) (fun _ _ => rfl) (h.cancelled r)
  · intro r' hr'
    exact ⟨(Option.some.inj hr').symm, h.index_lt (.inl c) r hindex⟩
  · intro _
    refine ⟨(h.content (o := .inl c) hindex).1, ?_⟩
    simp only [Sys.goto, Function.update_self]
  · exact reports_of_impl hcheck himpl

theorem Inv.complete (h : Inv x node s) (hpc : s.pc c = .moved r op status) :
    Inv x node { s.goto c (.completed r op status) with table := s.complete r } := by
  have hindex : (s.pc c).index = some r := by
    rw [hpc]
    rfl
  have hcall := h.calls c
  rw [hpc] at hcall
  apply h.goto (r := r) (s.complete r) .quiet (h.own hindex)
  · intro r' hr'
    exact Function.update_of_ne hr' _ _
  · simp only [Sys.complete, Function.update_self]
    exact h.cancelled r
  · intro r' hr'
    exact ⟨(Option.some.inj hr').symm, h.index_lt (.inl c) r hindex⟩
  · intro _
    simp only [Sys.complete, Sys.Content, Sys.goto, Function.update_self, and_true]
    exact (h.content (o := .inl c) hindex).1
  · exact hcall

theorem Inv.store (h : Inv x node s) (hpc : s.pc c = .completed r op status) :
    Inv x node { s.goto c (.stored r op status) with table := s.store r status } := by
  have hindex : (s.pc c).index = some r := by
    rw [hpc]
    rfl
  have hcall := h.calls c
  rw [hpc] at hcall
  have hcontent := h.content (o := .inl c) hindex
  simp only [Sys.Content, hpc] at hcontent
  apply h.goto (r := r) (s.store r status) .quiet (h.own hindex)
  · intro r' hr'
    exact Function.update_of_ne hr' _ _
  · simp only [Sys.store, Function.update_self]
    exact h.cancelled r
  · intro r' hr'
    exact ⟨(Option.some.inj hr').symm, h.index_lt (.inl c) r hindex⟩
  · intro _
    simp only [Sys.store, Sys.Content, Sys.goto, Function.update_self, and_true]
    exact hcontent
  · exact hcall

/-! ## A handle is returned -/

/-- The client's request becomes one that is issued. -/
theorem Inv.issue (h : Inv x node s) (hpc : s.pc c = .stored r op status) :
    Inv x node (s.issue c r op status) := by
  have hindex : s.index (.inl c) = some r := by
    change (s.pc c).index = some r
    rw [hpc]
    rfl
  have hcall := h.calls c
  rw [hpc] at hcall
  have hnew : s.yielded s.count = [] := by
    rcases h.once s.count with hnone | ⟨hlt, _⟩
    · exact hnone
    · exact absurd hlt (Nat.lt_irrefl _)
  have hlast : (s.issue c r op status).issues s.count = ⟨r, c, op, status⟩ :=
    Function.update_self _ _ _
  -- of the other issued requests nothing changes
  have hissues : ∀ k, k ≠ s.count → (s.issue c r op status).issues k = s.issues k :=
    fun k hk => Function.update_of_ne hk _ _
  have hidle : (s.issue c r op status).pc c = .idle := Function.update_self _ _ _
  have hpcs : ∀ c', c' ≠ c → (s.issue c r op status).pc c' = s.pc c' :=
    fun c' hc => Function.update_of_ne hc _ _
  have hfrom : (s.issue c r op status).index (.inl c) = none := congrArg Pc.index hidle
  have hto : (s.issue c r op status).index (.inr s.count) = some r := by
    change (if s.count < s.count + 1 ∧ s.yielded s.count = [] then some _ else none) = _
    rw [if_pos ⟨Nat.lt_succ_self _, hnew⟩, hlast]
  have hclients : ∀ c', c' ≠ c → (s.issue c r op status).index (.inl c') = s.index (.inl c') :=
    fun c' hc => congrArg Pc.index (hpcs c' hc)
  have hothers : ∀ k, k ≠ s.count →
      (s.issue c r op status).index (.inr k) = s.index (.inr k) := by
    intro k hk
    have hlt : k < s.count + 1 ↔ k < s.count := by omega
    change (if k < s.count + 1 ∧ s.yielded k = [] then some _ else none) = _
    rw [hissues k hk]
    simp only [hlt, Sys.index]
  refine ⟨?_, ?_, h.cancelled, ?_, ?_, ?_⟩
  · refine h.claims.pass (claim_some.mpr ⟨hindex, rfl⟩) (t := .inr s.count) (r := r) ?_
      (claim_some.mpr ⟨hto, rfl⟩) ?_ (fun _ _ => rfl) ?_
    · unfold Sys.claim
      rw [hfrom]
      rfl
    · rintro (c' | k) hne hne'
      · exact claim_client (hpcs c' fun heq => hne (by rw [heq]))
      · have hk : k ≠ s.count := fun heq => hne' (by rw [heq])
        exact claim_issued (hothers k hk) (hissues k hk)
    · have hcontent := h.content hindex
      simp only [Sys.Content, hpc] at hcontent
      simp only [Sys.Content, hlast]
      exact hcontent
  · rintro (c' | k) r' ho
    · by_cases hc : c' = c
      · rw [hc, hfrom] at ho
        cases ho
      · rw [hclients c' hc] at ho
        exact h.index_lt _ r' ho
    · by_cases hk : k = s.count
      · rw [hk, hto, Option.some.injEq] at ho
        rw [← ho]
        exact h.index_lt _ r hindex
      · rw [hothers k hk] at ho
        exact h.index_lt _ r' ho
  · intro c'
    by_cases hc : c' = c
    · rw [hc, hidle]
      exact trivial
    · rw [hpcs c' hc]
      exact h.calls c'
  · intro k hk
    by_cases hlt : k = s.count
    · rw [hlt, hlast]
      exact hcall
    · rw [hissues k hlt]
      change k < s.count + 1 at hk
      exact h.issues k (by omega)
  · intro k
    rcases h.once k with hnone | ⟨hlt, hone⟩
    · exact .inl hnone
    · rw [hissues k (Nat.ne_of_lt hlt)]
      exact .inr ⟨Nat.lt_succ_of_lt hlt, hone⟩

/-! ## A request is tested -/

theorem outstanding_some (hout : s.outstanding request = some k) :
    k < s.count ∧ s.yielded k = [] ∧ mrapi_impl_encode_hndl (s.issues k).r = request := by
  obtain ⟨hk, htoken⟩ := search_some hout
  rw [Bool.and_eq_true, List.isEmpty_iff, beq_iff_eq] at htoken
  exact ⟨hk, htoken⟩

/-- The test of an outstanding request finds it complete, with its status. -/
theorem Inv.test_eq (h : Inv x node s) (hout : s.outstanding request = some k) :
    mrapi_impl_test s.table request =
      some (Function.update s.table (s.issues k).r .zero, (s.issues k).status) := by
  obtain ⟨hk, hnone, rfl⟩ := outstanding_some hout
  have hindex : s.index (.inr k) = some (s.issues k).r := if_pos ⟨hk, hnone⟩
  have hlt := h.index_lt _ _ hindex
  have hmax : MRAPI_MAX_REQUESTS < 2 ^ 16 := by decide
  obtain ⟨hvalid, hcompleted, hstatus⟩ := h.content hindex
  unfold mrapi_impl_test Requests.names
  simp only [decode_encode_hndl (hlt.trans hmax), hlt, hvalid, hcompleted, hstatus, decide_true,
    Bool.and_self, if_true]

/-- What the test of an outstanding request does. -/
theorem Inv.test_step (h : Inv x node s) (hout : s.outstanding request = some k) :
    s.test c request = { s with
      table := Function.update s.table (s.issues k).r .zero
      yielded := Function.update s.yielded k [(s.issues k).status]
      reply := .tested true (s.issues k).status } := by
  obtain ⟨_, hnone, _⟩ := outstanding_some hout
  unfold Sys.test
  rw [h.test_eq hout]
  simp only [hout, hnone, List.nil_append]

/-- The request that has been tested is not in use any more. -/
theorem Inv.test (h : Inv x node s) (hout : s.outstanding request = some k) :
    Inv x node (s.test c request) := by
  obtain ⟨hk, hnone, _⟩ := outstanding_some hout
  have hindex : s.index (.inr k) = some (s.issues k).r := if_pos ⟨hk, hnone⟩
  rw [h.test_step hout]
  generalize ht : { s with
    table := Function.update s.table (s.issues k).r .zero
    yielded := Function.update s.yielded k [(s.issues k).status]
    reply := .tested true (s.issues k).status } = t
  have hpc : t.pc = s.pc := by rw [← ht]
  have hissues : t.issues = s.issues := by rw [← ht]
  have hcount : t.count = s.count := by rw [← ht]
  have hself : t.yielded k = [(s.issues k).status] := by
    rw [← ht]
    exact Function.update_self _ _ _
  have hrest : ∀ k', k' ≠ k → t.yielded k' = s.yielded k' := by
    rw [← ht]
    exact fun k' hne => Function.update_of_ne hne _ _
  have hgone : t.index (.inr k) = none := by
    simp [Sys.index, hself]
  have hothers : ∀ k', k' ≠ k → t.index (.inr k') = s.index (.inr k') := by
    intro k' hne
    simp only [Sys.index, hcount, hissues, hrest k' hne]
  have hclients : ∀ c', t.index (.inl c') = s.index (.inl c') := by
    intro c'
    simp only [Sys.index, hpc]
  refine ⟨?_, ?_, ?_, ?_, ?_, ?_⟩
  · refine h.claims.change (.inr k) (s.issues k).r ?_ ?_ ?_ ?_
    · intro o' P ho'
      exact h.apart (claim_some.mp ho').1 hindex
    · rintro (c' | k') hne
      · exact claim_client (by rw [hpc])
      · have hk' : k' ≠ k := fun heq => hne (by rw [heq])
        exact claim_issued (hothers k' hk') (by rw [hissues])
    · intro r' hr'
      rw [← ht]
      exact Function.update_of_ne hr' _ _
    · intro r' P ho
      have hsome := (claim_some.mp ho).1
      rw [hgone] at hsome
      cases hsome
  · rintro (c' | k') r' ho
    · rw [hclients c'] at ho
      exact h.index_lt _ r' ho
    · by_cases hk' : k' = k
      · rw [hk', hgone] at ho
        cases ho
      · rw [hothers k' hk'] at ho
        exact h.index_lt _ r' ho
  · intro r'
    rw [← ht]
    by_cases hr : r' = (s.issues k).r
    · simp only [hr, Function.update_self]
      rfl
    · simp only [Function.update_of_ne hr]
      exact h.cancelled r'
  · rw [hpc]
    exact h.calls
  · rw [hcount, hissues]
    exact h.issues
  · intro k'
    rw [hcount, hissues]
    by_cases hk' : k' = k
    · rw [hk', hself]
      exact .inr ⟨hk, rfl⟩
    · rw [hrest k' hk']
      exact h.once k'

/-! ## Runs -/

/-- **The step lemma.** What meets the condition keeps the invariant. -/
theorem inv_step (h : Inv x node s) {a : Label} (hstep : step x node s a = some t)
    (hmeets : Meets x node s a) : Inv x node t := by
  cases a with
  | start c op =>
    simp only [step] at hstep
    split at hstep
    · rw [← Option.some.inj hstep]
      exact h.start hmeets
    · cases hstep
  | transfer c fuel =>
    simp only [step] at hstep
    split at hstep
    · rename_i r op status hpc
      obtain ⟨m, himpl, rfl⟩ := Option.map_eq_some_iff.mp hstep
      exact h.transfer hpc himpl
    · cases hstep
  | complete c =>
    simp only [step] at hstep
    split at hstep
    · rename_i r op status hpc
      rw [← Option.some.inj hstep]
      exact h.complete hpc
    · cases hstep
  | store c =>
    simp only [step] at hstep
    split at hstep
    · rename_i r op status hpc
      rw [← Option.some.inj hstep]
      exact h.store hpc
    · cases hstep
  | issue c =>
    simp only [step] at hstep
    split at hstep
    · rename_i r op status hpc
      rw [← Option.some.inj hstep]
      exact h.issue hpc
    · cases hstep
  | test c request =>
    simp only [step] at hstep
    split at hstep
    · rw [← Option.some.inj hstep]
      obtain ⟨k, hout⟩ := Option.isSome_iff_exists.mp hmeets
      exact h.test hout
    · cases hstep
  | canceled c request =>
    simp only [step] at hstep
    split at hstep
    · rw [← Option.some.inj hstep]
      exact ⟨h.claims, h.index_lt, h.cancelled, h.calls, h.issues, h.once⟩
    · cases hstep

/-- A set-up without a request that is not in use ends the process. -/
theorem start_full (hcheck : checkTransfer x (node c) op.rmem op.a = MRAPI_SUCCESS)
    (hfull : ∀ i, i < MRAPI_MAX_REQUESTS → (s.table i).valid = true) :
    (s.start x node c op).reply = .ended := by
  have hnone : s.table.unused = none := by
    unfold Requests.unused
    rw [search_eq_none]
    intro i hi
    rw [hfull i hi]
    rfl
  have hsetup : mrapi_impl_setup_request s.table = none := by
    unfold mrapi_impl_setup_request
    rw [hnone]
  unfold Sys.start
  rw [if_pos hcheck, hsetup]

/-- A test never says that the request is not complete. -/
theorem test_reply : (s.test c request).reply ≠ .tested false status := by
  unfold Sys.test
  split
  · exact fun h => by cases h
  · exact fun h => by cases h

/-- So only the test of an outstanding request does what it has to do. -/
theorem outstanding_of_stepOk (hstep : step x node s (.test c request) = some t)
    (hok : StepOk x node s (.test c request) t) : (s.outstanding request).isSome = true := by
  simp only [step] at hstep
  split at hstep
  · rw [← Option.some.inj hstep] at hok
    simp only [StepOk] at hok
    cases hout : s.outstanding request with
    | none =>
      rw [hout] at hok
      obtain ⟨⟨status, hreply⟩, _⟩ := hok
      exact absurd hreply test_reply
    | some k => rfl
  · cases hstep

/-- A step does what it has to do exactly if it meets the condition. -/
theorem stepOk_iff (h : Inv x node s) {a : Label} (hstep : step x node s a = some t) :
    StepOk x node s a t ↔ Meets x node s a := by
  cases a with
  | transfer c fuel => exact Iff.rfl
  | complete c => exact Iff.rfl
  | store c => exact Iff.rfl
  | issue c => exact Iff.rfl
  | start c op =>
    simp only [step] at hstep
    split at hstep
    · rw [← Option.some.inj hstep]
      refine forall_congr' fun hcheck => ?_
      constructor
      · intro hlimit
        by_contra hnot
        have hfull : ∀ i, i < MRAPI_MAX_REQUESTS → (s.table i).valid = true := by
          intro i hi
          by_contra hfree
          exact hnot ⟨i, hi, by simpa using hfree⟩
        obtain ⟨⟨_, hreply⟩, _⟩ := hlimit hfull
        rw [start_full hcheck hfull] at hreply
        cases hreply
      · rintro ⟨i, hi, hfree⟩ hfull
        have hvalid := hfull i hi
        rw [hfree] at hvalid
        cases hvalid
    · cases hstep
  | test c request =>
    refine ⟨outstanding_of_stepOk hstep, fun hmeets => ?_⟩
    obtain ⟨k, hout⟩ := Option.isSome_iff_exists.mp hmeets
    simp only [step] at hstep
    split at hstep
    · rw [← Option.some.inj hstep, h.test_step hout]
      simp only [StepOk, hout]
      exact ⟨_, rfl, Function.update_self _ _ _, h.issues k (outstanding_some hout).1⟩
    · cases hstep
  | canceled c request =>
    simp only [step] at hstep
    split at hstep
    · rw [← Option.some.inj hstep]
      refine iff_of_true ⟨?_, rfl⟩ trivial
      simp only [mrapi_impl_canceled_request, h.cancelled, Bool.and_false]
    · cases hstep

/-- **The requests of remote memory, over every run whose steps meet the condition**: the
contract holds in every state, and the next step does what it has to do exactly if it meets
the condition too. -/
theorem requests_ok (hrun : Run (step x node) (fun s a _ => Meets x node s a) init s) :
    Good x node s ∧ ∀ a t, step x node s a = some t → (StepOk x node s a t ↔ Meets x node s a) := by
  have h : Inv x node s :=
    hrun.invariant (fun _ _ _ h hstep hmeets => inv_step h hstep hmeets) .init
  exact ⟨h.good, fun _ _ => stepOk_iff h⟩

/-! ## Two runs -/

instance (s : Sys) (a : Label) : Decidable (Meets x node s a) := by
  unfold Meets
  split <;> infer_instance

/-- A client writes, and its request is issued. -/
def writing : List Label :=
  [.start 0 ⟨.write, mrapi_impl_encode_hndl 0, 0, scattered⟩, .transfer 0 4, .complete 0,
    .store 0, .issue 0]

/-- Two clients, one after the other; each tests its request, and both have had the
index 0. -/
def testing : List Label :=
  writing ++ [.test 0 (mrapi_impl_encode_hndl 0)] ++
    [.start 1 ⟨.read, mrapi_impl_encode_hndl 0, 0, scattered⟩, .transfer 1 4, .complete 1,
      .store 1, .issue 1, .canceled 0 (mrapi_impl_encode_hndl 0),
      .test 1 (mrapi_impl_encode_hndl 0)]

theorem testing_ok :
    ∃ s, Good db16 (fun _ => node0) s ∧ s.count = 2 ∧ s.yielded 0 = [MRAPI_SUCCESS] ∧
      s.yielded 1 = [MRAPI_SUCCESS] := by
  have hexec : (exec (step db16 fun _ => node0)
      (fun s a _ => decide (Meets db16 (fun _ => node0) s a)) init testing).any
        (fun s => decide (s.count = 2 ∧ s.yielded 0 = [MRAPI_SUCCESS] ∧
          s.yielded 1 = [MRAPI_SUCCESS])) = true := by decide +kernel
  obtain ⟨s, hrun, hend⟩ := exec_run_of_any hexec
  have hmeets : Run (step db16 fun _ => node0)
      (fun s a _ => Meets db16 (fun _ => node0) s a) init s :=
    hrun.mono fun _ _ _ h => of_decide_eq_true h
  exact ⟨s, (requests_ok hmeets).1, of_decide_eq_true hend⟩

/-- A handle that has never been issued, with the index of one that has. -/
def aliased : ℕ := mrapi_impl_encode_hndl 0 + 2 ^ 16

/-- The test of a handle that is not outstanding ends the process, or returns the status of
another handle. -/
theorem stale_handles_wrong :
    (∃ t, step db16 (fun _ => node0) init (.test 0 (mrapi_impl_encode_hndl 0)) = some t ∧
        t.reply = .ended ∧
        ¬ StepOk db16 (fun _ => node0) init (.test 0 (mrapi_impl_encode_hndl 0)) t) ∧
      ∃ s t, Run (step db16 fun _ => node0) (fun _ _ _ => True) init s ∧
        step db16 (fun _ => node0) s (.test 1 aliased) = some t ∧
        t.reply = .tested true MRAPI_SUCCESS ∧
        ¬ StepOk db16 (fun _ => node0) s (.test 1 aliased) t := by
  constructor
  · refine ⟨_, rfl, by decide +kernel, fun hok => ?_⟩
    have hout := outstanding_of_stepOk rfl hok
    cases hout
  · have hexec : (exec (step db16 fun _ => node0) (fun _ _ _ => true) init writing).any
        (fun s => decide (s.outstanding aliased = none) &&
          (step db16 (fun _ => node0) s (.test 1 aliased)).any
            fun t => decide (t.reply = .tested true MRAPI_SUCCESS)) = true := by decide +kernel
    obtain ⟨s, hrun, hend⟩ := exec_run_of_any hexec
    obtain ⟨hout, htest⟩ := Bool.and_eq_true_iff.mp hend
    obtain ⟨t, hstep, hreply⟩ := (Option.any_eq_true _ _).mp htest
    refine ⟨s, t, hrun.mono fun _ _ _ _ => trivial, hstep, of_decide_eq_true hreply, fun hok => ?_⟩
    have hsome := outstanding_of_stepOk hstep hok
    rw [of_decide_eq_true hout] at hsome
    cases hsome

end MxApi.Transfer
