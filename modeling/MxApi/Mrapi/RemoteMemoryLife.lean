/-
The life cycle of remote memory, over any sequence of calls.

Who is attached is recorded beside the table, as the calls have it: a node that attached
since the entry was created and has not detached. The code has a list of node indexes
instead, without their domains, which a create does not clear; a lookup that does not ask
whether the entry it finds is valid; a count of the entries that never goes down; and a
detach that does not ask whether its caller is attached. Where none of these is met the
calls do what they should ([`remote_memory_ok`]). They are easy to meet
([`remote_memory_after_ten_creates`]).
-/
import Mathlib.Logic.Function.Basic
import MxApi.Lib.Run
import MxApi.Mrapi.LockLookup
import MxApi.Mrapi.RemoteMemory

set_option autoImplicit false

namespace MxApi.RemoteMemory

open Lib
open LockTable (Node MRAPI_MAX_DOMAINS MRAPI_MAX_NODES node0 node1 mrapi_impl_encode_hndl
  mrapi_impl_decode_hndl)
open mrapi_rmem_atype_t mrapi_status_t

/-! ## Runs -/

/-- The table, and which nodes have attached to each entry. -/
structure Sys where
  table : Rmems
  attached : ℕ → Node → Bool

def init : Sys := ⟨.zero, fun _ _ => false⟩

/-- The entry that a handle names. -/
def entry (hndl : ℕ) : ℕ := (mrapi_impl_decode_hndl hndl).1

/-- Who is attached after a call that has succeeded. -/
def Sys.note (x : Sys) (c : Node) (o : Outcome) : Call → ℕ → Node → Bool
  | .create _ _ => Function.update x.attached (entry o.hndl) fun _ => false
  | .attach rmem =>
    Function.update x.attached (entry rmem) (Function.update (x.attached (entry rmem)) c true)
  | .detach rmem =>
    Function.update x.attached (entry rmem) (Function.update (x.attached (entry rmem)) c false)
  | .delete rmem => Function.update x.attached (entry rmem) fun _ => false
  | _ => x.attached

/-- A node and its call. -/
abbrev Label := Node × Call

def Sys.call (x : Sys) (a : Label) : Sys :=
  let o := a.2.run x.table a.1
  ⟨o.1, if o.2.status = MRAPI_SUCCESS then x.note a.1 o.2 a.2 else x.attached⟩

def step (x : Sys) (a : Label) : Option Sys := some (x.call a)

/-! ## The contract -/

/-- How many entries are valid. -/
def Rmems.valids (t : Rmems) : ℕ := (List.range MRAPI_MAX_RMEMS).countP fun r => (t.rmems r).valid

/-- No valid entry has the id. -/
def Rmems.Fresh (t : Rmems) (rmem_id : ℕ) : Prop :=
  ∀ r, r < MRAPI_MAX_RMEMS → (t.rmems r).valid = true → (t.rmems r).key ≠ rmem_id

/-- The node is attached to the entry that the handle names. -/
def Sys.Attached (x : Sys) (c : Node) (rmem : ℕ) : Prop :=
  (mrapi_impl_decode_hndl rmem).2 = true ∧ x.attached (entry rmem) c = true

/-- What a call has to return. -/
def CallOk (x : Sys) (c : Node) (call : Call) (x' : Sys) (o : Outcome) : Prop :=
  match call with
  | .create rmem_id access_type =>
    access_type = MRAPI_RMEM_DUMMY → x.table.Fresh rmem_id →
      x.table.valids < MRAPI_MAX_RMEMS → o.status = MRAPI_SUCCESS ∧
        (x.table.rmems (entry o.hndl)).valid = false ∧
        (x'.table.rmems (entry o.hndl)).valid = true ∧
        (x'.table.rmems (entry o.hndl)).key = rmem_id
  | .get rmem_id access_type =>
    access_type = MRAPI_RMEM_DUMMY → (o.status = MRAPI_SUCCESS ↔ ¬ x.table.Fresh rmem_id)
  | .attached rmem => o.answer = true ↔ x.Attached c rmem
  | .read rmem _ | .write rmem _ => ¬ x.Attached c rmem → o.status ≠ MRAPI_SUCCESS
  | .detach rmem => ¬ x.Attached c rmem → o.status ≠ MRAPI_SUCCESS
  | _ => True

/-- No more entries are valid than there are. -/
structure TableOk (t : Rmems) : Prop where
  bounded : ∀ r, (t.rmems r).valid = true → r < MRAPI_MAX_RMEMS
  valids : t.valids ≤ MRAPI_MAX_RMEMS

/-! ## The condition -/

/-- No node of another domain with the caller's index is attached to the entry. -/
def Sys.NoTwin (x : Sys) (c : Node) (r : ℕ) : Prop :=
  ∀ c', x.attached r c' = true → c'.nindex = c.nindex → c' = c

/-- What a call has to meet. -/
def Meets (x : Sys) (a : Label) : Prop :=
  match a.2 with
  | .create rmem_id access_type =>
    access_type = MRAPI_RMEM_DUMMY → x.table.Fresh rmem_id →
      (x.table.num_rmems = MRAPI_MAX_RMEMS → x.table.unused = none) ∧
      ∀ r ∈ x.table.unused, ∀ n, n < MRAPI_MAX_NODES → (x.table.rmems r).nodes n = false
  | .get rmem_id access_type =>
    access_type = MRAPI_RMEM_DUMMY →
      ∀ r ∈ x.table.keyed rmem_id, (x.table.rmems r).valid = true
  | .attach rmem | .attached rmem | .read rmem _ | .write rmem _ => x.NoTwin a.1 (entry rmem)
  | .detach rmem => x.NoTwin a.1 (entry rmem) ∧
      (mrapi_impl_valid_rmem_hndl x.table rmem = true → x.attached (entry rmem) a.1 = true)
  | .delete _ => True

/-- What the list of an entry relies on: a create finds it empty, and a node that attaches or
detaches has no twin. -/
def Tidy (x : Sys) (a : Label) : Prop :=
  match a.2 with
  | .create rmem_id access_type =>
    access_type = MRAPI_RMEM_DUMMY → x.table.Fresh rmem_id →
      x.table.num_rmems ≠ MRAPI_MAX_RMEMS →
      ∀ r ∈ x.table.unused, ∀ n, n < MRAPI_MAX_NODES → (x.table.rmems r).nodes n = false
  | .attach rmem | .detach rmem =>
    mrapi_impl_valid_rmem_hndl x.table rmem = true → x.NoTwin a.1 (entry rmem)
  | _ => True

theorem Meets.tidy {x : Sys} {a : Label} (h : Meets x a) : Tidy x a := by
  obtain ⟨c, call⟩ := a
  cases call with
  | create rmem_id access_type => exact fun htype hfresh _ => (h htype hfresh).2
  | attach rmem => exact fun _ => h
  | detach rmem => exact fun _ => h.1
  | get rmem_id access_type => exact trivial
  | delete rmem => exact trivial
  | attached rmem => exact trivial
  | read rmem strides => exact trivial
  | write rmem strides => exact trivial

instance (t : Rmems) (rmem_id : ℕ) : Decidable (t.Fresh rmem_id) := by
  unfold Rmems.Fresh
  infer_instance

instance (x : Sys) (c : Node) (r : ℕ) : Decidable (x.NoTwin c r) := by
  unfold Sys.NoTwin
  infer_instance

instance (x : Sys) : DecidablePred (Tidy x) := by
  intro a
  unfold Tidy
  split <;> infer_instance

instance (x : Sys) : DecidablePred (Meets x) := by
  intro a
  unfold Meets
  split <;> infer_instance

/-! ## Handles -/

/-- What the check of a handle says. -/
theorem valid_rmem_hndl {t : Rmems} {rmem : ℕ} :
    mrapi_impl_valid_rmem_hndl t rmem = true ↔ (mrapi_impl_decode_hndl rmem).2 = true ∧
      entry rmem < MRAPI_MAX_RMEMS ∧ (t.rmems (entry rmem)).valid = true := by
  unfold mrapi_impl_valid_rmem_hndl
  rw [Bool.and_eq_true, Bool.and_eq_true, decide_eq_true_eq, and_assoc]
  rfl

/-- A handle names the entry that it was made for. -/
theorem entry_encode {r : ℕ} (hr : r < MRAPI_MAX_RMEMS) :
    entry (mrapi_impl_encode_hndl r) = r := by
  have hmax : MRAPI_MAX_RMEMS < 2 ^ 16 := by decide
  unfold entry
  rw [LockTable.decode_encode_hndl (hr.trans hmax)]

theorem unused_some {t : Rmems} {r : ℕ} (h : t.unused = some r) :
    r < MRAPI_MAX_RMEMS ∧ (t.rmems r).valid = false := by
  obtain ⟨hr, hvalid⟩ := search_some h
  exact ⟨hr, by simpa using hvalid⟩

/-- Fewer valid entries than there are means that one is not. -/
theorem exists_unused {t : Rmems} (h : t.valids < MRAPI_MAX_RMEMS) : ∃ r, t.unused = some r := by
  cases hunused : t.unused with
  | some r => exact ⟨r, rfl⟩
  | none =>
    exfalso
    have hall : t.valids = (List.range MRAPI_MAX_RMEMS).length := by
      unfold Rmems.valids
      rw [List.countP_eq_length]
      intro r hr
      have hnone := search_eq_none.mp hunused r (List.mem_range.mp hr)
      simpa using hnone
    rw [hall, List.length_range] at h
    exact Nat.lt_irrefl _ h

theorem existing_eq_none {t : Rmems} {rmem_id : ℕ} :
    t.existing rmem_id = none ↔ t.Fresh rmem_id := by
  unfold Rmems.existing Rmems.Fresh
  rw [search_eq_none]
  refine forall_congr' fun r => forall_congr' fun hr => ?_
  rw [Bool.and_eq_false_imp, beq_eq_false_iff_ne]

/-! ## The invariant -/

/-- The list of an entry names the nodes that are attached, one of each index. -/
structure RowOk (r : ℕ) (e : mrapi_rmem_t) (row : Node → Bool) : Prop where
  bounded : e.valid = true → r < MRAPI_MAX_RMEMS
  valid : ∀ c, row c = true → e.valid = true
  twins : ∀ c c', row c = true → row c' = true → c.nindex = c'.nindex → c = c'
  listed : e.valid = true → ∀ n, n < MRAPI_MAX_NODES →
    (e.nodes n = true ↔ ∃ c : Node, c.nindex = n ∧ row c = true)

def Inv (x : Sys) : Prop := ∀ r, RowOk r (x.table.rmems r) (x.attached r)

variable {x : Sys} {c : Node} {r : ℕ} {e : mrapi_rmem_t} {row : Node → Bool}

/-- An entry that nobody is attached to. -/
theorem RowOk.empty (hbounded : e.valid = true → r < MRAPI_MAX_RMEMS)
    (hnodes : e.valid = true → ∀ n, n < MRAPI_MAX_NODES → e.nodes n = false) :
    RowOk r e fun _ => false where
  bounded := hbounded
  valid _ h := nomatch h
  twins _ _ h := nomatch h
  listed hvalid n hn := by
    rw [hnodes hvalid n hn]
    exact ⟨(fun h => nomatch h), fun ⟨_, _, h⟩ => nomatch h⟩

/-- Whether a node without a twin is attached is what the list says. -/
theorem RowOk.nodes_iff (h : RowOk r e row)
    (htwin : ∀ c', row c' = true → c'.nindex = c.nindex → c' = c) (hvalid : e.valid = true) :
    e.nodes c.nindex = true ↔ row c = true := by
  rw [h.listed hvalid c.nindex c.nindex_lt]
  constructor
  · rintro ⟨c', hindex, hc'⟩
    rw [← htwin c' hc' hindex]
    exact hc'
  · intro hc
    exact ⟨c, rfl, hc⟩

/-- A node without a twin comes to be attached, or to be not. -/
theorem RowOk.change (h : RowOk r e row) (b : Bool)
    (htwin : ∀ c', row c' = true → c'.nindex = c.nindex → c' = c) (hvalid : e.valid = true)
    {e' : mrapi_rmem_t} (hvalid' : e'.valid = true)
    (hnodes : e'.nodes = Function.update e.nodes c.nindex b) :
    RowOk r e' (Function.update row c b) := by
  have hrow : ∀ c', c' ≠ c → (Function.update row c b c' = true ↔ row c' = true) := by
    intro c' hne
    rw [Function.update_of_ne hne]
  constructor
  · intro _
    exact h.bounded hvalid
  · intro _ _
    exact hvalid'
  · intro c₁ c₂ h₁ h₂ hindex
    by_cases hc₁ : c₁ = c
    · by_cases hc₂ : c₂ = c
      · rw [hc₁, hc₂]
      · rw [hc₁] at hindex ⊢
        exact (htwin c₂ ((hrow c₂ hc₂).mp h₂) hindex.symm).symm
    · by_cases hc₂ : c₂ = c
      · rw [hc₂] at hindex ⊢
        exact htwin c₁ ((hrow c₁ hc₁).mp h₁) hindex
      · exact h.twins c₁ c₂ ((hrow c₁ hc₁).mp h₁) ((hrow c₂ hc₂).mp h₂) hindex
  · intro _ n hn
    rw [hnodes]
    by_cases hindex : n = c.nindex
    · rw [hindex, Function.update_self]
      constructor
      · intro hb
        exact ⟨c, rfl, by rw [Function.update_self, hb]⟩
      · rintro ⟨c', hc', hrow'⟩
        have hself : c' = c := by
          by_contra hne
          exact hne (htwin c' ((hrow c' hne).mp hrow') hc')
        rw [hself, Function.update_self] at hrow'
        exact hrow'
    · rw [Function.update_of_ne hindex, h.listed hvalid n hn]
      refine exists_congr fun c' => and_congr_right fun hc' => ?_
      have hne : c' ≠ c := fun heq => hindex (by rw [← hc', heq])
      exact (hrow c' hne).symm

theorem Inv.init : Inv init := fun _ => .empty (fun h => nomatch h) (fun h => nomatch h)

/-- One entry changes. -/
theorem Inv.set (h : Inv x) (n : ℕ) (hrow : RowOk r e row) :
    Inv ⟨{ x.table.set r e with num_rmems := n }, Function.update x.attached r row⟩ := by
  intro r'
  change RowOk r' (Function.update x.table.rmems r e r') (Function.update x.attached r row r')
  by_cases hr : r' = r
  · rw [hr, Function.update_self, Function.update_self]
    exact hrow
  · rw [Function.update_of_ne hr, Function.update_of_ne hr]
    exact h r'

/-- The code's question is answered rightly. -/
theorem Inv.attached_iff (h : Inv x) {rmem : ℕ} (htwin : x.NoTwin c (entry rmem)) :
    mrapi_impl_rmem_attached x.table c rmem = true ↔ x.Attached c rmem := by
  unfold mrapi_impl_rmem_attached Sys.Attached
  simp only [Bool.and_eq_true, and_assoc]
  refine and_congr_right fun _ => ?_
  constructor
  · rintro ⟨hvalid, hnodes⟩
    exact ((h _).nodes_iff htwin hvalid).mp hnodes
  · intro hattached
    have hvalid := (h _).valid _ hattached
    exact ⟨hvalid, ((h _).nodes_iff htwin hvalid).mpr hattached⟩

/-! ## The calls -/

/-- A create: it leaves the table alone and returns no entry, or it makes the entry that it
has found. -/
theorem create_cases (t : Rmems) (rmem_id : ℕ) (access_type : mrapi_rmem_atype_t) :
    ((mrapi_rmem_create t rmem_id access_type).1 = t ∧
      ((mrapi_rmem_create t rmem_id access_type).2.status = MRAPI_SUCCESS →
        entry (mrapi_rmem_create t rmem_id access_type).2.hndl = MRAPI_MAX_RMEMS)) ∨
    (access_type = MRAPI_RMEM_DUMMY ∧ t.Fresh rmem_id ∧ t.num_rmems ≠ MRAPI_MAX_RMEMS ∧
      ∃ r, t.unused = some r ∧ mrapi_rmem_create t rmem_id access_type =
        ({ t.set r { t.rmems r with key := rmem_id, valid := true } with
          num_rmems := u8 (t.num_rmems + 1) },
          ⟨MRAPI_SUCCESS, mrapi_impl_encode_hndl r, false⟩)) := by
  unfold mrapi_rmem_create mrapi_impl_rmem_exists
  by_cases hexists : (t.existing rmem_id).isSome = true
  · left
    rw [if_pos hexists]
    exact ⟨rfl, fun h => nomatch h⟩
  · have hnone : t.existing rmem_id = none := Option.not_isSome_iff_eq_none.mp hexists
    rw [if_neg hexists]
    by_cases htype : mrapi_impl_valid_atype access_type = true
    · unfold mrapi_impl_rmem_create
      rw [htype, if_neg (by decide), hnone]
      by_cases hlimit : t.num_rmems = MRAPI_MAX_RMEMS
      · left
        rw [if_pos hlimit]
        exact ⟨rfl, fun h => nomatch h⟩
      · rw [if_neg hlimit, if_neg (by decide)]
        cases hunused : t.unused with
        | none =>
          left
          refine ⟨rfl, fun _ => ?_⟩
          change entry (mrapi_impl_encode_hndl MRAPI_MAX_RMEMS) = MRAPI_MAX_RMEMS
          decide
        | some r => exact .inr ⟨eq_of_beq htype, existing_eq_none.mp hnone, hlimit, r, rfl, rfl⟩
    · left
      rw [if_pos (by rw [Bool.not_eq_true] at htype; rw [htype]; rfl)]
      exact ⟨rfl, fun h => nomatch h⟩

/-- A fresh create that finds room. -/
theorem create_fresh {t : Rmems} {rmem_id r : ℕ} (hfresh : t.Fresh rmem_id)
    (hlimit : t.num_rmems ≠ MRAPI_MAX_RMEMS) (hunused : t.unused = some r) :
    mrapi_rmem_create t rmem_id MRAPI_RMEM_DUMMY =
      ({ t.set r { t.rmems r with key := rmem_id, valid := true } with
        num_rmems := u8 (t.num_rmems + 1) },
        ⟨MRAPI_SUCCESS, mrapi_impl_encode_hndl r, false⟩) := by
  have hnone := existing_eq_none.mpr hfresh
  unfold mrapi_rmem_create mrapi_impl_rmem_exists mrapi_impl_rmem_create
  rw [hnone, if_neg (by decide), if_neg (by decide), if_neg hlimit, if_neg (by decide), hunused]

theorem Sys.call_success (x : Sys) (c : Node) (call : Call) {t : Rmems} {o : Outcome}
    (heq : call.run x.table c = (t, o)) (ho : o.status = MRAPI_SUCCESS) :
    x.call (c, call) = ⟨t, x.note c o call⟩ := by
  unfold Sys.call
  dsimp only
  rw [heq, if_pos ho]

theorem Sys.call_error (x : Sys) (c : Node) (call : Call) {t : Rmems} {o : Outcome}
    (heq : call.run x.table c = (t, o)) (ho : o.status ≠ MRAPI_SUCCESS) :
    x.call (c, call) = ⟨t, x.attached⟩ := by
  unfold Sys.call
  dsimp only
  rw [heq, if_neg ho]

/-- A question leaves everything as it is. -/
theorem Sys.call_question (x : Sys) (c : Node) (call : Call) {o : Outcome}
    (heq : call.run x.table c = (x.table, o)) (hnote : x.note c o call = x.attached) : x.call (c, call) = x := by
  unfold Sys.call
  dsimp only
  rw [heq, hnote, ite_self]

/-- The three calls that first check their handle. -/
theorem handle_calls (t : Rmems) (rmem : ℕ) (c : Node) :
    (mrapi_impl_valid_rmem_hndl t rmem = true ∧
      mrapi_rmem_attach t c rmem = (mrapi_impl_rmem_attach t c rmem, .ofStatus MRAPI_SUCCESS) ∧
      mrapi_rmem_detach t c rmem = (mrapi_impl_rmem_detach t c rmem, .ofStatus MRAPI_SUCCESS) ∧
      mrapi_rmem_delete t rmem = (mrapi_impl_rmem_delete t rmem, .ofStatus MRAPI_SUCCESS)) ∨
    (mrapi_impl_valid_rmem_hndl t rmem = false ∧
      mrapi_rmem_attach t c rmem = (t, .ofStatus MRAPI_ERR_RMEM_INVALID) ∧
      mrapi_rmem_detach t c rmem = (t, .ofStatus MRAPI_ERR_RMEM_INVALID) ∧
      mrapi_rmem_delete t rmem = (t, .ofStatus MRAPI_ERR_RMEM_INVALID)) := by
  unfold mrapi_rmem_attach mrapi_rmem_detach mrapi_rmem_delete
  cases mrapi_impl_valid_rmem_hndl t rmem with
  | true => exact .inl ⟨rfl, rfl, rfl, rfl⟩
  | false => exact .inr ⟨rfl, rfl, rfl, rfl⟩

/-- An attach of a node that is listed already changes nothing. -/
theorem impl_attach_cases (t : Rmems) (c : Node) (rmem : ℕ) :
    ∃ e : mrapi_rmem_t, mrapi_impl_rmem_attach t c rmem = t.set (entry rmem) e ∧
      e.valid = (t.rmems (entry rmem)).valid ∧
      e.nodes = Function.update (t.rmems (entry rmem)).nodes c.nindex true := by
  unfold mrapi_impl_rmem_attach
  dsimp only
  split
  · rename_i hnodes
    refine ⟨t.rmems (entry rmem), ?_, rfl, ?_⟩
    · unfold Rmems.set
      rw [Function.update_eq_self]
    · rw [← hnodes]
      exact (Function.update_eq_self ..).symm
  · exact ⟨_, rfl, rfl, rfl⟩

/-- **One call** under the condition. -/
theorem Inv.call (h : Inv x) {a : Label} (htidy : Tidy x a) : Inv (x.call a) := by
  obtain ⟨c, call⟩ := a
  cases call with
  | create rmem_id access_type =>
    rcases create_cases x.table rmem_id access_type with ⟨hsame, hout⟩ |
      ⟨htype, hfresh, hlimit, r, hunused, heq⟩
    · by_cases hsuccess : (mrapi_rmem_create x.table rmem_id access_type).2.status = MRAPI_SUCCESS
      · rw [Sys.call_success x c (.create rmem_id access_type) (t := x.table)
          (Prod.ext hsame rfl) hsuccess]
        dsimp only [Sys.note, Call.run]
        rw [hout hsuccess]
        -- no entry is named
        have hbounded := (h MRAPI_MAX_RMEMS).bounded
        have hset := h.set x.table.num_rmems (.empty hbounded fun hv =>
          absurd (hbounded hv) (Nat.lt_irrefl _))
        unfold Rmems.set at hset
        rw [Function.update_eq_self] at hset
        exact hset
      · rw [Sys.call_error x c (.create rmem_id access_type) (t := x.table)
          (Prod.ext hsame rfl) hsuccess]
        exact h
    · have hnodes := htidy htype hfresh hlimit r hunused
      obtain ⟨hr, -⟩ := unused_some hunused
      rw [Sys.call_success x c (.create rmem_id access_type) heq rfl]
      dsimp only [Sys.note]
      rw [entry_encode hr]
      exact h.set _ (.empty (fun _ => hr) fun _ => hnodes)
  | attach rmem =>
    rcases handle_calls x.table rmem c with ⟨hvalid, heq, -⟩ | ⟨-, heq, -⟩
    · obtain ⟨-, -, hentry⟩ := valid_rmem_hndl.mp hvalid
      obtain ⟨e, he, hvalid', hnodes⟩ := impl_attach_cases x.table c rmem
      rw [Sys.call_success x c (.attach rmem) heq rfl, he]
      exact h.set _ ((h (entry rmem)).change true (htidy hvalid) hentry (hvalid'.trans hentry) hnodes)
    · rw [Sys.call_error x c (.attach rmem) heq (fun h => nomatch h)]
      exact h
  | detach rmem =>
    rcases handle_calls x.table rmem c with ⟨hvalid, -, heq, -⟩ | ⟨-, -, heq, -⟩
    · obtain ⟨-, -, hentry⟩ := valid_rmem_hndl.mp hvalid
      rw [Sys.call_success x c (.detach rmem) heq rfl]
      exact h.set _ ((h (entry rmem)).change false (htidy hvalid) hentry hentry rfl)
    · rw [Sys.call_error x c (.detach rmem) heq (fun h => nomatch h)]
      exact h
  | delete rmem =>
    rcases handle_calls x.table rmem c with ⟨hvalid, -, -, heq⟩ | ⟨-, -, -, heq⟩
    · rw [Sys.call_success x c (.delete rmem) heq rfl]
      exact h.set _ (.empty (fun h => nomatch h) (fun h => nomatch h))
    · rw [Sys.call_error x c (.delete rmem) heq (fun h => nomatch h)]
      exact h
  | get rmem_id access_type =>
    rw [Sys.call_question x c (.get rmem_id access_type) rfl rfl]
    exact h
  | attached rmem =>
    rw [Sys.call_question x c (.attached rmem) rfl rfl]
    exact h
  | read rmem strides =>
    rw [Sys.call_question x c (.read rmem strides) rfl rfl]
    exact h
  | write rmem strides =>
    rw [Sys.call_question x c (.write rmem strides) rfl rfl]
    exact h

/-- A transfer of a node that is not attached is refused. -/
theorem checkTransfer_refused (h : Inv x) {rmem : ℕ} {strides : Strides}
    (htwin : x.NoTwin c (entry rmem)) (hnot : ¬ x.Attached c rmem) :
    checkTransfer x.table c rmem strides ≠ MRAPI_SUCCESS := by
  have hattached : mrapi_impl_rmem_attached x.table c rmem = false := by
    rw [← Bool.not_eq_true, h.attached_iff htwin]
    exact hnot
  unfold checkTransfer
  rw [hattached]
  split_ifs with h₁ h₂
  · exact nofun
  · exact nofun
  · exact nofun
  · exact absurd rfl (by assumption)

/-- **What a call returns** under the condition. -/
theorem Inv.callOk (h : Inv x) {call : Call} (hmeets : Meets x (c, call)) :
    CallOk x c call (x.call (c, call)) (call.run x.table c).2 := by
  cases call with
  | create rmem_id access_type =>
    intro htype hfresh hroom
    obtain ⟨hlimit, -⟩ := hmeets htype hfresh
    obtain ⟨r, hunused⟩ := exists_unused hroom
    obtain ⟨hr, hvalid⟩ := unused_some hunused
    have hnot : x.table.num_rmems ≠ MRAPI_MAX_RMEMS := by
      intro heq
      rw [hlimit heq] at hunused
      cases hunused
    have heq := create_fresh hfresh hnot hunused
    subst htype
    unfold Sys.call
    dsimp only [Call.run]
    rw [heq]
    dsimp only
    rw [entry_encode hr]
    refine ⟨rfl, hvalid, ?_, ?_⟩
    · change (Function.update x.table.rmems r _ r).valid = true
      rw [Function.update_self]
    · change (Function.update x.table.rmems r _ r).key = rmem_id
      rw [Function.update_self]
  | get rmem_id access_type =>
    intro htype
    have hkeyed := hmeets htype
    subst htype
    dsimp only [Call.run]
    unfold mrapi_rmem_get mrapi_impl_rmem_get
    rw [if_neg (by decide)]
    cases hfound : x.table.keyed rmem_id with
    | some r =>
      obtain ⟨hr, hkey⟩ := search_some hfound
      refine ⟨fun _ hfresh => ?_, fun _ => rfl⟩
      exact hfresh r hr (hkeyed r hfound) (eq_of_beq hkey)
    | none =>
      refine ⟨(fun h => nomatch h), fun hnot => ?_⟩
      exfalso
      apply hnot
      intro r hr _ hkey
      have hnone := search_eq_none.mp hfound r hr
      rw [hkey, beq_self_eq_true] at hnone
      cases hnone
  | attached rmem => exact h.attached_iff hmeets
  | read rmem strides => exact checkTransfer_refused h hmeets
  | write rmem strides => exact checkTransfer_refused h hmeets
  | detach rmem =>
    intro hnot
    dsimp only [Call.run]
    unfold mrapi_rmem_detach
    rw [if_neg]
    · exact nofun
    · intro hvalid
      exact hnot ⟨(valid_rmem_hndl.mp hvalid).1, hmeets.2 hvalid⟩
  | attach rmem => exact trivial
  | delete rmem => exact trivial

/-! ## The life cycle -/

theorem Inv.tableOk (h : Inv x) : TableOk x.table := by
  refine ⟨fun r => (h r).bounded, ?_⟩
  have hle := List.countP_le_length (l := List.range MRAPI_MAX_RMEMS)
    (p := fun r => (x.table.rmems r).valid)
  rw [List.length_range] at hle
  exact hle

/-- **Remote memory, call by call**: in every sequence of calls that meet the condition, no more
entries are valid than there are, and each call does what it should. -/
theorem remote_memory_ok {x : Sys} (h : Run step (fun x a _ => Meets x a) init x) :
    TableOk x.table ∧ ∀ c call, Meets x (c, call) →
      CallOk x c call (x.call (c, call)) (call.run x.table c).2 := by
  have hinv : Inv x := by
    refine Run.invariant (fun x a x' hI hstep hmeets => ?_) h .init
    obtain rfl := Option.some.inj hstep
    exact Inv.call hI hmeets.tidy
  exact ⟨hinv.tableOk, fun c call hmeets => hinv.callOk hmeets⟩

/-- Two nodes attach to an entry; one of them detaches and deletes it, and it is created
again. -/
theorem remote_memory_ok_two :
    ∃ x : Sys, Run step (fun x a _ => Meets x a) init x ∧ x.table.valids = 1 ∧
      (x.table.rmems 0).valid = true ∧ TableOk x.table ∧ ∀ c call, Meets x (c, call) →
        CallOk x c call (x.call (c, call)) (call.run x.table c).2 := by
  have hexec : (exec step (fun x a _ => decide (Meets x a)) init
      [(node0, .create 7 MRAPI_RMEM_DUMMY), (node1, .get 7 MRAPI_RMEM_DUMMY),
        (node0, .attach 0xC0000000), (node1, .attach 0xC0000000), (node1, .attached 0xC0000000),
        (node1, .detach 0xC0000000), (node0, .detach 0xC0000000), (node0, .delete 0xC0000000),
        (node1, .create 8 MRAPI_RMEM_DUMMY)]).any
      (fun x => x.table.valids == 1 && (x.table.rmems 0).valid) = true := by
    decide +kernel
  obtain ⟨x, hrun, hx⟩ := exec_run_of_any hexec
  rw [Bool.and_eq_true, beq_iff_eq] at hx
  have hrun' : Run step (fun x a _ => Meets x a) init x :=
    hrun.mono fun _ _ _ hg => of_decide_eq_true hg
  exact ⟨x, hrun', hx.1, hx.2, remote_memory_ok hrun'⟩

/-- **Ten creates and a delete**: one entry is free, yet a create with a fresh id fails; the id
of the deleted entry is still found; and a node that never attached detaches. -/
theorem remote_memory_after_ten_creates :
    ∃ x : Sys, Run step (fun _ _ _ => True) init x ∧ x.table.valids = 9 ∧
      ¬ CallOk x node0 (.create 77 MRAPI_RMEM_DUMMY)
        (x.call (node0, .create 77 MRAPI_RMEM_DUMMY))
        (mrapi_rmem_create x.table 77 MRAPI_RMEM_DUMMY).2 ∧
      ¬ CallOk x node0 (.get 7 MRAPI_RMEM_DUMMY) (x.call (node0, .get 7 MRAPI_RMEM_DUMMY))
        (mrapi_rmem_get x.table 7 MRAPI_RMEM_DUMMY) ∧
      ¬ CallOk x node0 (.detach 0xC0000001) (x.call (node0, .detach 0xC0000001))
        (mrapi_rmem_detach x.table node0 0xC0000001).2 := by
  have hexec : (exec step (fun _ _ _ => true) init
      ((List.range 10).map (fun i => (node0, Call.create (7 + i) MRAPI_RMEM_DUMMY)) ++
        [(node0, .delete 0xC0000000)])).any
      (fun x => x.table.valids == 9 && decide (x.table.Fresh 77) && decide (x.table.Fresh 7) &&
        (mrapi_rmem_create x.table 77 MRAPI_RMEM_DUMMY).2.status == MRAPI_ERR_MEM_LIMIT &&
        (mrapi_rmem_get x.table 7 MRAPI_RMEM_DUMMY).status == MRAPI_SUCCESS &&
        !x.attached 1 node0 &&
        (mrapi_rmem_detach x.table node0 0xC0000001).2.status == MRAPI_SUCCESS) = true := by
    decide +kernel
  obtain ⟨x, hrun, hx⟩ := exec_run_of_any hexec
  simp only [Bool.and_eq_true, beq_iff_eq, decide_eq_true_eq, Bool.not_eq_true'] at hx
  obtain ⟨⟨⟨⟨⟨⟨hvalids, hfresh⟩, hgone⟩, hlimit⟩, hget⟩, hnot⟩, hdetach⟩ := hx
  refine ⟨x, hrun.mono fun _ _ _ _ => trivial, hvalids, ?_, ?_, ?_⟩
  · intro hok
    have hroom : x.table.valids < MRAPI_MAX_RMEMS := by
      rw [hvalids]
      decide
    have hsuccess := (hok rfl hfresh hroom).1
    rw [hlimit] at hsuccess
    cases hsuccess
  · intro hok
    exact (hok rfl).mp hget hgone
  · intro hok
    refine hok ?_ hdetach
    rintro ⟨-, hattached⟩
    have hentry : entry 0xC0000001 = 1 := by decide
    rw [hentry, hnot] at hattached
    cases hattached

end MxApi.RemoteMemory
