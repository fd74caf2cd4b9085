/-
The counts of remote memory.

A create keeps the count of the last occupant of its entry, and a detach counts down whether its
caller is attached or not; where neither matters the count is the number of nodes attached
([`Counts.call`]).
-/
import MxApi.Lib.Tally
import MxApi.Mrapi.RemoteMemoryLife

set_option autoImplicit false

namespace MxApi.RemoteMemory

open Lib
open LockTable (Node MRAPI_MAX_NODES mrapi_impl_encode_hndl mrapi_impl_decode_hndl)
open mrapi_rmem_atype_t mrapi_status_t

/-- The count of each valid entry. -/
def Counts (x : Sys) : Prop :=
  ∀ r, (x.table.rmems r).valid = true →
    Tally (fun c => x.attached r c = true) (x.table.rmems r).refs

/-- A create finds the count at zero, and a node that detaches is attached. -/
def CountMeets (x : Sys) (a : Label) : Prop :=
  Tidy x a ∧ match a.2 with
    | .create rmem_id access_type =>
      access_type = MRAPI_RMEM_DUMMY → x.table.Fresh rmem_id →
        x.table.num_rmems ≠ MRAPI_MAX_RMEMS →
        ∀ r ∈ x.table.unused, (x.table.rmems r).refs = 0
    | .detach rmem =>
      mrapi_impl_valid_rmem_hndl x.table rmem = true → x.attached (entry rmem) a.1 = true
    | _ => True

instance (x : Sys) : DecidablePred (CountMeets x)
  | (_, .create rmem_id access_type) => inferInstanceAs (Decidable (Tidy x _ ∧
      (access_type = MRAPI_RMEM_DUMMY → x.table.Fresh rmem_id →
        x.table.num_rmems ≠ MRAPI_MAX_RMEMS →
        ∀ r ∈ x.table.unused, (x.table.rmems r).refs = 0)))
  | (c, .detach rmem) => inferInstanceAs (Decidable (Tidy x _ ∧
      (mrapi_impl_valid_rmem_hndl x.table rmem = true → x.attached (entry rmem) c = true)))
  | (_, .get _ _) | (_, .attach _) | (_, .delete _) | (_, .attached _) | (_, .read _ _)
  | (_, .write _ _) => inferInstanceAs (Decidable (Tidy x _ ∧ True))

variable {x : Sys} {c : Node} {r : ℕ} {e : mrapi_rmem_t} {row : Node → Bool}

theorem Counts.init : Counts init := fun _ h => nomatch h

/-- One entry changes. -/
theorem Counts.set (h : Counts x) (n : ℕ)
    (hrow : e.valid = true → Tally (fun c => row c = true) e.refs) :
    Counts ⟨{ x.table.set r e with num_rmems := n }, Function.update x.attached r row⟩ := by
  intro r'
  change (Function.update x.table.rmems r e r').valid = true →
    Tally (fun c => Function.update x.attached r row r' c = true)
      (Function.update x.table.rmems r e r').refs
  by_cases hr : r' = r
  · rw [hr, Function.update_self, Function.update_self]
    exact hrow
  · rw [Function.update_of_ne hr, Function.update_of_ne hr]
    exact h r'

/-- A node attaches, or is attached already. -/
theorem Counts.attach (h : Counts x) (hinv : Inv x) {rmem : ℕ} (htwin : x.NoTwin c (entry rmem))
    (hvalid : (x.table.rmems (entry rmem)).valid = true) :
    ∃ e : mrapi_rmem_t, mrapi_impl_rmem_attach x.table c rmem = x.table.set (entry rmem) e ∧
      Tally (fun c' => Function.update (x.attached (entry rmem)) c true c' = true) e.refs := by
  have hlisted := (hinv (entry rmem)).nodes_iff htwin hvalid
  unfold mrapi_impl_rmem_attach
  dsimp only
  by_cases hnodes : (x.table.rmems (mrapi_impl_decode_hndl rmem).1).nodes c.nindex = true
  · rw [if_pos hnodes]
    refine ⟨x.table.rmems (entry rmem), ?_, ?_⟩
    · unfold Rmems.set
      rw [Function.update_eq_self]
    · have hsame : Function.update (x.attached (entry rmem)) c true = x.attached (entry rmem) := by
        rw [← hlisted.mp hnodes]
        exact Function.update_eq_self ..
      rw [hsame]
      exact h (entry rmem) hvalid
  · rw [if_neg hnodes]
    refine ⟨_, rfl, ?_⟩
    have hmore : Tally (fun c' => Function.update (x.attached (entry rmem)) c true c' = true)
        ((x.table.rmems (entry rmem)).refs + 1) := by
      apply (h (entry rmem) hvalid).enter fun ha => hnodes (hlisted.mpr ha)
      · exact Function.update_self ..
      · intro c' hc'
        rw [Function.update_of_ne hc']
    have hle : (x.table.rmems (entry rmem)).refs + 1 ≤ 32 := hmore.le_card
    have hu8 : u8 ((x.table.rmems (entry rmem)).refs + 1) =
        (x.table.rmems (entry rmem)).refs + 1 := by
      apply u8_of_lt
      omega
    dsimp only
    change Tally _ (u8 ((x.table.rmems (entry rmem)).refs + 1))
    rw [hu8]
    exact hmore

/-- A node that is attached detaches. -/
theorem Counts.detach (h : Counts x) {rmem : ℕ}
    (hvalid : (x.table.rmems (entry rmem)).valid = true)
    (hattached : x.attached (entry rmem) c = true) :
    Tally (fun c' => Function.update (x.attached (entry rmem)) c false c' = true)
      (subU8 (x.table.rmems (entry rmem)).refs 1) := by
  have hold := h (entry rmem) hvalid
  have hle : (x.table.rmems (entry rmem)).refs ≤ 32 := hold.le_card
  have hless : ∃ j, (x.table.rmems (entry rmem)).refs = j + 1 ∧
      Tally (fun c' => Function.update (x.attached (entry rmem)) c false c' = true) j := by
    apply hold.leave hattached
    · rw [Function.update_self]
      exact Bool.false_ne_true
    · intro c' hc'
      rw [Function.update_of_ne hc']
  obtain ⟨j, hj, hless⟩ := hless
  rw [subU8_of_le (by omega) (by omega), hj]
  exact hless

/-- **One call** under the condition. -/
theorem Counts.call (h : Counts x) (hinv : Inv x) {a : Label} (hmeets : CountMeets x a) :
    Counts (x.call a) := by
  obtain ⟨c, call⟩ := a
  obtain ⟨htidy, hcount⟩ := hmeets
  cases call with
  | create rmem_id access_type =>
    rcases create_cases x.table rmem_id access_type with ⟨hsame, hout⟩ |
      ⟨htype, hfresh, hlimit, r, hunused, heq⟩
    · by_cases hsuccess : (mrapi_rmem_create x.table rmem_id access_type).2.status = MRAPI_SUCCESS
      · rw [Sys.call_success x c (.create rmem_id access_type) (t := x.table)
          (Prod.ext hsame rfl) hsuccess]
        dsimp only [Sys.note, Call.run]
        rw [hout hsuccess]
        -- no entry is named
        have hbounded := (hinv MRAPI_MAX_RMEMS).bounded
        have hset := @Counts.set x MRAPI_MAX_RMEMS (x.table.rmems MRAPI_MAX_RMEMS)
          (fun _ => false) h x.table.num_rmems
          fun hv => absurd (hbounded hv) (Nat.lt_irrefl _)
        unfold Rmems.set at hset
        rw [Function.update_eq_self] at hset
        exact hset
      · rw [Sys.call_error x c (.create rmem_id access_type) (t := x.table)
          (Prod.ext hsame rfl) hsuccess]
        exact h
    · obtain ⟨hr, -⟩ := unused_some hunused
      rw [Sys.call_success x c (.create rmem_id access_type) heq rfl]
      dsimp only [Sys.note]
      rw [entry_encode hr]
      refine h.set _ fun _ => ?_
      dsimp only
      rw [hcount htype hfresh hlimit r hunused]
      exact .none fun _ hf => nomatch hf
  | attach rmem =>
    rcases handle_calls x.table rmem c with ⟨hvalid, heq, -⟩ | ⟨-, heq, -⟩
    · obtain ⟨-, -, hentry⟩ := valid_rmem_hndl.mp hvalid
      obtain ⟨e, he, htally⟩ := h.attach hinv (htidy hvalid) hentry
      rw [Sys.call_success x c (.attach rmem) heq rfl, he]
      exact h.set _ fun _ => htally
    · rw [Sys.call_error x c (.attach rmem) heq (fun h => nomatch h)]
      exact h
  | detach rmem =>
    rcases handle_calls x.table rmem c with ⟨hvalid, -, heq, -⟩ | ⟨-, -, heq, -⟩
    · obtain ⟨-, -, hentry⟩ := valid_rmem_hndl.mp hvalid
      rw [Sys.call_success x c (.detach rmem) heq rfl]
      exact h.set _ fun _ => h.detach hentry (hcount hvalid)
    · rw [Sys.call_error x c (.detach rmem) heq (fun h => nomatch h)]
      exact h
  | delete rmem =>
    rcases handle_calls x.table rmem c with ⟨hvalid, -, -, heq⟩ | ⟨-, -, -, heq⟩
    · rw [Sys.call_success x c (.delete rmem) heq rfl]
      exact h.set _ fun hv => nomatch hv
    · rw [Sys.call_error x c (.delete rmem) heq (fun h => nomatch h)]
      exact h
  | get rmem_id access_type =>
    rw [Sys.call_question x c (.get rmem_id access_type) rfl rfl]
    exact h
  | attached rmem =>
    rw [Sys.call_question x c (.attached rmem) rfl rfl]
    exact h
  | read rmem strides =>
    rw [Sys.call_question x c (.read rmem strides) rfl rfl]
    exact h
  | write rmem strides =>
    rw [Sys.call_question x c (.write rmem strides) rfl rfl]
    exact h

/-! ## Who is attached -/

/-- Nobody but the caller comes to be attached. -/
theorem Sys.call_attached {call : Call} {j : Node}
    (h : (x.call (c, call)).attached r j = true) : j = c ∨ x.attached r j = true := by
  -- one row changes, and of the row one node
  have hrow : ∀ {r₀ : ℕ} {row : Node → Bool}, (row j = true → j = c ∨ x.attached r₀ j = true) →
      Function.update x.attached r₀ row r j = true → j = c ∨ x.attached r j = true := by
    intro r₀ row hnew hj
    rw [Function.update_apply] at hj
    split at hj
    · rename_i hr
      rw [hr]
      exact hnew hj
    · exact .inr hj
  unfold Sys.call at h
  dsimp only at h
  split at h
  · cases call with
    | create rmem_id access_type => exact hrow (fun hf => absurd hf Bool.false_ne_true) h
    | attach rmem =>
      refine hrow (fun hj => ?_) h
      rw [Function.update_apply] at hj
      split at hj
      · rename_i hc
        exact .inl hc
      · exact .inr hj
    | detach rmem =>
      refine hrow (fun hj => ?_) h
      rw [Function.update_apply] at hj
      split at hj
      · cases hj
      · exact .inr hj
    | delete rmem => exact hrow (fun hf => absurd hf Bool.false_ne_true) h
    | get rmem_id access_type => exact .inr h
    | attached rmem => exact .inr h
    | read rmem strides => exact .inr h
    | write rmem strides => exact .inr h
  · exact .inr h

/-- A new entry lists nobody. -/
theorem new_entry {call : Call} (htidy : Tidy x (c, call))
    (hold : (x.table.rmems r).valid = false)
    (hnew : ((x.call (c, call)).table.rmems r).valid = true) {n : ℕ} (hn : n < MRAPI_MAX_NODES) :
    ((x.call (c, call)).table.rmems r).nodes n = false := by
  have hsame : (x.call (c, call)).table.rmems r = x.table.rmems r →
      ((x.call (c, call)).table.rmems r).nodes n = false := by
    intro heq
    rw [heq, hold] at hnew
    cases hnew
  -- an entry that a handle names is as valid as it was
  have hhandle : ∀ {rmem : ℕ} {e : mrapi_rmem_t},
      (x.call (c, call)).table = x.table.set (entry rmem) e →
      (e.valid = true → (x.table.rmems (entry rmem)).valid = true) →
      ((x.call (c, call)).table.rmems r).nodes n = false := by
    intro rmem e htable hvalid
    by_cases hr : r = entry rmem
    · rw [htable, Rmems.set, hr] at hnew
      dsimp only at hnew
      rw [Function.update_self] at hnew
      rw [hr, hvalid hnew] at hold
      cases hold
    · apply hsame
      rw [htable, Rmems.set]
      exact Function.update_of_ne hr ..
  cases call with
  | create rmem_id access_type =>
    rcases create_cases x.table rmem_id access_type with ⟨heq, -⟩ |
      ⟨htype, hfresh, hlimit, r₀, hunused, heq⟩
    · exact hsame (congrArg (fun t => t.rmems r) heq)
    · have htable : (x.call (c, .create rmem_id access_type)).table = _ := congrArg Prod.fst heq
      dsimp only at htable
      by_cases hr : r = r₀
      · rw [htable, Rmems.set, hr]
        dsimp only
        rw [Function.update_self]
        exact htidy htype hfresh hlimit r₀ hunused n hn
      · apply hsame
        rw [htable, Rmems.set]
        exact Function.update_of_ne hr ..
  | attach rmem =>
    rcases handle_calls x.table rmem c with ⟨-, heq, -⟩ | ⟨-, heq, -⟩
    · obtain ⟨e, he, hvalid, -⟩ := impl_attach_cases x.table c rmem
      exact hhandle ((congrArg Prod.fst heq).trans he) fun hv => hvalid.symm.trans hv
    · exact hsame (congrArg (fun t => t.1.rmems r) heq)
  | detach rmem =>
    rcases handle_calls x.table rmem c with ⟨-, -, heq, -⟩ | ⟨-, -, heq, -⟩
    · exact hhandle (congrArg Prod.fst heq) id
    · exact hsame (congrArg (fun t => t.1.rmems r) heq)
  | delete rmem =>
    rcases handle_calls x.table rmem c with ⟨-, -, -, heq⟩ | ⟨-, -, -, heq⟩
    · exact hhandle (congrArg Prod.fst heq) fun hv => nomatch hv
    · exact hsame (congrArg (fun t => t.1.rmems r) heq)
  | get rmem_id access_type => exact hsame rfl
  | attached rmem => exact hsame rfl
  | read rmem strides => exact hsame rfl
  | write rmem strides => exact hsame rfl

end MxApi.RemoteMemory
