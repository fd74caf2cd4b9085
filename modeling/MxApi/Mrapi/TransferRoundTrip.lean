/-
Whether a read of remote memory undoes a write, and a transfer `_i` with its `mrapi_test`
does what the transfer itself does.

A write scatters along the same pieces along which the read gathers
([`copyAll_flip`](Lib.copyAll_flip)), so the bytes come back whenever both come to their end
inside the memory ([`undoes`]). What can fail is before that: the two check their bounds
differently, the loop may never end, and a transfer `_i` ends the process if no request is
free. [`round_trip_iff`] is exact about it.
-/
import MxApi.Mrapi.RequestTable
import MxApi.Mrapi.TransferBounds

set_option autoImplicit false

namespace MxApi.Transfer

open Lib
open LockTable (Node node0 mrapi_impl_encode_hndl mrapi_impl_decode_hndl decode_encode_hndl)
open RemoteMemory (entry mrapi_impl_valid_rmem_hndl mrapi_impl_rmem_attached)
open mrapi_status_t

/-! ## The contract -/

/-- The byte of the remote memory is one that the transfer accesses. -/
def Tuple.Remote (a : Tuple) (g : Buffer) (p : ℕ) : Prop :=
  ∃ i, i < a.num_strides ∧ ∃ j, j < a.bytes_per_access ∧
    p = g.addr + (a.rmem_offset + i * a.rmem_stride) + j

/-- The byte of the local buffer is one that the transfer accesses. -/
def Tuple.Local (a : Tuple) (local_buf : ℕ) (p : ℕ) : Prop :=
  ∃ i, i < a.num_strides ∧ ∃ j, j < a.bytes_per_access ∧
    p = u64 (local_buf + (a.local_offset + i * a.local_stride)) + j

section

variable (x : Db) (q : Requests) (c : Node) (rmem local_buf : ℕ) (a : Tuple)

/-- The call does not accept the parameters: it returns without a transfer. -/
def Refuses (d : Direction) : Prop :=
  ∃ fuel o, d.call x c rmem local_buf a fuel = some o ∧ o.moved.rc = false

/-- The call returns, and this is what it does to the bytes. -/
def Does (d : Direction) (m m' : Mem) : Prop :=
  ∃ fuel o, d.call x c rmem local_buf a fuel = some o ∧
    runCopies (x.buffers (entry rmem)) d o.moved.copies m = some m'

/-- A write changes the accessed bytes of the remote memory only, and a read after it, into
whatever is then in the local buffer, the accessed bytes of that only, to what was
written. -/
def Undoes : Prop :=
  ∀ m, ∃ mw, Does x c rmem local_buf a .write m mw ∧ mw.loc = m.loc ∧
    (∀ p, ¬ a.Remote (x.buffers (entry rmem)) p → mw.remote p = m.remote p) ∧
    ∀ contents, ∃ mr, Does x c rmem local_buf a .read { mw with loc := contents } mr ∧
      mr.remote = mw.remote ∧ (∀ p, a.Local local_buf p → mr.loc p = m.loc p) ∧
      ∀ p, ¬ a.Local local_buf p → mr.loc p = contents p

/-- A transfer `_i` and then `mrapi_test` of the request that it has started. -/
def waited (d : Direction) (fuel : ℕ) : Option Outcome :=
  (d.call_i x q c rmem local_buf a fuel).bind fun s =>
    if s.status = MRAPI_SUCCESS then
      (mrapi_test s.requests s.request).map fun t => ⟨t.2.1, s.moved⟩
    else some ⟨s.status, s.moved⟩

/-- What the transfers have to be to each other. -/
structure RoundTrips : Prop where
  agree : Refuses x c rmem local_buf a .write ↔ Refuses x c rmem local_buf a .read
  undoes : ¬ Refuses x c rmem local_buf a .write → Undoes x c rmem local_buf a
  waited : ∀ d fuel, waited x q c rmem local_buf a d fuel = d.call x c rmem local_buf a fuel

end

variable {x : Db} {q : Requests} {c : Node} {rmem local_buf fuel : ℕ} {a : Tuple}
  {g : Buffer} {d : Direction} {m m' : Mem} {ks : List Copy}

/-! ## The bytes of a list of copies -/

/-- A write along copies inside the memory. -/
theorem runCopies_write (h : ∀ k ∈ ks, k.Inside g) :
    runCopies g .write ks m =
      some { m with remote := copyAll m.remote m.loc (ks.map Copy.piece) } := by
  induction ks generalizing m with
  | nil => rfl
  | cons k ks ih =>
    rw [runCopies, Copy.run, if_pos (h k List.mem_cons_self), Option.bind_some,
      ih fun k' hk' => h k' (List.mem_cons_of_mem k hk')]
    rfl

/-- A read along copies inside the memory. -/
theorem runCopies_read (h : ∀ k ∈ ks, k.Inside g) :
    runCopies g .read ks m =
      some { m with loc := copyAll m.loc m.remote ((ks.map Copy.piece).map Piece.flip) } := by
  induction ks generalizing m with
  | nil => rfl
  | cons k ks ih =>
    rw [runCopies, Copy.run, if_pos (h k List.mem_cons_self), Option.bind_some,
      ih fun k' hk' => h k' (List.mem_cons_of_mem k hk')]
    rfl

/-- Copies that are defined are inside the memory. -/
theorem inside_of_runCopies (h : runCopies g d ks m = some m') : ∀ k ∈ ks, k.Inside g := by
  induction ks generalizing m with
  | nil => simp
  | cons k ks ih =>
    rw [runCopies, Option.bind_eq_some_iff] at h
    obtain ⟨m₁, hk, hks⟩ := h
    have hinside : k.Inside g := by
      by_contra hout
      unfold Copy.run at hk
      rw [if_neg hout] at hk
      cases hk
    intro k' hk'
    rcases List.mem_cons.mp hk' with rfl | htail
    · exact hinside
    · exact ih hks k' htail

/-! ## The copies of a transfer -/

/-- The copies of a transfer that comes to its end. -/
def Tuple.copies (a : Tuple) (g : Buffer) (local_buf : ℕ) : List Copy :=
  (List.range a.num_strides).map (a.copy g local_buf)

/-- Being inside the memory and being in bounds are the same: with fewer than `2^16` strides
a pointer cannot wrap far enough to come back into the memory. -/
theorem inside_iff (hcount : a.num_strides < 2 ^ 16) :
    (∀ k ∈ a.copies g local_buf, k.Inside g) ↔ a.InBounds g.size := by
  have hend := g.end_lt
  have hoffset := a.rmem_offset_lt
  have hspan : ∀ i, i < a.num_strides → i * a.rmem_stride < 2 ^ 16 * 2 ^ 32 := fun i hi =>
    Nat.mul_lt_mul'' (hi.trans hcount) a.rmem_stride_lt
  unfold Tuple.copies Tuple.InBounds
  rw [List.forall_mem_map]
  constructor
  · intro h i hi j hj
    obtain ⟨hlow, hhigh⟩ := h i (List.mem_range.mpr hi) j hj
    have hi' := hspan i hi
    simp only [Tuple.copy, u64] at hlow hhigh
    have hbytes := a.bytes_per_access_lt
    omega
  · intro h i hi j hj
    have hin := h i (List.mem_range.mp hi) j hj
    simp only [Tuple.copy, u64]
    omega

/-- A transfer in bounds goes to the bytes that it is documented to access. -/
theorem remote_iff (hin : a.InBounds g.size) (p : ℕ) :
    (∃ k ∈ (a.copies g local_buf).map Copy.piece, k.Writes p) ↔ a.Remote g p := by
  have hend := g.end_lt
  unfold Tuple.copies Tuple.Remote
  simp only [List.map_map, List.mem_map, List.mem_range, exists_exists_and_eq_and]
  refine exists_congr fun i => and_congr_right fun hi => ?_
  simp only [Function.comp_apply, Copy.piece, Tuple.copy, Piece.Writes, u64]
  constructor
  · rintro ⟨hlow, hhigh⟩
    have hfirst := hin i hi 0 (by omega)
    exact ⟨p - (g.addr + (a.rmem_offset + i * a.rmem_stride)), by omega, by omega⟩
  · rintro ⟨j, hj, rfl⟩
    have hfirst := hin i hi 0 (by omega)
    omega

/-- Turned round they go to the accessed bytes of the local buffer. -/
theorem local_iff (p : ℕ) :
    (∃ k ∈ (a.copies g local_buf).map Copy.piece, k.flip.Writes p) ↔ a.Local local_buf p := by
  unfold Tuple.copies Tuple.Local
  simp only [List.map_map, List.mem_map, List.mem_range, exists_exists_and_eq_and]
  refine exists_congr fun i => and_congr_right fun _ => ?_
  simp only [Function.comp_apply, Copy.piece, Tuple.copy, Piece.Writes, Piece.flip]
  constructor
  · rintro ⟨hlow, hhigh⟩
    exact ⟨p - u64 (local_buf + (a.local_offset + i * a.local_stride)), by omega, by omega⟩
  · rintro ⟨j, hj, rfl⟩
    omega

/-- A stride is as long as an access, so that no two accesses meet. -/
theorem copies_apart (hstride : a.bytes_per_access ≤ a.rmem_stride) (hin : a.InBounds g.size) :
    ((a.copies g local_buf).map Copy.piece).Pairwise Piece.Apart := by
  have hend := g.end_lt
  unfold Tuple.copies
  rw [List.map_map, List.pairwise_map]
  refine List.pairwise_lt_range.imp_of_mem ?_
  rintro i i' hi hi' hlt p ⟨hlow, hhigh⟩ ⟨hlow', hhigh'⟩
  simp only [Function.comp_apply, Copy.piece, Tuple.copy, u64] at hlow hhigh hlow' hhigh'
  have hfirst := hin i (List.mem_range.mp hi) 0 (by omega)
  have hfirst' := hin i' (List.mem_range.mp hi') 0 (by omega)
  have hmul : (i + 1) * a.rmem_stride ≤ i' * a.rmem_stride := Nat.mul_le_mul_right _ hlt
  rw [Nat.succ_mul] at hmul
  omega

/-! ## The transfers -/

/-- A call whose checks fail refuses. -/
theorem refuses_unchecked (hcheck : checkTransfer x c rmem a ≠ MRAPI_SUCCESS) :
    Refuses x c rmem local_buf a d :=
  ⟨0, _, call_unchecked hcheck, rfl⟩

/-- Any other one refuses if its check of the bounds does. -/
theorem refuses_iff (hcheck : checkTransfer x c rmem a = MRAPI_SUCCESS) :
    Refuses x c rmem local_buf a d ↔ ¬ a.Passes (x.buffers (entry rmem)) d := by
  constructor
  · rintro ⟨fuel, o, hcall, hrc⟩ hpasses
    rw [call_accepted hcheck hpasses, Option.map_eq_some_iff] at hcall
    obtain ⟨s, _, rfl⟩ := hcall
    cases hrc
  · intro hnot
    exact ⟨0, _, call_refused hcheck hnot, rfl⟩

/-- A call that accepts its parameters and returns has made all its copies. -/
theorem call_copies (hcheck : checkTransfer x c rmem a = MRAPI_SUCCESS)
    (hpasses : a.Passes (x.buffers (entry rmem)) d) (hcount : a.num_strides < 2 ^ 16) :
    d.call x c rmem local_buf a (a.num_strides + 1) =
      some ⟨MRAPI_SUCCESS, true, a.copies (x.buffers (entry rmem)) local_buf⟩ := by
  rw [call_accepted hcheck hpasses, strideLoop_some hcount (by omega)]
  rfl

/-- A call that returns has had a counter that can reach the number of strides. -/
theorem call_returns (hcheck : checkTransfer x c rmem a = MRAPI_SUCCESS)
    (hpasses : a.Passes (x.buffers (entry rmem)) d) {o : Outcome}
    (hcall : d.call x c rmem local_buf a fuel = some o) :
    a.num_strides < 2 ^ 16 ∧ o.moved.copies = a.copies (x.buffers (entry rmem)) local_buf := by
  have hcount : a.num_strides < 2 ^ 16 := by
    by_contra hmany
    rw [call_accepted hcheck hpasses, strideLoop_none (by omega)] at hcall
    cases hcall
  rw [call_accepted hcheck hpasses, Option.map_eq_some_iff] at hcall
  obtain ⟨s, hs, rfl⟩ := hcall
  refine ⟨hcount, ?_⟩
  -- the loop has looked at its test often enough
  have hend := whileLoop_inv (fun s => ∃ k, k ≤ a.num_strides ∧
      s = a.cursor (x.buffers (entry rmem)) local_buf k)
    (by
      rintro _ s' ⟨k, hk, rfl⟩ htest hs'
      rw [Option.some.injEq] at hs'
      have hlt : k < a.num_strides := of_decide_eq_true htest
      rw [← hs', cursor_stride (by omega)]
      exact ⟨k + 1, hlt, rfl⟩)
    ⟨0, Nat.zero_le _, cursor_zero.symm⟩ hs
  obtain ⟨⟨k, hk, rfl⟩, htest⟩ := hend
  have hnot : ¬ k < a.num_strides := of_decide_eq_false htest
  have hlast : k = a.num_strides := by omega
  rw [hlast]
  rfl

/-- **A read undoes a write** if both accept the parameters, come to their end and stay in
bounds. -/
theorem undoes (hcheck : checkTransfer x c rmem a = MRAPI_SUCCESS)
    (hpasses : ∀ d, a.Passes (x.buffers (entry rmem)) d) (hcount : a.num_strides < 2 ^ 16)
    (hin : a.InBounds (x.buffers (entry rmem)).size) : Undoes x c rmem local_buf a := by
  have hstride := (checkTransfer_success.mp hcheck).2.1
  have hinside : ∀ k ∈ a.copies (x.buffers (entry rmem)) local_buf, k.Inside _ :=
    (inside_iff hcount).mpr hin
  have hapart : ((a.copies (x.buffers (entry rmem)) local_buf).map Copy.piece).Pairwise
      Piece.Apart := copies_apart hstride hin
  intro m
  refine ⟨_, ⟨_, _, call_copies hcheck (hpasses .write) hcount, runCopies_write hinside⟩, rfl,
    ?_, ?_⟩
  · intro p hp
    apply copyAll_outside
    intro k hk hwrites
    exact hp ((remote_iff hin p).mp ⟨k, hk, hwrites⟩)
  · intro contents
    refine ⟨_, ⟨_, _, call_copies hcheck (hpasses .read) hcount, runCopies_read hinside⟩, rfl,
      ?_, ?_⟩
    · intro p hp
      rw [← local_iff] at hp
      exact (copyAll_flip hapart contents p).trans (if_pos hp)
    · intro p hp
      rw [← local_iff] at hp
      exact (copyAll_flip hapart contents p).trans (if_neg hp)

/-- And only then. -/
theorem of_undoes (hcheck : checkTransfer x c rmem a = MRAPI_SUCCESS)
    (hpasses : a.Passes (x.buffers (entry rmem)) .write) (h : Undoes x c rmem local_buf a) :
    a.num_strides < 2 ^ 16 ∧ a.InBounds (x.buffers (entry rmem)).size := by
  obtain ⟨mw, ⟨fuel, o, hcall, hrun⟩, _⟩ := h ⟨fun _ => 0, fun _ => 0⟩
  obtain ⟨hcount, hcopies⟩ := call_returns hcheck hpasses hcall
  rw [hcopies] at hrun
  exact ⟨hcount, (inside_iff hcount).mp (inside_of_runCopies hrun)⟩

/-! ## The transfers with a request -/

/-- The request that a transfer has started is the one that is asked for. -/
theorem mrapi_test_started {r : ℕ} (hr : r < MRAPI_MAX_REQUESTS) {e : mrapi_request_data}
    (hvalid : e.valid = true) (hcompleted : e.completed = true) :
    mrapi_test (Function.update q r e) (mrapi_impl_encode_hndl r) =
      some (Function.update (Function.update q r e) r .zero, e.status, true) := by
  have hmax : MRAPI_MAX_REQUESTS < 2 ^ 16 := by decide
  have hdecode := decode_encode_hndl (hr.trans hmax)
  have hnames : Requests.names (Function.update q r e) (mrapi_impl_encode_hndl r) = true := by
    simp [Requests.names, hdecode, hr, hvalid]
  have htest : mrapi_impl_test (Function.update q r e) (mrapi_impl_encode_hndl r) =
      some (Function.update (Function.update q r e) r .zero, e.status) := by
    unfold mrapi_impl_test
    simp only [hdecode, Function.update_self]
    rw [hnames, hcompleted]
    rfl
  unfold mrapi_test mrapi_impl_valid_request_hndl
  rw [hnames, htest]
  rfl

theorem call_i_eq : d.call_i x q c rmem local_buf a fuel =
    startChecked x q c rmem a (start q (d.impl x rmem local_buf a fuel)) := by
  cases d <;> rfl

/-- A transfer `_i` with a request that is free. -/
theorem start_some {r : ℕ} (hunused : q.unused = some r) (moved : Option Moved)
    (status : mrapi_status_t) :
    start q moved status = moved.map fun m =>
      ⟨Function.update q r ⟨true, true, false, status⟩, MRAPI_SUCCESS,
        mrapi_impl_encode_hndl r, m⟩ := by
  have hr : r < MRAPI_MAX_REQUESTS := (search_some hunused).1
  unfold start mrapi_impl_setup_request
  simp only [hunused, if_pos hr, Function.update_self, Function.update_idem]

theorem start_none (hfull : q.unused = none) (moved : Option Moved) (status : mrapi_status_t) :
    start q moved status = none := by
  unfold start mrapi_impl_setup_request
  simp only [hfull]

/-- A transfer that is turned down before it begins needs no request. -/
theorem waited_unchecked (hcheck : checkTransfer x c rmem a ≠ MRAPI_SUCCESS) :
    waited x q c rmem local_buf a d fuel = d.call x c rmem local_buf a fuel := by
  unfold waited
  rw [call_i_eq]
  unfold startChecked
  rw [if_neg hcheck, call_unchecked hcheck, Option.bind_some, if_neg hcheck]

/-- With a request that is free, waiting for a transfer is making it. -/
theorem waited_eq_call (hfree : q.unused.isSome = true) :
    waited x q c rmem local_buf a d fuel = d.call x c rmem local_buf a fuel := by
  obtain ⟨r, hunused⟩ := Option.isSome_iff_exists.mp hfree
  have hr : r < MRAPI_MAX_REQUESTS := (search_some hunused).1
  by_cases hcheck : checkTransfer x c rmem a = MRAPI_SUCCESS
  · unfold waited
    rw [call_i_eq]
    unfold startChecked
    rw [if_pos hcheck, call_checked hcheck, start_some hunused]
    cases d.impl x rmem local_buf a fuel with
    | none => rfl
    | some m =>
      simp only [Option.map_some, Option.bind_some, if_true]
      rw [mrapi_test_started hr rfl rfl, Option.map_some]
  · exact waited_unchecked hcheck

/-- Without one the process ends. -/
theorem waited_none (hcheck : checkTransfer x c rmem a = MRAPI_SUCCESS)
    (hfull : q.unused = none) : waited x q c rmem local_buf a d fuel = none := by
  unfold waited
  rw [call_i_eq]
  unfold startChecked
  rw [if_pos hcheck, start_none hfull, Option.bind_none]

/-! ## The result -/

theorem unused_isSome : q.unused.isSome = true ↔ ∃ i, i < MRAPI_MAX_REQUESTS ∧
    (q i).valid = false := by
  rw [← not_iff_not, Bool.not_eq_true, Option.isSome_eq_false_iff, Option.isNone_iff_eq_none]
  unfold Requests.unused
  rw [search_eq_none]
  push Not
  refine forall_congr' fun i => forall_congr' fun _ => ?_
  simp

/-- Parameters that the checks before the transfer turn down are turned down by all. -/
theorem round_trips_unchecked (hcheck : checkTransfer x c rmem a ≠ MRAPI_SUCCESS) :
    RoundTrips x q c rmem local_buf a where
  agree := iff_of_true (refuses_unchecked hcheck) (refuses_unchecked hcheck)
  undoes h := absurd (refuses_unchecked hcheck) h
  waited _ _ := waited_unchecked hcheck

/-- The transfers cannot be what they should be while all requests are in use: the call
itself returns. -/
theorem RoundTrips.free (hcheck : checkTransfer x c rmem a = MRAPI_SUCCESS)
    (h : RoundTrips x q c rmem local_buf a) : q.unused.isSome = true := by
  by_contra hfull
  rw [Bool.not_eq_true, Option.isSome_eq_false_iff, Option.isNone_iff_eq_none] at hfull
  have hnever : ∀ fuel, Direction.write.call x c rmem local_buf a fuel = none := by
    intro fuel
    rw [← h.waited .write fuel]
    exact waited_none hcheck hfull
  by_cases hpasses : a.Passes (x.buffers (entry rmem)) .write
  · have haccepts : ¬ Refuses x c rmem local_buf a .write :=
      mt (refuses_iff hcheck).mp (not_not.mpr hpasses)
    have hcount := (of_undoes hcheck hpasses (h.undoes haccepts)).1
    have hcall := hnever (a.num_strides + 1)
    rw [call_copies hcheck hpasses hcount] at hcall
    cases hcall
  · have hcall := hnever 0
    rw [call_refused hcheck hpasses] at hcall
    cases hcall

/-- Of parameters that reach the transfer. -/
theorem round_trip_checked (hcheck : checkTransfer x c rmem a = MRAPI_SUCCESS) :
    RoundTrips x q c rmem local_buf a ↔
      q.unused.isSome = true ∧
        ((¬ a.Passes (x.buffers (entry rmem)) .write ∧
            ¬ a.Passes (x.buffers (entry rmem)) .read) ∨
          a.Passes (x.buffers (entry rmem)) .write ∧ a.Passes (x.buffers (entry rmem)) .read ∧
            a.num_strides < 2 ^ 16 ∧ a.InBounds (x.buffers (entry rmem)).size) := by
  have hrefuses : ∀ d, Refuses x c rmem local_buf a d ↔
      ¬ a.Passes (x.buffers (entry rmem)) d := fun _ => refuses_iff hcheck
  constructor
  · intro h
    refine ⟨h.free hcheck, ?_⟩
    have hagree := h.agree
    rw [hrefuses, hrefuses, not_iff_not] at hagree
    by_cases hwrite : a.Passes (x.buffers (entry rmem)) .write
    · have hundoes := h.undoes (mt (hrefuses .write).mp (not_not.mpr hwrite))
      exact .inr ⟨hwrite, hagree.mp hwrite, of_undoes hcheck hwrite hundoes⟩
    · exact .inl ⟨hwrite, mt hagree.mpr hwrite⟩
  · rintro ⟨hfree, ⟨hwrite, hread⟩ | ⟨hwrite, hread, hcount, hin⟩⟩
    · constructor
      · exact iff_of_true ((hrefuses _).mpr hwrite) ((hrefuses _).mpr hread)
      · exact fun h => absurd ((hrefuses _).mpr hwrite) h
      · exact fun _ _ => waited_eq_call hfree
    · constructor
      · exact iff_of_false (mt (hrefuses _).mp (not_not.mpr hwrite))
          (mt (hrefuses _).mp (not_not.mpr hread))
      · intro _
        refine undoes hcheck (fun d => ?_) hcount hin
        cases d with
        | read => exact hread
        | write => exact hwrite
      · exact fun _ _ => waited_eq_call hfree

/-- **The transfers are to each other what they should be exactly if** the checks before the
transfer turn the parameters down, or a request is free and the two checks of the bounds
agree: both turn them down, or both let through parameters whose accesses are in bounds and
fewer than `2^16`. -/
theorem round_trip_iff (hvalid : mrapi_impl_valid_rmem_hndl x.table rmem = true) :
    RoundTrips x q c rmem local_buf a ↔
      ¬ (a.bytes_per_access ≤ a.rmem_stride ∧ a.bytes_per_access ≤ a.local_stride ∧
        mrapi_impl_rmem_attached x.table c rmem = true) ∨
      ((∃ i, i < MRAPI_MAX_REQUESTS ∧ (q i).valid = false) ∧
        ((¬ a.Passes (x.buffers (entry rmem)) .write ∧
            ¬ a.Passes (x.buffers (entry rmem)) .read) ∨
          a.Passes (x.buffers (entry rmem)) .write ∧ a.Passes (x.buffers (entry rmem)) .read ∧
            a.num_strides < 2 ^ 16 ∧ a.InBounds (x.buffers (entry rmem)).size)) := by
  rw [← unused_isSome]
  by_cases hcheck : checkTransfer x c rmem a = MRAPI_SUCCESS
  · have hchecks := (checkTransfer_success.mp hcheck).2
    rw [round_trip_checked hcheck]
    exact ⟨.inr, fun h => h.resolve_left (not_not.mpr hchecks)⟩
  · have hchecks := mt (fun h => checkTransfer_success.mpr ⟨hvalid, h⟩) hcheck
    exact iff_of_true (round_trips_unchecked hcheck) (.inl hchecks)

/-- No request is in use. -/
def noRequests : Requests := fun _ => .zero

/-- Scattered bytes come back. -/
theorem scattered_round_trip :
    RoundTrips db16 noRequests node0 (mrapi_impl_encode_hndl 0) 0 scattered :=
  (round_trip_iff (by decide)).mpr <| .inr ⟨⟨0, by decide, by decide⟩,
    .inr ⟨by decide, by decide, by decide,
      (inBounds_iff (by decide) (by decide)).mpr (by decide)⟩⟩

/-- Two accesses of two bytes up to one byte before the end. -/
def uneven : Tuple := .ofWords 11 0 2 2 2 2

/-- A read accepts what a write does not, though it is all in bounds. -/
theorem uneven_no_round_trip :
    mrapi_impl_valid_rmem_hndl db16.table (mrapi_impl_encode_hndl 0) = true ∧
      ¬ RoundTrips db16 noRequests node0 (mrapi_impl_encode_hndl 0) 0 uneven := by
  refine ⟨by decide, fun h => ?_⟩
  have hcheck : checkTransfer db16 node0 (mrapi_impl_encode_hndl 0) uneven = MRAPI_SUCCESS := by
    decide
  have hread := h.agree.mp ((refuses_iff hcheck).mpr (by decide))
  exact (refuses_iff hcheck).mp hread (by decide)

end MxApi.Transfer
