/-
Whether the transfers of remote memory stay in bounds.

The copying loop comes out with exactly the copies of the documentation if its 16-bit
counter can reach the number of strides, and never if it cannot ([`strideLoop_some`],
[`strideLoop_none`]). The check before it asks about the byte behind the last stride, a
write adds one access to that, the product wraps at `2^32`, and no transfer that the check
turns down says so in its status. [`bounds_right_iff`] is what remains.
-/
import Mathlib.Data.List.Range
import MxApi.Mrapi.Transfer

set_option autoImplicit false

namespace MxApi.Transfer

open Lib
open LockTable (Node node0 mrapi_impl_encode_hndl)
open RemoteMemory (Rmems entry valid_rmem_hndl mrapi_impl_valid_rmem_hndl
  mrapi_impl_rmem_attached)
open mrapi_status_t

/-! ## The accesses of the documentation -/

/-- The `i`-th access: `bytes_per_access` bytes at offset `rmem_offset + i*rmem_stride` of the
remote memory and at offset `local_offset + i*local_stride` of the local buffer. -/
def Tuple.access (a : Tuple) (g : Buffer) (local_buf i : ℕ) : Copy where
  rmem_buf := g.addr + (a.rmem_offset + i * a.rmem_stride)
  local_buf := u64 (local_buf + (a.local_offset + i * a.local_stride))
  bytes := a.bytes_per_access

/-- All of them in their order. -/
def Tuple.accesses (a : Tuple) (g : Buffer) (local_buf : ℕ) : List Copy :=
  (List.range a.num_strides).map (a.access g local_buf)

/-- All accessed bytes lie in the `size` bytes of the remote memory. -/
def Tuple.InBounds (a : Tuple) (size : ℕ) : Prop :=
  ∀ i, i < a.num_strides → ∀ j, j < a.bytes_per_access →
    a.rmem_offset + i * a.rmem_stride + j < size

variable {a : Tuple} {g : Buffer} {local_buf fuel size : ℕ}

/-- It is enough to look at the last byte. -/
theorem inBounds_iff (hbytes : 1 ≤ a.bytes_per_access) (hstrides : 1 ≤ a.num_strides) :
    a.InBounds size ↔
      a.rmem_offset + (a.num_strides - 1) * a.rmem_stride + a.bytes_per_access ≤ size := by
  constructor
  · intro h
    have hlast := h (a.num_strides - 1) (by omega) (a.bytes_per_access - 1) (by omega)
    omega
  · intro h i hi j hj
    have hmul : i * a.rmem_stride ≤ (a.num_strides - 1) * a.rmem_stride :=
      Nat.mul_le_mul_right _ (by omega)
    omega

/-! ## The loop -/

/-- The copy of the `i`-th round, as the pointers have it. -/
def Tuple.copy (a : Tuple) (g : Buffer) (local_buf i : ℕ) : Copy where
  rmem_buf := u64 (g.addr + (a.rmem_offset + i * a.rmem_stride))
  local_buf := u64 (local_buf + (a.local_offset + i * a.local_stride))
  bytes := a.bytes_per_access

/-- The variables after `k` rounds. -/
def Tuple.cursor (a : Tuple) (g : Buffer) (local_buf k : ℕ) : Cursor where
  i := k
  rmem_buf := u64 (g.addr + (a.rmem_offset + k * a.rmem_stride))
  local_buf := u64 (local_buf + (a.local_offset + k * a.local_stride))
  copies := (List.range k).map (a.copy g local_buf)

/-- The loop between the pointers that a transfer gives it. -/
def Tuple.loop (a : Tuple) (g : Buffer) (local_buf fuel : ℕ) : Option Cursor :=
  strideLoop a (u64 (g.addr + a.rmem_offset)) (u64 (local_buf + a.local_offset)) fuel

theorem cursor_zero :
    a.cursor g local_buf 0 =
      ⟨0, u64 (g.addr + a.rmem_offset), u64 (local_buf + a.local_offset), []⟩ := by
  simp [Tuple.cursor]

theorem cursor_stride {k : ℕ} (hk : k + 1 < 2 ^ 16) :
    (a.cursor g local_buf k).stride a = a.cursor g local_buf (k + 1) := by
  have hnext : ∀ base offset step : ℕ,
      u64 (u64 (base + (offset + k * step)) + step) = u64 (base + (offset + (k + 1) * step)) := by
    intro base offset step
    rw [u64_add, Nat.succ_mul]
    simp only [Nat.add_assoc]
  unfold Tuple.cursor Cursor.stride
  simp only [Cursor.mk.injEq]
  refine ⟨u16_of_lt hk, hnext _ _ _, hnext _ _ _, ?_⟩
  rw [List.range_succ, List.map_append]
  rfl

/-- A counter that can reach the number of strides does so. -/
theorem strideLoop_some (hcount : a.num_strides < 2 ^ 16) (hfuel : a.num_strides < fuel) :
    a.loop g local_buf fuel = some (a.cursor g local_buf a.num_strides) := by
  obtain ⟨s, hrun, ⟨k, hk, rfl⟩, hend⟩ :
      ∃ s, a.loop g local_buf fuel = some s ∧
        (∃ k, k ≤ a.num_strides ∧ s = a.cursor g local_buf k) ∧
        decide (s.i < a.num_strides) = false := by
    refine whileLoop_ends (fun k s => k ≤ a.num_strides ∧ s = a.cursor g local_buf k)
      ?_ ?_ hfuel ⟨Nat.zero_le _, cursor_zero.symm⟩
    · rintro k s hk ⟨_, rfl⟩ _
      refine ⟨_, rfl, hk, cursor_stride ?_⟩
      omega
    · rintro s ⟨_, rfl⟩
      exact decide_eq_false (Nat.lt_irrefl _)
  -- the test fails only where the counter is the number of strides
  have hlast : k = a.num_strides := by
    have hnot : ¬ k < a.num_strides := of_decide_eq_false hend
    omega
  rw [hlast] at hrun
  exact hrun

/-- A counter that cannot reach it goes round for ever. -/
theorem strideLoop_none (hcount : 2 ^ 16 ≤ a.num_strides) : a.loop g local_buf fuel = none := by
  rw [Option.eq_none_iff_forall_ne_some]
  intro s hrun
  have hend := whileLoop_inv (fun s : Cursor => s.i < 2 ^ 16)
    (by
      rintro s s' _ _ hs
      rw [Option.some.injEq] at hs
      rw [← hs]
      exact u16_lt _)
    (by norm_num) hrun
  have hnot : ¬ s.i < a.num_strides := of_decide_eq_false hend.2
  omega

/-! ## The check -/

/-- What the check of the bounds asks: the sum does not pass the end, or it wraps around the
address space. -/
def Tuple.Passes (a : Tuple) (g : Buffer) : Direction → Prop
  | .read =>
    a.rmem_offset + a.span < g.size ∨ 2 ^ 64 ≤ g.addr + a.rmem_offset + a.span
  | .write =>
    a.rmem_offset + a.span + a.bytes_per_access ≤ g.size ∨
      2 ^ 64 ≤ g.addr + a.rmem_offset + a.span + a.bytes_per_access

instance (d : Direction) : Decidable (a.Passes g d) := by
  cases d <;> unfold Tuple.Passes <;> infer_instance

variable {x : Db} {c : Node} {rmem : ℕ} {d : Direction} {o : Outcome}

/-- The bounds of a read, compared as addresses. -/
theorem read_passes :
    u64 (g.addr + a.rmem_offset + a.span) > u64 (g.addr + g.size - 1) ↔ ¬ a.Passes g .read := by
  have hpos := g.addr_pos
  have hend := g.end_lt
  have hspan : a.span < 2 ^ 32 := u32_lt _
  have hoffset := a.rmem_offset_lt
  unfold Tuple.Passes u64
  omega

/-- The bounds of a write, compared as addresses. -/
theorem write_passes :
    u64 (g.addr + a.rmem_offset + a.span + a.bytes_per_access) > u64 (g.addr + g.size) ↔
      ¬ a.Passes g .write := by
  have hend := g.end_lt
  have hspan : a.span < 2 ^ 32 := u32_lt _
  have hoffset := a.rmem_offset_lt
  have hbytes := a.bytes_per_access_lt
  unfold Tuple.Passes u64
  omega

/-- A transfer that the check turns down copies nothing. -/
theorem impl_refused (hpasses : ¬ a.Passes (x.buffers (entry rmem)) d) :
    d.impl x rmem local_buf a fuel = some .none := by
  cases d with
  | read =>
    simp only [Direction.impl, mrapi_impl_rmem_read, transfer, read_passes.mpr hpasses, if_true,
      ite_self]
  | write =>
    simp only [Direction.impl, mrapi_impl_rmem_write, transfer, write_passes.mpr hpasses, if_true,
      ite_self]

/-- A transfer that it lets through is its loop. -/
theorem impl_accepted (hvalid : mrapi_impl_valid_rmem_hndl x.table rmem = true)
    (hpasses : a.Passes (x.buffers (entry rmem)) d) :
    d.impl x rmem local_buf a fuel =
      (a.loop (x.buffers (entry rmem)) local_buf fuel).map fun s => ⟨true, s.copies⟩ := by
  have hentry : ¬ (x.table.rmems (entry rmem)).valid = false := by
    rw [(valid_rmem_hndl.mp hvalid).2.2]
    exact Bool.noConfusion
  cases d with
  | read =>
    have hle := mt read_passes.mp (not_not.mpr hpasses)
    simp only [Direction.impl, mrapi_impl_rmem_read, transfer, if_neg hentry, if_neg hle,
      Tuple.loop]
  | write =>
    have hle := mt write_passes.mp (not_not.mpr hpasses)
    simp only [Direction.impl, mrapi_impl_rmem_write, transfer, if_neg hentry, if_neg hle,
      Tuple.loop]

/-- A call whose checks hold is its transfer, and its status is `MRAPI_SUCCESS`. -/
theorem call_checked (hcheck : checkTransfer x c rmem a = MRAPI_SUCCESS) :
    d.call x c rmem local_buf a fuel =
      (d.impl x rmem local_buf a fuel).map fun m => ⟨MRAPI_SUCCESS, m⟩ := by
  cases d with
  | read => exact if_pos hcheck
  | write => exact if_pos hcheck

/-- A call whose checks fail returns their status. -/
theorem call_unchecked (hcheck : checkTransfer x c rmem a ≠ MRAPI_SUCCESS) :
    d.call x c rmem local_buf a fuel = some ⟨checkTransfer x c rmem a, .none⟩ := by
  cases d with
  | read => exact if_neg hcheck
  | write => exact if_neg hcheck

/-- What the checks ask. -/
theorem checkTransfer_success :
    checkTransfer x c rmem a = MRAPI_SUCCESS ↔
      mrapi_impl_valid_rmem_hndl x.table rmem = true ∧
        a.bytes_per_access ≤ a.rmem_stride ∧ a.bytes_per_access ≤ a.local_stride ∧
        mrapi_impl_rmem_attached x.table c rmem = true := by
  unfold checkTransfer
  split_ifs with hvalid hstride hattached
  · simp_all
  · simp only [false_iff]
    omega
  · simp_all
  · simp_all

/-- The call of a transfer that is refused by its bounds. -/
theorem call_refused (hcheck : checkTransfer x c rmem a = MRAPI_SUCCESS)
    (hpasses : ¬ a.Passes (x.buffers (entry rmem)) d) :
    d.call x c rmem local_buf a fuel = some ⟨MRAPI_SUCCESS, .none⟩ := by
  rw [call_checked hcheck, impl_refused hpasses]
  rfl

/-- The call of a transfer that is not. -/
theorem call_accepted (hcheck : checkTransfer x c rmem a = MRAPI_SUCCESS)
    (hpasses : a.Passes (x.buffers (entry rmem)) d) :
    d.call x c rmem local_buf a fuel =
      (a.loop (x.buffers (entry rmem)) local_buf fuel).map
        fun s => ⟨MRAPI_SUCCESS, true, s.copies⟩ := by
  rw [call_checked hcheck, impl_accepted (checkTransfer_success.mp hcheck).1 hpasses,
    Option.map_map]
  rfl

/-! ## The contract -/

/-- The call returns; it has made the documented copies if they are all in bounds, and else
none and reports the overrun. -/
def Right (d : Direction) (x : Db) (c : Node) (rmem local_buf : ℕ) (a : Tuple) : Prop :=
  ∃ fuel o, d.call x c rmem local_buf a fuel = some o ∧
    (a.InBounds (x.buffers (entry rmem)).size →
      o.moved.copies = a.accesses (x.buffers (entry rmem)) local_buf) ∧
    (¬ a.InBounds (x.buffers (entry rmem)).size →
      o.moved.copies = [] ∧ o.status = MRAPI_ERR_RMEM_BUFF_OVERRUN)

/-- In bounds the pointers do not wrap. -/
theorem copies_eq_accesses (hbytes : 1 ≤ a.bytes_per_access) (hin : a.InBounds g.size) :
    (List.range a.num_strides).map (a.copy g local_buf) = a.accesses g local_buf := by
  refine List.map_congr_left fun i hi => ?_
  have hfirst := hin i (List.mem_range.mp hi) 0 (by omega)
  have hend := g.end_lt
  unfold Tuple.copy Tuple.access
  rw [u64_of_lt (by omega : g.addr + (a.rmem_offset + i * a.rmem_stride) < 2 ^ 64)]

theorem accesses_ne_nil (hstrides : 1 ≤ a.num_strides) : a.accesses g local_buf ≠ [] := by
  unfold Tuple.accesses
  rw [Ne, List.map_eq_nil_iff, List.range_eq_nil]
  omega

/-- No call of an attached node reports anything but success. -/
theorem call_status (hcheck : checkTransfer x c rmem a = MRAPI_SUCCESS)
    (hcall : d.call x c rmem local_buf a fuel = some o) : o.status = MRAPI_SUCCESS := by
  rw [call_checked hcheck, Option.map_eq_some_iff] at hcall
  obtain ⟨m, _, rfl⟩ := hcall
  rfl

/-- **A transfer does what is documented exactly if** all its accesses are in bounds (the last
byte is), the counter of its loop can reach the number of strides, and the check lets it
through. -/
theorem bounds_right_iff (hvalid : mrapi_impl_valid_rmem_hndl x.table rmem = true)
    (hattached : mrapi_impl_rmem_attached x.table c rmem = true)
    (hbytes : 1 ≤ a.bytes_per_access) (hstrides : 1 ≤ a.num_strides)
    (hrmem : a.bytes_per_access ≤ a.rmem_stride) (hlocal : a.bytes_per_access ≤ a.local_stride) :
    Right d x c rmem local_buf a ↔
      a.rmem_offset + (a.num_strides - 1) * a.rmem_stride + a.bytes_per_access ≤
          (x.buffers (entry rmem)).size ∧
        a.num_strides < 2 ^ 16 ∧ a.Passes (x.buffers (entry rmem)) d := by
  have hcheck : checkTransfer x c rmem a = MRAPI_SUCCESS :=
    checkTransfer_success.mpr ⟨hvalid, hrmem, hlocal, hattached⟩
  rw [← inBounds_iff hbytes hstrides]
  constructor
  · rintro ⟨fuel, o, hcall, hinside, houtside⟩
    have hin : a.InBounds (x.buffers (entry rmem)).size := by
      by_contra hout
      -- the overrun would have to be reported
      have hstatus := (houtside hout).2
      rw [call_status hcheck hcall] at hstatus
      cases hstatus
    have hpasses : a.Passes (x.buffers (entry rmem)) d := by
      by_contra hnot
      rw [call_refused hcheck hnot, Option.some.injEq] at hcall
      have hcopies := hinside hin
      rw [← hcall] at hcopies
      exact accesses_ne_nil hstrides hcopies.symm
    refine ⟨hin, ?_, hpasses⟩
    by_contra hcount
    rw [call_accepted hcheck hpasses, strideLoop_none (by omega)] at hcall
    cases hcall
  · rintro ⟨hin, hcount, hpasses⟩
    have hcall : d.call x c rmem local_buf a (a.num_strides + 1) = _ :=
      call_accepted hcheck hpasses
    rw [strideLoop_some hcount (by omega), Option.map_some] at hcall
    exact ⟨_, _, hcall, fun _ => copies_eq_accesses hbytes hin, fun hout => absurd hin hout⟩

/-! ## Two transfers -/

/-- A remote memory of 16 bytes, to which the first node is attached. -/
def db16 : Db where
  table := ⟨fun r => ⟨decide (r = 0), 7, 1, fun n => decide (n = 0)⟩, 1⟩
  buffers _ := ⟨4096, 16, by norm_num, by norm_num⟩

/-- Three accesses of two bytes, four bytes apart. -/
def scattered : Tuple := .ofWords 1 0 2 3 4 2

/-- The whole memory at once. -/
def whole : Tuple := .ofWords 0 0 16 1 16 16

/-- The memory and the byte after it. -/
def beyond : Tuple := .ofWords 0 0 17 1 17 17

/-- A read and a write of scattered bytes are right. -/
theorem scattered_right :
    Right .read db16 node0 (mrapi_impl_encode_hndl 0) 0 scattered ∧
      Right .write db16 node0 (mrapi_impl_encode_hndl 0) 0 scattered := by
  constructor <;>
    exact (bounds_right_iff (by decide) (by decide) (by decide) (by decide) (by decide)
      (by decide)).mpr (by decide)

/-- Neither may the whole memory be transferred, nor is it said that one byte too many is not
transferred. -/
theorem whole_and_beyond_wrong :
    mrapi_impl_valid_rmem_hndl db16.table (mrapi_impl_encode_hndl 0) = true ∧
      mrapi_impl_rmem_attached db16.table node0 (mrapi_impl_encode_hndl 0) = true ∧
      ∀ d : Direction, ¬ Right d db16 node0 (mrapi_impl_encode_hndl 0) 0 whole ∧
        ¬ Right d db16 node0 (mrapi_impl_encode_hndl 0) 0 beyond := by
  refine ⟨by decide, by decide, fun d => ⟨?_, ?_⟩⟩
  · rintro ⟨fuel, o, hcall, hinside, _⟩
    rw [call_refused (by decide) (by cases d <;> decide), Option.some.injEq] at hcall
    have hin : whole.InBounds 16 := (inBounds_iff (by decide) (by decide)).mpr (by decide)
    have hcopies := hinside hin
    rw [← hcall] at hcopies
    exact accesses_ne_nil (by decide) hcopies.symm
  · rintro ⟨fuel, o, hcall, _, houtside⟩
    rw [call_refused (by decide) (by cases d <;> decide), Option.some.injEq] at hcall
    have hout : ¬ beyond.InBounds 16 :=
      mt (inBounds_iff (by decide) (by decide)).mp (by decide)
    have hstatus := (houtside hout).2
    rw [← hcall] at hstatus
    cases hstatus

end MxApi.Transfer
