/-
The attributes of an endpoint (`Fragments/transport_sm_endpoint_abb.c`,
`Fragments/transport_sm_config_abb.c`), and the slots that the functions for state
buffers take from them.

`MCAPI_ENDP_ATTR_NUM_SEND_BUFFERS` is the number of entries that serve as state buffers.
It comes from zeroed memory, from `mcapi_trans_endpoint_set_attribute`, or from the
`length` of a channel in a topology, and none of the three looks at the value. The
functions for state buffers divide by it and index the queue with the remainder: that is
right exactly for a last value from 1 to 66 ([`slots_in_array_iff`]).

The settings are those of one endpoint entry. A topology is what its channels say about
that endpoint; names and values of XML attributes are lists of characters.
-/
import MxApi.Mcapi.Requests
import MxApi.Mcapi.Transfers

set_option autoImplicit false

namespace MxApi.Attributes

open Lib Transfers mcapi_buffer_type

/-! ## The attributes -/

def MCAPI_ENDP_ATTR_BUFFER_TYPE : ℕ := 4

def MCAPI_ENDP_ATTR_NUM_SEND_BUFFERS : ℕ := 8

inductive AttributeStatus
  | MCAPI_SUCCESS
  | MCAPI_ERR_ATTR_NUM
  | MCAPI_ERR_ATTR_VALUE
  deriving DecidableEq, Repr

/-- `type` and `value` share their memory, the word `attribute_d`. -/
structure attribute_entry_t where
  valid : Bool
  attribute_num : ℕ
  attribute_d : ℕ
  deriving DecidableEq, Repr

abbrev Entries := ℕ → attribute_entry_t

/-- Zeroed memory. -/
def Entries.zero : Entries := fun _ => ⟨false, 0, 0⟩

/-- An `int` stored in an `unsigned`. -/
def toUnsigned (attr : ℤ) : ℕ := (attr % 2 ^ 32).toNat

/-- The enumeration as an `int`. -/
def bufferType : mcapi_buffer_type → ℤ
  | MCAPI_ENDP_ATTR_FIFO_BUFFER => 0
  | MCAPI_ENDP_ATTR_STATE_BUFFER => 1

def mcapi_trans_endpoint_set_attribute (entries : Entries) (attribute_num : ℕ) (attr : ℤ) :
    Entries × AttributeStatus :=
  if attribute_num = MCAPI_ENDP_ATTR_BUFFER_TYPE then
    if attr = 0 ∨ attr = 1 then
      (Function.update entries attribute_num ⟨true, attribute_num, toUnsigned attr⟩, .MCAPI_SUCCESS)
    else (entries, .MCAPI_ERR_ATTR_VALUE)
  else if attribute_num = MCAPI_ENDP_ATTR_NUM_SEND_BUFFERS then
    (Function.update entries attribute_num ⟨true, attribute_num, toUnsigned attr⟩, .MCAPI_SUCCESS)
  else (entries, .MCAPI_ERR_ATTR_NUM)

/-! ## Topologies -/

/-- The digits in front, as a number. -/
def digits (s : List Char) : ℤ :=
  (s.takeWhile Char.isDigit).foldl (fun n c => 10 * n + (c.toNat - '0'.toNat : ℤ)) 0

def atoi (s : List Char) : ℤ :=
  match s.dropWhile Char.isWhitespace with
  | '-' :: s => -digits s
  | '+' :: s => digits s
  | s => digits s

/-- `!strcasecmp(s, t)`, where `t` has no capitals. -/
def sameName (s t : List Char) : Bool := decide (s.map Char.toLower = t)

/-- `mcapi_trans_collect_topology` on a channel with these attributes `buffer` and
`length`: the type and the number of its buffers, or the channel is left out. -/
def collectBuffer (s_b s_l : Option (List Char)) : Option (mcapi_buffer_type × ℕ) :=
  match s_b with
  | none => some (MCAPI_ENDP_ATTR_FIFO_BUFFER, MCAPI_MAX_QUEUE_ENTRIES)
  | some b =>
    if sameName b ['f', 'i', 'f', 'o'] then
      some (MCAPI_ENDP_ATTR_FIFO_BUFFER, MCAPI_MAX_QUEUE_ENTRIES)
    else if sameName b ['s', 't', 'a', 't', 'e'] then
      match s_l with
      | none => some (MCAPI_ENDP_ATTR_STATE_BUFFER, 4)
      | some l => some (MCAPI_ENDP_ATTR_STATE_BUFFER, toUnsigned (atoi l))
    else none

/-- What happens to the attributes of an endpoint entry. -/
inductive Setting
  /-- it becomes an endpoint -/
  | create
  /-- it is deleted -/
  | delete
  | set_attribute (attribute_num : ℕ) (attr : ℤ)
  /-- a topology is connected with the endpoint as the local end of this channel -/
  | connect (s_b s_l : Option (List Char))

/-- `mcapi_trans_endpoint_create` leaves the attributes as they are, and
`mcapi_trans_connect` sets both after it. -/
def Setting.perform (entries : Entries) : Setting → Entries
  | .create => entries
  | .delete => .zero
  | .set_attribute attribute_num attr =>
    (mcapi_trans_endpoint_set_attribute entries attribute_num attr).1
  | .connect s_b s_l =>
    match collectBuffer s_b s_l with
    | none => entries
    | some (bt, bl) =>
      let entries := (mcapi_trans_endpoint_set_attribute entries MCAPI_ENDP_ATTR_BUFFER_TYPE
        (bufferType bt)).1
      (mcapi_trans_endpoint_set_attribute entries MCAPI_ENDP_ATTR_NUM_SEND_BUFFERS bl).1

def attributesAfter (settings : List Setting) : Entries := settings.foldl Setting.perform .zero

/-! ## What is expected -/

/-- The number of state buffers that the transfers read. -/
def numSendBuffers (entries : Entries) : ℕ :=
  (entries MCAPI_ENDP_ATTR_NUM_SEND_BUFFERS).attribute_d

/-- Whatever the counter, `mcapi_trans_send_state` (which increments it first),
`mcapi_trans_recv_state` and `check_receive_request_state_` select an entry of the array. -/
def SlotsInArray (entries : Entries) : Prop :=
  ∀ update_counter < 2 ^ 32,
    entryOk (numSendBuffers entries)
      (writeSlot (numSendBuffers entries) (u32 (update_counter + 1))) = true ∧
    entryOk (numSendBuffers entries) (readSlot (numSendBuffers entries) update_counter) = true

/-! ## The number is the last one written -/

/-- The number that a setting writes. -/
def Setting.written : Setting → Option ℕ
  | .create => none
  | .delete => some 0
  | .set_attribute attribute_num attr =>
    if attribute_num = MCAPI_ENDP_ATTR_NUM_SEND_BUFFERS then some (toUnsigned attr) else none
  | .connect s_b s_l => (collectBuffer s_b s_l).map Prod.snd

theorem toUnsigned_cast {k : ℕ} (h : k < 2 ^ 32) : toUnsigned (k : ℤ) = k := by
  unfold toUnsigned
  omega

theorem toUnsigned_lt (attr : ℤ) : toUnsigned attr < 2 ^ 32 := by
  unfold toUnsigned
  omega

theorem collectBuffer_lt {s_b s_l : Option (List Char)} {bt : mcapi_buffer_type} {bl : ℕ}
    (h : collectBuffer s_b s_l = some (bt, bl)) : bl < 2 ^ 32 := by
  have hmax : MCAPI_MAX_QUEUE_ENTRIES < 2 ^ 32 := by decide
  have hsome : ∀ {p : mcapi_buffer_type × ℕ}, p.2 < 2 ^ 32 → some p = some (bt, bl) →
      bl < 2 ^ 32 := by
    intro p hp heq
    rw [Option.some.inj heq] at hp
    exact hp
  unfold collectBuffer at h
  split at h
  · exact hsome hmax h
  · split at h
    · exact hsome hmax h
    · split at h
      · split at h
        · exact hsome (by omega) h
        · exact hsome (toUnsigned_lt _) h
      · cases h

theorem numSendBuffers_set (entries : Entries) (attribute_num : ℕ) (attr : ℤ) :
    numSendBuffers (mcapi_trans_endpoint_set_attribute entries attribute_num attr).1 =
      if attribute_num = MCAPI_ENDP_ATTR_NUM_SEND_BUFFERS then toUnsigned attr
      else numSendBuffers entries := by
  have hne : MCAPI_ENDP_ATTR_NUM_SEND_BUFFERS ≠ MCAPI_ENDP_ATTR_BUFFER_TYPE := by decide
  unfold mcapi_trans_endpoint_set_attribute numSendBuffers
  by_cases ht : attribute_num = MCAPI_ENDP_ATTR_BUFFER_TYPE
  · subst ht
    rw [if_pos rfl, if_neg hne.symm]
    split
    · dsimp only
      rw [Function.update_of_ne hne]
    · rfl
  · rw [if_neg ht]
    by_cases hn : attribute_num = MCAPI_ENDP_ATTR_NUM_SEND_BUFFERS
    · subst hn
      rw [if_pos rfl, if_pos rfl]
      dsimp only
      rw [Function.update_self]
    · rw [if_neg hn, if_neg hn]

/-- One setting writes the number or keeps it. -/
theorem numSendBuffers_perform (entries : Entries) (s : Setting) :
    numSendBuffers (s.perform entries) = s.written.getD (numSendBuffers entries) := by
  cases s with
  | create => rfl
  | delete => rfl
  | set_attribute attribute_num attr =>
    rw [Setting.perform, Setting.written, numSendBuffers_set]
    split <;> rfl
  | connect s_b s_l =>
    cases h : collectBuffer s_b s_l with
    | none =>
      simp only [Setting.perform, Setting.written, h]
      rfl
    | some p =>
      obtain ⟨bt, bl⟩ := p
      simp only [Setting.perform, Setting.written, h]
      rw [numSendBuffers_set, if_pos rfl, toUnsigned_cast (collectBuffer_lt h)]
      rfl

/-- Settings that write no number keep it. -/
theorem numSendBuffers_keep : ∀ (settings : List Setting) (entries : Entries),
    (∀ s ∈ settings, s.written = none) →
      numSendBuffers (settings.foldl Setting.perform entries) = numSendBuffers entries
  | [], _, _ => rfl
  | s :: settings, entries, h => by
    have hs := h s (List.mem_cons_self ..)
    rw [List.foldl_cons,
      numSendBuffers_keep settings _ fun x hx => h x (List.mem_cons_of_mem _ hx),
      numSendBuffers_perform, hs]
    rfl

theorem numSendBuffers_split {before after : List Setting} {s : Setting} {k : ℕ}
    (hs : s.written = some k) (hafter : ∀ x ∈ after, x.written = none) :
    numSendBuffers (attributesAfter (before ++ s :: after)) = k := by
  rw [attributesAfter, List.foldl_append, List.foldl_cons, numSendBuffers_keep _ _ hafter,
    numSendBuffers_perform, hs]
  rfl

/-- Either no setting wrote a number, or one of them was the last to do so. -/
theorem written_cases : ∀ settings : List Setting,
    (∀ s ∈ settings, s.written = none) ∨
      ∃ before s after k, settings = before ++ s :: after ∧ s.written = some k ∧
        ∀ x ∈ after, x.written = none
  | [] => .inl nofun
  | s :: settings => by
    rcases written_cases settings with hnone | ⟨before, x, after, k, rfl, hx, hafter⟩
    · cases hs : s.written with
      | none =>
        left
        intro x hx
        rcases List.mem_cons.mp hx with rfl | hx
        · exact hs
        · exact hnone x hx
      | some k => exact .inr ⟨[], s, settings, k, rfl, hs, hnone⟩
    · exact .inr ⟨s :: before, x, after, k, rfl, hx, hafter⟩

/-! ## The slots -/

theorem entryOk_iff {K qindex : ℕ} : entryOk K qindex = true ↔ 0 < K ∧ qindex < 66 := by
  have hmax : MCAPI_MAX_QUEUE_ENTRIES = 65 := rfl
  rw [entryOk, Bool.and_eq_true, decide_eq_true_eq, decide_eq_true_eq, hmax]
  omega

/-- The remainders stay in the array exactly for a divisor from 1 to 66. -/
theorem slotsInArray_iff (entries : Entries) :
    SlotsInArray entries ↔ 1 ≤ numSendBuffers entries ∧ numSendBuffers entries ≤ 66 := by
  unfold SlotsInArray
  generalize numSendBuffers entries = K
  constructor
  · intro h
    -- a send at this counter selects entry 66, if there are as many
    have hslot := entryOk_iff.mp (h 132 (by norm_num)).1
    refine ⟨hslot.1, ?_⟩
    by_contra hK
    have hcounter : u32 (132 + 1) = 133 := by norm_num [u32]
    rw [hcounter, writeSlot, Nat.mod_eq_of_lt (by omega)] at hslot
    omega
  · rintro ⟨hpos, hle⟩ update_counter -
    refine ⟨entryOk_iff.mpr ⟨hpos, ?_⟩, entryOk_iff.mpr ⟨hpos, ?_⟩⟩
    · exact (Nat.mod_lt _ hpos).trans_le hle
    · exact (Nat.mod_lt _ hpos).trans_le hle

/-- **The slots stay in the array exactly if the last number written to the endpoint's
entry is from 1 to 66.** -/
theorem slots_in_array_iff (settings : List Setting) :
    SlotsInArray (attributesAfter settings) ↔
      ∃ before s after k, settings = before ++ s :: after ∧ s.written = some k ∧
        (∀ x ∈ after, x.written = none) ∧ 1 ≤ k ∧ k ≤ 66 := by
  rw [slotsInArray_iff]
  constructor
  · rintro ⟨hpos, hle⟩
    rcases written_cases settings with hnone | ⟨before, s, after, k, rfl, hs, hafter⟩
    · -- nothing was written, and the number is still zero
      rw [attributesAfter, numSendBuffers_keep settings _ hnone] at hpos
      cases hpos
    · rw [numSendBuffers_split hs hafter] at hpos hle
      exact ⟨before, s, after, k, rfl, hs, hafter, hpos, hle⟩
  · rintro ⟨before, s, after, k, rfl, hs, hafter, hpos, hle⟩
    rw [numSendBuffers_split hs hafter]
    exact ⟨hpos, hle⟩

/-- A channel of a topology with `buffer="state"` and `length="100"`: at the counter 132
a send selects entry 66 of 66. With no length set for an endpoint of type state, all
three functions divide by zero. -/
theorem slots_leave_array :
    (numSendBuffers (attributesAfter
        [.connect (some ['s', 't', 'a', 't', 'e']) (some ['1', '0', '0'])]) = 100 ∧
      entryOk 100 (writeSlot 100 (u32 (132 + 1))) = false ∧
      ¬ SlotsInArray (attributesAfter
        [.connect (some ['s', 't', 'a', 't', 'e']) (some ['1', '0', '0'])])) ∧
    numSendBuffers (attributesAfter
        [.create, .set_attribute MCAPI_ENDP_ATTR_BUFFER_TYPE 1]) = 0 ∧
      ¬ SlotsInArray (attributesAfter
        [.create, .set_attribute MCAPI_ENDP_ATTR_BUFFER_TYPE 1]) := by
  have h₁₀₀ : numSendBuffers (attributesAfter
      [.connect (some ['s', 't', 'a', 't', 'e']) (some ['1', '0', '0'])]) = 100 := by decide
  have h₀ : numSendBuffers (attributesAfter
      [.create, .set_attribute MCAPI_ENDP_ATTR_BUFFER_TYPE 1]) = 0 := by decide
  refine ⟨⟨h₁₀₀, by decide, ?_⟩, h₀, ?_⟩
  · rw [slotsInArray_iff, h₁₀₀]
    omega
  · rw [slotsInArray_iff, h₀]
    omega

end MxApi.Attributes
