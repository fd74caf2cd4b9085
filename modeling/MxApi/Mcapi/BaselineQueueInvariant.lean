/-
What the calls preserve of the receive queue, in terms of positions.

The messages that an endpoint accepts are numbered in order, and so are the
receive operations that are issued and not cancelled. Position `p` of the queue
belongs to message `p` and to operation `p`, and its entry is the one in slot
`p % MCAPI_MAX_QUEUE_ENTRIES`. The window of the queue starts at the first message
that is not delivered, and spans all the entries once ([`QueueInv`]).
-/
import MxApi.Lib.RingSlot
import MxApi.Lib.Tally
import MxApi.Mcapi.BaselineQueue

set_option autoImplicit false

namespace MxApi.Baseline

open Lib CallStatus

/-! ## Positions -/

/-- The slot of a position. -/
abbrev slot (p : ℕ) : ℕ := p % MCAPI_MAX_QUEUE_ENTRIES

theorem one_lt_entries : 1 < MCAPI_MAX_QUEUE_ENTRIES := by
  norm_num [MCAPI_MAX_QUEUE_ENTRIES_eq]

/-- The request that waits for message `p`. -/
def reservation (issued : List Receive) (p : ℕ) : Option ℕ :=
  issued[p]?.bind fun x => if x.result.isNone then x.request else none

/-- Message `p` was given to its operation. -/
def delivered (issued : List Receive) (p : ℕ) : Bool :=
  issued[p]?.any fun x => x.result.isSome

section Positions

variable {issued : List Receive} {x : Receive} {p r : ℕ}

theorem reservation_of_le (h : issued.length ≤ p) : reservation issued p = none := by
  rw [reservation, List.getElem?_eq_none h]
  rfl

theorem delivered_of_le (h : issued.length ≤ p) : delivered issued p = false := by
  rw [delivered, List.getElem?_eq_none h]
  rfl

theorem delivered_of_result {msg : Message} (hx : issued[p]? = some x)
    (h : x.result = some msg) : delivered issued p = true := by
  rw [delivered, hx]
  simp [h]

theorem delivered_of_none (hx : issued[p]? = some x) (h : x.result = none) :
    delivered issued p = false := by
  rw [delivered, hx]
  simp [h]

theorem reservation_of_none (hx : issued[p]? = some x) (h : x.result = none) :
    reservation issued p = x.request := by
  rw [reservation, hx]
  simp [h]

/-- A request waits only for a message that is not delivered. -/
theorem reservation_eq_some :
    reservation issued p = some r ↔
      ∃ x, issued[p]? = some x ∧ x.result = none ∧ x.request = some r := by
  unfold reservation
  cases hx : issued[p]? with
  | none => simp
  | some x =>
    cases hres : x.result with
    | none => simp [hres]
    | some msg => simp [hres]

theorem not_delivered_of_reservation (h : reservation issued p = some r) :
    delivered issued p = false := by
  obtain ⟨x, hx, hnone, -⟩ := reservation_eq_some.mp h
  exact delivered_of_none hx hnone

theorem lt_of_reservation (h : reservation issued p = some r) : p < issued.length := by
  by_contra hle
  rw [reservation_of_le (Nat.le_of_not_lt hle)] at h
  cases h

/-- One more operation does not change the others. -/
theorem reservation_append (h : p < issued.length) :
    reservation (issued ++ [x]) p = reservation issued p := by
  unfold reservation
  rw [List.getElem?_append_left h]

theorem delivered_append (h : p < issued.length) :
    delivered (issued ++ [x]) p = delivered issued p := by
  unfold delivered
  rw [List.getElem?_append_left h]

theorem reservation_append_self :
    reservation (issued ++ [x]) issued.length =
      if x.result.isNone then x.request else none := by
  simp [reservation]

theorem delivered_append_self :
    delivered (issued ++ [x]) issued.length = x.result.isSome := by
  simp [delivered]

theorem delivered_append_of_ne (h : p ≠ issued.length) :
    delivered (issued ++ [x]) p = delivered issued p := by
  rcases Nat.lt_or_gt_of_ne h with hlt | hgt
  · exact delivered_append hlt
  · rw [delivered_of_le (by simp; omega), delivered_of_le (by omega)]

theorem reservation_append_of_ne (h : p ≠ issued.length) :
    reservation (issued ++ [x]) p = reservation issued p := by
  rcases Nat.lt_or_gt_of_ne h with hlt | hgt
  · exact reservation_append hlt
  · rw [reservation_of_le (by simp; omega), reservation_of_le (by omega)]

/-- An operation that has its message waits for nothing. -/
theorem reservation_append_done (h : x.result.isSome = true) :
    reservation (issued ++ [x]) p = reservation issued p := by
  by_cases hp : p = issued.length
  · subst hp
    have hsome : x.result.isNone = false := by
      rw [Option.isNone_eq_false_iff]
      exact h
    rw [reservation_append_self, reservation_of_le le_rfl, hsome]
    rfl
  · exact reservation_append_of_ne hp

/-- The list of operations after a delivery. -/
theorem deliver_getElem? {buffer : Message} :
    (deliver issued r buffer)[p]? = issued[p]?.map fun x =>
      if x.waits r then { x with result := some buffer } else x := by
  rw [deliver, List.getElem?_map]

theorem waits_iff : x.waits r = true ↔ x.request = some r ∧ x.result = none := by
  simp [Receive.waits]

/-- A delivery ends the wait of the request. -/
theorem reservation_deliver {buffer : Message} :
    reservation (deliver issued r buffer) p =
      if reservation issued p = some r then none else reservation issued p := by
  unfold reservation
  rw [deliver_getElem?]
  cases hx : issued[p]? with
  | none => simp
  | some x =>
    cases hres : x.result with
    | none =>
      by_cases hreq : x.request = some r
      · simp [Receive.waits, hres, hreq]
      · simp [Receive.waits, hres, hreq]
    | some msg => simp [Receive.waits, hres]

theorem delivered_deliver {buffer : Message} :
    delivered (deliver issued r buffer) p =
      (delivered issued p || decide (reservation issued p = some r)) := by
  unfold reservation delivered
  rw [deliver_getElem?]
  cases hx : issued[p]? with
  | none => simp
  | some x =>
    cases hres : x.result with
    | none =>
      by_cases hreq : x.request = some r
      · simp [Receive.waits, hres, hreq]
      · simp [Receive.waits, hres, hreq]
    | some msg => simp [Receive.waits, hres]

end Positions

/-! ## The queue and its window -/

/-- The entry of position `p`, with `t` messages accepted. -/
structure EntryOk (issued : List Receive) (t p : ℕ) (e : buffer_descriptor) : Prop where
  request : e.request = reservation issued p
  invalid : e.invalid = delivered issued p
  filled : e.buff_index.isSome = true ↔ p < t ∧ delivered issued p = false

/-- The queue after `t` messages, with the window that starts at position `h`. -/
structure WindowInv (q : queue) (t : ℕ) (issued : List Receive) (h : ℕ) : Prop where
  head : q.head = slot h
  tail : q.tail = slot t
  head_le : h ≤ t
  tail_lt : t < h + MCAPI_MAX_QUEUE_ENTRIES
  issued_le : issued.length ≤ h + MCAPI_MAX_QUEUE_ENTRIES
  entries : ∀ p, h ≤ p → p < h + MCAPI_MAX_QUEUE_ENTRIES →
    EntryOk issued t p (q.elements (slot p))
  passed : ∀ p, p < h → delivered issued p = true
  bound : ∀ p, delivered issued p = true → p < t
  waits : ∀ p, p < issued.length → delivered issued p = false →
    ∃ r, reservation issued p = some r
  count : Tally (fun p => p < t ∧ delivered issued p = false) q.num_elements

/-- No bubble is left at the head between two calls. -/
structure QueueInv (q : queue) (t : ℕ) (issued : List Receive) (h : ℕ) : Prop
    extends WindowInv q t issued h where
  live : h < t → delivered issued h = false

section Window

variable {q : queue} {t h p : ℕ} {issued : List Receive}

/-- Walking from the head, entry `i` is the one of position `h + i`. -/
theorem QueueInv.fromHead (hq : QueueInv q t issued h) (i : ℕ) :
    q.fromHead i = slot (h + i) := by
  rw [queue.fromHead, hq.head]
  exact Nat.mod_add_mod h MCAPI_MAX_QUEUE_ENTRIES i

theorem window_slot_ne {p p' : ℕ} (hp : h ≤ p) (hlt : p < h + MCAPI_MAX_QUEUE_ENTRIES)
    (hp' : h ≤ p') (hlt' : p' < h + MCAPI_MAX_QUEUE_ENTRIES) (hne : p ≠ p') :
    slot p ≠ slot p' :=
  Lib.slot_ne hp hlt hp' hlt' hne

/-- The queue is at its head exactly where all accepted messages are delivered. -/
theorem WindowInv.head_eq_tail (hq : WindowInv q t issued h) : q.head = q.tail ↔ h = t := by
  rw [hq.head, hq.tail]
  constructor
  · exact slot_inj hq.head_le hq.tail_lt
  · rintro rfl
    rfl

/-- The queue is full where one entry is left. -/
theorem QueueInv.full (hq : QueueInv q t issued h) :
    mcapi_trans_full_queue q = true ↔ t + 1 = h + MCAPI_MAX_QUEUE_ENTRIES := by
  have hlt := hq.tail_lt
  have hle := hq.head_le
  rw [mcapi_trans_full_queue, decide_eq_true_iff, hq.head, hq.tail, ← slot_succ]
  constructor
  · intro heq
    by_contra hne
    have hsame := slot_inj (a := h) (b := t + 1) (by omega) (by omega) heq.symm
    omega
  · intro heq
    rw [heq, Nat.add_mod_right]

/-- A reservation stands at or behind the head. -/
theorem QueueInv.le_of_reservation {r : ℕ} (hq : QueueInv q t issued h)
    (hr : reservation issued p = some r) : h ≤ p := by
  by_contra hlt
  have hdone := hq.passed p (by omega)
  rw [not_delivered_of_reservation hr] at hdone
  cases hdone

/-- The operations up to the head have their messages. -/
theorem QueueInv.le_length (hq : QueueInv q t issued h) : h ≤ issued.length := by
  by_contra hlt
  have hdone := hq.passed issued.length (by omega)
  rw [delivered_of_le le_rfl] at hdone
  cases hdone

/-- An entry of the window holds an unreserved message exactly where that message
has no operation yet. -/
theorem QueueInv.available (hq : QueueInv q t issued h) (hp : h ≤ p)
    (hlt : p < h + MCAPI_MAX_QUEUE_ENTRIES) :
    (q.elements (slot p)).available = true ↔ issued.length ≤ p ∧ p < t := by
  have he := hq.entries p hp hlt
  rw [buffer_descriptor.available, Bool.and_eq_true, he.filled, he.request,
    Option.isNone_iff_eq_none]
  constructor
  · rintro ⟨hnone, hpt, hnot⟩
    refine ⟨?_, hpt⟩
    by_contra hm
    obtain ⟨r, hr⟩ := hq.waits p (by omega) hnot
    rw [hnone] at hr
    cases hr
  · rintro ⟨hm, hpt⟩
    exact ⟨reservation_of_le hm, hpt, delivered_of_le hm⟩

/-- The first unreserved message is the one that the next operation is due. -/
theorem QueueInv.firstAvailable_some (hq : QueueInv q t issued h) (hm : issued.length < t) :
    firstAvailable q = some (issued.length - h) := by
  have hle := hq.le_length
  have hlt := hq.tail_lt
  rw [firstAvailable, search_eq_some]
  refine ⟨by omega, ?_, ?_⟩
  · rw [hq.fromHead, hq.available (by omega) (by omega)]
    omega
  · intro j hj
    rw [hq.fromHead, Bool.eq_false_iff, Ne, hq.available (by omega) (by omega)]
    omega

theorem QueueInv.firstAvailable_none (hq : QueueInv q t issued h) (hm : t ≤ issued.length) :
    firstAvailable q = none := by
  rw [firstAvailable, search_eq_none]
  intro i hi
  rw [hq.fromHead, Bool.eq_false_iff, Ne, hq.available (by omega) (by omega)]
  omega

/-- The queue counts as empty where no message waits for the next operation. -/
theorem QueueInv.empty (hq : QueueInv q t issued h) :
    mcapi_trans_empty_queue q = true ↔ t ≤ issued.length := by
  rw [mcapi_trans_empty_queue, Bool.or_eq_true, decide_eq_true_iff, hq.head_eq_tail]
  constructor
  · rintro (rfl | hnone)
    · exact hq.le_length
    · by_contra hm
      rw [hq.firstAvailable_some (by omega)] at hnone
      cases hnone
  · intro hm
    right
    rw [hq.firstAvailable_none hm]
    rfl

/-- The first entry that can be reserved is the one of the next operation. -/
theorem QueueInv.firstUnreserved_some (hq : QueueInv q t issued h)
    (hm : issued.length < h + MCAPI_MAX_QUEUE_ENTRIES) :
    firstUnreserved q = some (issued.length - h) := by
  have hle := hq.le_length
  rw [firstUnreserved, search_eq_some]
  refine ⟨by omega, ?_, ?_⟩
  · have he := hq.entries issued.length hle hm
    have hpos : h + (issued.length - h) = issued.length := by omega
    simp only [hq.fromHead, hpos, he.request, he.invalid, reservation_of_le le_rfl,
      delivered_of_le le_rfl]
    rfl
  · intro j hj
    have he := hq.entries (h + j) (by omega) (by omega)
    simp only [hq.fromHead, he.request, he.invalid]
    cases hdone : delivered issued (h + j) with
    | true => simp
    | false =>
      obtain ⟨r, hr⟩ := hq.waits (h + j) (by omega) hdone
      rw [hr]
      rfl

theorem QueueInv.firstUnreserved_none (hq : QueueInv q t issued h)
    (hm : issued.length = h + MCAPI_MAX_QUEUE_ENTRIES) : firstUnreserved q = none := by
  rw [firstUnreserved, search_eq_none]
  intro j hj
  have he := hq.entries (h + j) (by omega) (by omega)
  simp only [hq.fromHead, he.request, he.invalid]
  cases hdone : delivered issued (h + j) with
  | true => simp
  | false =>
    obtain ⟨r, hr⟩ := hq.waits (h + j) (by omega) hdone
    rw [hr]
    rfl

/-- The entry that a waiting request has reserved is found. -/
theorem QueueInv.reservedEntry {r : ℕ} (hq : QueueInv q t issued h)
    (hunique : ∀ j, reservation issued j = some r → j = p)
    (hr : reservation issued p = some r) : reservedEntry q r = some (slot p) := by
  have hp := hq.le_of_reservation hr
  have hlt : p < h + MCAPI_MAX_QUEUE_ENTRIES :=
    Nat.lt_of_lt_of_le (lt_of_reservation hr) hq.issued_le
  have hslot : slot p < MCAPI_MAX_QUEUE_ENTRIES := Nat.mod_lt _ (by have := one_lt_entries; omega)
  have hthere : (q.elements (slot p)).request = some r := (hq.entries p hp hlt).request.trans hr
  obtain ⟨i, hi⟩ := exists_search (p := fun i => decide ((q.elements i).request = some r))
    hslot (decide_eq_true hthere)
  obtain ⟨hilt, hreq⟩ := search_some hi
  obtain ⟨j, hj, hjlt, rfl⟩ := exists_slot hilt h
  have hsame : j = p := by
    apply hunique
    rw [← (hq.entries j hj hjlt).request]
    exact of_decide_eq_true hreq
  rw [Baseline.reservedEntry, hi, hsame]

/-- Where every accepted message is delivered no element is counted. -/
theorem WindowInv.num_elements_eq_zero (hq : WindowInv q t issued h)
    (hall : ∀ p, h ≤ p → p < t → delivered issued p = true) : q.num_elements = 0 := by
  apply hq.count.eq_zero
  rintro p ⟨hpt, hnot⟩
  by_cases hp : h ≤ p
  · rw [hall p hp hpt] at hnot
    cases hnot
  · rw [hq.passed p (by omega)] at hnot
    cases hnot

end Window

end MxApi.Baseline
