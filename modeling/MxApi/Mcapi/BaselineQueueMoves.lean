/-
What each operation on the receive queue does to its window.

A push takes the position at the tail, a pop the position of the next operation,
a receive that waits reserves that position, the completion of a request takes
the position that it reserved, and a cancelled request leaves its position to the
operations behind it. Each rule gives the queue that the operation leaves and
its window. The assertions hold because an element that is counted is an
undelivered message of the window.
-/
import MxApi.Mcapi.BaselineQueueInvariant

set_option autoImplicit false

namespace MxApi.Baseline

open Lib CallStatus

section Moves

variable {q q' : queue} {t h h' p : ℕ} {issued : List Receive} {x : Receive}

theorem slot_next (p : ℕ) : (slot p + 1) % MCAPI_MAX_QUEUE_ENTRIES = slot (p + 1) :=
  (slot_succ p).symm

/-! ## Compaction -/

/-- The head has moved on over vacant entries, from position `h` to `h'`. -/
structure Compacted (q q' : queue) (t h h' : ℕ) : Prop where
  le : h ≤ h'
  le_tail : h' ≤ t
  head : q'.head = slot h'
  tail : q'.tail = q.tail
  num_elements : q'.num_elements = q.num_elements
  passed : ∀ p, h ≤ p → p < h' → (q.elements (slot p)).vacant = true ∧
    q'.elements (slot p) = { q.elements (slot p) with invalid := false }
  frame : ∀ i, (∀ p, h ≤ p → p < h' → slot p ≠ i) → q'.elements i = q.elements i
  stop : h' < t → (q.elements (slot h')).vacant = false

theorem compactLoop_next {n : ℕ} (h : ¬ (q.head = q.tail ∨ (q.elements q.head).vacant = false)) :
    compactLoop (n + 1) q = compactLoop n
      { q.setElement q.head { q.elements q.head with invalid := false } with
        head := (q.head + 1) % MCAPI_MAX_QUEUE_ENTRIES } := by
  rw [compactLoop, if_neg h]
  rfl

/-- The loop moves the head to the first entry that is not vacant, or to the
tail. -/
theorem compactLoop_spec {n : ℕ} : ∀ {q : queue} {h : ℕ}, q.head = slot h → q.tail = slot t →
    h ≤ t → t < h + MCAPI_MAX_QUEUE_ENTRIES → t ≤ h + n →
    ∃ h', Compacted q (compactLoop n q) t h h' := by
  induction n with
  | zero =>
    intro q h hhead htail hle hlt hn
    exact ⟨h, le_rfl, hle, hhead, rfl, rfl, fun p hp hp' => by omega, fun _ _ => rfl,
      fun hlt' => by omega⟩
  | succ n ih =>
    intro q h hhead htail hle hlt hn
    by_cases hend : q.head = q.tail
    · have ht : h = t := by
        rw [hhead, htail] at hend
        exact slot_inj hle hlt hend
      rw [compactLoop, if_pos (Or.inl hend)]
      exact ⟨h, le_rfl, hle, hhead, rfl, rfl, fun p hp hp' => by omega, fun _ _ => rfl,
        fun hlt' => by omega⟩
    have hht : h < t := by
      rcases Nat.lt_or_ge h t with hht | hge
      · exact hht
      · have hsame : h = t := by omega
        rw [hhead, htail, hsame] at hend
        exact absurd rfl hend
    cases hv : (q.elements q.head).vacant with
    | false =>
      rw [compactLoop, if_pos (Or.inr hv)]
      refine ⟨h, le_rfl, hle, hhead, rfl, rfl, fun p hp hp' => by omega, fun _ _ => rfl, ?_⟩
      intro _
      rw [← hhead]
      exact hv
    | true =>
      rw [compactLoop_next (by simp [hend, hv])]
      have hnext : (q.head + 1) % MCAPI_MAX_QUEUE_ENTRIES = slot (h + 1) := by
        rw [hhead, slot_next]
      obtain ⟨h', hc⟩ := ih (q := { q.setElement q.head
          { q.elements q.head with invalid := false } with
          head := (q.head + 1) % MCAPI_MAX_QUEUE_ENTRIES })
        hnext htail (by omega) (by omega) (by omega)
      have hother : ∀ p, h + 1 ≤ p → p ≤ t → slot p ≠ q.head := by
        intro p hp hpt
        rw [hhead]
        exact Lib.slot_ne (w := h) (by omega) (by omega) le_rfl (by omega) (by omega)
      have hkept : ∀ i, i ≠ q.head → (q.setElement q.head
          { q.elements q.head with invalid := false }).elements i = q.elements i :=
        fun i hi => Function.update_of_ne hi _ _
      refine ⟨h', ?_, hc.le_tail, hc.head, hc.tail, hc.num_elements, ?_, ?_, ?_⟩
      · have := hc.le
        omega
      · intro p hp hp'
        have hle' := hc.le_tail
        rcases Nat.eq_or_lt_of_le hp with rfl | hlt'
        · rw [← hhead]
          refine ⟨hv, ?_⟩
          rw [hc.frame q.head fun p' hp' hlt' => hother p' hp' (by omega)]
          exact Function.update_self ..
        · obtain ⟨hvac, heq⟩ := hc.passed p hlt' hp'
          rw [hkept _ (hother p hlt' (by omega))] at hvac heq
          exact ⟨hvac, heq⟩
      · intro i hi
        have hne : i ≠ q.head := by
          rw [hhead]
          exact (hi h le_rfl (by have := hc.le; omega)).symm
        rw [hc.frame i fun p hp hp' => hi p (by omega) hp']
        exact hkept i hne
      · intro hlt'
        have hstop := hc.stop hlt'
        rwa [hkept _ (hother h' hc.le (by omega))] at hstop

/-- At an entry that is not vacant, and at the tail, the loop stands still. -/
theorem compactLoop_eq {n : ℕ}
    (h : q.head = q.tail ∨ (q.elements q.head).vacant = false) : compactLoop n q = q := by
  cases n with
  | zero => rfl
  | succ n => rw [compactLoop, if_pos h]

/-- An undelivered message at the head keeps the head where it is. -/
theorem QueueInv.compact_eq (hq : QueueInv q t issued h) :
    mcapi_trans_compact_queue q = some q := by
  have hstill : q.head = q.tail ∨ (q.elements q.head).vacant = false := by
    rw [hq.head_eq_tail]
    rcases Nat.eq_or_lt_of_le hq.head_le with ht | hlt
    · exact Or.inl ht
    · right
      have he := hq.entries h le_rfl (by have := one_lt_entries; omega)
      have hfilled := he.filled.mpr ⟨hlt, hq.live hlt⟩
      rw [hq.head, buffer_descriptor.vacant, Bool.and_eq_false_iff]
      right
      rw [Option.isNone_eq_false_iff]
      exact hfilled
  rw [mcapi_trans_compact_queue, compactLoop_eq hstill, assertElements, if_neg]
  rintro ⟨hpos, hend⟩
  have ht := hq.head_eq_tail.mp hend
  have hzero := hq.num_elements_eq_zero fun p hp hpt => by omega
  omega

/-- An entry of an accepted message is vacant where the message is delivered. -/
theorem EntryOk.vacant {e : buffer_descriptor} (he : EntryOk issued t p e) (hp : p < t) :
    e.vacant = delivered issued p := by
  rw [buffer_descriptor.vacant, he.request]
  cases hd : delivered issued p with
  | true =>
    have hempty : e.buff_index = none := by
      rw [← Option.not_isSome_iff_eq_none, he.filled, hd]
      simp
    have hnone : reservation issued p = none := by
      cases hr : reservation issued p with
      | none => rfl
      | some r =>
        rw [not_delivered_of_reservation hr] at hd
        cases hd
    rw [hempty, hnone]
    rfl
  | false =>
    have hfilled := he.filled.mpr ⟨hp, hd⟩
    rw [Option.isNone_eq_false_iff.mpr hfilled, Bool.and_false]

/-- Compaction passes the bubbles at the head, and the window moves with it. -/
theorem WindowInv.compact (hw : WindowInv q t issued h) :
    ∃ q₁ h₁, mcapi_trans_compact_queue q = some q₁ ∧ h ≤ h₁ ∧ QueueInv q₁ t issued h₁ ∧
      ∀ i, (q₁.elements i).buff_index = (q.elements i).buff_index := by
  have hpos := one_lt_entries
  have htail := hw.tail_lt
  obtain ⟨h₁, hc⟩ := compactLoop_spec (n := MCAPI_MAX_QUEUE_ENTRIES) hw.head hw.tail hw.head_le
    hw.tail_lt (by omega)
  have hle := hc.le
  have hle' := hc.le_tail
  have hissued := hw.issued_le
  have hdone : ∀ p, h ≤ p → p < h₁ → delivered issued p = true := by
    intro p hp hp'
    rw [← (hw.entries p hp (by omega)).vacant (by omega)]
    exact (hc.passed p hp hp').1
  have hkept : ∀ p, h₁ ≤ p → p < h + MCAPI_MAX_QUEUE_ENTRIES →
      (compactLoop MCAPI_MAX_QUEUE_ENTRIES q).elements (slot p) = q.elements (slot p) := by
    intro p hp hlt
    apply hc.frame
    intro p' hp' hlt'
    exact window_slot_ne hp' (by omega) (by omega) hlt (by omega)
  have hinv : QueueInv (compactLoop MCAPI_MAX_QUEUE_ENTRIES q) t issued h₁ := by
    refine ⟨⟨hc.head, hc.tail.trans hw.tail, hle', by omega, by omega, ?_, ?_, hw.bound,
      hw.waits, ?_⟩, ?_⟩
    · intro p hp hlt
      by_cases hold : p < h + MCAPI_MAX_QUEUE_ENTRIES
      · rw [hkept p hp hold]
        exact hw.entries p (by omega) hold
      · -- the entry of a position that was passed is free for the position one round later
        obtain ⟨j, rfl⟩ : ∃ j, p = j + MCAPI_MAX_QUEUE_ENTRIES :=
          ⟨p - MCAPI_MAX_QUEUE_ENTRIES, by omega⟩
        have hslot : slot (j + MCAPI_MAX_QUEUE_ENTRIES) = slot j := Nat.add_mod_right j _
        obtain ⟨hvac, heq⟩ := hc.passed j (by omega) (by omega)
        rw [buffer_descriptor.vacant, Bool.and_eq_true, Option.isNone_iff_eq_none,
          Option.isNone_iff_eq_none] at hvac
        rw [hslot, heq]
        refine ⟨?_, ?_, ?_⟩
        · rw [reservation_of_le (by omega)]
          exact hvac.1
        · rw [delivered_of_le (by omega)]
        · simp only [hvac.2]
          constructor
          · intro hf
            cases hf
          · rintro ⟨hlt', -⟩
            omega
    · intro p hp
      by_cases hold : p < h
      · exact hw.passed p hold
      · exact hdone p (by omega) hp
    · rw [hc.num_elements]
      exact hw.count
    · intro hlt
      rw [← (hw.entries h₁ hle (by omega)).vacant hlt]
      exact hc.stop hlt
  refine ⟨_, h₁, ?_, hle, hinv, ?_⟩
  · rw [mcapi_trans_compact_queue, assertElements, if_neg]
    rintro ⟨hnum, hend⟩
    have ht := hinv.head_eq_tail.mp hend
    have hzero := hinv.num_elements_eq_zero fun p hp hpt => by omega
    omega
  · intro i
    by_cases hi : ∃ p, h ≤ p ∧ p < h₁ ∧ slot p = i
    · obtain ⟨p, hp, hp', rfl⟩ := hi
      rw [(hc.passed p hp hp').2]
    · rw [hc.frame i fun p hp hp' hs => hi ⟨p, hp, hp', hs⟩]

/-! ## The moves -/

/-- A message takes the position at the tail. -/
theorem QueueInv.push (hq : QueueInv q t issued h) (i : ℕ)
    (hfull : t + 1 ≠ h + MCAPI_MAX_QUEUE_ENTRIES) :
    ∃ q₁, mcapi_trans_push_queue q = some (q₁, slot t) ∧ q₁.elements = q.elements ∧
      QueueInv (q₁.setElement (slot t) { q₁.elements (slot t) with buff_index := some i })
        (t + 1) issued h := by
  have hle := hq.head_le
  have hlt := hq.tail_lt
  have hnot : mcapi_trans_full_queue q = false := by
    rw [Bool.eq_false_iff]
    exact fun hf => hfull (hq.full.mp hf)
  have hnext : (q.tail + 1) % MCAPI_MAX_QUEUE_ENTRIES = slot (t + 1) := by
    rw [hq.tail, slot_next]
  have hne : q.head ≠ slot (t + 1) := by
    rw [hq.head]
    exact Lib.slot_ne (w := h) le_rfl (by omega) (by omega) (by omega) (by omega)
  have hlast : delivered issued t = false := by
    rw [Bool.eq_false_iff]
    intro hd
    have := hq.bound t hd
    omega
  refine ⟨{ q with num_elements := q.num_elements + 1, tail := slot (t + 1) }, ?_, rfl, ?_⟩
  · rw [mcapi_trans_push_queue, hnot, if_neg Bool.false_ne_true]
    simp only [hnext, if_neg hne]
    rw [hq.tail]
  · refine ⟨⟨hq.head, rfl, by omega, by omega, hq.issued_le, ?_, hq.passed, ?_, hq.waits, ?_⟩, ?_⟩
    · intro p hp hpN
      have he := hq.entries p hp hpN
      by_cases hpt : p = t
      · subst hpt
        simp only [queue.setElement, Function.update_self]
        exact ⟨he.request, he.invalid, by simp [hlast]⟩
      · have hslot : slot p ≠ slot t :=
          window_slot_ne hp hpN hle (by omega) hpt
        simp only [queue.setElement, Function.update_of_ne hslot]
        refine ⟨he.request, he.invalid, he.filled.trans ?_⟩
        constructor
        · exact fun ⟨hlt', hd⟩ => ⟨by omega, hd⟩
        · exact fun ⟨hlt', hd⟩ => ⟨by omega, hd⟩
    · intro p hd
      have := hq.bound p hd
      omega
    · apply hq.count.enter (o := t)
      · exact fun hc => absurd hc.1 (Nat.lt_irrefl t)
      · exact ⟨Nat.lt_succ_self t, hlast⟩
      · intro p hp
        constructor
        · exact fun ⟨hlt', hd⟩ => ⟨by omega, hd⟩
        · exact fun ⟨hlt', hd⟩ => ⟨by omega, hd⟩
    · intro _
      rcases Nat.eq_or_lt_of_le hle with rfl | hlt'
      · exact hlast
      · exact hq.live hlt'

/-- What the assertions of a pop ask for where the head stays. -/
theorem assert_and_compact (hnum : q.num_elements > 0 → q.head ≠ q.tail)
    (hstill : q.head = q.tail ∨ (q.elements q.head).vacant = false) :
    assertElements q = some q ∧ mcapi_trans_compact_queue q = some q := by
  have hassert : assertElements q = some q := by
    rw [assertElements, if_neg]
    rintro ⟨hpos, hend⟩
    exact hnum hpos hend
  refine ⟨hassert, ?_⟩
  rw [mcapi_trans_compact_queue, compactLoop_eq hstill]
  exact hassert

/-- An operation takes the message that waits for it. -/
theorem QueueInv.pop (hq : QueueInv q t issued h) (hm : issued.length < t)
    (hx : x.result.isSome = true) :
    ∃ q₁ h₁, mcapi_trans_pop_queue q = some (q₁, slot issued.length) ∧ h ≤ h₁ ∧
      (∀ i, (q₁.elements i).buff_index = (q.elements i).buff_index) ∧
      QueueInv (q₁.setElement (slot issued.length)
        { q₁.elements (slot issued.length) with buff_index := none }) t (issued ++ [x]) h₁ := by
  have hle := hq.le_length
  have hlt := hq.tail_lt
  have hpos := one_lt_entries
  have hlen : (issued ++ [x]).length = issued.length + 1 := by simp
  have hne : q.head ≠ q.tail := by
    rw [Ne, hq.head_eq_tail]
    omega
  have hfrom : q.fromHead (issued.length - h) = slot issued.length := by
    rw [hq.fromHead]
    congr 1
    omega
  have hself : delivered (issued ++ [x]) issued.length = true := by
    rw [delivered_append_self]
    exact hx
  have hres : ∀ p, reservation (issued ++ [x]) p = reservation issued p :=
    fun p => reservation_append_done hx
  have hother : ∀ p, p ≠ issued.length → delivered (issued ++ [x]) p = delivered issued p :=
    fun p hp => delivered_append_of_ne hp
  obtain ⟨n, hnum, hcount⟩ : ∃ n, q.num_elements = n + 1 ∧
      Tally (fun p => p < t ∧ delivered (issued ++ [x]) p = false) n :=
    hq.count.leave (o := issued.length) ⟨hm, delivered_of_le le_rfl⟩ (by simp [hself])
      (fun p hp => by rw [hother p hp])
  have hpassed : ∀ p, p < h → delivered (issued ++ [x]) p = true := by
    intro p hp
    rw [hother p (by omega)]
    exact hq.passed p hp
  have hbound : ∀ p, delivered (issued ++ [x]) p = true → p < t := by
    intro p hd
    by_cases hp : p = issued.length
    · rw [hp]
      exact hm
    · rw [hother p hp] at hd
      exact hq.bound p hd
  have hwaits : ∀ p, p < (issued ++ [x]).length → delivered (issued ++ [x]) p = false →
      ∃ r, reservation (issued ++ [x]) p = some r := by
    intro p hp hd
    by_cases hp' : p = issued.length
    · rw [hp', hself] at hd
      cases hd
    · rw [hother p hp'] at hd
      rw [hres]
      exact hq.waits p (by omega) hd
  -- the entries of the other positions, once the one of the operation is cleared
  have hentry : ∀ p, h ≤ p → p < h + MCAPI_MAX_QUEUE_ENTRIES → p ≠ issued.length →
      EntryOk (issued ++ [x]) t p (q.elements (slot p)) := by
    intro p hp hpN hne'
    have he := hq.entries p hp hpN
    exact ⟨by rw [hres]; exact he.request, by rw [hother p hne']; exact he.invalid,
      by rw [hother p hne']; exact he.filled⟩
  have hown := hq.entries issued.length hle (by omega)
  by_cases hfront : issued.length = h
  · -- the front of the queue is taken, the head moves
    have hhead : slot issued.length = q.head := by rw [hq.head, hfront]
    have hstill := assert_and_compact
      (q := { q with num_elements := q.num_elements - 1,
                     head := (q.head + 1) % MCAPI_MAX_QUEUE_ENTRIES })
      (by
        intro hmore hend
        simp only [hq.head, hq.tail, slot_next] at hend hmore
        have ht : h + 1 = t := slot_inj (by omega) (by omega) hend
        have hzero := hcount.eq_zero (by
          rintro p ⟨hpt, hd⟩
          by_cases hp : p = issued.length
          · rw [hp, hself] at hd
            cases hd
          · rw [hpassed p (by omega)] at hd
            cases hd)
        omega)
      (by
        simp only [hq.head, hq.tail, slot_next]
        rcases Nat.lt_or_ge (h + 1) t with hnext | hge
        · right
          have he := hentry (h + 1) (by omega) (by omega) (by omega)
          rw [he.vacant hnext, hother _ (by omega), delivered_of_le (by omega)]
        · left
          congr 1
          omega)
    refine ⟨{ q with num_elements := q.num_elements - 1,
                     head := (q.head + 1) % MCAPI_MAX_QUEUE_ENTRIES },
      h + 1, ?_, by omega, fun _ => rfl, ?_⟩
    · rw [mcapi_trans_pop_queue, if_neg hne, hq.firstAvailable_some hm]
      simp only [hfrom, if_pos hhead, hstill.1, hstill.2, Option.map_some]
    · refine ⟨⟨?_, hq.tail, by omega, by omega, by omega, ?_, ?_, hbound, hwaits, ?_⟩, ?_⟩
      · simp only [queue.setElement, hq.head, slot_next]
      · intro p hp hpN
        by_cases hold : p < h + MCAPI_MAX_QUEUE_ENTRIES
        · have hslot : slot p ≠ slot issued.length :=
            window_slot_ne (h := h) (by omega) hold hle (by omega) (by omega)
          simp only [queue.setElement, Function.update_of_ne hslot]
          exact hentry p (by omega) hold (by omega)
        · have hslot : slot p = slot issued.length := by
            have hround : p = issued.length + MCAPI_MAX_QUEUE_ENTRIES := by omega
            rw [hround]
            exact Nat.add_mod_right ..
          simp only [hslot, queue.setElement, Function.update_self]
          refine ⟨?_, ?_, ?_⟩
          · rw [hown.request, reservation_of_le le_rfl, reservation_of_le (by omega)]
          · rw [hown.invalid, delivered_of_le le_rfl, delivered_of_le (by omega)]
          · constructor
            · intro hf
              cases hf
            · rintro ⟨hlt', -⟩
              omega
      · intro p hp
        by_cases hp' : p = issued.length
        · rw [hp']
          exact hself
        · exact hpassed p (by omega)
      · have hpred : q.num_elements - 1 = n := by omega
        simp only [queue.setElement, hpred]
        exact hcount
      · intro _
        exact delivered_of_le (by omega)
  · -- a bubble is left behind the reservations
    have hhead : slot issued.length ≠ q.head := by
      rw [hq.head]
      exact window_slot_ne hle (by omega) le_rfl (by omega) hfront
    have hlive := hq.live (by omega)
    have hstill := assert_and_compact
      (q := queue.setElement { q with num_elements := q.num_elements - 1 } (slot issued.length)
        { q.elements (slot issued.length) with invalid := true })
      (fun _ => hne)
      (by
        right
        simp only [queue.setElement, Function.update_of_ne hhead.symm]
        rw [hq.head, (hq.entries h le_rfl (by omega)).vacant (by omega)]
        exact hlive)
    refine ⟨queue.setElement { q with num_elements := q.num_elements - 1 } (slot issued.length)
        { q.elements (slot issued.length) with invalid := true }, h, ?_, le_rfl, ?_, ?_⟩
    · rw [mcapi_trans_pop_queue, if_neg hne, hq.firstAvailable_some hm]
      simp only [hfrom, if_neg hhead, hstill.1, hstill.2, Option.map_some]
    · intro i
      by_cases hi : i = slot issued.length
      · rw [hi]
        simp only [queue.setElement, Function.update_self]
      · simp only [queue.setElement, Function.update_of_ne hi]
    · refine ⟨⟨hq.head, hq.tail, hq.head_le, hlt, by omega, ?_, hpassed, hbound, hwaits, ?_⟩, ?_⟩
      · intro p hp hpN
        by_cases hp' : p = issued.length
        · simp only [hp', queue.setElement, Function.update_self]
          refine ⟨?_, hself.symm, ?_⟩
          · rw [hres]
            exact hown.request
          · simp [hself]
        · have hslot : slot p ≠ slot issued.length :=
            window_slot_ne hp hpN hle (by omega) hp'
          simp only [queue.setElement, Function.update_of_ne hslot]
          exact hentry p hp hpN hp'
      · have hpred : q.num_elements - 1 = n := by omega
        simp only [queue.setElement, hpred]
        exact hcount
      · intro hlt'
        rw [hother h (by omega)]
        exact hq.live hlt'

/-- A receive that waits reserves the position of its operation. -/
theorem QueueInv.reserve {r : ℕ} (hq : QueueInv q t issued h)
    (hroom : issued.length < h + MCAPI_MAX_QUEUE_ENTRIES) (hx : x.result = none)
    (hr : x.request = some r) :
    QueueInv (q.setElement (slot issued.length)
      { q.elements (slot issued.length) with request := some r }) t (issued ++ [x]) h := by
  have hle := hq.le_length
  have hlen : (issued ++ [x]).length = issued.length + 1 := by simp
  have hdel : ∀ p, delivered (issued ++ [x]) p = delivered issued p := by
    intro p
    by_cases hp : p = issued.length
    · rw [hp, delivered_append_self, delivered_of_le le_rfl, hx]
      rfl
    · exact delivered_append_of_ne hp
  have hself : reservation (issued ++ [x]) issued.length = some r := by
    rw [reservation_append_self, hx, hr]
    rfl
  refine ⟨⟨hq.head, hq.tail, hq.head_le, hq.tail_lt, by omega, ?_, ?_, ?_, ?_, ?_⟩, ?_⟩
  · intro p hp hpN
    have he := hq.entries p hp hpN
    by_cases hp' : p = issued.length
    · subst hp'
      simp only [queue.setElement, Function.update_self]
      exact ⟨hself.symm, by rw [hdel]; exact he.invalid, by rw [hdel]; exact he.filled⟩
    · have hslot : slot p ≠ slot issued.length := window_slot_ne hp hpN hle hroom hp'
      simp only [queue.setElement, Function.update_of_ne hslot]
      exact ⟨by rw [reservation_append_of_ne hp']; exact he.request,
        by rw [hdel]; exact he.invalid, by rw [hdel]; exact he.filled⟩
  · intro p hp
    rw [hdel]
    exact hq.passed p hp
  · intro p hd
    rw [hdel] at hd
    exact hq.bound p hd
  · intro p hp hd
    by_cases hp' : p = issued.length
    · rw [hp']
      exact ⟨r, hself⟩
    · rw [hdel] at hd
      rw [reservation_append_of_ne hp']
      exact hq.waits p (by omega) hd
  · exact hq.count.congr fun p => by rw [hdel]
  · intro hlt
    rw [hdel]
    exact hq.live hlt

/-- The completion of a request takes the message of the position that it
reserved. -/
theorem QueueInv.complete {r : ℕ} (hq : QueueInv q t issued h) (q₁ : queue)
    (buffer : Message) (hunique : ∀ j, reservation issued j = some r → j = p)
    (hr : reservation issued p = some r) (hpt : p < t)
    (hhead : q₁.head = q.head) (htail : q₁.tail = q.tail)
    (hnum : q₁.num_elements = q.num_elements - 1)
    (hself : q₁.elements (slot p) = ⟨none, none, true⟩)
    (hothers : ∀ i, i ≠ slot p → q₁.elements i = q.elements i) :
    ∃ q₂ h₂, mcapi_trans_compact_queue q₁ = some q₂ ∧ h ≤ h₂ ∧
      QueueInv q₂ t (deliver issued r buffer) h₂ ∧
      ∀ i, (q₂.elements i).buff_index = (q₁.elements i).buff_index := by
  have hp := hq.le_of_reservation hr
  have hlen : (deliver issued r buffer).length = issued.length := by simp [deliver]
  have hpN : p < h + MCAPI_MAX_QUEUE_ENTRIES :=
    Nat.lt_of_lt_of_le (lt_of_reservation hr) hq.issued_le
  have hdone : delivered (deliver issued r buffer) p = true := by
    rw [delivered_deliver, hr]
    simp
  have hres : ∀ k, k ≠ p →
      reservation (deliver issued r buffer) k = reservation issued k := by
    intro k hk
    rw [reservation_deliver, if_neg fun hc => hk (hunique k hc)]
  have hdel : ∀ k, k ≠ p → delivered (deliver issued r buffer) k = delivered issued k := by
    intro k hk
    rw [delivered_deliver, decide_eq_false fun hc => hk (hunique k hc), Bool.or_false]
  obtain ⟨n, hn, hcount⟩ : ∃ n, q.num_elements = n + 1 ∧
      Tally (fun k => k < t ∧ delivered (deliver issued r buffer) k = false) n :=
    hq.count.leave (o := p) ⟨hpt, not_delivered_of_reservation hr⟩ (by simp [hdone])
      (fun k hk => by rw [hdel k hk])
  have hw : WindowInv q₁ t (deliver issued r buffer) h := by
    refine ⟨hhead.trans hq.head, htail.trans hq.tail, hq.head_le, hq.tail_lt,
      hlen ▸ hq.issued_le, ?_, ?_, ?_, ?_, ?_⟩
    · intro k hk hkN
      by_cases hkp : k = p
      · rw [hkp, hself]
        refine ⟨?_, hdone.symm, by simp [hdone]⟩
        rw [reservation_deliver, if_pos hr]
      · have he := hq.entries k hk hkN
        rw [hothers _ (window_slot_ne hk hkN hp hpN hkp)]
        exact ⟨by rw [hres k hkp]; exact he.request, by rw [hdel k hkp]; exact he.invalid,
          by rw [hdel k hkp]; exact he.filled⟩
    · intro k hk
      rw [hdel k (by omega)]
      exact hq.passed k hk
    · intro k hd
      by_cases hkp : k = p
      · rw [hkp]
        exact hpt
      · rw [hdel k hkp] at hd
        exact hq.bound k hd
    · intro k hk hd
      by_cases hkp : k = p
      · rw [hkp, hdone] at hd
        cases hd
      · rw [hdel k hkp] at hd
        rw [hres k hkp]
        exact hq.waits k (hlen ▸ hk) hd
    · have hpred : q₁.num_elements = n := by omega
      rw [hpred]
      exact hcount
  exact hw.compact

end Moves

end MxApi.Baseline
