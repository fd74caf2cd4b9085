/-
The cancellation of a receive that waits.

The reservation of the request is cleared, and those behind it are shifted down,
each to the last position that became free. The walk starts at the cancelled
position and stops at the tail and at the head. Where the reservations up to its
end lie one behind the other, each moves by one position ([`shiftLoop_spec`]), and
the entries are those of the operations without the cancelled one
([`QueueInv.cancel`]).
-/
import MxApi.Mcapi.BaselineQueueMoves

set_option autoImplicit false

namespace MxApi.Baseline

open Lib CallStatus

section Shift

variable {q : queue} {p E m : ℕ}

theorem walk_slot (i : ℕ) : (i + slot p) % MCAPI_MAX_QUEUE_ENTRIES = slot (p + i) := by
  rw [slot, slot, Nat.add_mod_mod, Nat.add_comm]

/-- The walk from position `p` ends at position `E`: after a whole round, or where
it is back at the tail or the head. -/
structure WalkEnd (q : queue) (p E : ℕ) : Prop where
  round : E ≤ p + MCAPI_MAX_QUEUE_ENTRIES
  stop : E = p + MCAPI_MAX_QUEUE_ENTRIES ∨ slot E = q.tail ∨ slot E = q.head
  inside : ∀ k, p < k → k < E → slot k ≠ q.tail ∧ slot k ≠ q.head

/-- A walk over entries without a reservation changes nothing. -/
theorem shiftLoop_clear (hw : WalkEnd q p E) {n : ℕ} : ∀ {i last : ℕ}
    {elements : ℕ → buffer_descriptor}, 0 < i → i + n = MCAPI_MAX_QUEUE_ENTRIES → p + i ≤ E →
    (∀ k, p + i ≤ k → k < E → (elements (slot k)).request = none) →
    shiftLoop q (slot p) n i last elements = elements := by
  induction n with
  | zero =>
    intro i last elements _ _ _ _
    rfl
  | succ n ih =>
    intro i last elements hi hn hiE hclear
    have hstart : slot (p + i) ≠ slot p :=
      window_slot_ne (h := p) (by omega) (by omega) le_rfl (by omega) (by omega)
    rw [shiftLoop]
    simp only [walk_slot]
    rcases Nat.eq_or_lt_of_le hiE with rfl | hlt
    · rcases hw.stop with hround | htail | hhead
      · omega
      · rw [if_pos ⟨htail, hstart⟩]
      · by_cases htail : slot (p + i) = q.tail
        · rw [if_pos ⟨htail, hstart⟩]
        · rw [if_neg fun hc => htail hc.1, if_pos ⟨hhead, hstart⟩]
    · obtain ⟨htail, hhead⟩ := hw.inside (p + i) (by omega) hlt
      have hnone : ¬ (elements (slot (p + i))).request.isSome = true := by
        rw [hclear (p + i) le_rfl hlt]
        simp
      rw [if_neg fun hc => htail hc.1, if_neg fun hc => hhead hc.1, if_neg hnone]
      exact ih (by omega) (by omega) (by omega) fun k hk hkE => hclear k (by omega) hkE

/-- The entries after the walk, from position `k` on: the reservations `R` moved down
by one. -/
structure Shifted (elements elements' : ℕ → buffer_descriptor) (R : ℕ → Option ℕ)
    (a E : ℕ) : Prop where
  request : ∀ k, a ≤ k → k < E → (elements' (slot k)).request = R (k + 1)
  buff_index : ∀ i, (elements' i).buff_index = (elements i).buff_index
  invalid : ∀ i, (elements' i).invalid = (elements i).invalid
  frame : ∀ i, (∀ k, a ≤ k → k < E → slot k ≠ i) → elements' i = elements i

/-- Reservations that lie one behind the other move down by one. -/
theorem shiftLoop_spec (hw : WalkEnd q p E) {R : ℕ → Option ℕ} (hmE : m ≤ E)
    (hbehind : ∀ k, m ≤ k → R k = none) {n : ℕ} : ∀ {i : ℕ}
    {e : ℕ → buffer_descriptor}, i + 1 + n = MCAPI_MAX_QUEUE_ENTRIES → p + i < E →
    (∀ k, p + i + 1 ≤ k → k < E → (e (slot k)).request = R k) →
    (∀ k, p + i + 1 ≤ k → k < m → (R k).isSome = true) →
    (e (slot (p + i))).request = none →
    Shifted e (shiftLoop q (slot p) n (i + 1) (slot (p + i)) e) R (p + i) E := by
  induction n with
  | zero =>
    intro i e hn hiE hR hsome hfree
    have hround := hw.round
    refine ⟨?_, fun _ => rfl, fun _ => rfl, fun _ _ => rfl⟩
    intro k hk hkE
    have hk' : k = p + i := by omega
    subst hk'
    rw [hbehind _ (by omega)]
    exact hfree
  | succ n ih =>
    intro i e hn hiE hR hsome hfree
    have hround := hw.round
    rcases Nat.lt_or_ge (p + i + 1) m with hm | hm
    · have hcurr : p + i + 1 < E := by omega
      obtain ⟨htail, hhead⟩ := hw.inside (p + i + 1) (by omega) hcurr
      have hreq := hR (p + i + 1) le_rfl hcurr
      have hthere := hsome (p + i + 1) le_rfl hm
      have hslot : slot (p + i) ≠ slot (p + i + 1) :=
        window_slot_ne (h := p) (by omega) (by omega) (by omega) (by omega) (by omega)
      rw [shiftLoop]
      simp only [walk_slot, ← Nat.add_assoc]
      rw [if_neg fun hc => htail hc.1, if_neg fun hc => hhead hc.1, hreq, if_pos hthere,
        Function.update_of_ne hslot.symm]
      -- the reservation is moved; the rest of the walk starts from its old position
      have hrest := ih (i := i + 1) (e := Function.update (Function.update e
          (slot (p + i)) { e (slot (p + i)) with request := R (p + i + 1) })
          (slot (p + i + 1)) { e (slot (p + i + 1)) with request := none })
        (by omega) (by omega)
        (by
          intro k hk hkE
          have hk₁ : slot k ≠ slot (p + i + 1) :=
            window_slot_ne (h := p) (by omega) (by omega) (by omega) (by omega) (by omega)
          have hk₂ : slot k ≠ slot (p + i) :=
            window_slot_ne (h := p) (by omega) (by omega) (by omega) (by omega) (by omega)
          rw [Function.update_of_ne hk₁, Function.update_of_ne hk₂]
          exact hR k (by omega) hkE)
        (fun k hk hkm => hsome k (by omega) hkm)
        (by
          rw [← Nat.add_assoc, Function.update_self])
      rw [← Nat.add_assoc] at hrest
      have hfields : ∀ j (f : buffer_descriptor → Option ℕ × Bool),
          (∀ e r, f { e with request := r } = f e) →
          f (Function.update (Function.update e (slot (p + i))
            { e (slot (p + i)) with request := R (p + i + 1) }) (slot (p + i + 1))
            { e (slot (p + i + 1)) with request := none } j) = f (e j) := by
        intro j f hf
        by_cases hj : j = slot (p + i + 1)
        · rw [hj, Function.update_self, hf]
        · rw [Function.update_of_ne hj]
          by_cases hj' : j = slot (p + i)
          · rw [hj', Function.update_self, hf]
          · rw [Function.update_of_ne hj']
      have hsame := fun j => hfields j (fun e => (e.buff_index, e.invalid)) fun _ _ => rfl
      refine ⟨?_, ?_, ?_, ?_⟩
      · intro k hk hkE
        by_cases hki : k = p + i
        · subst hki
          rw [hrest.frame]
          · rw [Function.update_of_ne hslot, Function.update_self]
          · intro k hk' hkE'
            exact window_slot_ne (h := p) (by omega) (by omega) (by omega) (by omega) (by omega)
        · exact hrest.request k (by omega) hkE
      · intro j
        rw [hrest.buff_index]
        exact congrArg Prod.fst (hsame j)
      · intro j
        rw [hrest.invalid]
        exact congrArg Prod.snd (hsame j)
      · intro j hj
        rw [hrest.frame j fun k hk hkE => hj k (by omega) hkE,
          Function.update_of_ne (hj (p + i + 1) (by omega) hcurr).symm,
          Function.update_of_ne (hj (p + i) le_rfl hiE).symm]
    · rw [shiftLoop_clear hw (by omega) (by omega) (by omega)]
      · refine ⟨?_, fun _ => rfl, fun _ => rfl, fun _ _ => rfl⟩
        intro k hk hkE
        rw [hbehind _ (by omega)]
        by_cases hki : k = p + i
        · rw [hki]
          exact hfree
        · rw [hR k (by omega) hkE, hbehind k (by omega)]
      · intro k hk hkE
        rw [hR k (by omega) hkE, hbehind k (by omega)]

end Shift

/-! ## The operations without the cancelled one -/

section Cancel

variable {q : queue} {t h p r k : ℕ} {issued : List Receive}

theorem reservation_eraseIdx :
    reservation (issued.eraseIdx p) k = reservation issued (if k < p then k else k + 1) := by
  unfold reservation
  rw [List.getElem?_eraseIdx]
  split
  · rfl
  · rfl

theorem delivered_eraseIdx :
    delivered (issued.eraseIdx p) k = delivered issued (if k < p then k else k + 1) := by
  unfold delivered
  rw [List.getElem?_eraseIdx]
  split
  · rfl
  · rfl

/-- The condition for a cancellation in terms of positions: the message of the
operation has not come yet, or none behind it was taken and no operation waits
for a message that is still to come. -/
def Cancellable (issued : List Receive) (t p : ℕ) : Prop :=
  t ≤ p ∨ issued.length ≤ t ∧ ∀ k, p ≤ k → k < t → delivered issued k = false

/-- No message at or behind a cancellable position is delivered. -/
theorem Cancellable.undelivered (hc : Cancellable issued t p)
    (hbound : ∀ k, delivered issued k = true → k < t) (hk : p ≤ k) :
    delivered issued k = false := by
  rw [Bool.eq_false_iff]
  intro hd
  have hkt := hbound k hd
  rcases hc with hlate | ⟨-, hopen⟩
  · omega
  · rw [hopen k hk hkt] at hd
    cases hd

/-- The walk of a cancellation ends at the tail, where it starts in front of it,
and else at the head. -/
theorem QueueInv.walkEnd (hq : QueueInv q t issued h) (hp : h ≤ p) :
    WalkEnd q p (if p < t then t else h + MCAPI_MAX_QUEUE_ENTRIES) := by
  have hlt := hq.tail_lt
  split
  · refine ⟨by omega, Or.inr (Or.inl hq.tail.symm), ?_⟩
    intro k hk hkt
    rw [hq.tail, hq.head]
    exact ⟨window_slot_ne (h := h) (by omega) (by omega) (by omega) (by omega) (by omega),
      window_slot_ne (h := h) (by omega) (by omega) (by omega) (by omega) (by omega)⟩
  · refine ⟨by omega, Or.inr (Or.inr ?_), ?_⟩
    · rw [hq.head]
      exact Nat.add_mod_right ..
    · intro k hk hkt
      rw [hq.tail, hq.head]
      have hle := hq.head_le
      exact ⟨window_slot_ne (h := h) (by omega) (by omega) (by omega) (by omega) (by omega),
        window_slot_ne (h := h) (by omega) (by omega) (by omega) (by omega) (by omega)⟩

/-- The first round of the walk finds the cleared entry. -/
theorem shiftLoop_first {e : ℕ → buffer_descriptor} {n : ℕ} (hfree : (e (slot p)).request = none) :
    shiftLoop q (slot p) (n + 1) 0 (slot p) e = shiftLoop q (slot p) n 1 (slot p) e := by
  have hnone : ¬ (e (slot p)).request.isSome = true := by
    rw [hfree]
    simp
  rw [shiftLoop]
  simp only [walk_slot, Nat.add_zero]
  rw [if_neg fun hc => hc.2 rfl, if_neg fun hc => hc.2 rfl, if_neg hnone]

/-- A cancellation leaves the queue of the other operations. -/
theorem QueueInv.cancel (hq : QueueInv q t issued h) (hr : reservation issued p = some r)
    (hc : Cancellable issued t p) :
    let cleared := q.setElement (slot p) { q.elements (slot p) with request := none }
    let elements := shiftLoop cleared (slot p) MCAPI_MAX_QUEUE_ENTRIES 0 (slot p) cleared.elements
    QueueInv { cleared with elements := elements } t (issued.eraseIdx p) h ∧
      ∀ i, (elements i).buff_index = (q.elements i).buff_index := by
  intro cleared elements
  have hp := hq.le_of_reservation hr
  have hpm := lt_of_reservation hr
  have hpN : p < h + MCAPI_MAX_QUEUE_ENTRIES := Nat.lt_of_lt_of_le hpm hq.issued_le
  have hlt := hq.tail_lt
  have hissued := hq.issued_le
  have hpos := one_lt_entries
  have hopen : ∀ k, p ≤ k → delivered issued k = false :=
    fun k hk => hc.undelivered hq.bound hk
  have hwait : ∀ k, p ≤ k → k < issued.length → ∃ r, reservation issued k = some r :=
    fun k hk hkm => hq.waits k hkm (hopen k hk)
  have hend : issued.length ≤ if p < t then t else h + MCAPI_MAX_QUEUE_ENTRIES := by
    rcases hc with hlate | ⟨hm, -⟩
    · rw [if_neg (by omega)]
      exact hissued
    · split
      · exact hm
      · exact hissued
  have hwalk : WalkEnd cleared p (if p < t then t else h + MCAPI_MAX_QUEUE_ENTRIES) :=
    ⟨(hq.walkEnd hp).round, (hq.walkEnd hp).stop, (hq.walkEnd hp).inside⟩
  have hpE : p < if p < t then t else h + MCAPI_MAX_QUEUE_ENTRIES := by omega
  have hEN : (if p < t then t else h + MCAPI_MAX_QUEUE_ENTRIES) ≤ h + MCAPI_MAX_QUEUE_ENTRIES := by
    split
    · omega
    · exact le_rfl
  have hfree : (cleared.elements (slot p)).request = none := by
    simp only [cleared, queue.setElement, Function.update_self]
  have hkept : ∀ k, h ≤ k → k < h + MCAPI_MAX_QUEUE_ENTRIES → k ≠ p →
      cleared.elements (slot k) = q.elements (slot k) := by
    intro k hk hkN hkp
    exact Function.update_of_ne (window_slot_ne hk hkN hp hpN hkp) _ _
  have hbuff : ∀ i, (cleared.elements i).buff_index = (q.elements i).buff_index ∧
      (cleared.elements i).invalid = (q.elements i).invalid := by
    intro i
    by_cases hi : i = slot p
    · rw [hi]
      simp only [cleared, queue.setElement, Function.update_self, and_self]
    · simp only [cleared, queue.setElement, Function.update_of_ne hi, and_self]
  have hshift : Shifted cleared.elements elements (reservation issued) p
      (if p < t then t else h + MCAPI_MAX_QUEUE_ENTRIES) := by
    have hrounds : MCAPI_MAX_QUEUE_ENTRIES = (MCAPI_MAX_QUEUE_ENTRIES - 1) + 1 := by omega
    have hfirst : elements = shiftLoop cleared (slot p) (MCAPI_MAX_QUEUE_ENTRIES - 1) 1 (slot p)
        cleared.elements := by
      simp only [elements]
      conv_lhs => rw [hrounds]
      exact shiftLoop_first hfree
    rw [hfirst]
    have hspec := shiftLoop_spec (i := 0) (n := MCAPI_MAX_QUEUE_ENTRIES - 1)
      (R := reservation issued) hwalk hend
      (fun k hk => reservation_of_le hk) (e := cleared.elements) (by omega) hpE
      (by
        intro k hk hkE
        rw [hkept k (by omega) (by omega) (by omega)]
        exact (hq.entries k (by omega) (by omega)).request)
      (by
        intro k hk hkm
        obtain ⟨r, hr⟩ := hwait k (by omega) hkm
        rw [hr]
        rfl)
      hfree
    exact hspec
  have hdel : ∀ k, delivered (issued.eraseIdx p) k = delivered issued k := by
    intro k
    rw [delivered_eraseIdx]
    split
    · rfl
    · rw [hopen k (by omega), hopen (k + 1) (by omega)]
  have hlen : (issued.eraseIdx p).length = issued.length - 1 := List.length_eraseIdx_of_lt hpm
  refine ⟨⟨⟨hq.head, hq.tail, hq.head_le, hlt, by omega, ?_, ?_, ?_, ?_, ?_⟩, ?_⟩, ?_⟩
  · intro k hk hkN
    have he := hq.entries k hk hkN
    refine ⟨?_, ?_, ?_⟩
    · rw [reservation_eraseIdx]
      by_cases hkE : p ≤ k ∧ k < if p < t then t else h + MCAPI_MAX_QUEUE_ENTRIES
      · rw [if_neg (by omega)]
        exact hshift.request k hkE.1 hkE.2
      · have hout : elements (slot k) = q.elements (slot k) := by
          rw [hshift.frame (slot k) fun j hj hjE =>
            window_slot_ne (h := h) (by omega) (by omega) hk hkN (by omega)]
          exact hkept k hk hkN (by omega)
        simp only [hout, he.request]
        by_cases hkp : k < p
        · rw [if_pos hkp]
        · rw [if_neg hkp, reservation_of_le (by omega), reservation_of_le (by omega)]
    · rw [hdel, ← he.invalid, ← (hbuff (slot k)).2]
      exact hshift.invalid (slot k)
    · rw [hdel, ← he.filled, ← (hbuff (slot k)).1, ← hshift.buff_index (slot k)]
  · intro k hk
    rw [hdel]
    exact hq.passed k hk
  · intro k hd
    rw [hdel] at hd
    exact hq.bound k hd
  · intro k hk hd
    rw [hdel] at hd
    rw [reservation_eraseIdx]
    split
    · exact hq.waits k (by omega) hd
    · exact hwait (k + 1) (by omega) (by omega)
  · exact hq.count.congr fun k => by rw [hdel]
  · intro hlt'
    rw [hdel]
    exact hq.live hlt'
  · intro i
    rw [hshift.buff_index]
    exact (hbuff i).1

end Cancel

end MxApi.Baseline
