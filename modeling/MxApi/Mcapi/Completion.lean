/-
How a caller waits for a request of its own: by tests, by a wait, or by a wait for any of
several requests.

If the request is found done from some round on, and the other requests of the list are
not, then each of these returns what the test that found it done has returned
([`DoneFrom.run`]).
-/
import MxApi.Mcapi.CheckedCalls

set_option autoImplicit false

namespace MxApi.Calls

open Lib Transfers channel_type mcapi_buffer_state mcapi_status_t mcapi_request_state
  mcapi_request_type mcapi_buffer_type

/-! ## Waits for a request -/

/-- How the caller of a non-blocking receive gets its result. The other requests of the
list are before and after this one. -/
inductive Completion
  | test
  | wait
  | wait_any (before after : List ℕ)

/-- The caller tests until the request is done. A wait for any of several requests may also
find another one. -/
def Completion.run (env : Env) (fuel n : ℕ) (w : World) (request : ℕ)
    (deliveries : List Delivery) : Completion → Option (Tested × List Delivery)
  | .test => polls env fuel n w request deliveries
  | .wait => mcapi_trans_wait env fuel n w request deliveries
  | .wait_any before after =>
    (mcapi_trans_wait_any env (before ++ request :: after) fuel n w 0 deliveries).bind fun x =>
      if x.2.1 = before.length then some (x.1, x.2.2) else none

def Completion.others : Completion → List ℕ
  | .wait_any before after => before ++ after
  | _ => []

/-- A loop with enough fuel returns, and every result it returns is one of these. -/
structure Settles {α : Type} (run : ℕ → Option α) (Q : α → Prop) : Prop where
  returns : ∃ bound, ∀ fuel, bound ≤ fuel → ∃ x, run fuel = some x
  result : ∀ fuel x, run fuel = some x → Q x

/-- The tests of a request that is found done in round `k`, among other threads: `A n` is
known of the world before round `n`. -/
structure DoneFrom (env : Env) (request : ℕ) (others : List ℕ) (k : ℕ) (A : ℕ → World → Prop)
    (Q : Tested → Prop) : Prop where
  early : ∀ n w, A n w → n < k → ∃ t, mcapi_trans_test_i (env n w) request = some t ∧
    t.rc = false ∧ t.request = request ∧ t.delivery = none ∧ A (n + 1) t.world
  done : ∀ n w, A n w → k ≤ n → ∃ t, mcapi_trans_test_i (env n w) request = some t ∧
    t.rc = true ∧ Q t
  other : ∀ other ∈ others, ∀ n w, A n w → ∃ t, mcapi_trans_test_i (env n w) other = some t ∧
    t.rc = false ∧ t.delivery = none ∧ A (n + 1) t.world

section Waits

variable {env : Env} {request k n : ℕ} {others before after : List ℕ} {A : ℕ → World → Prop}
  {Q : Tested → Prop} {w : World} {deliveries : List Delivery}

theorem Settles.map {α β : Type} {run : ℕ → Option α} {Q : α → Prop} {f : α → β} {R : β → Prop}
    (h : Settles run Q) (hf : ∀ x, Q x → R (f x)) :
    Settles (fun fuel => (run fuel).map f) R where
  returns := by
    obtain ⟨bound, hbound⟩ := h.returns
    refine ⟨bound, ?_⟩
    intro fuel hfuel
    obtain ⟨x, hx⟩ := hbound fuel hfuel
    exact ⟨f x, by rw [hx]; rfl⟩
  result := by
    intro fuel y hy
    obtain ⟨x, hx, rfl⟩ := Option.map_eq_some_iff.mp hy
    exact hf x (h.result fuel x hx)

/-- What the loops return: the test that found the request done. -/
def Found (Q : Tested → Prop) (deliveries : List Delivery) (x : Tested × List Delivery) : Prop :=
  Q x.1 ∧ x.2 = deliveries ++ x.1.delivery.toList

/-- The polls go on until round `k`. -/
theorem DoneFrom.polls_result (h : DoneFrom env request others k A Q) :
    ∀ fuel n w deliveries x, A n w → polls env fuel n w request deliveries = some x →
      Found Q deliveries x
  | 0, _, _, _, _, _, hx => by cases hx
  | fuel + 1, n, w, deliveries, x, hA, hx => by
    rw [polls] at hx
    by_cases hn : n < k
    · obtain ⟨t, ht, hrc, hreq, hdel, hA'⟩ := h.early n w hA hn
      simp only [ht, hrc, hreq, hdel, Option.toList_none, List.append_nil, Bool.false_eq_true,
        if_false] at hx
      exact h.polls_result fuel (n + 1) t.world deliveries x hA' hx
    · obtain ⟨t, ht, hrc, hQ⟩ := h.done n w hA (by omega)
      simp only [ht, hrc, if_true, Option.some.injEq] at hx
      obtain rfl := hx
      exact ⟨hQ, rfl⟩

theorem DoneFrom.polls_returns (h : DoneFrom env request others k A Q) :
    ∀ fuel n w deliveries, A n w → k < n + fuel →
      0 < fuel → ∃ x, polls env fuel n w request deliveries = some x
  | fuel + 1, n, w, deliveries, hA, hfuel, _ => by
    rw [polls]
    by_cases hn : n < k
    · obtain ⟨t, ht, hrc, hreq, hdel, hA'⟩ := h.early n w hA hn
      simp only [ht, hrc, hreq, Bool.false_eq_true, if_false]
      exact h.polls_returns fuel (n + 1) t.world _ hA' (by omega) (by omega)
    · obtain ⟨t, ht, hrc, -⟩ := h.done n w hA (by omega)
      simp only [ht, hrc, if_true]
      exact ⟨_, rfl⟩

theorem DoneFrom.polled (h : DoneFrom env request others k A Q) (hA : A n w) :
    Settles (fun fuel => polls env fuel n w request deliveries) (Found Q deliveries) where
  returns := by
    refine ⟨k + 1, ?_⟩
    intro fuel hfuel
    exact h.polls_returns fuel n w deliveries hA (by omega) (by omega)
  result fuel x hx := h.polls_result fuel n w deliveries x hA hx

/-- An entry of the list is this request, at its position, or one of the others. -/
theorem entry_cases {i r : ℕ} (h : (before ++ request :: after)[i]? = some r) :
    i = before.length ∧ request = r ∨ r ∈ before ++ after := by
  rcases Nat.lt_trichotomy i before.length with hi | rfl | hi
  · rw [List.getElem?_append_left hi] at h
    exact .inr (List.mem_append_left _ (List.mem_of_getElem? h))
  · rw [List.getElem?_append_right (Nat.le_refl _), Nat.sub_self] at h
    exact .inl ⟨rfl, Option.some.inj h⟩
  · rw [List.getElem?_append_right hi.le] at h
    obtain ⟨j, hj⟩ := Nat.exists_eq_add_of_lt hi
    have hpos : i - before.length = j + 1 := by omega
    rw [hpos, List.getElem?_cons_succ] at h
    exact .inr (List.mem_append_right _ (List.mem_of_getElem? h))

/-- The passes go on until this request is tested in round `k` or later. -/
theorem DoneFrom.wait_any_result (h : DoneFrom env request (before ++ after) k A Q) :
    ∀ fuel n w i deliveries x, A n w →
      mcapi_trans_wait_any env (before ++ request :: after) fuel n w i deliveries = some x →
      x.2.1 = before.length ∧ Found Q deliveries (x.1, x.2.2)
  | 0, _, _, _, _, _, _, hx => by cases hx
  | fuel + 1, n, w, i, deliveries, x, hA, hx => by
    rw [mcapi_trans_wait_any] at hx
    cases hi : (before ++ request :: after)[i]? with
    | none =>
      rw [hi] at hx
      exact h.wait_any_result fuel n w 0 deliveries x hA hx
    | some r =>
      simp only [hi] at hx
      rcases entry_cases hi with ⟨rfl, rfl⟩ | hother
      · by_cases hn : n < k
        · obtain ⟨t, ht, hrc, -, hdel, hA'⟩ := h.early n w hA hn
          simp only [ht, hrc, hdel, Option.toList_none, List.append_nil, Bool.false_eq_true,
            if_false] at hx
          exact h.wait_any_result fuel (n + 1) t.world _ deliveries x hA' hx
        · obtain ⟨t, ht, hrc, hQ⟩ := h.done n w hA (by omega)
          simp only [ht, hrc, if_true, Option.some.injEq] at hx
          obtain rfl := hx
          exact ⟨rfl, hQ, rfl⟩
      · obtain ⟨t, ht, hrc, hdel, hA'⟩ := h.other r hother n w hA
        simp only [ht, hrc, hdel, Option.toList_none, List.append_nil, Bool.false_eq_true,
          if_false] at hx
        exact h.wait_any_result fuel (n + 1) t.world _ deliveries x hA' hx

/-- The rounds that may still be needed: `L` requests are in the list, this one at position
`j`, and request `i` is tested next. -/
def roundsLeft (k n j L i : ℕ) : ℕ :=
  (k - n) * (L + 1) + if i ≤ j then j - i else L + j + 1 - i

theorem roundsLeft_wrap {j L : ℕ} (h : j < L) :
    roundsLeft k n j L 0 < roundsLeft k n j L L := by
  unfold roundsLeft
  rw [if_pos (Nat.zero_le _), if_neg (by omega)]
  omega

theorem rounds_mono (L : ℕ) : (k - (n + 1)) * (L + 1) ≤ (k - n) * (L + 1) :=
  Nat.mul_le_mul_right _ (by omega)

theorem roundsLeft_next {j L i : ℕ} (hi : i < L) (hne : i ≠ j) :
    roundsLeft k (n + 1) j L (i + 1) < roundsLeft k n j L i := by
  have hmono := rounds_mono (k := k) (n := n) L
  unfold roundsLeft
  split
  · rw [if_pos (by omega)]
    omega
  · rw [if_neg (by omega)]
    omega

theorem roundsLeft_own {j L : ℕ} (hn : n < k) :
    roundsLeft k (n + 1) j L (j + 1) < roundsLeft k n j L j := by
  have hround : (k - n) * (L + 1) = (k - (n + 1)) * (L + 1) + (L + 1) := by
    rw [← Nat.succ_mul]
    congr 1
    omega
  unfold roundsLeft
  rw [if_neg (by omega), if_pos (Nat.le_refl _), hround]
  omega

theorem DoneFrom.wait_any_returns (h : DoneFrom env request (before ++ after) k A Q) :
    ∀ fuel n w i deliveries, A n w → i ≤ (before ++ request :: after).length →
      roundsLeft k n before.length (before ++ request :: after).length i < fuel →
      ∃ x, mcapi_trans_wait_any env (before ++ request :: after) fuel n w i deliveries = some x
  | fuel + 1, n, w, i, deliveries, hA, hle, hfuel => by
    have hown : before.length < (before ++ request :: after).length := by
      rw [List.length_append, List.length_cons]
      omega
    rw [mcapi_trans_wait_any]
    cases hi : (before ++ request :: after)[i]? with
    | none =>
      -- the pass is over
      have hend : i = (before ++ request :: after).length := by
        rw [List.getElem?_eq_none_iff] at hi
        omega
      subst hend
      have hwrap := roundsLeft_wrap (k := k) (n := n) hown
      exact h.wait_any_returns fuel n w 0 deliveries hA (Nat.zero_le _) (by omega)
    | some r =>
      obtain ⟨hlt, -⟩ := List.getElem?_eq_some_iff.mp hi
      dsimp only
      by_cases hj : i = before.length
      · subst hj
        obtain rfl : request = r := by
          rw [List.getElem?_append_right (Nat.le_refl _), Nat.sub_self] at hi
          exact Option.some.inj hi
        by_cases hn : n < k
        · obtain ⟨t, ht, hrc, -, -, hA'⟩ := h.early n w hA hn
          simp only [ht, hrc, Bool.false_eq_true, if_false]
          have hless := roundsLeft_own (j := before.length)
            (L := (before ++ request :: after).length) hn
          exact h.wait_any_returns fuel (n + 1) t.world _ _ hA' hlt (by omega)
        · obtain ⟨t, ht, hrc, -⟩ := h.done n w hA (by omega)
          simp only [ht, hrc, if_true]
          exact ⟨_, rfl⟩
      · rcases entry_cases hi with ⟨hj', -⟩ | hother
        · exact absurd hj' hj
        · obtain ⟨t, ht, hrc, -, hA'⟩ := h.other r hother n w hA
          simp only [ht, hrc, Bool.false_eq_true, if_false]
          have hless := roundsLeft_next (k := k) (n := n) hlt hj
          exact h.wait_any_returns fuel (n + 1) t.world _ _ hA' hlt (by omega)

/-- **However the caller waits**, it gets the result of the test that found the request
done. -/
theorem DoneFrom.run {completion : Completion}
    (h : DoneFrom env request completion.others k A Q) (hne : request ≠ 0)
    (hdecode : mcapi_trans_decode_request_handle request ≠ none) (hA : A n w)
    (deliveries : List Delivery) :
    Settles (fun fuel => completion.run env fuel n w request deliveries)
      (Found Q deliveries) := by
  cases completion with
  | test => exact h.polled hA
  | wait =>
    have hpolls : (fun fuel => Completion.wait.run env fuel n w request deliveries) =
        fun fuel => polls env fuel n w request deliveries := by
      funext fuel
      simp only [Completion.run, mcapi_trans_wait, if_neg hne, if_neg hdecode]
    rw [hpolls]
    exact h.polled hA
  | wait_any before after =>
    refine ⟨⟨roundsLeft k n before.length (before ++ request :: after).length 0 + 1, ?_⟩, ?_⟩
    · intro fuel hfuel
      obtain ⟨x, hx⟩ := h.wait_any_returns fuel n w 0 deliveries hA (Nat.zero_le _) hfuel
      obtain ⟨hfound, -⟩ := h.wait_any_result fuel n w 0 deliveries x hA hx
      refine ⟨(x.1, x.2.2), ?_⟩
      simp only [Completion.run, hx, Option.bind_some, if_pos hfound]
    · intro fuel y hy
      obtain ⟨x, hx, hxy⟩ := Option.bind_eq_some_iff.mp hy
      obtain ⟨hfound, hQ⟩ := h.wait_any_result fuel n w 0 deliveries x hA hx
      rw [if_pos hfound] at hxy
      obtain rfl := Option.some.inj hxy
      exact hQ

end Waits

end MxApi.Calls
