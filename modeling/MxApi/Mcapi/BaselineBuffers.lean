/-
What the calls on one endpoint leave alone of the memory that all endpoints share.

A call writes at most the request it was given, and what it does to the queue and the
buffers does not depend on the table of requests. It frees the buffer that an entry
of its own queue names, and takes a buffer that was free ([`BuffersKept`]).
-/
import MxApi.Mcapi.BaselineQueue

set_option autoImplicit false

namespace MxApi.Baseline

open Lib CallStatus

/-! ## The table of requests -/

section Requests

variable (ep : Endpoint) (requests : ℕ → Option RecvRequest)

theorem send_requests (buffer : Message) :
    mcapi_trans_send_have_lock { ep with requests := requests } buffer =
      (mcapi_trans_send_have_lock ep buffer).map
        fun p => ({ p.1 with requests := requests }, p.2) := by
  unfold mcapi_trans_send_have_lock
  dsimp only
  split
  · rw [Option.map_map]
    rfl
  · split
    · rfl
    · split
      · rfl
      · rfl

theorem recv_requests (size : ℕ) :
    mcapi_trans_recv_have_lock { ep with requests := requests } size =
      (mcapi_trans_recv_have_lock ep size).map
        fun p => ({ p.1 with requests := requests }, p.2) := by
  unfold mcapi_trans_recv_have_lock
  dsimp only
  split
  · rfl
  · split
    · rfl
    · rfl

theorem recv_keeps_requests {size : ℕ} {ep' : Endpoint} {received : Option Received}
    (h : mcapi_trans_recv_have_lock ep size = some (ep', received)) :
    ep'.requests = ep.requests := by
  have h' := recv_requests ep ep.requests size
  rw [h, Option.map_some, Option.some.injEq, Prod.mk.injEq] at h'
  rw [h'.1]

theorem recv_i_requests (r size : ℕ) :
    mcapi_trans_msg_recv_i { ep with requests := requests } r size =
      (mcapi_trans_msg_recv_i ep r size).map
        fun p => ({ p.1 with requests := Function.update requests r (p.1.requests r) }, p.2) := by
  unfold mcapi_trans_msg_recv_i
  rw [recv_requests]
  cases hrecv : mcapi_trans_recv_have_lock ep size with
  | none => rfl
  | some p =>
    obtain ⟨ep', received⟩ := p
    have hsame := recv_keeps_requests ep hrecv
    cases received with
    | some received =>
      simp only [Option.map_some, Endpoint.setRequest, Function.update_self]
    | none =>
      simp only [Option.map_some, setup_request_have_lock_recv, Endpoint.setRequest]
      cases firstUnreserved ep'.recv_queue with
      | none => simp only [Function.update_self]
      | some i => simp only [Function.update_self]

theorem check_requests (r size : ℕ) :
    check_receive_request_have_lock { ep with requests := requests } r size =
      (check_receive_request_have_lock ep r size).map fun p =>
        ({ p.1 with requests := if p.2.isSome then Function.update requests r (p.1.requests r)
            else requests }, p.2) := by
  unfold check_receive_request_have_lock
  dsimp only
  cases reservedEntry ep.recv_queue r with
  | none => rfl
  | some i =>
    dsimp only
    split
    · rw [Option.map_map]
      simp only [mcapi_trans_recv_have_lock_]
      congr 1
      funext q
      simp only [Endpoint.setRequest, Function.comp_apply, Function.update_self, Option.isSome_some,
        if_true]
    · rfl

end Requests

/-! ## What a call does to the buffers -/

/-- The buffers that are in use elsewhere are left alone, and what the queue comes to
name was free. -/
structure BuffersKept (ep ep' : Endpoint) : Prop where
  others : ∀ b, (ep.buffers b).magic_num = true →
    (∀ i, (ep.recv_queue.elements i).buff_index ≠ some b) → ep'.buffers b = ep.buffers b
  named : ∀ i b, (ep'.recv_queue.elements i).buff_index = some b →
    (∃ j, (ep.recv_queue.elements j).buff_index = some b) ∨ (ep.buffers b).magic_num = false

section Buffers

variable {q q' : queue} {ep ep' : Endpoint}

theorem setElement_buff_index {i : ℕ} {e : buffer_descriptor}
    (h : e.buff_index = (q.elements i).buff_index) (j : ℕ) :
    ((q.setElement i e).elements j).buff_index = (q.elements j).buff_index := by
  by_cases hj : j = i
  · subst hj
    simp only [queue.setElement, Function.update_self, h]
  · simp only [queue.setElement, Function.update_of_ne hj]

theorem compactLoop_buff_index (n : ℕ) : ∀ (q : queue) (i : ℕ),
    ((compactLoop n q).elements i).buff_index = (q.elements i).buff_index := by
  induction n with
  | zero => exact fun q i => rfl
  | succ n ih =>
    intro q i
    rw [compactLoop]
    split
    · rfl
    · rw [ih]
      apply setElement_buff_index
      rfl

theorem assertElements_eq (h : assertElements q = some q') : q' = q := by
  unfold assertElements at h
  split at h
  · cases h
  · exact (Option.some.inj h).symm

theorem compact_buff_index (h : mcapi_trans_compact_queue q = some q') (i : ℕ) :
    (q'.elements i).buff_index = (q.elements i).buff_index := by
  obtain rfl := assertElements_eq h
  exact compactLoop_buff_index _ q i

/-- What is popped is an entry with a message, which stays in it. -/
theorem pop_buff_index {qindex : ℕ} (h : mcapi_trans_pop_queue q = some (q', qindex)) :
    (∀ i, (q'.elements i).buff_index = (q.elements i).buff_index) ∧
      (q.elements qindex).buff_index.isSome = true := by
  unfold mcapi_trans_pop_queue at h
  split at h
  · cases h
  cases hfirst : firstAvailable q with
  | none => simp [hfirst] at h
  | some i =>
    have hthere := (search_some hfirst).2
    rw [buffer_descriptor.available, Bool.and_eq_true] at hthere
    simp only [hfirst] at h
    split at h
    · cases h
    rename_i q₁ hassert
    rw [Option.map_eq_some_iff] at h
    obtain ⟨q₂, hcompact, heq⟩ := h
    rw [Prod.mk.injEq] at heq
    obtain ⟨rfl, rfl⟩ := heq
    refine ⟨?_, hthere.2⟩
    intro j
    rw [compact_buff_index hcompact]
    obtain rfl := assertElements_eq hassert
    split
    · rfl
    · apply setElement_buff_index
      rfl

theorem send_buffers {buffer : Message} {sent : Bool}
    (h : mcapi_trans_send_have_lock ep buffer = some (ep', sent)) : BuffersKept ep ep' := by
  unfold mcapi_trans_send_have_lock at h
  split at h
  · rw [Option.map_eq_some_iff] at h
    obtain ⟨q, hcompact, heq⟩ := h
    obtain rfl := (Prod.mk.inj heq).1
    exact ⟨fun b _ _ => rfl, fun i b hb => Or.inl ⟨i, (compact_buff_index hcompact i).symm.trans hb⟩⟩
  cases hfind : search MCAPI_MAX_BUFFERS fun i => !(ep.buffers i).magic_num with
  | none =>
    simp only [hfind] at h
    obtain rfl := (Prod.mk.inj (Option.some.inj h)).1
    exact ⟨fun b _ _ => rfl, fun i b hb => Or.inl ⟨i, hb⟩⟩
  | some i =>
    have hfree : (ep.buffers i).magic_num = false := by
      have hp := (search_some hfind).2
      simpa using hp
    simp only [hfind] at h
    cases hpush : mcapi_trans_push_queue ep.recv_queue with
    | none => simp [hpush] at h
    | some p =>
      obtain ⟨q, qindex⟩ := p
      have hsame : q.elements = ep.recv_queue.elements := by
        unfold mcapi_trans_push_queue at hpush
        split at hpush
        · cases hpush
        dsimp only at hpush
        split at hpush
        · cases hpush
        · obtain ⟨rfl, -⟩ := Prod.mk.inj (Option.some.inj hpush)
          rfl
      simp only [hpush] at h
      obtain rfl := (Prod.mk.inj (Option.some.inj h)).1
      refine ⟨?_, ?_⟩
      · intro b hused _
        have hne : b ≠ i := by
          rintro rfl
          rw [hfree] at hused
          cases hused
        exact Function.update_of_ne hne _ _
      · intro j b hb
        by_cases hj : j = qindex
        · subst hj
          simp only [queue.setElement, Function.update_self, Option.some.injEq] at hb
          rw [← hb]
          exact Or.inr hfree
        · simp only [queue.setElement, Function.update_of_ne hj, hsame] at hb
          exact Or.inl ⟨j, hb⟩

/-- A message is taken out of an entry that holds one. -/
theorem recv_at_buffers (ep : Endpoint) (size qindex : ℕ)
    (hthere : (ep.recv_queue.elements qindex).buff_index.isSome = true) :
    BuffersKept ep (mcapi_trans_recv_have_lock_ ep size qindex).1 := by
  obtain ⟨b, hb⟩ := Option.isSome_iff_exists.mp hthere
  refine ⟨?_, ?_⟩
  · intro b' _ hnot
    have hne : b' ≠ b := by
      rintro rfl
      exact hnot qindex hb
    simp only [mcapi_trans_recv_have_lock_, hb, Option.getD_some]
    exact Function.update_of_ne hne _ _
  · intro j b' hb'
    by_cases hj : j = qindex
    · subst hj
      simp only [mcapi_trans_recv_have_lock_, queue.setElement, Function.update_self] at hb'
      cases hb'
    · simp only [mcapi_trans_recv_have_lock_, queue.setElement, Function.update_of_ne hj] at hb'
      exact Or.inl ⟨j, hb'⟩

/-- Only the message index of the entries counts. -/
theorem BuffersKept.congr {ep₁ ep₁' : Endpoint} (h : BuffersKept ep₁ ep₁')
    (hq : ∀ i, (ep₁.recv_queue.elements i).buff_index = (ep.recv_queue.elements i).buff_index)
    (hb : ep₁.buffers = ep.buffers)
    (hq' : ∀ i, (ep'.recv_queue.elements i).buff_index = (ep₁'.recv_queue.elements i).buff_index)
    (hb' : ep'.buffers = ep₁'.buffers) : BuffersKept ep ep' := by
  refine ⟨?_, ?_⟩
  · intro b hused hnot
    rw [hb', ← hb]
    apply h.others b
    · rw [hb]
      exact hused
    · intro i
      rw [hq]
      exact hnot i
  · intro i b hi
    rw [hq'] at hi
    rcases h.named i b hi with ⟨j, hj⟩ | hfree
    · exact Or.inl ⟨j, (hq j).symm.trans hj⟩
    · rw [hb] at hfree
      exact Or.inr hfree

theorem recv_buffers {size : ℕ} {received : Option Received}
    (h : mcapi_trans_recv_have_lock ep size = some (ep', received)) : BuffersKept ep ep' := by
  unfold mcapi_trans_recv_have_lock at h
  split at h
  · obtain rfl := (Prod.mk.inj (Option.some.inj h)).1
    exact ⟨fun b _ _ => rfl, fun i b hb => Or.inl ⟨i, hb⟩⟩
  cases hpop : mcapi_trans_pop_queue ep.recv_queue with
  | none => simp [hpop] at h
  | some p =>
    obtain ⟨q, qindex⟩ := p
    obtain ⟨hsame, hthere⟩ := pop_buff_index hpop
    simp only [hpop] at h
    obtain rfl := (Prod.mk.inj (Option.some.inj h)).1
    refine (recv_at_buffers { ep with recv_queue := q } size qindex ?_).congr hsame rfl
      (fun _ => rfl) rfl
    rw [← hthere]
    exact congrArg Option.isSome (hsame qindex)

theorem recv_i_buffers {r size : ℕ} {received : Option Received}
    (h : mcapi_trans_msg_recv_i ep r size = some (ep', received)) : BuffersKept ep ep' := by
  unfold mcapi_trans_msg_recv_i at h
  cases hrecv : mcapi_trans_recv_have_lock ep size with
  | none => simp [hrecv] at h
  | some p =>
    obtain ⟨ep₁, got⟩ := p
    have hkept := recv_buffers hrecv
    cases got with
    | some got =>
      simp only [hrecv] at h
      obtain rfl := (Prod.mk.inj (Option.some.inj h)).1
      exact hkept.congr (fun _ => rfl) rfl (fun _ => rfl) rfl
    | none =>
      simp only [hrecv] at h
      obtain rfl := (Prod.mk.inj (Option.some.inj h)).1
      unfold setup_request_have_lock_recv
      dsimp only
      split
      · exact hkept.congr (fun _ => rfl) rfl (fun _ => rfl) rfl
      · refine hkept.congr (fun _ => rfl) rfl (fun j => ?_) rfl
        apply setElement_buff_index
        rfl

theorem check_buffers {r size : ℕ} {received : Option Received}
    (h : check_receive_request_have_lock ep r size = some (ep', received)) :
    BuffersKept ep ep' := by
  unfold check_receive_request_have_lock at h
  cases hfind : reservedEntry ep.recv_queue r with
  | none => simp [hfind] at h
  | some i =>
    simp only [hfind] at h
    split at h
    · rename_i hthere
      rw [Option.map_eq_some_iff] at h
      obtain ⟨q, hcompact, heq⟩ := h
      obtain rfl := (Prod.mk.inj heq).1
      have hsame : ∀ j, ((ep.recv_queue.setElement i
          { ep.recv_queue.elements i with request := none }).elements j).buff_index =
          (ep.recv_queue.elements j).buff_index := by
        intro j
        apply setElement_buff_index
        rfl
      refine (recv_at_buffers
        { ep with
          recv_queue := ep.recv_queue.setElement i
            { ep.recv_queue.elements i with request := none } }
        size i ?_).congr hsame rfl ?_ rfl
      · rw [← hthere]
        exact congrArg Option.isSome (hsame i)
      · intro j
        refine (compact_buff_index hcompact j).trans ?_
        apply setElement_buff_index
        rfl
    · obtain rfl := (Prod.mk.inj (Option.some.inj h)).1
      exact ⟨fun b _ _ => rfl, fun i b hb => Or.inl ⟨i, hb⟩⟩

end Buffers

end MxApi.Baseline
