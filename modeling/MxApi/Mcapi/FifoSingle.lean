/-
A client that is alone on its side of the queue.

Between the moment a client computes its entry from the counters and the moment
it exchanges the entry's state, only the other side moves. A single sender
therefore still has the entry of the next push when it reserves it
([`single_sender_step`]), and a single receiver still has the head when it takes
it ([`single_receiver_step`]): the guards of the system hold of their own.
-/
import MxApi.Mcapi.FifoSystem

set_option autoImplicit false

namespace MxApi

open Lib channel_type mcapi_buffer_state mcapi_status_t

/-! ## What a client has read is still so -/

/-- What a single sender knows when `u` messages are sent and the pops stand at
`t` counter steps. -/
def SendPc.Synced (u t : ℕ) : SendPc → Prop
  | .tailUpdate _ tempAC =>
    ∃ t', tempAC = u32 t' ∧ t' ≤ t ∧ 2 * u ≤ t' + 2 * MCAPI_MAX_QUEUE_ENTRIES
  | .readBuffIndex _ q | .checkBuffIndex _ q | .casReserve _ q =>
    q = ringSlot u ∧ 2 * u + 2 ≤ t + 2 * MCAPI_MAX_QUEUE_ENTRIES
  | _ => True

/-- What a single receiver knows when `a` messages are received and the pushes
stand at `t` counter steps. -/
def RecvPc.Synced (a t : ℕ) : RecvPc → Prop
  | .headAck _ tempUC => ∃ t', tempUC = u32 t' ∧ t' ≤ t ∧ 2 * a ≤ t'
  | .readState _ q | .readBuffIndex _ q _ | .casReceived _ q => q = ringSlot a ∧ 2 * a + 2 ≤ t
  | _ => True

theorem SendPc.Synced.mono {p : SendPc} {u t t' : ℕ} (h : p.Synced u t) (ht : t ≤ t') :
    p.Synced u t' := by
  cases p with
  | tailUpdate m tempAC =>
    obtain ⟨t₀, h₀, hle, hroom⟩ := h
    exact ⟨t₀, h₀, hle.trans ht, hroom⟩
  | readBuffIndex | checkBuffIndex | casReserve =>
    obtain ⟨hq, hroom⟩ := h
    exact ⟨hq, by omega⟩
  | _ => trivial

theorem RecvPc.Synced.mono {p : RecvPc} {a t t' : ℕ} (h : p.Synced a t) (ht : t ≤ t') :
    p.Synced a t' := by
  cases p with
  | headAck f tempUC =>
    obtain ⟨t₀, h₀, hle, hhead⟩ := h
    exact ⟨t₀, h₀, hle.trans ht, hhead⟩
  | readState | readBuffIndex | casReceived =>
    obtain ⟨hq, hhead⟩ := h
    exact ⟨hq, by omega⟩
  | _ => trivial

theorem SendPc.synced_of_inside {p : SendPc} (h : p.inside = true) (u t : ℕ) : p.Synced u t := by
  cases p <;> trivial

theorem RecvPc.synced_of_inside {p : RecvPc} (h : p.inside = true) (a t : ℕ) : p.Synced a t := by
  cases p <;> trivial

section Sync

variable {ct : channel_type} {w : Option SendPc} {r : Option RecvPc} {sh sh' : Shared}
  {sent : List SendFrame} {a : ℕ}

/-- A single sender's step outside keeps what it knows true. -/
theorem CoreInv.send_synced (h : CoreInv ct w r sh sent a) {p q : SendPc}
    {done : Option SendFrame} (hp : p.Synced sent.length (2 * a + popping r))
    (hin : p.inside = false) (hnext : sendProgram sh p = (sh', q, done)) :
    q.Synced sent.length (2 * a + popping r) := by
  have hbound := h.bound
  cases p with
  | idle | failed =>
    cases hnext
    trivial
  | tailAck m =>
    cases hnext
    exact ⟨_, h.ac, Nat.le_refl _, by omega⟩
  | tailUpdate m tempAC =>
    obtain ⟨t', rfl, hle, hroom⟩ := hp
    have hlow := h.busy_le
    have hpop := popping_le_busy r
    rw [MCAPI_MAX_QUEUE_ENTRIES_eq] at hroom
    simp only [sendProgram, h.uc, lastCompleted_u32 _ (pushing_le_one w), qindexOf_u32] at hnext
    cases hs : tailStatus (u32 (2 * sent.length)) (u32 t') with
    | MCAPI_SUCCESS =>
      rw [hs] at hnext
      cases hnext
      have := (tailStatus_u32 (by omega) (by omega)).mp hs
      exact ⟨rfl, by omega⟩
    | MCAPI_ERR_QUEUE_EMPTY | MCAPI_ERR_QUEUE_EMPTY_PRODUCER_INSERTING | MCAPI_ERR_QUEUE_FULL
    | MCAPI_ERR_QUEUE_FULL_CONSUMER_READING =>
      rw [hs] at hnext
      cases hnext
      trivial
  | readBuffIndex m q =>
    cases hnext
    exact hp
  | checkBuffIndex m q =>
    simp only [sendProgram] at hnext
    split at hnext
    · cases hnext
      exact hp
    · cases hnext
      trivial
  | casReserve m q =>
    simp only [sendProgram, Shared.casState] at hnext
    split at hnext
    · cases hnext
      trivial
    · cases hnext
      trivial
  | allocBuffer | unreserve | setParent | copy | setSize | setBuffIndex | casAllocated
  | pushUpdate | pushAck | pushCas | pushInc => cases hin

theorem retry_synced (f : RecvArgs) (a t : ℕ) : f.retry.Synced a t := by
  unfold RecvArgs.retry
  split <;> trivial

/-- A single receiver's step outside keeps what it knows true. -/
theorem CoreInv.recv_synced (h : CoreInv ct w r sh sent a) {p q : RecvPc}
    {done : Option (RecvArgs × Delivery)} (hr : r = none)
    (hp : p.Synced a (2 * sent.length + pushing w)) (hin : p.inside = false)
    (hnext : recvProgram sh p = (sh', q, done)) :
    q.Synced a (2 * sent.length + pushing w) := by
  have hle := h.le
  have hbound := h.bound
  cases p with
  | idle | failed =>
    cases hnext
    trivial
  | headUpdate f =>
    cases hnext
    exact ⟨_, h.uc, Nat.le_refl _, by omega⟩
  | headAck f tempUC =>
    obtain ⟨t', rfl, ht', hhead⟩ := hp
    have hpush := pushing_le_one w
    have hac : sh.q.ack_counter = u32 (2 * a + popping none) := by rw [h.ac, hr]
    rw [MCAPI_MAX_QUEUE_ENTRIES_eq] at hbound
    simp only [recvProgram, hac, lastCompleted_u32 a (b := popping none) (Nat.zero_le _),
      qindexOf_u32] at hnext
    cases hs : headStatus (u32 t') (u32 (2 * a)) with
    | MCAPI_SUCCESS =>
      rw [hs] at hnext
      cases hnext
      have := (headStatus_u32 hhead (by omega)).mp hs
      exact ⟨rfl, by omega⟩
    | MCAPI_ERR_QUEUE_EMPTY =>
      rw [hs] at hnext
      cases hnext
      exact retry_synced ..
    | MCAPI_ERR_QUEUE_EMPTY_PRODUCER_INSERTING | MCAPI_ERR_QUEUE_FULL
    | MCAPI_ERR_QUEUE_FULL_CONSUMER_READING =>
      rw [hs] at hnext
      cases hnext
      trivial
  | readState f q =>
    cases hnext
    exact hp
  | readBuffIndex f q oldbstate =>
    simp only [recvProgram] at hnext
    split at hnext
    · cases hnext
      exact retry_synced ..
    · cases hnext
      exact hp
  | casReceived f q =>
    simp only [recvProgram, Shared.casState] at hnext
    split at hnext
    · cases hnext
      trivial
    · cases hnext
      trivial
  | recvBuffIndex | setParent | readSize | copy | freeBuffer | clearReserved | clearBuffIndex
  | setFree | popAck | popUpdate | popCas | popInc => cases hin

end Sync

/-! ## The guards hold of their own -/

section Guards

variable {ct : channel_type} {w : Option SendPc} {r : Option RecvPc} {sh : Shared}
  {sent : List SendFrame} {a : ℕ}

theorem CoreInv.queue_tail_of_room (h : CoreInv ct w r sh sent a)
    (hroom : 2 * sent.length + 2 ≤ 2 * a + popping r + 2 * MCAPI_MAX_QUEUE_ENTRIES) :
    mcapi_trans_queue_tail sh.q = (ringSlot sent.length, MCAPI_SUCCESS) := by
  have hbusy := h.busy_le
  have hpop := popping_le_busy r
  have hbound := h.bound
  rw [MCAPI_MAX_QUEUE_ENTRIES_eq] at hbound
  simp only [mcapi_trans_queue_tail, h.uc, h.ac, lastCompleted_u32 _ (pushing_le_one w),
    qindexOf_u32, Prod.mk.injEq, true_and]
  exact (tailStatus_u32 (by omega) (by omega)).mpr hroom

theorem CoreInv.queue_head_of_message (h : CoreInv ct w r sh sent a)
    (hmsg : 2 * a + 2 ≤ 2 * sent.length + pushing w) :
    mcapi_trans_queue_head sh.q = (ringSlot a, MCAPI_SUCCESS) := by
  have hbound := h.bound
  have hpush := pushing_le_one w
  have hpop := (popping_le_busy r).trans (busy_le_one r)
  rw [MCAPI_MAX_QUEUE_ENTRIES_eq] at hbound
  simp only [mcapi_trans_queue_head, h.uc, h.ac, lastCompleted_u32 _ hpop, qindexOf_u32,
    Prod.mk.injEq, true_and]
  exact (headStatus_u32 (by omega) (by omega)).mpr hmsg

end Guards

/-! ## One sender -/

section OneSender

variable {ρ : Type} [DecidableEq ρ] {ct : channel_type} {w : Option SendPc} {r : Option RecvPc}
  {s s' : Fifo Unit ρ} {l : FifoLabel Unit ρ}

/-- What the only sender has read is still so. -/
def SenderKnows (r : Option RecvPc) (s : Fifo Unit ρ) : Prop :=
  (s.spc ()).Synced s.sent.length (2 * s.received.length + popping r)

omit [DecidableEq ρ] in
theorem SenderKnows.reserve (h : FifoInv ct w r s) (hk : SenderKnows r s) : FreshReserve s l := by
  cases l with
  | stepSend x =>
    intro q hq _
    obtain ⟨m, hpc⟩ : ∃ m, s.spc () = .casReserve m q := by
      cases hpc : s.spc () <;> simp [hpc, SendPc.reserves] at hq
      exact ⟨_, by rw [hq]⟩
    rw [SenderKnows, hpc] at hk
    obtain ⟨rfl, hroom⟩ := hk
    have hlen : s.frames.length = s.sent.length := List.length_map ..
    rw [← hlen] at hroom ⊢
    exact h.core.queue_tail_of_room hroom
  | _ => trivial

theorem SenderKnows.step (h : FifoInv ct w r s) (hk : SenderKnows r s)
    (hstep : fifoStep s l = some s') (hg : FifoGuard s l s') :
    ∃ w' r', FifoInv ct w' r' s' ∧ SenderKnows r' s' := by
  obtain ⟨hcheck, hreserve, htake⟩ := hg
  cases l with
  | send x m =>
    obtain ⟨w', r', hinv⟩ := fifoStep_inv h hstep ⟨hcheck, hreserve, htake⟩
    simp only [fifoStep, Option.ite_none_right_eq_some, Option.some.injEq] at hstep
    obtain ⟨-, rfl⟩ := hstep
    refine ⟨w', r', hinv, ?_⟩
    simp only [SenderKnows, Function.update_self]
    trivial
  | recv y f =>
    simp only [fifoStep, Option.ite_none_right_eq_some, Option.some.injEq] at hstep
    obtain ⟨hidle, rfl⟩ := hstep
    have hout : (s.rpc y).inside = false := by rw [isIdle_recv hidle]; rfl
    exact ⟨w, r, ⟨h.core, h.senders, h.receivers.outside hout rfl, h.send_ok,
      ok_update h.recv_ok (by simp), h.delivered⟩, hk⟩
  | stepRecv y =>
    simp only [fifoStep, Option.some.injEq] at hstep
    subst hstep
    obtain ⟨r', hinv, hmono⟩ := stepRecv_inv h htake rfl
    exact ⟨w, r', hinv, SendPc.Synced.mono hk hmono⟩
  | stepSend x =>
    simp only [fifoStep, Option.some.injEq] at hstep
    subst hstep
    obtain ⟨w', hinv, -⟩ := stepSend_inv h hcheck hreserve rfl
    refine ⟨w', r, hinv, ?_⟩
    simp only [SenderKnows, Function.update_self]
    by_cases hin : (s.spc ()).inside = true
    · -- inside the sender moves on inside, or returns
      by_cases hin' : (sendProgram s.sh (s.spc ())).2.1.inside = true
      · exact SendPc.synced_of_inside hin' _ _
      · have hw : w = some (s.spc ()) := h.senders.of_inside hin
        have hcore := h.core
        rw [hw] at hcore
        have hnext := hcore.sender_step
        generalize sendProgram s.sh (s.spc ()) = next at hnext hin' ⊢
        cases hnext with
        | stays inv => exact absurd (inv.sender _ rfl).1.inside.1 hin'
        | leaves inv => trivial
        | returns inv => trivial
    · have hin' : (s.spc ()).inside = false := by simpa using hin
      have hlen : s.frames.length = s.sent.length := List.length_map ..
      -- outside nothing is completed
      have hdone : (sendProgram s.sh (s.spc ())).2.2 = none := by
        rcases send_outside hin' (h.send_ok ()) (fun m q hm => hcheck q (by rw [hm]; rfl)) with
          ⟨p', hp', -⟩ | ⟨m, q, hpc, hfree⟩
        · rw [hp']
        · simp [hpc, sendProgram, Shared.casState, hfree]
      have hsync := h.core.send_synced (q := (sendProgram s.sh (s.spc ())).2.1)
        (hlen ▸ hk) hin' rfl
      rw [hlen] at hsync
      simpa [hdone] using hsync

end OneSender

/-! ## One receiver -/

section OneReceiver

variable {σ : Type} [DecidableEq σ] {ct : channel_type} {w : Option SendPc} {r : Option RecvPc}
  {s s' : Fifo σ Unit} {l : FifoLabel σ Unit}

/-- What the only receiver has read is still so. -/
def ReceiverKnows (w : Option SendPc) (s : Fifo σ Unit) : Prop :=
  (s.rpc ()).Synced s.received.length (2 * s.sent.length + pushing w)

omit [DecidableEq σ] in
theorem ReceiverKnows.take (h : FifoInv ct w r s) (hk : ReceiverKnows w s) : FreshTake s l := by
  cases l with
  | stepRecv y =>
    intro q hq
    obtain ⟨f, hpc⟩ : ∃ f, s.rpc () = .casReceived f q := by
      cases hpc : s.rpc () <;> simp [hpc, RecvPc.takes] at hq
      exact ⟨_, by rw [hq]⟩
    rw [ReceiverKnows, hpc] at hk
    obtain ⟨rfl, hmsg⟩ := hk
    have hlen : s.frames.length = s.sent.length := List.length_map ..
    rw [← hlen] at hmsg
    refine ⟨h.core.queue_head_of_message hmsg, ?_⟩
    intro y'
    rw [show s.rpc y' = .casReceived f _ from hpc]
    rfl
  | _ => trivial

theorem ReceiverKnows.step (h : FifoInv ct w r s) (hk : ReceiverKnows w s)
    (hstep : fifoStep s l = some s') (hg : FifoGuard s l s') :
    ∃ w' r', FifoInv ct w' r' s' ∧ ReceiverKnows w' s' := by
  obtain ⟨hcheck, hreserve, htake⟩ := hg
  cases l with
  | recv y f =>
    obtain ⟨w', r', hinv⟩ := fifoStep_inv h hstep ⟨hcheck, hreserve, htake⟩
    simp only [fifoStep, Option.ite_none_right_eq_some, Option.some.injEq] at hstep
    obtain ⟨-, rfl⟩ := hstep
    refine ⟨w', r', hinv, ?_⟩
    simp only [ReceiverKnows, Function.update_self]
    trivial
  | send x m =>
    simp only [fifoStep, Option.ite_none_right_eq_some, Option.some.injEq] at hstep
    obtain ⟨hidle, rfl⟩ := hstep
    have hout : (s.spc x).inside = false := by rw [isIdle_send hidle]; rfl
    exact ⟨w, r, ⟨h.core, h.senders.outside hout rfl, h.receivers, ok_update h.send_ok (by simp),
      h.recv_ok, h.delivered⟩, hk⟩
  | stepSend x =>
    simp only [fifoStep, Option.some.injEq] at hstep
    subst hstep
    obtain ⟨w', hinv, hmono⟩ := stepSend_inv h hcheck hreserve rfl
    exact ⟨w', r, hinv, RecvPc.Synced.mono hk hmono⟩
  | stepRecv y =>
    simp only [fifoStep, Option.some.injEq] at hstep
    subst hstep
    obtain ⟨r', hinv, -⟩ := stepRecv_inv h htake rfl
    refine ⟨w, r', hinv, ?_⟩
    simp only [ReceiverKnows, Function.update_self]
    by_cases hin : (s.rpc ()).inside = true
    · -- inside the receiver moves on inside, or returns
      by_cases hin' : (recvProgram s.sh (s.rpc ())).2.1.inside = true
      · exact RecvPc.synced_of_inside hin' _ _
      · have hr : r = some (s.rpc ()) := h.receivers.of_inside hin
        have hcore := h.core
        rw [hr] at hcore
        have hnext := hcore.receiver_step
        generalize recvProgram s.sh (s.rpc ()) = next at hnext hin' ⊢
        cases hnext with
        | stays inv =>
          obtain ⟨e, -, hok⟩ := inv.reader _ rfl
          exact absurd hok.inside.1 hin'
        | returns head inv => trivial
    · have hin' : (s.rpc ()).inside = false := by simpa using hin
      have hlen : s.frames.length = s.sent.length := List.length_map ..
      have hr : r = none := by
        cases r with
        | none => rfl
        | some p =>
          obtain ⟨y', rfl, hy', -⟩ := h.receivers
          rw [show y' = () from rfl, hin'] at hy'
          cases hy'
      -- outside nothing is completed
      have hdone : (recvProgram s.sh (s.rpc ())).2.2 = none := by
        rcases recv_outside (s := s.sh) hin' (h.recv_ok ()) with ⟨p', hp', -⟩ | ⟨f, q, hpc⟩
        · rw [hp']
        · simp only [hpc, recvProgram]
          split <;> rfl
      have hsync := h.core.recv_synced (q := (recvProgram s.sh (s.rpc ())).2.1) hr
        (hlen ▸ hk) hin' rfl
      rw [hlen] at hsync
      simpa [hdone] using hsync

end OneReceiver

end MxApi
