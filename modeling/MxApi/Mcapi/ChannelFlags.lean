/-
Connecting, opening and closing the two endpoints of a channel concurrently
(`transport_sm_abb.c`): `mcapi_trans_connect_channel`,
`mcapi_trans_open_channel` and `mcapi_trans_close_channel` as programs of atomic
steps, run by any number of threads in any interleaving.

The flags `open` and `connected` are fields of one state word. An open or a
close reads the word and swaps it once, asserting that the swap succeeded. A
connect reads the word and exchanges it for a copy with `connected` set;
`mrapi_atomic_xchg` itself reads the word again and swaps it against what it
read, and does not look whether the swap succeeded. So each of the two reads of
a connect and its swap are steps of their own.

Two ghost fields record what the property speaks of: whether a connect has
completed, and the flag that the last open or close of each endpoint wrote.
-/
import MxApi.Lib.Run
import MxApi.Mcapi.Tables

set_option autoImplicit false

namespace MxApi

open Lib

/-! ## Programs -/

/-- Where a thread stands. In a connect `p` is the endpoint being updated and
`next` the one still to be updated. -/
inductive ChanPc
  | idle
  /-- `recv_queue.channel_type = type` -/
  | setType (type : channel_type) (p : Place) (next : Option Place)
  /-- `oldqstate = *qstate` -/
  | readQueue (type : channel_type) (p : Place) (next : Option Place)
  /-- the read in the exchange of `*qstate` -/
  | xchgQueue (type : channel_type) (p : Place) (next : Option Place) (newqstate : queue_state)
  /-- the swap in the exchange of `*qstate` -/
  | swapQueue (type : channel_type) (p : Place) (next : Option Place)
      (newqstate previous : queue_state)
  /-- `oldestate = *estate` -/
  | readState (type : channel_type) (p : Place) (next : Option Place)
  /-- the read in the exchange of `*estate` -/
  | xchgState (type : channel_type) (p : Place) (next : Option Place) (oldestate : endpoint_state)
  /-- the swap in the exchange of `*estate` -/
  | swapState (type : channel_type) (p : Place) (next : Option Place)
      (oldestate previous : endpoint_state)
  /-- an open or a close: `oldstate = *state` -/
  | readFlag (p : Place) (opened : Bool)
  /-- an open or a close: the asserted swap -/
  | casFlag (p : Place) (opened : Bool) (oldstate : endpoint_state)
  /-- an assert failed -/
  | failed
  deriving DecidableEq, Repr

/-- What a step completes. -/
inductive ChanEvent
  | connected
  | flag (p : Place) (opened : Bool)
  deriving DecidableEq, Repr

/-- The database, where each thread stands, and the ghost fields. -/
structure ChanSys (τ : Type) where
  db : mcapi_database
  pc : τ → ChanPc
  completed : Bool
  last : Place → Option Bool

inductive ChanLabel (τ : Type)
  /-- `t` calls `mcapi_trans_connect_channel` -/
  | connect (t : τ) (type : channel_type)
  /-- `t` calls `mcapi_trans_open_channel` -/
  | open_channel (t : τ) (d n e : ℕ)
  /-- `t` calls `mcapi_trans_close_channel` -/
  | close_channel (t : τ) (d n e : ℕ)
  /-- the next atomic step of `t` -/
  | step (t : τ)

/-- The first program point of a connect, which asserts that both handles
decode. -/
def mcapi_trans_connect_channel (send_endpoint receive_endpoint : ℕ) (type : channel_type) :
    ChanPc :=
  match mcapi_trans_decode_handle send_endpoint, mcapi_trans_decode_handle receive_endpoint with
  | some sp, some rp => .setType type sp (some rp)
  | _, _ => .failed

def mcapi_trans_open_channel (d n e : ℕ) : ChanPc := .readFlag (d, n, e) true

def mcapi_trans_close_channel (d n e : ℕ) : ChanPc := .readFlag (d, n, e) false

/-- One atomic step of a thread at a program point: the database it leaves,
where the thread stands then, and what it completed. -/
def chanProgram (send_endpoint receive_endpoint : ℕ) (db : mcapi_database) :
    ChanPc → mcapi_database × ChanPc × Option ChanEvent
  | .idle => (db, .idle, none)
  | .setType type p next => (db.setType p type, .readQueue type p next, none)
  | .readQueue type p next =>
    -- the old value is read, and then both of its fields are overwritten
    (db, .xchgQueue type p next
      { (db.entry p).recv_queue.state with
        send_endpt := send_endpoint, recv_endpt := receive_endpoint }, none)
  | .xchgQueue type p next newqstate =>
    (db, .swapQueue type p next newqstate (db.entry p).recv_queue.state, none)
  | .swapQueue type p next newqstate previous =>
    if (db.entry p).recv_queue.state = previous then
      (db.setQueueState p newqstate, .readState type p next, none)
    else (db, .readState type p next, none)
  | .readState type p next => (db, .xchgState type p next (db.entry p).state, none)
  | .xchgState type p next oldestate =>
    (db, .swapState type p next oldestate (db.entry p).state, none)
  | .swapState type p next oldestate previous =>
    let db' := if (db.entry p).state = previous then
        db.setState p { oldestate with connected := true }
      else db
    match next with
    | some p' => (db', .setType type p' none, none)
    | none => (db', .idle, some .connected)
  | .readFlag p opened => (db, .casFlag p opened (db.entry p).state, none)
  | .casFlag p opened oldstate =>
    if (db.entry p).state = oldstate then
      (db.setState p { oldstate with opened := opened }, .idle, some (.flag p opened))
    else (db, .failed, none)
  | .failed => (db, .failed, none)

section System

variable {τ : Type} [DecidableEq τ] (send_endpoint receive_endpoint : ℕ)

/-- The place of one of the two endpoints. -/
def IsEnd (p : Place) : Prop :=
  mcapi_trans_decode_handle send_endpoint = some p ∨
    mcapi_trans_decode_handle receive_endpoint = some p

instance (p : Place) : Decidable (IsEnd send_endpoint receive_endpoint p) := by
  unfold IsEnd; exact inferInstance

/-- Thread `t` calls a function whose first program point is `pc`. -/
def ChanSys.call (s : ChanSys τ) (t : τ) (pc : ChanPc) : Option (ChanSys τ) :=
  if s.pc t = .idle then some { s with pc := Function.update s.pc t pc } else none

/-- The state after thread `t` took its next step. -/
def ChanSys.next (s : ChanSys τ) (t : τ) : ChanSys τ :=
  let next := chanProgram send_endpoint receive_endpoint s.db (s.pc t)
  { db := next.1
    pc := Function.update s.pc t next.2.1
    completed := s.completed || next.2.2 = some .connected
    last := match next.2.2 with
      | some (.flag p opened) => Function.update s.last p (some opened)
      | _ => s.last }

def chanStep (s : ChanSys τ) : ChanLabel τ → Option (ChanSys τ)
  | .connect t type =>
    s.call t (mcapi_trans_connect_channel send_endpoint receive_endpoint type)
  | .open_channel t d n e =>
    if IsEnd send_endpoint receive_endpoint (d, n, e) then
      s.call t (mcapi_trans_open_channel d n e)
    else none
  | .close_channel t d n e =>
    if IsEnd send_endpoint receive_endpoint (d, n, e) then
      s.call t (mcapi_trans_close_channel d n e)
    else none
  | .step t =>
    if s.pc t = .idle ∨ s.pc t = .failed then none
    else some (s.next send_endpoint receive_endpoint t)

/-- All threads outside the three functions, on any database. -/
def ChanSys.init (τ : Type) (db : mcapi_database) : ChanSys τ :=
  ⟨db, fun _ => .idle, false, fun _ => none⟩

/-- No call is in progress. -/
def ChanSys.quiet (s : ChanSys τ) : Prop := ∀ t, s.pc t = .idle

/-- The state word at a place. -/
def ChanSys.word (s : ChanSys τ) (p : Place) : endpoint_state := (s.db.entry p).state

end System

/-! ## The property and the guard -/

/-- No assert fails and no update is lost on the channel from `sp` to `rp`. -/
structure ChannelFlagsOk {τ : Type} (sp rp : Place) (s : ChanSys τ) : Prop where
  no_assert_fails : ∀ t, s.pc t ≠ .failed
  connected : s.quiet → s.completed = true →
    (s.word sp).connected = true ∧ (s.word rp).connected = true
  opened : s.quiet → ∀ p opened, s.last p = some opened → (s.word p).opened = opened

/-- The branches that lose an update are not taken: the swap of an open or close
finds the word it read; the swap of a connect finds the flag `open` as the
connect read it, or, where it does not succeed, `connected` set already. -/
def SwapOk (db : mcapi_database) : ChanPc → Prop
  | .swapState _ p _ oldestate previous =>
    if (db.entry p).state = previous then (db.entry p).state.opened = oldestate.opened
    else (db.entry p).state.connected = true
  | .casFlag p _ oldstate => (db.entry p).state = oldstate
  | _ => True

instance (db : mcapi_database) (pc : ChanPc) : Decidable (SwapOk db pc) := by
  cases pc <;> (unfold SwapOk; exact inferInstance)

/-- The guard of the runs that meet the condition. -/
def NoLostUpdate {τ : Type} (s : ChanSys τ) : ChanLabel τ → ChanSys τ → Prop
  | .step t, _ => SwapOk s.db (s.pc t)
  | _, _ => True

instance {τ : Type} (s : ChanSys τ) (a : ChanLabel τ) (s' : ChanSys τ) :
    Decidable (NoLostUpdate s a s') := by
  cases a <;> (unfold NoLostUpdate; exact inferInstance)

/-! ## One step -/

namespace ChanPc

/-- The endpoint a connect is updating and the one it still has to update. -/
def updating : ChanPc → Option (Place × Option Place)
  | setType _ p next | readQueue _ p next | xchgQueue _ p next _ | swapQueue _ p next _ _
  | readState _ p next | xchgState _ p next _ | swapState _ p next _ _ => some (p, next)
  | _ => none

/-- The next step may write a state word. -/
def writes : ChanPc → Bool
  | swapState .. | casFlag .. => true
  | _ => false

end ChanPc

section Step

variable {send_endpoint receive_endpoint : ℕ} {db : mcapi_database} {pc : ChanPc}

/-- Everything but the two swaps leaves the state words, and the place of a
connect, as they are. -/
theorem chanProgram_of_not_writes (h : pc.writes = false) (hfail : pc ≠ .failed) :
    let next := chanProgram send_endpoint receive_endpoint db pc
    (∀ q, (next.1.entry q).state = (db.entry q).state) ∧
      next.2.1.updating = pc.updating ∧ next.2.1 ≠ .failed ∧ next.2.2 = none := by
  cases pc with
  | failed => exact absurd rfl hfail
  | swapState | casFlag => cases h
  | swapQueue type p next newqstate previous =>
    by_cases hw : (db.entry p).recv_queue.state = previous
    · rw [chanProgram, if_pos hw]
      exact ⟨fun q => db.state_setQueueState p q newqstate, rfl, nofun, rfl⟩
    · rw [chanProgram, if_neg hw]
      exact ⟨fun _ => rfl, rfl, nofun, rfl⟩
  | setType type p next => exact ⟨fun q => db.state_setType p q type, rfl, nofun, rfl⟩
  | _ => exact ⟨fun _ => rfl, rfl, nofun, rfl⟩

example : ChanPc.idle.writes = false := by decide +kernel

/-- The word a connect's swap leaves at a place. -/
theorem state_swapState {type : channel_type} {p : Place} {next : Option Place}
    {oldestate previous : endpoint_state} (q : Place) :
    ((chanProgram send_endpoint receive_endpoint db
        (.swapState type p next oldestate previous)).1.entry q).state =
      if q = p ∧ (db.entry p).state = previous then { oldestate with connected := true }
      else (db.entry q).state := by
  have hword : ((if (db.entry p).state = previous then
      db.setState p { oldestate with connected := true } else db).entry q).state =
      if q = p ∧ (db.entry p).state = previous then { oldestate with connected := true }
      else (db.entry q).state := by
    by_cases hw : (db.entry p).state = previous
    · rw [if_pos hw, mcapi_database.state_setState]
      simp only [hw, and_true]
    · rw [if_neg hw, if_neg fun h => hw h.2]
  cases next <;> exact hword

/-- The word a successful open or close leaves at a place. -/
theorem state_casFlag {p : Place} {opened : Bool} {oldstate : endpoint_state}
    (hw : (db.entry p).state = oldstate) (q : Place) :
    ((chanProgram send_endpoint receive_endpoint db (.casFlag p opened oldstate)).1.entry q).state
      = if q = p then { oldstate with opened := opened } else (db.entry q).state := by
  simp only [chanProgram, if_pos hw]
  exact db.state_setState p q _

/-- `connected` is never cleared. -/
theorem connected_chanProgram {q : Place} (h : (db.entry q).state.connected = true) :
    ((chanProgram send_endpoint receive_endpoint db pc).1.entry q).state.connected = true := by
  by_cases hwr : pc.writes = false
  · by_cases hfail : pc = .failed
    · rw [hfail]
      exact h
    · rw [(chanProgram_of_not_writes hwr hfail).1]
      exact h
  cases pc with
  | swapState type p next oldestate previous =>
    rw [state_swapState]
    split
    · rfl
    · exact h
  | casFlag p opened oldstate =>
    by_cases hw : (db.entry p).state = oldstate
    · rw [state_casFlag hw]
      split
      · rename_i hq
        rw [← hw, ← hq]
        exact h
      · exact h
    · simp only [chanProgram, if_neg hw]
      exact h
  | _ => exact absurd rfl hwr

/-- A connect's swap that the guard admits leaves `connected` set. -/
theorem connected_swapState {type : channel_type} {p : Place} {next : Option Place}
    {oldestate previous : endpoint_state} (hg : SwapOk db (.swapState type p next oldestate previous)) :
    ((chanProgram send_endpoint receive_endpoint db
        (.swapState type p next oldestate previous)).1.entry p).state.connected = true := by
  rw [state_swapState]
  by_cases hw : (db.entry p).state = previous
  · rw [if_pos ⟨rfl, hw⟩]
  · rw [if_neg fun h => hw h.2]
    simpa only [SwapOk, if_neg hw] using hg

/-- A connect's swap that the guard admits keeps the flags `open`. -/
theorem opened_swapState {type : channel_type} {p : Place} {next : Option Place}
    {oldestate previous : endpoint_state} (hg : SwapOk db (.swapState type p next oldestate previous))
    (q : Place) :
    ((chanProgram send_endpoint receive_endpoint db
        (.swapState type p next oldestate previous)).1.entry q).state.opened =
      (db.entry q).state.opened := by
  rw [state_swapState]
  split
  · rename_i h
    obtain ⟨rfl, hw⟩ := h
    simp only [SwapOk, if_pos hw] at hg
    exact hg.symm
  · rfl

end Step

/-! ## The invariant -/

section Invariant

variable {τ : Type} {sp rp : Place} {s : ChanSys τ}

/-- What holds at every point of a guarded run. A connect that has come to the
receive endpoint has set `connected` on the send endpoint. -/
structure ChanInv (sp rp : Place) (s : ChanSys τ) : Prop where
  no_fail : ∀ t, s.pc t ≠ .failed
  at_end : ∀ t p next, (s.pc t).updating = some (p, next) →
    p = sp ∧ next = some rp ∨ p = rp ∧ next = none ∧ (s.word sp).connected = true
  completed : s.completed = true → (s.word sp).connected = true ∧ (s.word rp).connected = true
  last : ∀ p opened, s.last p = some opened → (s.word p).opened = opened

/-- The invariant gives the property. -/
theorem ChanInv.ok (h : ChanInv sp rp s) : ChannelFlagsOk sp rp s where
  no_assert_fails := h.no_fail
  connected := fun _ => h.completed
  opened := fun _ => h.last

theorem chanInv_init (db : mcapi_database) : ChanInv sp rp (ChanSys.init τ db) where
  no_fail := nofun
  at_end := nofun
  completed := nofun
  last := nofun

variable [DecidableEq τ] {send_endpoint receive_endpoint : ℕ}

/-- Entering a function keeps the invariant if a connect starts at `sp`. -/
theorem ChanInv.call (h : ChanInv sp rp s) {t : τ} {c : ChanPc} {s' : ChanSys τ}
    (hpc : c ≠ .failed) (hup : ∀ p next, c.updating = some (p, next) → p = sp ∧ next = some rp)
    (hcall : s.call t c = some s') : ChanInv sp rp s' := by
  rw [ChanSys.call] at hcall
  split at hcall
  · obtain rfl := Option.some.inj hcall
    refine ⟨fun t' => ?_, fun t' p next => ?_, h.completed, h.last⟩
    · by_cases ht : t' = t
      · simpa only [ht, Function.update_self] using hpc
      · simpa only [Function.update_of_ne ht] using h.no_fail t'
    · by_cases ht : t' = t
      · simp only [ht, Function.update_self]
        exact fun hp => .inl (hup p next hp)
      · simp only [Function.update_of_ne ht]
        exact h.at_end t' p next
  · cases hcall

theorem chanStep_step {t : τ} {s' : ChanSys τ}
    (h : chanStep send_endpoint receive_endpoint s (.step t) = some s') :
    s.pc t ≠ .failed ∧ s' = s.next send_endpoint receive_endpoint t := by
  rw [chanStep] at h
  split at h
  · cases h
  · rename_i hne
    exact ⟨fun hf => hne (.inr hf), (Option.some.inj h).symm⟩

/-- What a step has to establish: where the thread stands then, and what it
completed. That `connected` stays set needs no proof here. -/
theorem ChanInv.next (h : ChanInv sp rp s) {t : τ} {s' : ChanSys τ}
    (hs' : s' = s.next send_endpoint receive_endpoint t)
    (hfail : s'.pc t ≠ .failed)
    (hat : ∀ p next, (s'.pc t).updating = some (p, next) →
      p = sp ∧ next = some rp ∨ p = rp ∧ next = none ∧ (s'.word sp).connected = true)
    (hcompleted : s.completed = false → s'.completed = true →
      (s'.word sp).connected = true ∧ (s'.word rp).connected = true)
    (hlast : ∀ p opened, s'.last p = some opened → (s'.word p).opened = opened) :
    ChanInv sp rp s' := by
  have hother : ∀ t', t' ≠ t → s'.pc t' = s.pc t' := by
    intro t' ht
    rw [hs']
    exact Function.update_of_ne ht ..
  have hconn : ∀ q, (s.word q).connected = true → (s'.word q).connected = true := by
    intro q hq
    rw [hs']
    exact connected_chanProgram hq
  refine ⟨fun t' => ?_, fun t' p next hp => ?_, fun hc => ?_, hlast⟩
  · by_cases ht : t' = t
    · rw [ht]
      exact hfail
    · rw [hother t' ht]
      exact h.no_fail t'
  · by_cases ht : t' = t
    · rw [ht] at hp
      exact hat p next hp
    · rw [hother t' ht] at hp
      exact (h.at_end t' p next hp).imp_right fun h₂ => ⟨h₂.1, h₂.2.1, hconn sp h₂.2.2⟩
  · cases hsc : s.completed with
    | false => exact hcompleted hsc hc
    | true => exact ⟨hconn sp (h.completed hsc).1, hconn rp (h.completed hsc).2⟩

/-- One atomic step of a thread keeps the invariant under the guard. -/
theorem ChanInv.step (h : ChanInv sp rp s) {t : τ} {s' : ChanSys τ}
    (hg : SwapOk s.db (s.pc t))
    (hstep : chanStep send_endpoint receive_endpoint s (.step t) = some s') :
    ChanInv sp rp s' := by
  obtain ⟨hfail, hs'⟩ := chanStep_step hstep
  have hpc : s'.pc t = (chanProgram send_endpoint receive_endpoint s.db (s.pc t)).2.1 := by
    rw [hs']
    exact Function.update_self ..
  by_cases hwr : (s.pc t).writes = false
  · -- no state word changes and nothing is completed
    obtain ⟨hword, hup, hnext, hevent⟩ := @chanProgram_of_not_writes
      send_endpoint receive_endpoint s.db (s.pc t) hwr hfail
    have hw : ∀ q, s'.word q = s.word q := by
      intro q
      rw [hs']
      exact hword q
    have hc : s'.completed = s.completed := by
      simp [hs', ChanSys.next, hevent]
    have hl : s'.last = s.last := by
      simp [hs', ChanSys.next, hevent]
    refine h.next hs' (hpc ▸ hnext) ?_ ?_ ?_
    · intro p next hp
      rw [hpc, hup] at hp
      rw [hw]
      exact h.at_end t p next hp
    · intro h₁ h₂
      rw [hc, h₁] at h₂
      cases h₂
    · intro p opened hp
      rw [hl] at hp
      rw [hw]
      exact h.last p opened hp
  cases hpt : s.pc t with
  | swapState type p next oldestate previous =>
    rw [hpt] at hg hpc
    have hset : (s'.word p).connected = true := by
      rw [hs', ChanSys.word, ChanSys.next, hpt]
      exact connected_swapState hg
    have hopened : ∀ q, (s'.word q).opened = (s.word q).opened := by
      intro q
      rw [hs', ChanSys.word, ChanSys.next, hpt]
      exact opened_swapState hg q
    have hlast : ∀ q opened, s'.last q = some opened → (s'.word q).opened = opened := by
      intro q opened hq
      rw [hopened]
      apply h.last q opened
      rw [hs', ChanSys.next, hpt] at hq
      cases next <;> exact hq
    have hplace := h.at_end t p next (by rw [hpt]; rfl)
    cases next with
    | some p' =>
      -- the send endpoint is done, the receive endpoint is next
      obtain ⟨rfl, hp'⟩ | ⟨-, hnone, -⟩ := hplace
      · cases hp'
        refine h.next hs' (by rw [hpc]; nofun) ?_ ?_ hlast
        · intro q next hq
          rw [hpc] at hq
          cases hq
          exact .inr ⟨rfl, rfl, hset⟩
        · intro h₁ h₂
          rw [hs', ChanSys.next, hpt] at h₂
          simp [chanProgram, h₁] at h₂
      · cases hnone
    | none =>
      obtain ⟨-, hsome⟩ | ⟨rfl, -, hsp⟩ := hplace
      · cases hsome
      · have hsp' : (s'.word sp).connected = true := by
          rw [hs']
          exact connected_chanProgram hsp
        exact h.next hs' (by rw [hpc]; nofun) (by rw [hpc]; nofun) (fun _ _ => ⟨hsp', hset⟩) hlast
  | casFlag p opened oldstate =>
    rw [hpt] at hg hpc
    have hw : (s.db.entry p).state = oldstate := hg
    have hprog : chanProgram send_endpoint receive_endpoint s.db (.casFlag p opened oldstate) =
        (s.db.setState p { oldstate with opened := opened }, .idle, some (.flag p opened)) := by
      rw [chanProgram, if_pos hw]
    rw [hprog] at hpc
    refine h.next hs' (by rw [hpc]; nofun) (by rw [hpc]; nofun) ?_ ?_
    · intro h₁ h₂
      rw [hs', ChanSys.next, hpt, hprog] at h₂
      simp [h₁] at h₂
    · intro q o hq
      rw [hs', ChanSys.next, hpt, hprog] at hq
      have hword : s'.word q =
          if q = p then { oldstate with opened := opened } else s.word q := by
        rw [hs', ChanSys.word, ChanSys.next, hpt]
        exact state_casFlag hw q
      by_cases hqp : q = p
      · rw [hword, if_pos hqp]
        rw [hqp] at hq
        simpa using hq
      · rw [hword, if_neg hqp]
        apply h.last q o
        simpa [Function.update_of_ne hqp] using hq
  | _ =>
    rw [hpt] at hwr
    exact absurd rfl hwr

theorem run_chanInv (hsend : mcapi_trans_decode_handle send_endpoint = some sp)
    (hrecv : mcapi_trans_decode_handle receive_endpoint = some rp) {db : mcapi_database}
    (hrun : Run (chanStep send_endpoint receive_endpoint) NoLostUpdate (ChanSys.init τ db) s) :
    ChanInv sp rp s := by
  refine Run.invariant ?_ hrun (chanInv_init db)
  intro s a s' h hstep hg
  cases a with
  | connect t type =>
    rw [chanStep, mcapi_trans_connect_channel, hsend, hrecv] at hstep
    refine h.call (c := .setType type sp (some rp)) nofun ?_ hstep
    intro p next hp
    cases hp
    exact ⟨rfl, rfl⟩
  | open_channel t d n e =>
    rw [chanStep] at hstep
    split at hstep
    · exact h.call (c := .readFlag (d, n, e) true) nofun nofun hstep
    · cases hstep
  | close_channel t d n e =>
    rw [chanStep] at hstep
    split at hstep
    · exact h.call (c := .readFlag (d, n, e) false) nofun nofun hstep
    · cases hstep
  | step t => exact h.step hg hstep

end Invariant

/-! ## The property -/

section Contract

variable {τ : Type} [DecidableEq τ]

end Contract

/-- `false` connects endpoint `0` to endpoint `1`, and `true` opens endpoint `1`
between the connect's two exchanges. -/
def connectThenOpen : List (ChanLabel Bool) :=
  .connect false .MCAPI_PKT_CHAN :: List.replicate 7 (.step false) ++
    .open_channel true 0 0 1 :: List.replicate 2 (.step true) ++ List.replicate 7 (.step false)

/-- `true` reads the state word to open endpoint `0`, and `false` connects the
channel before the swap. -/
def openAcrossConnect : List (ChanLabel Bool) :=
  [.open_channel true 0 0 0, .step true] ++
    .connect false .MCAPI_PKT_CHAN :: List.replicate 14 (.step false) ++ [.step true]

theorem openAcrossConnect_fails :
    (exec (chanStep 0 1) (fun _ _ _ => true) (ChanSys.init Bool .zero) openAcrossConnect).any
      (fun s => s.pc true == .failed) = true := by
  decide

end MxApi
