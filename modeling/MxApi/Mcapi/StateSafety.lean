/-
State message exchange over whole runs.

One writer and any number of readers: a receive that returns `TRUE` has
delivered what one completed send wrote, and nothing older than the last send
completed when it began, in every run whose window tests mean what they say
([`ConfirmsInWindow`]). Any number of writers: as long as their sends do not
overlap ([`SendsAlone`]), no assert fails, the counter counts the sends, and
each entry keeps the message of its latest send. Both rest on one invariant.
-/
import MxApi.Mcapi.StateReader

set_option autoImplicit false

namespace MxApi

open Lib channel_type mcapi_buffer_state mcapi_status_t

section System

variable {ω ρ : Type} [DecidableEq ω] [DecidableEq ρ] {ct : channel_type} {K : ℕ}
  {s s' : StateSys ω ρ}

/-! ## What the steps of a run are asked for -/

/-- A send steps the counter first while no other send is in progress. -/
def SendsAlone (s : StateSys ω ρ) : StateLabel ω ρ → Prop
  | .stepWrite x => (s.wpc x).starts ≠ none → ∀ x', (s.wpc x').inside = false
  | _ => True

/-- A receive whose window test succeeds is in the window. -/
def ReadPc.Confirms (K now update_counter : ℕ) : ReadPc → Prop
  | .confirm _ g counter _ _ =>
    subU32 update_counter (counter / 2 * 2) ≤ 2 * K - 2 → InWindow K g.seen now
  | _ => True

instance (K seen now : ℕ) : Decidable (InWindow K seen now) :=
  inferInstanceAs (Decidable (_ ∧ (_ ∨ _ ∧ _)))

instance (K now update_counter : ℕ) : ∀ p : ReadPc, Decidable (p.Confirms K now update_counter)
  | .confirm _ g counter _ _ =>
    inferInstanceAs (Decidable (subU32 update_counter (counter / 2 * 2) ≤ 2 * K - 2 →
      InWindow K g.seen now))
  | .idle | .readCounter .. | .readState .. | .readBuffIndex .. | .casReceived ..
  | .recvBuffIndex .. | .setParent .. | .readSize .. | .copy .. | .freeMarker _ | .freeRead _
  | .freeCas .. | .freeParent _ | .freeEntry .. | .failed => isTrue trivial

def ConfirmsInWindow (K : ℕ) (s : StateSys ω ρ) : StateLabel ω ρ → Prop
  | .stepRead y => (s.rpc y).Confirms K s.now s.sh.q.update_counter
  | _ => True

instance (K : ℕ) (s : StateSys ω ρ) : ∀ a, Decidable (ConfirmsInWindow K s a)
  | .stepRead y =>
    inferInstanceAs (Decidable ((s.rpc y).Confirms K s.now s.sh.q.update_counter))
  | .send .. | .recv .. | .free .. | .stepWrite _ => isTrue trivial

/-! ## The invariant -/

theorem StateInv.init (ω ρ : Type) (ct : channel_type) (K : ℕ) (pool : ℕ → buffer_entry) :
    StateInv ct K (StateSys.init ω ρ ct pool) where
  core := ⟨none, fun _ => rfl, {
    channel := rfl
    length := rfl
    uc := rfl
    index := fun _ h => absurd rfl h
    exclusive := fun _ _ _ h _ => absurd rfl h.ne_zero
    given := fun _ h => absurd rfl h
    ended := nofun
    writer := nofun }⟩
  writers := nofun
  readers := fun _ => trivial
  held := rfl

/-- A step of the writer `x` that is inside leaves what the readers know. -/
theorem StateInv.step_inside (hct : ct ≠ MCAPI_PKT_CHAN) (h : StateInv ct K s) {x : ω}
    (hx : (s.wpc x).inside = true) (hmove : stateStep K s (.stepWrite x) = some s') :
    StateInv ct K s' := by
  obtain ⟨w, hactive, hcore⟩ := h.core
  cases hactive.of_inside hx
  have hstarts : (s.wpc x).starts = none := by
    cases hpc : s.wpc x <;> rw [hpc] at hx <;> first | rfl | cases hx
  obtain ⟨hothers, hwrites⟩ := hcore.step hct
  simp only [stateStep, Option.some.injEq, hstarts] at hmove
  generalize writeProgram K s.sh (s.wpc x) = next at hothers hwrites hmove
  -- the latest ended sends are in other entries than the one in progress
  have hel : ∀ n, n < s.results.length → Latest K s.calls.length n →
      next.1.q.elements (stateSlot K n) = s.sh.q.elements (stateSlot K n) :=
    fun n hn hlatest => hothers _ (hcore.slot_ne hn hlatest)
  obtain ⟨sh', p', result⟩ := next
  rcases hwrites with ⟨rfl, hinside, hcore'⟩ | ⟨b, rfl, rfl, hcore'⟩
  · subst hmove
    refine ⟨⟨some p', hactive.stay (.inl hx) hinside, by simpa using hcore'⟩, ?_, ?_, h.held⟩
    · intro x' hfailed
      by_cases hxx : x' = x
      · subst hxx
        have hp' : p' = .failed := by simpa using hfailed
        rw [hp'] at hinside
        cases hinside
      · exact h.writers x' (by simpa [Function.update_of_ne hxx] using hfailed)
    · intro y
      exact (h.readers y).mono _ _ (by simpa using hel)
  · subst hmove
    refine ⟨⟨none, hactive.leave hx rfl, by simpa using hcore'⟩, ?_, ?_, h.held⟩
    · intro x' hfailed
      by_cases hxx : x' = x
      · subst hxx
        simp at hfailed
      · exact h.writers x' (by simpa [Function.update_of_ne hxx] using hfailed)
    · intro y
      exact (h.readers y).mono _ _ (by simpa using hel)

/-- A send starts. -/
theorem StateInv.step_start (h : StateInv ct K s) {x : ω} {m : Msg}
    (hx : s.wpc x = .incCounter m) (halone : ∀ x', (s.wpc x').inside = false)
    (hmove : stateStep K s (.stepWrite x) = some s') : StateInv ct K s' := by
  obtain ⟨w, hactive, hcore⟩ := h.core
  cases hactive.eq (show Active WritePc.inside s.wpc none from halone)
  simp only [stateStep, Option.some.injEq, hx] at hmove
  subst hmove
  refine ⟨⟨_, hactive.stay (.inr rfl) ?_, ?_⟩, ?_, ?_, h.held⟩
  rotate_left
  · simpa [writeProgram, WritePc.starts] using hcore.start m
  · intro x' hfailed
    by_cases hxx : x' = x
    · subst hxx
      simp [writeProgram] at hfailed
    · exact h.writers x' (by simpa [Function.update_of_ne hxx] using hfailed)
  · intro y
    exact (h.readers y).mono _ _ fun _ _ _ => rfl
  · rfl

/-- A step of a reader. -/
theorem StateInv.step_read (hct : ct ≠ MCAPI_PKT_CHAN) (h : StateInv ct K s) {y : ρ}
    (hmove : stateStep K s (.stepRead y) = some s') : StateInv ct K s' := by
  obtain ⟨w, hactive, hcore⟩ := h.core
  have hread := hcore.read hct (h.readers y)
  simp only [stateStep, Option.some.injEq, StateSys.now] at hmove
  generalize readProgram K (s.calls.length + s.results.length) s.sh (s.rpc y) = next
    at hread hmove
  subst hmove
  refine ⟨⟨w, hactive, hcore.sameContent hread.queue hread.content⟩, h.writers, ?_, ?_⟩
  · intro y'
    simp only [hread.queue]
    by_cases hy : y' = y
    · rw [hy, Function.update_self]
      exact hread.ok
    · rw [Function.update_of_ne hy]
      exact h.readers y'
  · simp only [h.held, List.nil_append]
    cases hr : next.2.2 with
    | none => rfl
    | some r =>
      have hunpacked := hread.unpacked r hr
      cases hpayload : r.delivery.payload with
      | packet i => exact absurd hpayload (hunpacked i)
      | message data => simp [hpayload]
      | scalar value => simp [hpayload]

/-- **Every step keeps the invariant**, if the sends do not overlap. -/
theorem StateInv.step (hct : ct ≠ MCAPI_PKT_CHAN) (h : StateInv ct K s) {a : StateLabel ω ρ}
    (hmove : stateStep K s a = some s') (halone : SendsAlone s a) : StateInv ct K s' := by
  cases a with
  | send x m =>
    simp only [stateStep, Option.ite_none_right_eq_some, Option.some.injEq] at hmove
    obtain ⟨hidle, rfl⟩ := hmove
    have hx : s.wpc x = .idle := by
      cases hpc : s.wpc x <;> rw [hpc] at hidle <;> first | rfl | cases hidle
    obtain ⟨w, hactive, hcore⟩ := h.core
    refine ⟨⟨w, hactive.outside (by rw [hx]; rfl) rfl, hcore⟩, ?_, h.readers, h.held⟩
    intro x' hfailed
    by_cases hxx : x' = x
    · subst hxx
      simp at hfailed
    · exact h.writers x' (by simpa [Function.update_of_ne hxx] using hfailed)
  | recv y f =>
    simp only [stateStep, Option.ite_none_right_eq_some, Option.some.injEq] at hmove
    obtain ⟨-, rfl⟩ := hmove
    refine ⟨h.core, h.writers, ?_, h.held⟩
    intro y'
    by_cases hy : y' = y
    · subst hy
      simp only [Function.update_self]
      exact Nat.le_refl _
    · simp only [Function.update_of_ne hy]
      exact h.readers y'
  | free y i =>
    -- without packets nobody has one to free
    simp only [stateStep, h.held, List.not_mem_nil, and_false, if_false] at hmove
    cases hmove
  | stepWrite x =>
    by_cases hx : (s.wpc x).inside = true
    · exact h.step_inside hct hx hmove
    · cases hpc : s.wpc x with
      | incCounter m =>
        refine h.step_start hpc (halone ?_) hmove
        rw [hpc]
        nofun
      | idle =>
        simp only [stateStep, Option.some.injEq, hpc, writeProgram, WritePc.starts,
          Option.toList_none, List.append_nil] at hmove
        rw [← hpc, Function.update_eq_self] at hmove
        subst hmove
        exact h
      | failed => exact absurd hpc (h.writers x)
      | _ => exact absurd (by rw [hpc]; rfl) hx
  | stepRead y => exact h.step_read hct hmove

/-- A message of one byte. -/
def Msg.oneByte : Msg := ⟨fun _ => 7, 1, 0, one_le_max_msg_size⟩

/-! ## Many writers -/

/-- What is promised of the writers: no assert fails, between sends the counter is
even and counts them, and each entry keeps the message of its latest send that
returned `TRUE`, in the run and at the lengths the copies were made with. -/
structure WritersOk (ct : channel_type) (K : ℕ) (s : StateSys ω ρ) : Prop where
  no_assert_fails : ∀ x, s.wpc x ≠ .failed
  counted : (∀ x, (s.wpc x).inside = false) →
    s.calls.length = s.results.length ∧ s.sh.q.update_counter = u32 (2 * s.calls.length)
  kept : ∀ n m, s.calls[n]? = some m → s.results[n]? = some true → Latest K s.calls.length n →
    ∃ i, HasBuffer (s.sh.q.elements (stateSlot K n)) i ∧ Written ct m (s.sh.buffers i)

omit [DecidableEq ω] [DecidableEq ρ] in
theorem StateInv.writersOk (h : StateInv ct K s) : WritersOk ct K s where
  no_assert_fails := h.writers
  counted := by
    intro hnone
    obtain ⟨w, hactive, hcore⟩ := h.core
    cases hactive.eq (show Active WritePc.inside s.wpc none from hnone)
    have hlength : s.calls.length = s.results.length := hcore.length
    refine ⟨hlength, ?_⟩
    rw [hcore.uc, ← hlength, Nat.two_mul]
  kept := by
    intro n m hm hresult hlatest
    obtain ⟨w, -, hcore⟩ := h.core
    exact hcore.ended n m true hm hresult hlatest

/-- **Many writers.** At every point of every run in which sends do not overlap no
assert has failed, and the counter and the entries are as promised. Nothing is
asked of the readers. -/
theorem state_writers_ok (hct : ct ≠ MCAPI_PKT_CHAN) (pool : ℕ → buffer_entry)
    (hrun : Run (stateStep K) (fun s a _ => SendsAlone s a) (StateSys.init ω ρ ct pool) s) :
    WritersOk ct K s := by
  have hinv : StateInv ct K s :=
    hrun.invariant (fun _ _ _ h hmove halone => h.step hct hmove halone) (.init ω ρ ct K pool)
  exact hinv.writersOk

/-- Two clients send, one after the other. -/
theorem state_writers_ok_turns :
    ∃ s : StateSys Bool Empty, s.results = [true, true] ∧ WritersOk MCAPI_NO_CHAN 2 s := by
  have hexec : (exec (stateStep 2)
      (fun s a _ => match a with
        | .stepWrite _ =>
          decide ((s.wpc false).inside = false ∧ (s.wpc true).inside = false) ||
            decide ((s.wpc false).starts.isNone ∧ (s.wpc true).starts.isNone)
        | _ => true)
      (StateSys.init Bool Empty MCAPI_NO_CHAN fun _ => .zero)
      (StateLabel.send false .oneByte :: List.replicate 13 (StateLabel.stepWrite false) ++
        StateLabel.send true .oneByte :: List.replicate 14 (StateLabel.stepWrite true))).any
        (fun s => s.results == [true, true]) = true := by
    decide +kernel
  obtain ⟨s, hrun, hs⟩ := exec_run_of_any hexec
  refine ⟨s, by simpa using hs, state_writers_ok (by decide) _ (hrun.mono ?_)⟩
  intro s a _ hg
  cases a with
  | stepWrite x =>
    intro hstarts x'
    simp only [Bool.or_eq_true, decide_eq_true_eq, Option.isNone_iff_eq_none] at hg
    rcases hg with ⟨hfalse, htrue⟩ | ⟨hfalse, htrue⟩
    · cases x' with
      | false => exact hfalse
      | true => exact htrue
    · cases x with
      | false => exact absurd hfalse hstarts
      | true => exact absurd htrue hstarts
  | send | recv | free | stepRead => trivial

/-- Two clients that send at the same time: the second increment makes the last
exchange of the first one fail. -/
theorem state_two_writers_assert :
    ¬ ∀ (ω : Type) [DecidableEq ω] (K : ℕ) (pool : ℕ → buffer_entry) (s : StateSys ω Empty),
      0 < K → Run (stateStep K) (fun _ _ _ => True) (StateSys.init ω Empty MCAPI_NO_CHAN pool) s →
      WritersOk MCAPI_NO_CHAN K s := by
  intro hok
  have hexec : (exec (stateStep 2) (fun _ _ _ => true)
      (StateSys.init Bool Empty MCAPI_NO_CHAN fun _ => .zero)
      ([StateLabel.send false .oneByte, .send true .oneByte, .stepWrite false, .stepWrite true] ++
        List.replicate 12 (StateLabel.stepWrite false))).any
        (fun s => match s.wpc false with | .failed => true | _ => false) = true := by
    decide +kernel
  obtain ⟨s, hrun, hs⟩ := exec_run_of_any hexec
  have hfailed : s.wpc false = .failed := by
    cases hpc : s.wpc false <;> rw [hpc] at hs <;> first | rfl | cases hs
  have hwriters := hok Bool 2 _ s (by decide) (hrun.mono fun _ _ _ _ => trivial)
  exact hwriters.no_assert_fails false hfailed

/-! ## One writer -/

/-- Sends that are recorded stay recorded. -/
theorem Delivered.mono {calls : List Msg} {results : List Bool} {r : Receipt}
    (h : Delivered ct calls results r) (calls' : List Msg) (results' : List Bool) :
    Delivered ct (calls ++ calls') (results ++ results') r := by
  obtain ⟨n, m, hm, hresult, hrest⟩ := h
  exact ⟨n, m, getElem?_append_of_some hm calls', getElem?_append_of_some hresult results', hrest⟩

/-- Only a confirming read whose window test succeeds completes a receive. -/
theorem readProgram_receipt {now : ℕ} {sh : Shared} {p : ReadPc} {r : Receipt}
    (h : (readProgram K now sh p).2.2 = some r) :
    ∃ f g counter index d, p = .confirm f g counter index d ∧
      subU32 sh.q.update_counter (counter / 2 * 2) ≤ 2 * K - 2 ∧ r = ⟨f, g.began, index, d⟩ := by
  cases p with
  | confirm f g counter index d =>
    simp only [readProgram] at h
    split_ifs at h with htest
    cases h
    exact ⟨f, g, counter, index, d, rfl, htest, rfl⟩
  | readBuffIndex | freeMarker =>
    simp only [readProgram] at h
    split_ifs at h
  | casReceived | freeParent =>
    simp only [readProgram] at h
    split at h <;> cases h
  | copy =>
    simp only [readProgram] at h
    split at h
    · cases h
    · cases h
    · split_ifs at h
  | idle | readCounter | readState | recvBuffIndex | setParent | readSize | freeRead | freeCas
  | freeEntry | failed => cases h

omit [DecidableEq ω] [DecidableEq ρ] in
/-- **A receive that is confirmed in the window** has delivered what one
completed send wrote. -/
theorem StateInv.delivered (hK : 0 < K) (h : StateInv ct K s) {y : ρ} {r : Receipt}
    (hconfirms : (s.rpc y).Confirms K s.now s.sh.q.update_counter)
    (hr : (readProgram K s.now s.sh (s.rpc y)).2.2 = some r) :
    Delivered ct s.calls s.results r := by
  obtain ⟨w, -, hcore⟩ := h.core
  obtain ⟨f, g, c, index, d, hpc, htest, rfl⟩ := readProgram_receipt hr
  have hok := h.readers y
  rw [hpc] at hok hconfirms
  obtain ⟨hreading, -⟩ := hok
  have hwin : InWindow K g.seen s.now := hconfirms htest
  have hlength := hcore.length
  have hw := writing_le_one w
  have hu : Undisturbed K g.seen s.calls.length := by
    rw [hcore.uc, hreading.value] at htest
    refine undisturbed_of_window hK hreading.seen ?_ ?_ ?_ htest hwin
    · omega
    · omega
    · rw [← hreading.value]
      exact hreading.given
  obtain ⟨m, hm, hresult, hd⟩ := hreading.message hu
  have hbegan := hreading.began
  have htwo := hu.two_le
  refine ⟨g.seen / 2 - 1, m, hm, hresult, hd, ?_⟩
  change g.began ≤ g.seen / 2 - 1 + 1
  omega

/-- The receives of a step are recorded with what was sent by then. -/
theorem StateInv.received_step (hK : 0 < K) (h : StateInv ct K s) {a : StateLabel ω ρ}
    (hreceived : ∀ r ∈ s.received, Delivered ct s.calls s.results r.2)
    (hmove : stateStep K s a = some s') (hconfirms : ConfirmsInWindow K s a) :
    ∀ r ∈ s'.received, Delivered ct s'.calls s'.results r.2 := by
  cases a with
  | send x m =>
    simp only [stateStep, Option.ite_none_right_eq_some, Option.some.injEq] at hmove
    obtain ⟨-, rfl⟩ := hmove
    exact hreceived
  | recv y f =>
    simp only [stateStep, Option.ite_none_right_eq_some, Option.some.injEq] at hmove
    obtain ⟨-, rfl⟩ := hmove
    exact hreceived
  | free y i =>
    simp only [stateStep, Option.ite_none_right_eq_some, Option.some.injEq] at hmove
    obtain ⟨-, rfl⟩ := hmove
    exact hreceived
  | stepWrite x =>
    simp only [stateStep, Option.some.injEq] at hmove
    subst hmove
    exact fun r hr => (hreceived r hr).mono _ _
  | stepRead y =>
    simp only [stateStep, Option.some.injEq] at hmove
    subst hmove
    intro r hr
    rcases List.mem_append.mp hr with hold | hnew
    · exact hreceived r hold
    · simp only [Option.mem_toList, Option.map_eq_some_iff] at hnew
      obtain ⟨receipt, hreceipt, rfl⟩ := hnew
      exact h.delivered hK hconfirms hreceipt

omit [DecidableEq ρ] in
/-- One writer's sends do not overlap. -/
theorem sendsAlone_unit (s : StateSys Unit ρ) (a : StateLabel Unit ρ) : SendsAlone s a := by
  cases a with
  | stepWrite x =>
    intro hstarts x'
    cases hpc : s.wpc x' with
    | incCounter m => rfl
    | _ => exact absurd (by rw [hpc]; rfl) hstarts
  | send | recv | free | stepRead => trivial

/-- **One writer, any readers.** At every point of every run in which the receives
whose test succeeds are in the window, each receive that returned `TRUE` has
delivered the contents and the size that one completed send wrote, and that send
is not older than the last one completed when the receive began. -/
theorem state_receives_ok (hK : 0 < K) (hct : ct ≠ MCAPI_PKT_CHAN) (pool : ℕ → buffer_entry)
    {s : StateSys Unit ρ}
    (hrun : Run (stateStep K) (fun s a _ => ConfirmsInWindow K s a)
      (StateSys.init Unit ρ ct pool) s) :
    ∀ r ∈ s.received, Delivered ct s.calls s.results r.2 := by
  have hinv := hrun.invariant
    (I := fun s => StateInv ct K s ∧ ∀ r ∈ s.received, Delivered ct s.calls s.results r.2)
    (fun s a _ ⟨h, hreceived⟩ hmove hconfirms =>
      ⟨h.step hct hmove (sendsAlone_unit s a), h.received_step hK hreceived hmove hconfirms⟩)
    ⟨.init Unit ρ ct K pool, nofun⟩
  exact hinv.2

example : ReadPc.failed.Confirms 0 0 0 := by decide +kernel

/-- A message is sent and received, then received again while the next one is
written to another entry. -/
theorem state_receives_ok_twice :
    ∃ s : StateSys Unit Unit, s.received.length = 2 ∧ s.calls.length = 2 ∧
      ∀ r ∈ s.received, Delivered MCAPI_NO_CHAN s.calls s.results r.2 := by
  have hexec : (exec (stateStep 3) (fun s a _ => decide (ConfirmsInWindow 3 s a))
      (StateSys.init Unit Unit MCAPI_NO_CHAN fun _ => .zero)
      (StateLabel.send () .oneByte :: List.replicate 13 (StateLabel.stepWrite ()) ++
        StateLabel.recv () ⟨1024, true⟩ :: List.replicate 9 (StateLabel.stepRead ()) ++
        StateLabel.recv () ⟨1024, true⟩ :: List.replicate 6 (StateLabel.stepRead ()) ++
        StateLabel.send () .oneByte :: List.replicate 7 (StateLabel.stepWrite ()) ++
        List.replicate 3 (StateLabel.stepRead ()))).any
        (fun s => decide (s.received.length = 2 ∧ s.calls.length = 2)) = true := by
    decide +kernel
  obtain ⟨s, hrun, hs⟩ := exec_run_of_any hexec
  obtain ⟨hreceived, hcalls⟩ := of_decide_eq_true hs
  exact ⟨s, hreceived, hcalls, state_receives_ok (by decide) (by decide) _
    (hrun.mono fun _ _ _ hg => of_decide_eq_true hg)⟩

/-- A receive that reads the counter before the first send has stepped it takes
entry `(2^32 - 1) % 3`, which is the one that send is still writing, and its test
succeeds. -/
theorem state_receives_torn :
    ¬ ∀ (K : ℕ) (ct : channel_type) (pool : ℕ → buffer_entry) (s : StateSys Unit Unit),
      0 < K → K ≤ MCAPI_MAX_QUEUE_ENTRIES + 1 → ct ≠ MCAPI_PKT_CHAN →
      Run (stateStep K) (fun _ _ _ => True) (StateSys.init Unit Unit ct pool) s →
      ∀ r ∈ s.received, Delivered ct s.calls s.results r.2 := by
  intro hok
  have hexec : (exec (stateStep 3) (fun _ _ _ => true)
      (StateSys.init Unit Unit MCAPI_NO_CHAN fun _ => .zero)
      ([StateLabel.recv () ⟨1024, true⟩, .stepRead (), .stepRead (), .send () .oneByte] ++
        List.replicate 6 (StateLabel.stepWrite ()) ++
        List.replicate 6 (StateLabel.stepRead ()))).any
        (fun s => !s.received.isEmpty && s.results.isEmpty) = true := by
    decide +kernel
  obtain ⟨s, hrun, hs⟩ := exec_run_of_any hexec
  simp only [Bool.and_eq_true, Bool.not_eq_true', List.isEmpty_iff] at hs
  obtain ⟨r, hr⟩ := List.exists_mem_of_ne_nil s.received (by rintro h; simp [h] at hs)
  obtain ⟨n, m, -, hresult, -⟩ := hok 3 MCAPI_NO_CHAN _ s (by decide) (by decide) (by decide)
    (hrun.mono fun _ _ _ _ => trivial) r hr
  rw [hs.2] at hresult
  cases hresult

end System

end MxApi
