/-
Writers under a barrier exclude each other, as long as no release acts for a
client that does not hold the element.

The counter is odd while a writer is inside. What keeps it so is a fact about
one client at a time ([`Effect`]): apart from the compare and swap of an acquire
and that of a release, no step touches the counter or moves a client across the
border of the section. A release also runs after an acquire that timed out, and
its compare and swap then compares with whatever counter the failed acquire saw
last. [`Orderly`] says that this comparison fails.
-/
import MxApi.Lib.Run
import MxApi.Lib.Section
import MxApi.Mrapi.Barrier

set_option autoImplicit false

namespace MxApi.Barrier

open Lib
open mrapi_atomic_mode_t

variable {D τ : Type}

/-! ## One client -/

/-- A barrier sync object between two processes, without an override. -/
structure Engaged (axb : mrapi_atomic_barrier_t) : Prop where
  barrier : axb.xchg = false
  remote : axb.dest ≠ axb.src
  plain : axb.sync.override = false

/-- An engaged sync object is used unless it is active. -/
theorem Engaged.synced_eq {axb : mrapi_atomic_barrier_t} (h : Engaged axb) {D : Type} {op : Op D}
    (hmode : axb.mode = op.mode) : axb.synced = !axb.sync.active := by
  have hmode' : axb.mode ≠ MRAPI_ATOMIC_NONE := by
    rw [hmode]
    cases op <;> simp [Op.mode]
  have hremote := h.remote
  simp [mrapi_atomic_barrier_t.synced, hmode', hremote]

/-- What is true of a client by itself where it stands. -/
def Position (c : Client D) : Prop :=
  match c.pc with
  | .idle => c.inside = true → c.axb.sync.active = true
  | .enter op => c.axb.mode = op.mode ∧ (c.inside = true → c.axb.sync.active = true)
  | .spin op _ => c.axb.mode = op.mode ∧ c.inside = false
  | .cas op _ => c.axb.mode = op.mode ∧ c.inside = false ∧ c.axb.sync.last_counter % 2 = 0 ∧
      op.mode = MRAPI_ATOMIC_WRITE
  | .body op access => c.axb.mode = op.mode ∧ access ≠ .timedOut ∧
      (access = .acquired → (c.inside = true ↔ op.mode = MRAPI_ATOMIC_WRITE))
  | .release op access => c.axb.mode = op.mode ∧ (access = .timedOut → c.inside = false) ∧
      (access = .acquired → (c.inside = true ↔ op.mode = MRAPI_ATOMIC_WRITE))
  | .flip _ _ _ | .flipCas _ _ _ _ => False

/-- What one step does to the counter and to who is inside. -/
inductive Effect (e : mrapi_msg_t D) (c : Client D) (e' : mrapi_msg_t D) (c' : Client D) : Prop
  | outside (h : c.inside = false) (h' : c'.inside = false) (counter : e'.counter = e.counter)
  | stay (h : c.inside = true) (h' : c'.inside = true) (counter : e'.counter = e.counter)
      (last : c'.axb.sync.last_counter = c.axb.sync.last_counter)
  | take (h : c.inside = false) (h' : c'.inside = true) (even : e.counter % 2 = 0)
      (counter : e'.counter = u16 (e.counter + 1)) (last : c'.axb.sync.last_counter = e'.counter)
  | leave (h : c.inside = true) (h' : c'.inside = false)
      (counter : e'.counter = u16 (e.counter + 1))

/-- The release that `c` is about to perform, if any, is its own: a read release
is not performed inside, and a write release is performed inside or fails. -/
def Orderly (e : mrapi_msg_t D) (c : Client D) : Prop :=
  match c.pc with
  | .release op _ => c.axb.synced = true →
      match op.mode with
      | MRAPI_ATOMIC_READ => c.inside = false
      | _ => c.inside = true ∨ e.counter ≠ c.axb.sync.last_counter
  | _ => True

instance (e : mrapi_msg_t D) (c : Client D) : Decidable (Orderly e c) := by
  unfold Orderly
  split
  · split <;> infer_instance
  · infer_instance

/-- What a step of a client has to keep and to do. -/
structure Sound (e : mrapi_msg_t D) (c : Client D) (e' : mrapi_msg_t D) (c' : Client D) : Prop where
  engaged : Engaged c'.axb
  position : Position c'
  effect : Effect e c e' c'

theorem Position.proceed {c : Client D} {op : Op D} {access : Access}
    (hmode : c.axb.mode = op.mode) (htimed : access = .timedOut → c.inside = false)
    (hacq : access = .acquired → (c.inside = true ↔ op.mode = MRAPI_ATOMIC_WRITE)) :
    Position (c.proceed op access) := by
  unfold Position Client.proceed
  cases access with
  | timedOut => exact ⟨hmode, fun _ => htimed rfl, fun h => by cases h⟩
  | acquired => exact ⟨hmode, by decide, hacq⟩
  | skipped => exact ⟨hmode, by decide, fun h => by cases h⟩

theorem Position.failed {c : Client D} {op : Op D} (hmode : c.axb.mode = op.mode)
    (hout : c.inside = false) (timeout : ℕ) : Position (c.failed op timeout) := by
  unfold Client.failed
  split
  · exact ⟨hmode, hout⟩
  · split
    · exact Position.proceed hmode (fun _ => hout) (fun h => by cases h)
    · exact ⟨hmode, hout⟩

theorem Engaged.failed {c : Client D} (h : Engaged c.axb) (op : Op D) (timeout : ℕ) :
    Engaged (c.failed op timeout).axb := by
  unfold Client.failed
  split
  · exact h
  · split <;> exact ⟨h.barrier, h.remote, h.plain⟩

theorem failed_inside (c : Client D) (op : Op D) (timeout : ℕ) :
    (c.failed op timeout).inside = c.inside := by
  unfold Client.failed
  split
  · rfl
  · split <;> rfl

/-- An attempt that fails keeps the client outside. -/
theorem Sound.failed {e : mrapi_msg_t D} {c₀ c : Client D} {op : Op D} (h : Engaged c.axb)
    (hmode : c.axb.mode = op.mode) (hout₀ : c₀.inside = false) (hout : c.inside = false)
    (timeout : ℕ) : Sound e c₀ e (c.failed op timeout) where
  engaged := h.failed op timeout
  position := Position.failed hmode hout timeout
  effect := .outside hout₀ ((failed_inside c op timeout).trans hout) rfl

/-- The acquire loop. -/
theorem try_acquire_sound {e : mrapi_msg_t D} {c : Client D} {op : Op D} (h : Engaged c.axb)
    (hmode : c.axb.mode = op.mode) (hout : c.inside = false) (timeout : ℕ) :
    Sound e c (try_acquire e c op timeout).1 (try_acquire e c op timeout).2 := by
  unfold try_acquire
  rw [h.plain, h.barrier]
  simp only [Bool.false_eq_true, if_false]
  by_cases heven : e.counter % 2 = 0
  · rw [if_pos heven]
    by_cases hw : c.axb.mode = MRAPI_ATOMIC_WRITE
    · rw [if_pos hw]
      exact ⟨⟨h.barrier, h.remote, h.plain⟩, ⟨hmode, hout, heven, hmode.symm.trans hw⟩, .outside hout hout rfl⟩
    · -- a read has acquired, and stays outside
      rw [if_neg hw]
      have hposition : Position ((c.sample e.counter).proceed op .acquired) := by
        apply Position.proceed (c := c.sample e.counter) hmode
        · intro h'
          cases h'
        · intro _
          constructor
          · intro hin
            rw [show c.inside = true from hin] at hout
            cases hout
          · intro hw'
            exact absurd (hmode.trans hw') hw
      exact ⟨⟨h.barrier, h.remote, h.plain⟩, hposition, .outside hout hout rfl⟩
  · rw [if_neg heven]
    exact Sound.failed (c := c.sample e.counter) ⟨h.barrier, h.remote, h.plain⟩ hmode hout hout
      timeout

/-- The compare and swap of a write acquire. -/
theorem acquire_cas_sound {e : mrapi_msg_t D} {c : Client D} {op : Op D} (h : Engaged c.axb)
    (hmode : c.axb.mode = op.mode) (hout : c.inside = false)
    (heven : c.axb.sync.last_counter % 2 = 0) (hwrite : op.mode = MRAPI_ATOMIC_WRITE)
    (timeout : ℕ) : Sound e c (acquire_cas e c op timeout).1 (acquire_cas e c op timeout).2 := by
  unfold acquire_cas
  by_cases hlast : e.counter = c.axb.sync.last_counter
  · rw [if_pos hlast, ← hlast]
    refine ⟨⟨h.barrier, h.remote, h.plain⟩, ?_, ?_⟩
    · exact Position.proceed hmode (fun h => by cases h) (fun _ => ⟨fun _ => hwrite, fun _ => rfl⟩)
    · exact .take hout rfl (hlast ▸ heven) rfl (by rw [hlast]; rfl)
  · rw [if_neg hlast]
    exact Sound.failed h hmode hout hout timeout

/-- The release of a client that stands there in an orderly way. -/
theorem release_sound {e : mrapi_msg_t D} {c : Client D} {op : Op D} {access : Access}
    (h : Engaged c.axb) (hmode : c.axb.mode = op.mode) (hpc : c.pc = .release op access)
    (horderly : Orderly e c) (hlast : c.inside = true → e.counter = c.axb.sync.last_counter) :
    Sound e c (atomic_barrier_release e c op access).1
      (atomic_barrier_release e c op access).2 := by
  unfold atomic_barrier_release
  rw [h.barrier, h.synced_eq hmode]
  cases hactive : c.axb.sync.active with
  | true =>
    -- a held operation: nothing is released
    simp only [Bool.not_true, if_true]
    refine ⟨⟨h.barrier, h.remote, rfl⟩, fun _ => hactive, ?_⟩
    cases hin : c.inside with
    | false => exact .outside hin hin rfl
    | true => exact .stay hin hin rfl rfl
  | false =>
    rw [Orderly, hpc] at horderly
    have horderly' := horderly ((h.synced_eq hmode).trans (by rw [hactive]; rfl))
    simp only [Bool.not_false, Bool.true_eq_false, Bool.false_eq_true, if_false, hmode]
    cases op with
    | read =>
      have hout : c.inside = false := horderly'
      simp only [Op.mode, if_true]
      split
      · exact ⟨⟨h.barrier, h.remote, rfl⟩, (fun h => by cases h), .outside hout rfl rfl⟩
      · exact ⟨⟨h.barrier, h.remote, rfl⟩, ⟨hmode, (fun h => by cases h)⟩, .outside hout rfl rfl⟩
    | write f =>
      have hcas : c.inside = true ∨ e.counter ≠ c.axb.sync.last_counter := horderly'
      simp only [Op.mode, reduceCtorEq, if_false]
      by_cases heq : e.counter = c.axb.sync.last_counter
      · have hin : c.inside = true := hcas.resolve_right (fun hne => hne heq)
        rw [if_pos heq]
        exact ⟨⟨h.barrier, h.remote, rfl⟩, (fun h => by cases h), .leave hin rfl (by rw [heq])⟩
      · rw [if_neg heq]
        have hout : c.inside = false := by
          by_contra hin
          exact heq (hlast (by simpa using hin))
        exact ⟨⟨h.barrier, h.remote, rfl⟩, ⟨hmode, (fun h => by cases h)⟩, .outside hout rfl rfl⟩

/-- The effect of a step that leaves the counter and `inside` alone. -/
theorem Effect.same {e e' : mrapi_msg_t D} {c c' : Client D} (hin : c'.inside = c.inside)
    (hcounter : e'.counter = e.counter)
    (hlast : c'.axb.sync.last_counter = c.axb.sync.last_counter) : Effect e c e' c' := by
  cases h : c.inside with
  | false => exact .outside h (hin.trans h) hcounter
  | true => exact .stay h (hin.trans h) hcounter hlast

/-- **One step of one client.** -/
theorem clientStep_sound {e e' : mrapi_msg_t D} {c c' : Client D} (h : Engaged c.axb)
    (hpos : Position c) (horderly : Orderly e c)
    (hlast : c.inside = true → e.counter = c.axb.sync.last_counter)
    (hstep : clientStep e c = some (e', c')) : Sound e c e' c' := by
  unfold clientStep at hstep
  unfold Position at hpos
  cases hpc : c.pc with
  | idle =>
    rw [hpc] at hstep
    cases hstep
  | enter op =>
    rw [hpc] at hstep hpos
    obtain ⟨hmode, hactive⟩ := hpos
    rw [h.synced_eq hmode] at hstep
    cases ha : c.axb.sync.active with
    | false =>
      have hout : c.inside = false := by
        by_contra hin
        rw [hactive (by simpa using hin)] at ha
        cases ha
      rw [ha] at hstep
      cases hstep
      exact ⟨h, ⟨hmode, hout⟩, .outside hout hout rfl⟩
    | true =>
      rw [ha] at hstep
      cases hstep
      refine ⟨⟨h.barrier, h.remote, h.plain⟩, ?_, .same rfl rfl rfl⟩
      exact Position.proceed hmode (fun h => by cases h) (fun h => by cases h)
  | spin op timeout =>
    rw [hpc] at hstep hpos
    have hsound := try_acquire_sound (e := e) h hpos.1 hpos.2 timeout
    rw [Option.some.inj hstep] at hsound
    exact hsound
  | cas op timeout =>
    rw [hpc] at hstep hpos
    have hsound := acquire_cas_sound (e := e) h hpos.1 hpos.2.1 hpos.2.2.1 hpos.2.2.2 timeout
    rw [Option.some.inj hstep] at hsound
    exact hsound
  | body op access =>
    rw [hpc] at hstep hpos
    cases hstep
    exact ⟨h, ⟨hpos.1, fun htimed => absurd htimed hpos.2.1, hpos.2.2⟩, .same rfl rfl rfl⟩
  | release op access =>
    rw [hpc] at hstep hpos
    have hsound := release_sound (e := e) h hpos.1 hpc horderly hlast
    rw [Option.some.inj hstep] at hsound
    exact hsound
  | flip op access valid =>
    rw [hpc] at hpos
    exact hpos.elim
  | flipCas op access valid previous =>
    rw [hpc] at hpos
    exact hpos.elim

/-! ## The clients together -/

/-- The labels and steps under which the exclusion holds: no override, and every
release is orderly. -/
def OwnRelease (s : St D τ) : Label D τ → Prop
  | .override _ => False
  | .step t => Orderly s.elem (s.client t)
  | _ => True

theorem move_sound {s : St D τ} {a : Label D τ} {e' : mrapi_msg_t D} {c' : Client D}
    (h : Engaged (s.client a.client).axb) (hpos : Position (s.client a.client))
    (hown : OwnRelease s a)
    (hlast : (s.client a.client).inside = true →
      s.elem.counter = (s.client a.client).axb.sync.last_counter)
    (hmove : move s.elem (s.client a.client) a = some (e', c')) :
    Sound s.elem (s.client a.client) e' c' := by
  cases a with
  | override t => exact hown.elim
  | step t => exact clientStep_sound h hpos hown hlast hmove
  | hold t hold =>
    obtain ⟨hpc, rfl, rfl⟩ := move_hold hmove
    rw [Position, hpc] at hpos
    refine ⟨⟨h.barrier, h.remote, h.plain⟩, ?_, .same rfl rfl rfl⟩
    rw [Position, hpc]
    exact hpos
  | op t op =>
    obtain ⟨hpc, rfl, rfl⟩ := move_start hmove
    rw [Position, hpc] at hpos
    exact ⟨⟨h.barrier, h.remote, h.plain⟩, ⟨rfl, hpos⟩, .same rfl rfl rfl⟩

/-- The counter against the writer inside. -/
def Parity (counter : ℕ) : Option (Client D) → Prop
  | none => counter % 2 = 0
  | some c => counter % 2 = 1 ∧ c.axb.sync.last_counter = counter

/-- The invariant: every client stands where it may, and at most one is inside,
with the counter odd and as that client left it. -/
structure Exclusive (s : St D τ) : Prop where
  engaged : ∀ t, Engaged (s.client t).axb
  position : ∀ t, Position (s.client t)
  writer : ∃ w, Active Client.inside s.client w ∧ Parity s.elem.counter w

/-- The counter is odd exactly while a client is inside. -/
theorem Exclusive.odd_iff {s : St D τ} (h : Exclusive s) :
    s.elem.counter % 2 = 1 ↔ ∃ t, (s.client t).inside = true := by
  obtain ⟨w, hactive, hparity⟩ := h.writer
  cases w with
  | none =>
    have heven : s.elem.counter % 2 = 0 := hparity
    constructor
    · intro hodd
      omega
    · rintro ⟨t, ht⟩
      have hout : (s.client t).inside = false := hactive t
      rw [ht] at hout
      cases hout
  | some c =>
    obtain ⟨t, rfl, hin, -⟩ := hactive
    exact ⟨fun _ => ⟨t, hin⟩, fun _ => hparity.1⟩

theorem Exclusive.unique {s : St D τ} (h : Exclusive s) {t t' : τ}
    (ht : (s.client t).inside = true) (ht' : (s.client t').inside = true) : t = t' := by
  obtain ⟨w, hactive, -⟩ := h.writer
  exact hactive.unique ht ht'

/-- The client inside has seen the counter as it is. -/
theorem Exclusive.last {s : St D τ} (h : Exclusive s) {t : τ}
    (ht : (s.client t).inside = true) :
    s.elem.counter = (s.client t).axb.sync.last_counter := by
  obtain ⟨w, hactive, hparity⟩ := h.writer
  rw [hactive.of_inside ht] at hparity
  exact hparity.2.symm

variable [DecidableEq τ]

/-- A step whose effect is known keeps the writer unique. -/
theorem Effect.writer {s : St D τ} {t : τ} {e' : mrapi_msg_t D} {c' : Client D}
    (h : Effect s.elem (s.client t) e' c')
    (hw : ∃ w, Active Client.inside s.client w ∧ Parity s.elem.counter w) :
    ∃ w, Active Client.inside (Function.update s.client t c') w ∧ Parity e'.counter w := by
  obtain ⟨w, hactive, hparity⟩ := hw
  cases h with
  | outside hout hout' hcounter =>
    refine ⟨w, hactive.outside hout hout', ?_⟩
    rw [hcounter]
    exact hparity
  | stay hin hin' hcounter hlast =>
    rw [hactive.of_inside hin] at hparity
    refine ⟨some c', hactive.stay (.inl hin) hin', ?_⟩
    rw [hcounter]
    exact ⟨hparity.1, hlast.trans hparity.2⟩
  | take hout hin' heven hcounter hlast =>
    have hnone : w = none := by
      cases w with
      | none => rfl
      | some c =>
        have hodd := hparity.1
        omega
    refine ⟨some c', hactive.stay (.inr hnone) hin', ?_, hlast⟩
    rw [hcounter, u16_mod_two]
    omega
  | leave hin hout' hcounter =>
    rw [hactive.of_inside hin] at hparity
    refine ⟨none, hactive.leave hin hout', ?_⟩
    have hodd := hparity.1
    change e'.counter % 2 = 0
    rw [hcounter, u16_mod_two]
    omega

/-- What a step of the system comes to under the invariant. -/
theorem Exclusive.sound {s s' : St D τ} {a : Label D τ} (h : Exclusive s)
    (hown : OwnRelease s a) (hstep : step s a = some s') :
    Sound s.elem (s.client a.client) s'.elem (s'.client a.client) := by
  obtain ⟨c', hmove, hclient⟩ := step_eq_some hstep
  rw [hclient, Function.update_self]
  exact move_sound (h.engaged _) (h.position _) hown h.last hmove

/-- **Every step keeps the writers apart.** -/
theorem Exclusive.step {s s' : St D τ} {a : Label D τ} (h : Exclusive s)
    (hstep : step s a = some s') (hown : OwnRelease s a) : Exclusive s' := by
  have hsound := h.sound hown hstep
  obtain ⟨c', -, hclient⟩ := step_eq_some hstep
  rw [hclient, Function.update_self] at hsound
  constructor
  · intro t
    rw [hclient]
    by_cases ht : t = a.client
    · rw [ht, Function.update_self]
      exact hsound.engaged
    · rw [Function.update_of_ne ht]
      exact h.engaged t
  · intro t
    rw [hclient]
    by_cases ht : t = a.client
    · rw [ht, Function.update_self]
      exact hsound.position
    · rw [Function.update_of_ne ht]
      exact h.position t
  · rw [hclient]
    exact hsound.effect.writer h.writer

omit [DecidableEq τ] in
theorem Exclusive.init {axb : τ → mrapi_atomic_barrier_t} (h : ∀ t, Engaged (axb t)) (d : D) :
    Exclusive (init axb d) where
  engaged := h
  position := fun _ hin => by cases hin
  writer := ⟨none, fun _ => rfl, rfl⟩

end MxApi.Barrier
