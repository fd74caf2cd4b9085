/-
A reader under a barrier among writers, all of them waiting forever.

Without timeouts every release belongs to its own acquire, so the runs of a
reader and its writers are runs of sequences as in [`held_sequences`], the
reader's being single reads. What has to be shown is that no acquire times out
([`Patient`]) and that the reader always acquires ([`Unheld`]).
-/
import MxApi.Mrapi.BarrierHeld

set_option autoImplicit false

namespace MxApi.Barrier

open Lib
open mrapi_atomic_mode_t

variable {D τ : Type}

/-! ## No timeouts -/

/-- A client that waits forever, and has not timed out. -/
def Patient (c : Client D) : Prop :=
  c.axb.timeout = MCA_INFINITE ∧
  match c.pc with
  | .spin _ timeout | .cas _ timeout => timeout = MCA_INFINITE
  | .body _ access | .release _ access | .flip _ access _ | .flipCas _ access _ _ =>
    access ≠ .timedOut
  | _ => True

theorem Patient.proceed {c : Client D} (h : Patient c) {op : Op D} {access : Access}
    (haccess : access ≠ .timedOut) : Patient (c.proceed op access) := by
  refine ⟨h.1, ?_⟩
  unfold Client.proceed
  rw [if_neg haccess]
  exact haccess

theorem Patient.failed {c : Client D} (h : Patient c) {op : Op D} {timeout : ℕ}
    (ht : timeout = MCA_INFINITE) : Patient (c.failed op timeout) := by
  unfold Client.failed
  rw [if_pos ht]
  exact ⟨h.1, ht⟩

theorem Patient.try_acquire {c : Client D} (h : Patient c) (e : mrapi_msg_t D) (op : Op D)
    {timeout : ℕ} (ht : timeout = MCA_INFINITE) :
    Patient (try_acquire e c op timeout).2 := by
  have hsample : Patient (c.sample e.counter) := h
  unfold Barrier.try_acquire
  split
  · exact h.proceed (by decide)
  · split
    · dsimp only
      split
      · exact h.proceed (by decide)
      · exact h.failed ht
    · split
      · dsimp only
        split
        · exact ⟨h.1, ht⟩
        · exact hsample.proceed (by decide)
      · exact hsample.failed ht

theorem Patient.acquire_cas {c : Client D} (h : Patient c) (e : mrapi_msg_t D) (op : Op D)
    {timeout : ℕ} (ht : timeout = MCA_INFINITE) :
    Patient (acquire_cas e c op timeout).2 := by
  have htake : Patient c.takeWrite := h
  unfold Barrier.acquire_cas
  split
  · exact htake.proceed (by decide)
  · exact h.failed ht

theorem Patient.atomic_barrier_release {c : Client D} (h : Patient c) (e : mrapi_msg_t D)
    (op : Op D) {access : Access} (haccess : access ≠ .timedOut) :
    Patient (atomic_barrier_release e c op access).2 := by
  unfold Barrier.atomic_barrier_release
  split
  · exact ⟨h.1, trivial⟩
  · split
    · exact ⟨h.1, haccess⟩
    · split
      · dsimp only
        split
        · exact ⟨h.1, trivial⟩
        · exact ⟨h.1, trivial⟩
      · split
        · exact ⟨h.1, trivial⟩
        · exact ⟨h.1, trivial⟩

theorem Patient.clientStep {e e' : mrapi_msg_t D} {c c' : Client D} (h : Patient c)
    (hstep : clientStep e c = some (e', c')) : Patient c' := by
  have hpc' := h.2
  unfold Barrier.clientStep at hstep
  cases hpc : c.pc with
  | idle =>
    rw [hpc] at hstep
    cases hstep
  | enter op =>
    rw [hpc] at hstep
    simp only [Option.some.injEq, Prod.mk.injEq] at hstep
    rw [← hstep.2]
    split
    · exact ⟨h.1, h.1⟩
    · exact h.proceed (by decide)
  | spin op timeout =>
    rw [hpc] at hstep hpc'
    have hp := h.try_acquire e op hpc'
    rw [Option.some.inj hstep] at hp
    exact hp
  | cas op timeout =>
    rw [hpc] at hstep hpc'
    have hp := h.acquire_cas e op hpc'
    rw [Option.some.inj hstep] at hp
    exact hp
  | body op access =>
    rw [hpc] at hstep hpc'
    simp only [Option.some.injEq, Prod.mk.injEq] at hstep
    rw [← hstep.2]
    exact ⟨h.1, hpc'⟩
  | release op access =>
    rw [hpc] at hstep hpc'
    have hp := h.atomic_barrier_release e op hpc'
    rw [Option.some.inj hstep] at hp
    exact hp
  | flip op access valid =>
    rw [hpc] at hstep hpc'
    simp only [Option.some.injEq, Prod.mk.injEq] at hstep
    rw [← hstep.2]
    exact ⟨h.1, hpc'⟩
  | flipCas op access valid previous =>
    rw [hpc] at hstep
    simp only [Option.some.injEq, Prod.mk.injEq] at hstep
    rw [← hstep.2]
    exact ⟨h.1, trivial⟩

/-! ## No hold -/

/-- A client that holds nothing, and acquires for each of its operations. -/
def Unheld (c : Client D) : Prop :=
  c.axb.sync.hold = false ∧ c.axb.sync.active = false ∧
  match c.pc with
  | .body _ access | .release _ access => access ≠ .skipped
  | _ => True

theorem Unheld.proceed {c : Client D} (h : Unheld c) {op : Op D} {access : Access}
    (haccess : access ≠ .skipped) : Unheld (c.proceed op access) := by
  refine ⟨h.1, h.1, ?_⟩
  unfold Client.proceed
  cases access with
  | skipped => exact absurd rfl haccess
  | acquired => exact haccess
  | timedOut => exact haccess

theorem Unheld.failed {c : Client D} (h : Unheld c) (op : Op D) (timeout : ℕ) :
    Unheld (c.failed op timeout) := by
  unfold Client.failed
  split
  · exact ⟨h.1, h.2.1, trivial⟩
  · split
    · exact h.proceed (by decide)
    · exact ⟨h.1, h.2.1, trivial⟩

theorem Unheld.try_acquire {c : Client D} (h : Unheld c) (e : mrapi_msg_t D) (op : Op D)
    (timeout : ℕ) : Unheld (try_acquire e c op timeout).2 := by
  have hsample : Unheld (c.sample e.counter) := h
  unfold Barrier.try_acquire
  split
  · exact h.proceed (by decide)
  · split
    · dsimp only
      split
      · exact h.proceed (by decide)
      · exact h.failed op timeout
    · split
      · dsimp only
        split
        · exact ⟨h.1, h.2.1, trivial⟩
        · exact hsample.proceed (by decide)
      · exact hsample.failed op timeout

theorem Unheld.acquire_cas {c : Client D} (h : Unheld c) (e : mrapi_msg_t D) (op : Op D)
    (timeout : ℕ) : Unheld (acquire_cas e c op timeout).2 := by
  have htake : Unheld c.takeWrite := h
  unfold Barrier.acquire_cas
  split
  · exact htake.proceed (by decide)
  · exact h.failed op timeout

theorem Unheld.atomic_barrier_release {c : Client D} (h : Unheld c) (e : mrapi_msg_t D)
    (op : Op D) (access : Access) : Unheld (atomic_barrier_release e c op access).2 := by
  unfold Barrier.atomic_barrier_release
  split
  · exact ⟨h.1, h.2.1, trivial⟩
  · split
    · exact ⟨h.1, h.2.1, trivial⟩
    · split
      · dsimp only
        split
        · exact ⟨h.1, h.2.1, trivial⟩
        · exact ⟨h.1, h.2.1, trivial⟩
      · split
        · exact ⟨h.1, h.2.1, trivial⟩
        · exact ⟨h.1, h.2.1, trivial⟩

theorem Unheld.clientStep {e e' : mrapi_msg_t D} {c c' : Client D} (h : Unheld c)
    (hengaged : Engaged c.axb) (hpos : Position c) (hstep : clientStep e c = some (e', c')) :
    Unheld c' := by
  have hpc' := h.2.2
  unfold Barrier.clientStep at hstep
  unfold Position at hpos
  cases hpc : c.pc with
  | idle =>
    rw [hpc] at hstep
    cases hstep
  | enter op =>
    rw [hpc] at hstep hpos
    simp only [Option.some.injEq, Prod.mk.injEq] at hstep
    rw [← hstep.2, hengaged.synced_eq hpos.1, h.2.1]
    exact ⟨h.1, h.2.1, trivial⟩
  | spin op timeout =>
    rw [hpc] at hstep
    have hu := h.try_acquire e op timeout
    rw [Option.some.inj hstep] at hu
    exact hu
  | cas op timeout =>
    rw [hpc] at hstep
    have hu := h.acquire_cas e op timeout
    rw [Option.some.inj hstep] at hu
    exact hu
  | body op access =>
    rw [hpc] at hstep hpc'
    simp only [Option.some.injEq, Prod.mk.injEq] at hstep
    rw [← hstep.2]
    exact ⟨h.1, h.2.1, hpc'⟩
  | release op access =>
    rw [hpc] at hstep
    have hu := h.atomic_barrier_release e op access
    rw [Option.some.inj hstep] at hu
    exact hu
  | flip op access valid =>
    rw [hpc] at hpos
    exact hpos.elim
  | flipCas op access valid previous =>
    rw [hpc] at hpos
    exact hpos.elim

/-! ## The reader -/

/-- The labels of the reader `r` and its writers: nobody overrides, `r` reads and
does not hold, the others write. -/
def ReaderStep (r : τ) : Label D τ → Prop
  | .override _ => False
  | .hold t hold => t = r → hold = false
  | .op t op => t = r ↔ op.mode = MRAPI_ATOMIC_READ
  | .step _ => True

instance [DecidableEq τ] (r : τ) (a : Label D τ) : Decidable (ReaderStep r a) :=
  match a with
  | .override _ => isFalse id
  | .hold t hold => inferInstanceAs (Decidable (t = r → hold = false))
  | .op t op => inferInstanceAs (Decidable (t = r ↔ op.mode = MRAPI_ATOMIC_READ))
  | .step _ => isTrue trivial

/-- What holds in every state that the reader and the writers reach. -/
structure Reading (r : τ) (s : St D τ) : Prop where
  sequences : Sequences r s
  patient : ∀ t, Patient (s.client t)
  unheld : Unheld (s.client r)

/-- Every release of theirs fits its sequence. -/
theorem ReaderStep.sequence {r : τ} {s : St D τ} {a : Label D τ} (h : Reading r s)
    (ha : ReaderStep r a) : SequenceStep r s a := by
  cases a with
  | override t => exact ha
  | hold t hold => trivial
  | op t op =>
    by_cases ht : t = r
    · exact .inl ht
    · right
      cases op with
      | read => exact absurd (ha.mpr rfl) ht
      | write f => rfl
  | step t =>
    change keeps s.elem (s.client t) = true
    have hpatient := (h.patient t).2
    unfold keeps
    split
    · rename_i op hpc
      rw [hpc] at hpatient
      exact absurd rfl hpatient
    · rename_i op hpc
      by_cases ht : t = r
      · -- the reader has not skipped its acquire
        have hunheld := h.unheld.2.2
        rw [← ht, hpc] at hunheld
        exact absurd rfl hunheld
      · have hwrite := h.sequences.others.write t ht op (by rw [hpc]; rfl)
        have hin := h.sequences.others.inside t ht (by simp [Client.opened, hpc])
        rw [if_pos hwrite, hin, Bool.or_true]
    · rfl

variable [DecidableEq τ]

theorem Reading.step {r : τ} {s s' : St D τ} {a : Label D τ} (h : Reading r s)
    (hstep : step s a = some s') (ha : ReaderStep r a) : Reading r s' := by
  have hsequences := h.sequences.step hstep (ha.sequence h)
  obtain ⟨c', hmove, hclient⟩ := step_eq_some hstep
  refine ⟨hsequences, ?_, ?_⟩
  · intro t
    rw [hclient]
    by_cases ht : t = a.client
    swap
    · rw [Function.update_of_ne ht]
      exact h.patient t
    rw [ht, Function.update_self]
    have hpatient := h.patient a.client
    cases a with
    | override t => exact ha.elim
    | step t => exact hpatient.clientStep hmove
    | hold t hold =>
      obtain ⟨hpc, -, rfl⟩ := move_hold hmove
      refine ⟨hpatient.1, ?_⟩
      rw [hpc]
      trivial
    | op t op =>
      obtain ⟨-, -, rfl⟩ := move_start hmove
      exact ⟨hpatient.1, trivial⟩
  · rw [hclient]
    by_cases ht : r = a.client
    swap
    · rw [Function.update_of_ne ht]
      exact h.unheld
    rw [ht, Function.update_self]
    have hunheld := h.unheld
    rw [ht] at hunheld
    cases a with
    | override t => exact ha.elim
    | step t =>
      exact hunheld.clientStep (h.sequences.exclusive.engaged t)
        (h.sequences.exclusive.position t) hmove
    | hold t hold =>
      obtain ⟨hpc, -, rfl⟩ := move_hold hmove
      refine ⟨ha ht.symm, hunheld.2.1, ?_⟩
      rw [hpc]
      trivial
    | op t op =>
      obtain ⟨-, -, rfl⟩ := move_start hmove
      exact ⟨hunheld.1, hunheld.2.1, trivial⟩

omit [DecidableEq τ] in
theorem Reading.init (r : τ) {src dest : τ → ℕ} (hremote : ∀ t, dest t ≠ src t) (d : D) :
    Reading r (init (fun t => sys_atomic_barrier_init (src t) (dest t) MCA_INFINITE) d) where
  sequences := Sequences.init r hremote d
  patient := fun _ => ⟨rfl, trivial⟩
  unheld := ⟨rfl, rfl, trivial⟩

/-- The runs of the reader and the writers, with what has been noted of the reader. -/
abbrev ReaderRun (r : τ) (start : St D τ) (s : St D τ) (o : Watch D) : Prop :=
  ∃ o₀ : Watch D, o₀.retried = false ∧
    Run (observed step (watch r)) (fun _ a _ => ReaderStep r a) (start, o₀) (s, o)

/-- They are runs of sequences. -/
theorem ReaderRun.sequences {r : τ} {src dest : τ → ℕ} (hremote : ∀ t, dest t ≠ src t)
    {d : D} {s : St D τ} {o : Watch D}
    (h : ReaderRun r (init (fun t => sys_atomic_barrier_init (src t) (dest t) MCA_INFINITE) d)
      s o) :
    SequenceRun r (init (fun t => sys_atomic_barrier_init (src t) (dest t) MCA_INFINITE) d)
      s o := by
  obtain ⟨o₀, hfresh, hrun⟩ := h
  have hboth : Run (observed step (watch r))
      (fun q a _ => ReaderStep r a ∧ SequenceStep r q.1 a)
      (init (fun t => sys_atomic_barrier_init (src t) (dest t) MCA_INFINITE) d, o₀) (s, o) := by
    refine hrun.strengthen (I := fun q => Reading r q.1) ?_ ?_ (Reading.init r hremote d)
    · intro q a q' hI hmove hguard
      exact hI.step (observed_eq_some hmove).1 hguard.1
    · intro q a q' hI hmove hguard
      exact ⟨hguard, hguard.sequence hI⟩
  exact ⟨o₀, hfresh, hboth.mono fun _ _ _ hg => hg.2⟩

/-- **A read meets no writer.** Among writers that share its barrier, whenever a
read returns, no other client has been inside since the read sampled the counter,
unless 2^15 writes have been completed meanwhile. -/
theorem read_meets_no_writer {r : τ} {src dest : τ → ℕ} (hremote : ∀ t, dest t ≠ src t)
    {d : D} {s s' : St D τ} {o : Watch D}
    (h : ReaderRun r (init (fun t => sys_atomic_barrier_init (src t) (dest t) MCA_INFINITE) d)
      s o)
    {op : Op D} {access : Access} (hpc : (s.client r).pc = .release op access)
    (hstep : step s (.step r) = some s') (hret : (s'.client r).pc = .idle)
    (hwrites : o.writes < 2 ^ 15) : ¬ o.met := by
  have hrun := h.sequences hremote
  obtain ⟨-, hwatched⟩ := sequences_watched hremote hrun
  have hreading : Reading r s := by
    obtain ⟨o₀, -, hrun⟩ := h
    exact Run.invariant (I := fun q => Reading r q.1)
      (fun q a q' hI hmove hguard => hI.step (observed_eq_some hmove).1 hguard) hrun
      (Reading.init r hremote d)
  have hpatient := (hreading.patient r).2
  rw [hpc] at hpatient
  exact (hwatched.ended hreading.sequences hpc hpatient hreading.unheld.2.1 hstep hret hwrites).1

def Pc.releases : Pc D → Bool
  | .release _ _ => true
  | _ => false

/-- A read that was overtaken by a write, tried again, and returns what was written. -/
theorem read_meets_no_writer_two :
    ∃ s o, ReaderRun false twoClients s o ∧ (s.client false).value = some 1 ∧ ¬ o.met := by
  have hexec : (exec (observed step (watch false))
      (fun _ a _ => decide (ReaderStep false a)) (twoClients, unwatched)
      [.op false .read, .step false, .step false,
        .op true (.write (· + 1)), .step true, .step true, .step true, .step true, .step true,
        .step false, .step false, .step false, .step false, .step false]).any
      (fun q => ((q.1.client false).value == some 1) && (q.2.writes == 0) &&
        (q.1.client false).pc.releases &&
        (step q.1 (.step false)).any (fun s' => (s'.client false).pc.op.isNone)) = true := by
    decide
  obtain ⟨⟨s, o⟩, hrun, hs⟩ := exec_run_of_any hexec
  simp only [Bool.and_eq_true, beq_iff_eq] at hs
  have hrun' : ReaderRun false twoClients s o :=
    ⟨unwatched, rfl, hrun.mono fun _ _ _ hg => of_decide_eq_true hg⟩
  obtain ⟨s', hstep, hidle⟩ := (Option.any_eq_true _ _).mp hs.2
  refine ⟨s, o, hrun', hs.1.1.1, ?_⟩
  cases hpc : (s.client false).pc with
  | release op access =>
    exact read_meets_no_writer (by decide) hrun' hpc hstep (Pc.op_eq_none (by simpa using hidle))
      (by omega)
  | _ =>
    rw [hpc] at hs
    exact absurd hs.1.2 Bool.false_ne_true

/-- A reader whose sync object names its own process, and a writer. -/
def localReader : St ℕ Bool :=
  init (fun t => sys_atomic_barrier_init t.toNat 0 MCA_INFINITE) 0

/-- Who overrides. -/
def Label.overrider : Label D τ → Option τ
  | .override t => some t
  | _ => none

/-- **Reads that meet a writer.** The barrier is not in force for a sync object
whose two processes are one, nor for an operation that overrides it: in both
runs the read returns while the other client is between its acquire and its
release. -/
theorem read_meets_writer :
    (∃ s s', Run step (fun _ a _ => ReaderStep false a) localReader s ∧
      (s.client true).inside = true ∧ (s.client false).pc.op.isSome = true ∧
      step s (.step false) = some s' ∧ (s'.client false).pc = .idle) ∧
    (∃ s s', Run step (fun _ a _ => a.overrider = some true ∨ ReaderStep false a) twoClients s ∧
      (s.client true).opened = true ∧ (s.client false).pc.op.isSome = true ∧
      step s (.step false) = some s' ∧ (s'.client false).pc = .idle) := by
  constructor
  · have hexec : (exec step (fun _ a _ => decide (ReaderStep false a)) localReader
        [.op true (.write (· + 1)), .step true, .step true, .step true,
          .op false .read, .step false, .step false]).any
        (fun s => (s.client true).inside && (s.client false).pc.op.isSome &&
          (step s (.step false)).any (fun s' => (s'.client false).pc.op.isNone)) = true := by
      decide
    obtain ⟨s, hrun, hs⟩ := exec_run_of_any hexec
    simp only [Bool.and_eq_true] at hs
    obtain ⟨s', hstep, hidle⟩ := (Option.any_eq_true _ _).mp hs.2
    exact ⟨s, s', hrun.mono fun _ _ _ hg => of_decide_eq_true hg, hs.1.1, hs.1.2, hstep,
      Pc.op_eq_none (by simpa using hidle)⟩
  · have hexec : (exec step
        (fun _ a _ => decide (a.overrider = some true ∨ ReaderStep false a)) twoClients
        [.override true, .op true (.write (· + 1)), .step true, .step true,
          .op false .read, .step false, .step false, .step false]).any
        (fun s => (s.client true).opened && (s.client false).pc.op.isSome &&
          (step s (.step false)).any (fun s' => (s'.client false).pc.op.isNone)) = true := by
      decide
    obtain ⟨s, hrun, hs⟩ := exec_run_of_any hexec
    simp only [Bool.and_eq_true] at hs
    obtain ⟨s', hstep, hidle⟩ := (Option.any_eq_true _ _).mp hs.2
    exact ⟨s, s', hrun.mono fun _ _ _ hg => of_decide_eq_true hg, hs.1.1, hs.1.2, hstep,
      Pc.op_eq_none (by simpa using hidle)⟩

end MxApi.Barrier
