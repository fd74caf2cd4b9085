/-
Writers under one barrier, with arbitrary timeouts and held operations.

Every operation is a write here, so the one disorderly release is the one that
takes another client's: a client that is outside reaches its release, because
its acquire timed out, and finds the counter where it saw it last
([`steals`]). Without such a step the counter is odd exactly while one client is
inside; with one, it is not ([`writers_not_exclude`]).
-/
import MxApi.Mrapi.BarrierExclusion

set_option autoImplicit false

namespace MxApi.Barrier

open Lib
open mrapi_atomic_mode_t

variable {D τ : Type}

/-! ## The operation of a client -/

theorem failed_op (c : Client D) (op : Op D) (timeout : ℕ) :
    (c.failed op timeout).pc.op = some op := by
  unfold Client.failed
  split
  · rfl
  · split <;> rfl

theorem proceed_op (c : Client D) (op : Op D) (access : Access) :
    (c.proceed op access).pc.op = some op := by
  cases access <;> rfl

theorem try_acquire_op (e : mrapi_msg_t D) (c : Client D) (op : Op D) (timeout : ℕ) :
    (try_acquire e c op timeout).2.pc.op = some op := by
  unfold try_acquire
  split
  · exact proceed_op c op .acquired
  · split
    · dsimp only
      split
      · exact proceed_op c op .acquired
      · exact failed_op c op timeout
    · split
      · dsimp only
        split
        · rfl
        · exact proceed_op (c.sample e.counter) op .acquired
      · exact failed_op (c.sample e.counter) op timeout

theorem acquire_cas_op (e : mrapi_msg_t D) (c : Client D) (op : Op D) (timeout : ℕ) :
    (acquire_cas e c op timeout).2.pc.op = some op := by
  unfold acquire_cas
  split
  · exact proceed_op c.takeWrite op .acquired
  · exact failed_op c op timeout

theorem atomic_barrier_release_op (e : mrapi_msg_t D) (c : Client D) (op : Op D)
    (access : Access) :
    (atomic_barrier_release e c op access).2.pc.op = some op ∨
      (atomic_barrier_release e c op access).2.pc.op = none := by
  unfold atomic_barrier_release
  split
  · exact .inr rfl
  · split
    · exact .inl rfl
    · split
      · dsimp only
        split
        · exact .inr rfl
        · exact .inl rfl
      · split
        · exact .inr rfl
        · exact .inl rfl

/-- A client keeps to its operation until it has returned. -/
theorem clientStep_op {e e' : mrapi_msg_t D} {c c' : Client D}
    (h : clientStep e c = some (e', c')) : c'.pc.op = c.pc.op ∨ c'.pc.op = none := by
  unfold clientStep at h
  cases hpc : c.pc with
  | idle =>
    rw [hpc] at h
    cases h
  | enter op =>
    rw [hpc] at h
    simp only [Option.some.injEq, Prod.mk.injEq] at h
    rw [← h.2]
    left
    split
    · rfl
    · exact proceed_op c op .skipped
  | spin op timeout =>
    rw [hpc] at h
    have hop := try_acquire_op e c op timeout
    rw [Option.some.inj h] at hop
    exact .inl hop
  | cas op timeout =>
    rw [hpc] at h
    have hop := acquire_cas_op e c op timeout
    rw [Option.some.inj h] at hop
    exact .inl hop
  | body op access =>
    rw [hpc] at h
    cases h
    exact .inl rfl
  | release op access =>
    rw [hpc] at h
    have hop := atomic_barrier_release_op e c op access
    rw [Option.some.inj h] at hop
    exact hop
  | flip op access valid =>
    rw [hpc] at h
    cases h
    exact .inl rfl
  | flipCas op access valid previous =>
    rw [hpc] at h
    simp only [Option.some.injEq, Prod.mk.injEq] at h
    rw [← h.2]
    exact .inr rfl

/-- The operation of a client after a move: none, the one it had, or the one
the label starts. -/
theorem move_op {e e' : mrapi_msg_t D} {c c' : Client D} {a : Label D τ}
    (h : move e c a = some (e', c')) :
    c'.pc.op = none ∨ c'.pc.op = c.pc.op ∨ ∃ t op, a = .op t op ∧ c'.pc.op = some op := by
  cases a with
  | step t => exact (clientStep_op h).symm.imp_right .inl
  | hold t hold =>
    obtain ⟨-, -, rfl⟩ := move_hold h
    exact .inr (.inl rfl)
  | override t =>
    obtain ⟨-, -, rfl⟩ := move_override h
    exact .inr (.inl rfl)
  | op t op =>
    obtain ⟨-, -, rfl⟩ := move_start h
    exact .inr (.inr ⟨t, op, rfl, rfl⟩)

/-! ## Runs of writers -/

/-- The labels of writers: no override, and only write operations. -/
def writes : Label D τ → Bool
  | .override _ | .op _ .read => false
  | _ => true

/-- The release that the client is about to perform is not its own, and would
succeed: it is outside, and the counter is where it saw it last. -/
def steals (e : mrapi_msg_t D) (c : Client D) : Bool :=
  match c.pc with
  | .release _ _ => c.axb.synced && !c.inside && e.counter == c.axb.sync.last_counter
  | _ => false

/-- The label performs a release that is not the client's own. -/
def stealing (s : St D τ) : Label D τ → Bool
  | .step t => steals s.elem (s.client t)
  | _ => false

/-- A step of a writer that does not release for another. -/
def WriterStep (s : St D τ) (a : Label D τ) : Prop := writes a = true ∧ stealing s a = false

instance (s : St D τ) (a : Label D τ) : Decidable (WriterStep s a) := by
  unfold WriterStep
  infer_instance

/-- Everyone's operation is a write. -/
def Writing (s : St D τ) : Prop :=
  ∀ t op, (s.client t).pc.op = some op → op.mode = MRAPI_ATOMIC_WRITE

/-- A writer's release that does not steal is orderly. -/
theorem WriterStep.own {s : St D τ} {a : Label D τ} (hw : Writing s) (h : WriterStep s a) :
    OwnRelease s a := by
  cases a with
  | override t =>
    have hfalse := h.1
    cases hfalse
  | hold t hold => trivial
  | op t op => trivial
  | step t =>
    have hsteal : steals s.elem (s.client t) = false := h.2
    have hmode := hw t
    change Orderly s.elem (s.client t)
    unfold Orderly
    unfold steals at hsteal
    cases hpc : (s.client t).pc with
    | release op access =>
      rw [hpc] at hsteal hmode
      intro hsynced
      dsimp only at hsteal ⊢
      rw [hmode op rfl]
      by_contra hboth
      simp only [hsynced, Bool.true_and] at hsteal
      simp only [not_or, not_not] at hboth
      rw [hboth.2, Bool.eq_false_iff.mpr hboth.1] at hsteal
      simp at hsteal
    | _ => trivial

variable [DecidableEq τ]

theorem Writing.step {s s' : St D τ} {a : Label D τ} (h : Writing s)
    (hstep : step s a = some s') (hw : writes a = true) : Writing s' := by
  obtain ⟨c', hmove, hclient⟩ := step_eq_some hstep
  intro t op hop
  rw [hclient] at hop
  by_cases ht : t = a.client
  swap
  · rw [Function.update_of_ne ht] at hop
    exact h t op hop
  rw [ht, Function.update_self] at hop
  rcases move_op hmove with hnone | hsame | ⟨t', op', rfl, hnew⟩
  · rw [hnone] at hop
    cases hop
  · exact h a.client op (hsame.symm.trans hop)
  · rw [hnew] at hop
    cases hop
    cases op with
    | read => cases hw
    | write f => rfl

/-- What holds in every state that writers reach. -/
theorem writers_invariant {src dest timeout : τ → ℕ} (hremote : ∀ t, dest t ≠ src t) {d : D}
    {s : St D τ}
    (h : Run step (fun s a _ => WriterStep s a)
      (init (fun t => sys_atomic_barrier_init (src t) (dest t) (timeout t)) d) s) :
    Exclusive s ∧ Writing s := by
  refine Run.invariant (I := fun s => Exclusive s ∧ Writing s) ?_ h ?_
  · rintro s a s' ⟨hex, hwr⟩ hstep hguard
    exact ⟨hex.step hstep (hguard.own hwr), hwr.step hstep hguard.1⟩
  · refine ⟨Exclusive.init (fun t => ⟨rfl, hremote t, rfl⟩) d, ?_⟩
    intro t op hop
    cases hop

/-! ## The exclusion -/

/-- The acquire of the operation in progress timed out. -/
def Client.timedOut (c : Client D) : Bool :=
  match c.pc with
  | .body _ .timedOut | .release _ .timedOut | .flip _ .timedOut _
  | .flipCas _ .timedOut _ _ => true
  | _ => false

/-- Writers exclude each other: the counter is odd exactly while one of them is
between a successful acquire and its release, and there is never a second; who
performs an operation after an acquire of its own is inside; and who timed out
does not stand before its operation. -/
structure WritersExclude (s : St D τ) : Prop where
  odd_iff : s.elem.counter % 2 = 1 ↔ ∃ t, (s.client t).inside = true
  unique : ∀ t t', (s.client t).inside = true → (s.client t').inside = true → t = t'
  performs : ∀ t op, (s.client t).pc = .body op .acquired → (s.client t).inside = true
  performs_not : ∀ t op, (s.client t).pc ≠ .body op .timedOut

/-- **Writers exclude each other**, in every run in which no client outside
finds, at its release, the counter where it saw it last; and then a client whose
acquire timed out changes nothing. -/
theorem writers_exclude {src dest timeout : τ → ℕ} (hremote : ∀ t, dest t ≠ src t) {d : D}
    {s : St D τ}
    (h : Run step (fun s a _ => WriterStep s a)
      (init (fun t => sys_atomic_barrier_init (src t) (dest t) (timeout t)) d) s) :
    WritersExclude s ∧
      ∀ t s', (s.client t).timedOut = true → WriterStep s (.step t) →
        step s (.step t) = some s' → s'.elem = s.elem := by
  obtain ⟨hex, hwr⟩ := writers_invariant hremote h
  refine ⟨⟨hex.odd_iff, fun t t' => hex.unique, ?_, ?_⟩, ?_⟩
  · intro t op hpc
    have hpos := hex.position t
    rw [Position, hpc] at hpos
    exact (hpos.2.2 rfl).mpr (hwr t op (by rw [hpc]; rfl))
  · intro t op hpc
    have hpos := hex.position t
    rw [Position, hpc] at hpos
    exact hpos.2.1 rfl
  · intro t s' htimed hguard hstep
    obtain ⟨c', hmove, -⟩ := step_eq_some hstep
    have hpos := hex.position t
    have hsteal : steals s.elem (s.client t) = false := hguard.2
    change clientStep s.elem (s.client t) = some (s'.elem, c') at hmove
    unfold Client.timedOut at htimed
    split at htimed
    · rename_i op hpc
      rw [Position, hpc] at hpos
      exact absurd rfl hpos.2.1
    · rename_i op hpc
      rw [Position, hpc] at hpos
      unfold steals at hsteal
      rw [hpc, hpos.2.1 rfl] at hsteal
      rw [clientStep, hpc] at hmove
      unfold atomic_barrier_release at hmove
      have hmode : (s.client t).axb.mode ≠ MRAPI_ATOMIC_READ := by
        rw [hpos.1, hwr t op (by rw [hpc]; rfl)]
        decide
      rw [(hex.engaged t).barrier] at hmove
      simp only [Bool.false_eq_true, if_false, hmode] at hmove
      by_cases hsynced : (s.client t).axb.synced = false
      · rw [if_pos hsynced] at hmove
        simp only [Option.some.injEq, Prod.mk.injEq] at hmove
        exact hmove.1.symm
      · -- the compare and swap of a release that does not steal fails
        have hne : s.elem.counter ≠ (s.client t).axb.sync.last_counter := by
          simpa [Bool.not_eq_false _ ▸ hsynced] using hsteal
        rw [if_neg hsynced, if_neg hne] at hmove
        simp only [Option.some.injEq, Prod.mk.injEq] at hmove
        exact hmove.1.symm
    · rename_i op valid hpc
      rw [Position, hpc] at hpos
      exact hpos.elim
    · rename_i op valid previous hpc
      rw [Position, hpc] at hpos
      exact hpos.elim
    · cases htimed

/-- Two writers in two processes; the second one does not wait. -/
def twoWriters : St ℕ Bool :=
  init (fun t => sys_atomic_barrier_init t.toNat (!t).toNat (if t then 0 else MCA_INFINITE)) 0

/-- A run of the two in which the first one writes and the second one, after it
has timed out once, does so too. -/
theorem writers_exclude_two :
    ∃ s, Run step (fun s a _ => WriterStep s a) twoWriters s ∧
      s.elem.data = 1 ∧ (s.client true).inside = true ∧ WritersExclude s := by
  have hexec : (exec step (fun s a _ => decide (WriterStep s a)) twoWriters
      [.op false (.write (· + 1)), .step false, .step false, .step false,
        .op true (.write (· + 1)), .step true, .step true,
        .step false, .step false, .step true, .step true, .step true, .step true]).any
      (fun s => (s.elem.data == 1) && (s.client true).inside) = true := by
    decide
  obtain ⟨s, hrun, hs⟩ := exec_run_of_any hexec
  simp only [Bool.and_eq_true, beq_iff_eq] at hs
  have hrun' : Run step (fun s a _ => WriterStep s a) twoWriters s :=
    hrun.mono fun _ _ _ hg => of_decide_eq_true hg
  exact ⟨s, hrun', hs.1, hs.2, (writers_exclude (by decide) hrun').1⟩

/-- **The exclusion fails.** The first writer has acquired; the second one finds
the counter odd, times out, and its release makes the counter even, although the
first one is inside and the second one has performed nothing. -/
theorem writers_not_exclude :
    ∃ s, Run step (fun _ a _ => writes a = true) twoWriters s ∧
      (s.client false).inside = true ∧ s.elem.counter % 2 = 0 ∧
      (s.client true).pc.op.isNone = true ∧ (s.client true).rc = false := by
  have hexec : (exec step (fun _ a _ => writes a) twoWriters
      [.op false (.write (· + 1)), .step false, .step false, .step false,
        .op true (.write (· + 1)), .step true, .step true, .step true]).any
      (fun s => (s.client false).inside && (s.elem.counter % 2 == 0) &&
        (s.client true).pc.op.isNone && !(s.client true).rc) = true := by
    decide
  obtain ⟨s, hrun, hs⟩ := exec_run_of_any hexec
  simp only [Bool.and_eq_true, beq_iff_eq, Bool.not_eq_true'] at hs
  exact ⟨s, hrun, hs.1.1.1, hs.1.1.2, hs.1.2, hs.2⟩

end MxApi.Barrier
