/-
Sequences of operations under a barrier: a read between its two samples of the
counter, and operations held together.

A sequence is opened by an acquire and stays open, operation after operation,
until a release that is not skipped. One client `p` is watched: from the acquire
on, the observer counts the writes that others complete, notes whether another
client has been inside, and keeps the data that `p` should find. Everything
rests on one equation, the counter is the one `p` sampled plus two for every
write completed since, plus one while somebody is inside
([`Watched.reading`]); a release that finds the sampled counter again has
therefore met nobody.
-/
import MxApi.Lib.Observer
import MxApi.Mrapi.BarrierWriters

set_option autoImplicit false

namespace MxApi.Barrier

open Lib
open mrapi_atomic_mode_t

variable {D τ : Type}

/-! ## Open sequences -/

/-- The client is between an acquire that did not time out and the release that
ends the sequence. -/
def Client.opened (c : Client D) : Bool :=
  match c.pc with
  | .idle | .enter _ => c.axb.sync.active
  | .body _ access | .release _ access => access ≠ .timedOut
  | _ => false

/-- The release that the client is about to perform fits the sequence it ends.
A sequence opened for reading ends with a read that finds the counter as
sampled, one opened for writing ends with a write; and an acquire that timed out
was not to be held, and its release does not act for another client. -/
def keeps (e : mrapi_msg_t D) (c : Client D) : Bool :=
  match c.pc with
  | .release op .timedOut => !c.axb.sync.active &&
      (op.mode != MRAPI_ATOMIC_WRITE || e.counter != c.axb.sync.last_counter)
  | .release op .skipped => c.axb.sync.active ||
      (if op.mode = MRAPI_ATOMIC_WRITE then c.inside
        else !c.inside && e.counter == c.axb.sync.last_counter)
  | _ => true

/-- A release that fits its sequence is orderly. -/
theorem orderly_of_keeps {e : mrapi_msg_t D} {c : Client D} (h : Engaged c.axb)
    (hpos : Position c) (hkeeps : keeps e c = true) : Orderly e c := by
  unfold Orderly
  unfold Position at hpos
  unfold keeps at hkeeps
  cases hpc : c.pc with
  | release op access =>
    rw [hpc] at hpos hkeeps
    obtain ⟨hmode, htimed, hacq⟩ := hpos
    intro hsynced
    have hidle : c.axb.sync.active = false := by
      simpa [h.synced_eq hmode] using hsynced
    cases op with
    | read =>
      change c.inside = false
      cases access with
      | acquired =>
        by_contra hin
        have hwrite := (hacq rfl).mp (by simpa using hin)
        cases hwrite
      | skipped =>
        simp only [hidle, Bool.false_or, Op.mode, reduceCtorEq, if_false, Bool.and_eq_true,
          Bool.not_eq_true'] at hkeeps
        exact hkeeps.1
      | timedOut => exact htimed rfl
    | write f =>
      change c.inside = true ∨ e.counter ≠ c.axb.sync.last_counter
      cases access with
      | acquired => exact .inl ((hacq rfl).mpr rfl)
      | skipped =>
        simp only [hidle, Bool.false_or, Op.mode, if_true] at hkeeps
        exact .inl hkeeps
      | timedOut =>
        simp only [Op.mode, bne_self_eq_false, Bool.false_or, Bool.and_eq_true, bne_iff_ne]
          at hkeeps
        exact .inr hkeeps.2
  | _ => trivial

/-- How a client comes to have an open sequence: a read acquire has sampled an
even counter, a write acquire has taken the element, or the sequence was open
before, and then the step has touched neither the counter nor what the client
remembers of it. -/
inductive Opening (e : mrapi_msg_t D) (c : Client D) (e' : mrapi_msg_t D) (c' : Client D) : Prop
  | sampled (op : Op D) (hop : c'.pc.op = some op) (hread : op.mode ≠ MRAPI_ATOMIC_WRITE)
      (closed : c.opened = false) (out : c'.inside = false) (even : e.counter % 2 = 0)
      (elem : e' = e) (last : c'.axb.sync.last_counter = e.counter)
  | taken (closed : c.opened = false) (inside : c'.inside = true)
  | kept (opened : c.opened = true) (counter : e'.counter = e.counter)
      (last : c'.axb.sync.last_counter = c.axb.sync.last_counter) (inside : c'.inside = c.inside)

/-- An attempt that fails opens nothing. -/
theorem failed_opened (c : Client D) (op : Op D) (timeout : ℕ) :
    (c.failed op timeout).opened = false := by
  unfold Client.failed
  split
  · rfl
  · split <;> rfl

theorem try_acquire_opening {e : mrapi_msg_t D} {c : Client D} {op : Op D} (h : Engaged c.axb)
    (hmode : c.axb.mode = op.mode) (hout : c.inside = false) (hclosed : c.opened = false)
    (timeout : ℕ) (hopen : (try_acquire e c op timeout).2.opened = true) :
    Opening e c (try_acquire e c op timeout).1 (try_acquire e c op timeout).2 := by
  unfold try_acquire at hopen ⊢
  rw [h.plain, h.barrier] at hopen ⊢
  simp only [Bool.false_eq_true, if_false] at hopen ⊢
  by_cases heven : e.counter % 2 = 0
  · rw [if_pos heven] at hopen ⊢
    by_cases hw : c.axb.mode = MRAPI_ATOMIC_WRITE
    · rw [if_pos hw] at hopen
      cases hopen
    · rw [if_neg hw]
      exact .sampled op rfl (fun hw' => hw (hmode.trans hw')) hclosed hout heven rfl rfl
  · rw [if_neg heven] at hopen
    rw [failed_opened] at hopen
    cases hopen

theorem acquire_cas_opening {e : mrapi_msg_t D} {c : Client D} (op : Op D)
    (hclosed : c.opened = false) (timeout : ℕ)
    (hopen : (acquire_cas e c op timeout).2.opened = true) :
    Opening e c (acquire_cas e c op timeout).1 (acquire_cas e c op timeout).2 := by
  unfold acquire_cas at hopen ⊢
  split
  · exact .taken hclosed rfl
  · rename_i hne
    rw [if_neg hne, failed_opened] at hopen
    cases hopen

/-- A release that ends the sequence leaves it closed; one that is skipped keeps
everything. -/
theorem release_opening {e : mrapi_msg_t D} {c : Client D} {op : Op D} {access : Access}
    (h : Engaged c.axb) (hmode : c.axb.mode = op.mode) (hpc : c.pc = .release op access)
    (hkeeps : keeps e c = true)
    (hopen : (atomic_barrier_release e c op access).2.opened = true) :
    Opening e c (atomic_barrier_release e c op access).1
      (atomic_barrier_release e c op access).2 := by
  unfold atomic_barrier_release at hopen ⊢
  rw [h.barrier, h.synced_eq hmode] at hopen ⊢
  cases hactive : c.axb.sync.active with
  | true =>
    simp only [Bool.not_true, if_true]
    have haccess : access ≠ .timedOut := by
      rintro rfl
      rw [keeps, hpc, hactive] at hkeeps
      cases hkeeps
    exact .kept (by simp [Client.opened, hpc, haccess]) rfl rfl rfl
  | false =>
    rw [hactive] at hopen
    simp only [Bool.not_false, Bool.true_eq_false, Bool.false_eq_true, if_false] at hopen
    split at hopen
    · dsimp only at hopen
      split at hopen
      · simp [Client.opened, Client.leave, Client.finish, hactive] at hopen
      · simp [Client.opened, Client.leave, Client.retry, hactive] at hopen
    · split at hopen
      · simp [Client.opened, Client.leave, Client.finish, hactive] at hopen
      · simp [Client.opened, Client.leave, Client.retry, hactive] at hopen

/-- **The steps after which a sequence is open.** -/
theorem clientStep_opening {e e' : mrapi_msg_t D} {c c' : Client D} (h : Engaged c.axb)
    (hpos : Position c) (hkeeps : keeps e c = true) (hstep : clientStep e c = some (e', c'))
    (hopen : c'.opened = true) : Opening e c e' c' := by
  unfold clientStep at hstep
  unfold Position at hpos
  cases hpc : c.pc with
  | idle =>
    rw [hpc] at hstep
    cases hstep
  | enter op =>
    rw [hpc] at hstep hpos
    rw [h.synced_eq hpos.1] at hstep
    cases ha : c.axb.sync.active with
    | false =>
      rw [ha] at hstep
      cases hstep
      cases hopen
    | true =>
      rw [ha] at hstep
      cases hstep
      exact .kept (by simp [Client.opened, hpc, ha]) rfl rfl rfl
  | spin op timeout =>
    rw [hpc] at hstep hpos
    have hclosed : c.opened = false := by rw [Client.opened, hpc]
    have hopening := try_acquire_opening (e := e) h hpos.1 hpos.2 hclosed timeout
    rw [Option.some.inj hstep] at hopening
    exact hopening hopen
  | cas op timeout =>
    rw [hpc] at hstep
    have hclosed : c.opened = false := by rw [Client.opened, hpc]
    have hopening := acquire_cas_opening (e := e) op hclosed timeout
    rw [Option.some.inj hstep] at hopening
    exact hopening hopen
  | body op access =>
    rw [hpc] at hstep hpos
    cases hstep
    exact .kept (by simp [Client.opened, hpc, hpos.2.1]) rfl rfl rfl
  | release op access =>
    rw [hpc] at hstep hpos
    have hopening := release_opening h hpos.1 hpc hkeeps
    rw [Option.some.inj hstep] at hopening
    exact hopening hopen
  | flip op access valid =>
    rw [hpc] at hpos
    exact hpos.elim
  | flipCas op access valid previous =>
    rw [hpc] at hpos
    exact hpos.elim

/-! ## The data -/

/-- The operation that a label performs on the data. -/
def performs (c : Client D) (a : Label D τ) : Option (Op D) :=
  match a, c.pc with
  | .step _, .body op _ => some op
  | _, _ => none

/-- The data after a step. -/
def applied (o : Option (Op D)) (d : D) : D :=
  match o with
  | none => d
  | some op => op.apply d

theorem try_acquire_data (e : mrapi_msg_t D) (c : Client D) (op : Op D) (timeout : ℕ) :
    (try_acquire e c op timeout).1.data = e.data := by
  unfold try_acquire
  split
  · dsimp only
    split <;> rfl
  · split
    · rfl
    · split <;> rfl

theorem acquire_cas_data (e : mrapi_msg_t D) (c : Client D) (op : Op D) (timeout : ℕ) :
    (acquire_cas e c op timeout).1.data = e.data := by
  unfold acquire_cas
  split <;> rfl

theorem atomic_barrier_release_data (e : mrapi_msg_t D) (c : Client D) (op : Op D)
    (access : Access) : (atomic_barrier_release e c op access).1.data = e.data := by
  unfold atomic_barrier_release
  split
  · rfl
  · split
    · rfl
    · split
      · rfl
      · split <;> rfl

/-- Only the operation itself touches the data. -/
theorem move_data {e e' : mrapi_msg_t D} {c c' : Client D} {a : Label D τ}
    (h : move e c a = some (e', c')) : e'.data = applied (performs c a) e.data := by
  cases a with
  | step t =>
    change clientStep e c = some (e', c') at h
    unfold clientStep at h
    unfold performs
    cases hpc : c.pc with
    | idle =>
      rw [hpc] at h
      cases h
    | enter op =>
      rw [hpc] at h
      cases h
      rfl
    | spin op timeout =>
      rw [hpc] at h
      have hdata := try_acquire_data e c op timeout
      rw [Option.some.inj h] at hdata
      exact hdata
    | cas op timeout =>
      rw [hpc] at h
      have hdata := acquire_cas_data e c op timeout
      rw [Option.some.inj h] at hdata
      exact hdata
    | body op access =>
      rw [hpc] at h
      cases h
      rfl
    | release op access =>
      rw [hpc] at h
      have hdata := atomic_barrier_release_data e c op access
      rw [Option.some.inj h] at hdata
      exact hdata
    | flip op access valid =>
      rw [hpc] at h
      cases h
      rfl
    | flipCas op access valid previous =>
      rw [hpc] at h
      simp only [Option.some.injEq, Prod.mk.injEq] at h
      rw [← h.1]
      dsimp only
      split <;> rfl
  | hold t hold =>
    obtain ⟨-, rfl, -⟩ := move_hold h
    rfl
  | override t =>
    obtain ⟨-, rfl, -⟩ := move_override h
    rfl
  | op t op =>
    obtain ⟨-, rfl, -⟩ := move_start h
    rfl

/-- An operation on the data is performed where the client stands. -/
theorem performs_inside {e e' : mrapi_msg_t D} {c c' : Client D} {a : Label D τ}
    (h : move e c a = some (e', c')) (hsome : performs c a ≠ none) :
    ∃ op access, c.pc = .body op access ∧ c'.inside = c.inside := by
  cases a with
  | step t =>
    change clientStep e c = some (e', c') at h
    unfold performs at hsome
    split at hsome
    · rename_i op access _ hpc
      rw [clientStep, hpc] at h
      cases h
      exact ⟨op, access, hpc, rfl⟩
    · exact absurd rfl hsome
  | _ => exact absurd rfl hsome

/-! ## Watching one client -/

/-- What is noted of the client that is watched, from the acquire that opened its
sequence on: how many writes others have completed, whether another client has
been inside at any moment, the data it should find, whether an operation of its
found other data, and whether the last operation of a held sequence is being
tried again. -/
structure Watch (D : Type) where
  writes : ℕ
  met : Prop
  expected : D
  torn : Prop
  retried : Bool

/-- The label completes a write. -/
def completes (s s' : St D τ) (a : Label D τ) : Bool :=
  (s.client a.client).inside && !(s'.client a.client).inside

/-- Another client than `p` is inside. -/
def others (s : St D τ) (p : τ) : Prop := ∃ t, t ≠ p ∧ (s.client t).inside = true

/-- A step takes a client from the release of a held sequence back to its last
operation. -/
def breaks (c c' : Client D) : Bool :=
  match c.pc, c'.pc with
  | .release _ .skipped, .enter _ => true
  | _, _ => false

variable [DecidableEq τ]

/-- The observer of the client `p`. It starts afresh at an acquire, but for the
one that only repeats the last operation of a held sequence. -/
def watch (p : τ) (s : St D τ) (a : Label D τ) (s' : St D τ) (o : Watch D) : Watch D :=
  if (s'.client p).opened = true ∧ (s.client p).opened = false ∧ o.retried = false then
    { writes := 0, met := others s' p, expected := s'.elem.data, torn := False,
      retried := false }
  else
    { writes := if a.client ≠ p ∧ completes s s' a = true then o.writes + 1 else o.writes
      met := o.met ∨ others s' p
      expected := if a.client = p then applied (performs (s.client p) a) o.expected
        else o.expected
      torn := o.torn ∨ (a.client = p ∧ (performs (s.client p) a).isSome = true ∧
        s.elem.data ≠ o.expected)
      retried := breaks (s.client p) (s'.client p) ||
        (o.retried && (s'.client p).pc.op.isSome) }

/-- What is true of the watched client while its sequence is open. -/
structure Watched (p : τ) (s : St D τ) (o : Watch D) : Prop where
  bounded : s.elem.counter < 2 ^ 16
  whole : o.retried = false
  reading : (s.client p).opened = true → (s.client p).inside = false →
    s.elem.counter =
        u16 ((s.client p).axb.sync.last_counter + (2 * o.writes + s.elem.counter % 2)) ∧
      (o.met → 0 < o.writes ∨ s.elem.counter % 2 = 1)
  writing : (s.client p).opened = true → (s.client p).inside = true → ¬ o.met
  data : (s.client p).opened = true → ¬ o.met → s.elem.data = o.expected ∧ ¬ o.torn

/-- The labels and steps of the sequences of `p` against writers: no override,
only `p` reads, and every release fits its sequence. -/
def SequenceStep (p : τ) (s : St D τ) (a : Label D τ) : Prop :=
  match a with
  | .override _ => False
  | .op t op => t = p ∨ op.mode = MRAPI_ATOMIC_WRITE
  | .step t => keeps s.elem (s.client t) = true
  | .hold _ _ => True

instance (p : τ) (s : St D τ) (a : Label D τ) : Decidable (SequenceStep p s a) := by
  unfold SequenceStep
  cases a <;> infer_instance

omit [DecidableEq τ] in
theorem SequenceStep.own {p : τ} {s : St D τ} {a : Label D τ} (hex : Exclusive s)
    (h : SequenceStep p s a) : OwnRelease s a := by
  cases a with
  | override t => exact h
  | step t => exact orderly_of_keeps (hex.engaged t) (hex.position t) h
  | hold t hold => trivial
  | op t op => trivial

omit [DecidableEq τ] in
/-- The steps of any client after which its sequence is open. -/
theorem SequenceStep.opening {p : τ} {s : St D τ} {a : Label D τ} {e' : mrapi_msg_t D}
    {c' : Client D} (hex : Exclusive s) (h : SequenceStep p s a)
    (hmove : move s.elem (s.client a.client) a = some (e', c')) (hopen : c'.opened = true) :
    Opening s.elem (s.client a.client) e' c' := by
  cases a with
  | override t => exact h.elim
  | step t => exact clientStep_opening (hex.engaged t) (hex.position t) h hmove hopen
  | hold t hold =>
    obtain ⟨hpc, rfl, rfl⟩ := move_hold hmove
    refine .kept ?_ rfl rfl rfl
    rw [Client.opened, hpc] at hopen ⊢
    exact hopen
  | op t op =>
    obtain ⟨hpc, rfl, rfl⟩ := move_start hmove
    refine .kept ?_ rfl rfl rfl
    rw [Client.opened, hpc]
    exact hopen

/-- A release that finds the counter as the client saw it last succeeds. -/
theorem release_idle {e : mrapi_msg_t D} {c : Client D} {op : Op D} {access : Access}
    (h : Engaged c.axb) (hlast : e.counter = c.axb.sync.last_counter) :
    (atomic_barrier_release e c op access).2.pc = .idle := by
  unfold atomic_barrier_release
  rw [h.barrier]
  split
  · rfl
  · split
    · rename_i hfalse
      cases hfalse
    · split
      · dsimp only
        rw [if_pos hlast.symm]
        rfl
      · rfl

/-- A skipped release is not retried. -/
theorem skipped_idle {e : mrapi_msg_t D} {c : Client D} {op : Op D} (h : Engaged c.axb)
    (hpos : Position c) (hpc : c.pc = .release op .skipped) (hkeeps : keeps e c = true)
    (hlast : c.inside = true → e.counter = c.axb.sync.last_counter) :
    (atomic_barrier_release e c op .skipped).2.pc = .idle := by
  rw [Position, hpc] at hpos
  rw [keeps, hpc] at hkeeps
  cases hactive : c.axb.sync.active with
  | true =>
    unfold atomic_barrier_release
    rw [h.synced_eq hpos.1, hactive]
    rfl
  | false =>
    apply release_idle h
    dsimp only at hkeeps
    rw [hactive, Bool.false_or] at hkeeps
    split at hkeeps
    · exact hlast hkeeps
    · simp only [Bool.and_eq_true, beq_iff_eq] at hkeeps
      exact hkeeps.2

omit [DecidableEq τ] in
theorem SequenceStep.not_breaks {p : τ} {s : St D τ} {a : Label D τ} {e' : mrapi_msg_t D}
    {c' : Client D} (hex : Exclusive s) (h : SequenceStep p s a)
    (hmove : move s.elem (s.client a.client) a = some (e', c')) :
    breaks (s.client a.client) c' = false := by
  cases hpc : (s.client a.client).pc with
  | release op access =>
    cases access with
    | skipped =>
      cases a with
      | step t =>
        change (s.client t).pc = _ at hpc
        change clientStep s.elem (s.client t) = some (e', c') at hmove
        have hidle := skipped_idle (hex.engaged t) (hex.position t) hpc h hex.last
        rw [clientStep, hpc] at hmove
        rw [Option.some.inj hmove] at hidle
        change breaks (s.client t) c' = false
        rw [breaks, hpc, hidle]
      | hold t hold =>
        rw [(move_hold hmove).1] at hpc
        cases hpc
      | override t => exact h.elim
      | op t op =>
        rw [(move_start hmove).1] at hpc
        cases hpc
    | _ => rw [breaks, hpc]
  | _ => rw [breaks, hpc]

/-! ## The others -/

/-- The others write, and who of them has an open sequence is inside. -/
structure Others (p : τ) (s : St D τ) : Prop where
  write : ∀ t, t ≠ p → ∀ op, (s.client t).pc.op = some op → op.mode = MRAPI_ATOMIC_WRITE
  inside : ∀ t, t ≠ p → (s.client t).opened = true → (s.client t).inside = true

omit [DecidableEq τ] in
theorem Others.init (p : τ) (src dest timeout : τ → ℕ) (d : D) :
    Others p (init (fun t => sys_atomic_barrier_init (src t) (dest t) (timeout t)) d) where
  write := fun t _ op hop => by cases hop
  inside := fun t _ hopen => by cases hopen

theorem Others.step {p : τ} {s s' : St D τ} {a : Label D τ} (hex : Exclusive s)
    (h : Others p s) (hstep : step s a = some s') (hguard : SequenceStep p s a) :
    Others p s' := by
  obtain ⟨c', hmove, hclient⟩ := step_eq_some hstep
  have hwrite : ∀ t, t ≠ p → ∀ op, (s'.client t).pc.op = some op →
      op.mode = MRAPI_ATOMIC_WRITE := by
    intro t htp op hop
    rw [hclient] at hop
    by_cases ht : t = a.client
    · subst ht
      rw [Function.update_self] at hop
      rcases move_op hmove with hnone | hsame | ⟨t', op', rfl, hnew⟩
      · rw [hnone] at hop
        cases hop
      · exact h.write a.client htp op (hsame.symm.trans hop)
      · rw [hnew] at hop
        cases hop
        exact hguard.resolve_left htp
    · rw [Function.update_of_ne ht] at hop
      exact h.write t htp op hop
  refine ⟨hwrite, ?_⟩
  intro t htp hopen
  have hmode := hwrite t htp
  rw [hclient] at hopen hmode ⊢
  by_cases ht : t = a.client
  · subst ht
    rw [Function.update_self] at hopen hmode ⊢
    cases hguard.opening hex hmove hopen with
    | sampled op hop hread => exact absurd (hmode op hop) hread
    | taken hclosed hin => exact hin
    | kept hopened hcounter hlast hin =>
      rw [hin]
      exact h.inside a.client htp hopened
  · rw [Function.update_of_ne ht] at hopen ⊢
    exact h.inside t htp hopen

/-! ## The watched client -/

theorem breaks_self (c : Client D) : breaks c c = false := by
  unfold breaks
  cases c.pc with
  | release op access => cases access <;> rfl
  | _ => rfl

omit [DecidableEq τ] in
/-- Somebody else inside makes the counter odd. -/
theorem Exclusive.odd_of_others {s : St D τ} (h : Exclusive s) {p : τ} (ho : others s p) :
    s.elem.counter % 2 = 1 :=
  h.odd_iff.mpr ⟨ho.choose, ho.choose_spec.2⟩

omit [DecidableEq τ] in
theorem Exclusive.not_others {s : St D τ} (h : Exclusive s) {p : τ}
    (hp : (s.client p).inside = true) : ¬ others s p := by
  rintro ⟨t, htp, ht⟩
  exact htp (h.unique ht hp)

theorem Effect.bounded {e e' : mrapi_msg_t D} {c c' : Client D} (h : Effect e c e' c')
    (hb : e.counter < 2 ^ 16) : e'.counter < 2 ^ 16 := by
  cases h with
  | outside _ _ hcounter => rw [hcounter]; exact hb
  | stay _ _ hcounter _ => rw [hcounter]; exact hb
  | take _ _ _ hcounter _ => rw [hcounter]; exact u16_lt _
  | leave _ _ hcounter => rw [hcounter]; exact u16_lt _

/-- The equation of the counter after one more turn of it. -/
theorem u16_turn {last writes counter : ℕ}
    (h : counter = u16 (last + (2 * writes + counter % 2))) :
    u16 (counter + 1) =
      u16 (last + (2 * (writes + counter % 2) + u16 (counter + 1) % 2)) := by
  have hnext : 2 * (writes + counter % 2) + u16 (counter + 1) % 2 =
      2 * writes + counter % 2 + 1 := by
    rw [u16_mod_two]
    omega
  rw [hnext]
  calc u16 (counter + 1) = u16 (u16 (last + (2 * writes + counter % 2)) + 1) := by rw [← h]
    _ = u16 (last + (2 * writes + counter % 2 + 1)) := by rw [u16_add, Nat.add_assoc]

/-- **Another client moves** while `p` has an open sequence. -/
theorem Watched.step_other {p : τ} {s s' : St D τ} {a : Label D τ} {o : Watch D}
    (hex : Exclusive s) (hex' : Exclusive s') (hothers : Others p s) (h : Watched p s o)
    (hstep : step s a = some s') (hguard : SequenceStep p s a) (hap : a.client ≠ p) :
    Watched p s' (watch p s a s' o) := by
  have heffect := (hex.sound (hguard.own hex) hstep).effect
  obtain ⟨c', hmove, hclient⟩ := step_eq_some hstep
  have hp : s'.client p = s.client p := by
    rw [hclient, Function.update_of_ne (Ne.symm hap)]
  have hself : s'.client a.client = c' := by rw [hclient, Function.update_self]
  have hwatch : watch p s a s' o =
      { writes := if completes s s' a = true then o.writes + 1 else o.writes
        met := o.met ∨ others s' p, expected := o.expected, torn := o.torn
        retried := false } := by
    unfold watch
    rw [hp, breaks_self]
    simp [hap, h.whole]
  rw [hwatch]
  refine ⟨heffect.bounded h.bounded, rfl, ?_, ?_, ?_⟩
  · intro hopen hout
    rw [hp] at hopen hout ⊢
    obtain ⟨heq, hmet⟩ := h.reading hopen hout
    unfold completes
    cases heffect with
    | outside hin hin' hcounter =>
      rw [hin, Bool.false_and]
      refine ⟨?_, ?_⟩
      · rw [hcounter]
        exact heq
      · rintro (hm | ho)
        · rw [hcounter]
          exact hmet hm
        · exact .inr (hex'.odd_of_others ho)
    | stay hin hin' hcounter hlast =>
      rw [hin', Bool.not_true, Bool.and_false]
      refine ⟨?_, fun _ => .inr (hex'.odd_iff.mpr ⟨a.client, hin'⟩)⟩
      rw [hcounter]
      exact heq
    | take hin hin' heven hcounter hlast =>
      rw [hin, Bool.false_and]
      refine ⟨?_, fun _ => .inr (hex'.odd_iff.mpr ⟨a.client, hin'⟩)⟩
      have hturn := u16_turn heq
      rw [heven] at hturn
      rw [hcounter]
      exact hturn
    | leave hin hin' hcounter =>
      rw [hin, hin']
      refine ⟨?_, fun _ => .inl (Nat.succ_pos _)⟩
      have hturn := u16_turn heq
      rw [hex.odd_iff.mpr ⟨a.client, hin⟩] at hturn
      rw [hcounter]
      exact hturn
  · intro hopen hin
    rw [hp] at hopen hin
    rintro (hm | ho)
    · exact h.writing hopen hin hm
    · exact hex'.not_others (hp ▸ hin) ho
  · intro hopen hmet
    rw [hp] at hopen
    obtain ⟨hdata, htorn⟩ := h.data hopen (fun hm => hmet (.inl hm))
    refine ⟨?_, htorn⟩
    -- an operation on the data is performed inside, and that would have been noted
    have hnone : performs (s.client a.client) a = none := by
      by_contra hsome
      obtain ⟨op, access, hpc, hin⟩ := performs_inside hmove hsome
      have hpos := hex.position a.client
      rw [Position, hpc] at hpos
      have hopened : (s.client a.client).opened = true := by
        simp [Client.opened, hpc, hpos.2.1]
      refine hmet (.inr ⟨a.client, hap, ?_⟩)
      rw [hself, hin]
      exact hothers.inside a.client hap hopened
    rw [move_data hmove, hnone]
    exact hdata

/-- **The watched client moves.** -/
theorem Watched.step_self {p : τ} {s s' : St D τ} {a : Label D τ} {o : Watch D}
    (hex : Exclusive s) (hex' : Exclusive s') (h : Watched p s o)
    (hstep : step s a = some s') (hguard : SequenceStep p s a) (hap : a.client = p) :
    Watched p s' (watch p s a s' o) := by
  have heffect := (hex.sound (hguard.own hex) hstep).effect
  obtain ⟨c', hmove, hclient⟩ := step_eq_some hstep
  have hself : s'.client a.client = c' := by rw [hclient, Function.update_self]
  have hbounded := heffect.bounded h.bounded
  subst hap
  have hwhole : (watch a.client s a s' o).retried = false := by
    have hbreaks : breaks (s.client a.client) (s'.client a.client) = false := by
      rw [hself]
      exact hguard.not_breaks hex hmove
    unfold watch
    split
    · rfl
    · rw [hbreaks, h.whole]
      rfl
  by_cases hopen : (s'.client a.client).opened = true
  swap
  · exact ⟨hbounded, hwhole, fun h' => absurd h' hopen, fun h' => absurd h' hopen,
      fun h' => absurd h' hopen⟩
  have hopening := hguard.opening hex hmove (by rw [← hself]; exact hopen)
  rw [← hself] at hopening hmove
  cases hopening with
  | sampled op hop hread hclosed hout heven helem hlast =>
    have halone : ¬ others s' a.client := by
      intro ho
      have hodd := hex'.odd_of_others ho
      rw [helem] at hodd
      omega
    unfold watch
    rw [if_pos ⟨hopen, hclosed, h.whole⟩]
    refine ⟨hbounded, rfl, ?_, ?_, fun _ _ => ⟨rfl, not_false⟩⟩
    · intro _ _
      refine ⟨?_, fun ho => absurd ho halone⟩
      rw [helem, hlast, heven]
      exact (u16_of_lt h.bounded).symm
    · intro _ hin
      rw [hout] at hin
      cases hin
  | taken hclosed hin =>
    unfold watch
    rw [if_pos ⟨hopen, hclosed, h.whole⟩]
    refine ⟨hbounded, rfl, ?_, fun _ _ => hex'.not_others hin, fun _ _ => ⟨rfl, not_false⟩⟩
    intro _ hout
    rw [hin] at hout
    cases hout
  | kept hopened hcounter hlast hin =>
    have hothers : others s' a.client → others s a.client := by
      rintro ⟨t, ht, htin⟩
      rw [hclient, Function.update_of_ne ht] at htin
      exact ⟨t, ht, htin⟩
    unfold watch at hwhole ⊢
    rw [if_neg (by simp [hopened])] at hwhole ⊢
    refine ⟨hbounded, hwhole, ?_, ?_, ?_⟩
    · intro _ hout
      rw [hin] at hout
      obtain ⟨heq, hmet⟩ := h.reading hopened hout
      rw [hcounter, hlast]
      simp only [ne_eq, not_true_eq_false, false_and, if_false]
      refine ⟨heq, ?_⟩
      rintro (hm | ho)
      · exact hmet hm
      · exact .inr (hex.odd_of_others (hothers ho))
    · intro _ hin'
      rw [hin] at hin'
      rintro (hm | ho)
      · exact h.writing hopened hin' hm
      · exact hex.not_others hin' (hothers ho)
    · intro _ hmet
      obtain ⟨hdata, htorn⟩ := h.data hopened (fun hm => hmet (.inl hm))
      dsimp only
      rw [if_pos rfl, move_data hmove, hdata]
      refine ⟨rfl, ?_⟩
      rintro (ht | ⟨-, -, hne⟩)
      · exact htorn ht
      · exact hne rfl

/-- What holds in every state that `p` and the writers reach. -/
structure Sequences (p : τ) (s : St D τ) : Prop where
  exclusive : Exclusive s
  others : Others p s

theorem Sequences.step {p : τ} {s s' : St D τ} {a : Label D τ} (h : Sequences p s)
    (hstep : step s a = some s') (hguard : SequenceStep p s a) : Sequences p s' where
  exclusive := h.exclusive.step hstep (hguard.own h.exclusive)
  others := h.others.step h.exclusive hstep hguard

omit [DecidableEq τ] in
theorem Sequences.init (p : τ) {src dest timeout : τ → ℕ} (hremote : ∀ t, dest t ≠ src t)
    (d : D) :
    Sequences p (init (fun t => sys_atomic_barrier_init (src t) (dest t) (timeout t)) d) where
  exclusive := Exclusive.init (fun t => ⟨rfl, hremote t, rfl⟩) d
  others := Others.init p src dest timeout d

/-- The runs of `p` and the writers, with what has been noted of `p`. -/
abbrev SequenceRun (p : τ) (start : St D τ) (s : St D τ) (o : Watch D) : Prop :=
  ∃ o₀ : Watch D, o₀.retried = false ∧
    Run (observed step (watch p)) (fun q a _ => SequenceStep p q.1 a) (start, o₀) (s, o)

/-- The observer agrees with the state. -/
theorem sequences_watched {p : τ} {src dest timeout : τ → ℕ} (hremote : ∀ t, dest t ≠ src t)
    {d : D} {s : St D τ} {o : Watch D}
    (h : SequenceRun p
      (init (fun t => sys_atomic_barrier_init (src t) (dest t) (timeout t)) d) s o) :
    Sequences p s ∧ Watched p s o := by
  obtain ⟨o₀, hfresh, hrun⟩ := h
  refine Run.observed_invariant (G := fun s a _ => SequenceStep p s a)
    (I := Sequences p) (J := Watched p) ?_ ?_ hrun (Sequences.init p hremote d) ?_
  · intro s a s' hI hstep hguard
    exact hI.step hstep hguard
  · intro s a s' o hI hI' hJ hstep hguard
    by_cases hap : a.client = p
    · exact hJ.step_self hI.exclusive hI'.exclusive hstep hguard hap
    · exact hJ.step_other hI.exclusive hI'.exclusive hI.others hstep hguard hap
  · refine ⟨Nat.two_pow_pos 16, hfresh, ?_, ?_, ?_⟩ <;> (intro hopen; cases hopen)

/-! ## The end of a sequence -/

/-- A release that ends a sequence with success has found the sequence
undisturbed. -/
theorem Watched.ended {p : τ} {s s' : St D τ} {o : Watch D} {op : Op D} {access : Access}
    (hseq : Sequences p s) (h : Watched p s o) (hpc : (s.client p).pc = .release op access)
    (haccess : access ≠ .timedOut) (hactive : (s.client p).axb.sync.active = false)
    (hstep : step s (.step p) = some s') (hret : (s'.client p).pc = .idle)
    (hwrites : o.writes < 2 ^ 15) : ¬ o.met ∧ ¬ o.torn := by
  have hopened : (s.client p).opened = true := by simp [Client.opened, hpc, haccess]
  suffices hmet : ¬ o.met from ⟨hmet, (h.data hopened hmet).2⟩
  cases hin : (s.client p).inside with
  | true => exact h.writing hopened hin
  | false =>
    obtain ⟨heq, hmet⟩ := h.reading hopened hin
    -- outside, the sequence ends with a read that finds the counter it sampled
    have hengaged := hseq.exclusive.engaged p
    have hpos := hseq.exclusive.position p
    rw [Position, hpc] at hpos
    have hsame : s.elem.counter = (s.client p).axb.sync.last_counter := by
      obtain ⟨c', hmove, hclient⟩ := step_eq_some hstep
      change clientStep s.elem (s.client p) = some (s'.elem, c') at hmove
      rw [hclient] at hret
      change (Function.update s.client p c' p).pc = .idle at hret
      rw [Function.update_self] at hret
      rw [clientStep, hpc] at hmove
      unfold atomic_barrier_release at hmove
      rw [hengaged.barrier, hengaged.synced_eq hpos.1, hactive] at hmove
      simp only [Bool.not_false, Bool.true_eq_false, Bool.false_eq_true, if_false] at hmove
      split at hmove
      · simp only [Option.some.injEq, Prod.mk.injEq] at hmove
        rw [← hmove.2] at hret
        by_contra hne
        rw [if_neg (Ne.symm hne)] at hret
        cases hret
      · by_contra hne
        rw [if_neg hne] at hmove
        simp only [Option.some.injEq, Prod.mk.injEq] at hmove
        rw [← hmove.2] at hret
        cases hret
    have hzero : 2 * o.writes + s.elem.counter % 2 = 0 := by
      apply eq_zero_of_u16_add (m := (s.client p).axb.sync.last_counter)
      · rw [← heq, hsame]
      · omega
    intro hm
    rcases hmet hm with hpos' | hodd <;> omega

end MxApi.Barrier
