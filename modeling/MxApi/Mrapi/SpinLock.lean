/-
`sys_atomic_lock` and `sys_atomic_release` on one lock word, by any number of
clients.

Both run one access to the word inside the loop of the barrier: acquire, access,
release, and again while the release fails. The sync object is optional and each
client may have its own, so nothing is assumed of it: whether an acquire and a
release succeed is left to the label. Without a sync object both always do.

A lock is one test and set per turn of that loop, and it reports success whatever
the test found. It is a lock where the test and set finds the word free, or taken
by an earlier turn of the same call ([`Fair`]); otherwise two clients come to hold
it ([`lock_twice`]).
-/
import Mathlib.Data.Nat.Notation
import MxApi.Lib.Run
import MxApi.Lib.Section

set_option autoImplicit false

namespace MxApi.SpinLock

open Lib

variable {τ : Type}

/-- Where a client stands in a call. `rc` is the status it is going to report;
`won` records whether a test and set of this call has found the word free. -/
inductive Pc
  | idle
  | lockTry (rc won : Bool)
  | lockRelease (rc won : Bool)
  | releaseTry (rc : Bool)
  | releaseRelease (rc : Bool)
  deriving DecidableEq, Repr

/-- A client. `holds` records that a lock call has returned `MRAPI_TRUE` and no
release of this client has been performed since. -/
structure Client where
  pc : Pc
  holds : Bool
  deriving DecidableEq, Repr

/-- The lock word and the clients. -/
structure St (τ : Type) where
  dest : ℕ
  client : τ → Client

/-- The start of a call, and its next step with the answer of the barrier. -/
inductive Label (τ : Type)
  | lock (t : τ)
  | release (t : τ)
  | step (t : τ) (barrier : Bool)
  deriving DecidableEq, Repr

/-- Who moves. -/
def Label.client : Label τ → τ
  | .lock t | .release t | .step t _ => t

/-- One step of a client: the word and the client after it. -/
def clientStep (dest : ℕ) (c : Client) (barrier : Bool) : Option (ℕ × Client) :=
  match c.pc with
  | .idle => none
  | .lockTry rc won =>
    -- `__sync_lock_test_and_set`, if the acquire succeeded
    if barrier then some (1, { c with pc := .lockRelease true (won || dest == 0) })
    else some (dest, { c with pc := .lockRelease rc won })
  | .lockRelease rc won =>
    if barrier then some (dest, ⟨.idle, c.holds || rc⟩)
    else some (dest, { c with pc := .lockTry rc won })
  | .releaseTry rc =>
    -- `__sync_lock_release`, if the acquire succeeded
    if barrier then some (0, ⟨.releaseRelease true, false⟩)
    else some (dest, { c with pc := .releaseRelease rc })
  | .releaseRelease rc =>
    if barrier then some (dest, { c with pc := .idle })
    else some (dest, { c with pc := .releaseTry rc })

/-- What a label does. -/
def move (dest : ℕ) (c : Client) : Label τ → Option (ℕ × Client)
  | .lock _ => if c.pc = .idle then some (dest, { c with pc := .lockTry false false }) else none
  | .release _ => if c.pc = .idle then some (dest, { c with pc := .releaseTry false }) else none
  | .step _ barrier => clientStep dest c barrier

/-- One step of the system. -/
def step [DecidableEq τ] (s : St τ) (a : Label τ) : Option (St τ) :=
  (move s.dest (s.client a.client) a).map fun p =>
    ⟨p.1, Function.update s.client a.client p.2⟩

/-- A free word, and nobody in a call. -/
def init : St τ := ⟨0, fun _ => ⟨.idle, false⟩⟩

/-! ## The lock -/

/-- The client has taken the word: in a call that is going to report success, or
in one that has. -/
def Client.has (c : Client) : Bool :=
  c.holds || match c.pc with
    | .lockTry rc _ | .lockRelease rc _ => rc
    | _ => false

/-- What the access that the label is about to perform finds: a test and set
finds the word free, or taken by this call; a release is the holder's, or finds
the word free. -/
def Fair (s : St τ) (a : Label τ) : Prop :=
  match a with
  | .step t true =>
    match (s.client t).pc with
    | .lockTry rc _ => s.dest = 0 ∨ rc = true
    | .releaseTry _ => (s.client t).holds = true ∨ s.dest = 0
    | _ => True
  | _ => True

instance (s : St τ) (a : Label τ) : Decidable (Fair s a) := by
  unfold Fair
  split
  · split <;> infer_instance
  · infer_instance

/-- What is true of a client: it is going to report success only if it has won. -/
def Won (c : Client) : Prop :=
  match c.pc with
  | .lockTry rc won | .lockRelease rc won => rc = true → won = true
  | _ => True

/-- The word against the client that has it. -/
def Word (dest : ℕ) (w : Option Client) : Prop := dest = 0 ↔ w = none

/-- The invariant. -/
structure Locked (s : St τ) : Prop where
  won : ∀ t, Won (s.client t)
  owner : ∃ w, Active Client.has s.client w ∧ Word s.dest w

/-- One step of one client, as the others see it: it stays outside and leaves the
word alone or releases a free one, takes a free word, keeps it, or frees it. -/
inductive Effect (dest : ℕ) (c : Client) (dest' : ℕ) (c' : Client) : Prop
  | outside (h : c.has = false) (h' : c'.has = false) (word : dest' = dest)
  | take (h : c.has = false) (h' : c'.has = true) (free : dest = 0) (word : dest' ≠ 0)
  | stay (h : c.has = true) (h' : c'.has = true) (word : dest' = 0 ↔ dest = 0)
  | free (h : c.has = true) (h' : c'.has = false) (word : dest' = 0)

/-- A step that leaves the word alone. -/
theorem Effect.same {dest : ℕ} {c c' : Client} (h : c'.has = c.has) : Effect dest c dest c' := by
  cases hhas : c.has with
  | false => exact .outside hhas (h.trans hhas) rfl
  | true => exact .stay hhas (h.trans hhas) Iff.rfl

/-- **One step of one client.** -/
theorem clientStep_effect {dest dest' : ℕ} {c c' : Client} {barrier : Bool} (hwon : Won c)
    (hword : c.has = true → dest ≠ 0)
    (hlock : ∀ rc won, c.pc = .lockTry rc won → barrier = true → dest = 0 ∨ rc = true)
    (hrelease : ∀ rc, c.pc = .releaseTry rc → barrier = true → c.holds = true ∨ dest = 0)
    (hstep : clientStep dest c barrier = some (dest', c')) :
    Won c' ∧ Effect dest c dest' c' := by
  unfold clientStep at hstep
  unfold Won at hwon
  cases hpc : c.pc with
  | idle =>
    rw [hpc] at hstep
    cases hstep
  | lockTry rc won =>
    rw [hpc] at hstep hwon
    cases barrier with
    | false =>
      cases hstep
      exact ⟨hwon, .same (by simp [Client.has, hpc])⟩
    | true =>
      cases hstep
      have hfound := hlock rc won hpc rfl
      refine ⟨?_, ?_⟩
      · intro _
        rcases hfound with hfree | hrc
        · simp [hfree]
        · simp [hwon hrc]
      · cases hhas : c.has with
        | false =>
          have hfree : dest = 0 := by
            refine hfound.resolve_right ?_
            intro hrc
            simp [Client.has, hpc, hrc] at hhas
          exact .take hhas (by simp [Client.has]) hfree Nat.one_ne_zero
        | true =>
          have hne := hword hhas
          exact .stay hhas (by simp [Client.has])
            ⟨fun h => absurd h Nat.one_ne_zero, fun h => absurd h hne⟩
  | lockRelease rc won =>
    rw [hpc] at hstep hwon
    cases barrier with
    | false =>
      cases hstep
      exact ⟨hwon, .same (by simp [Client.has, hpc])⟩
    | true =>
      cases hstep
      exact ⟨trivial, .same (by simp [Client.has, hpc])⟩
  | releaseTry rc =>
    rw [hpc] at hstep
    cases barrier with
    | false =>
      cases hstep
      exact ⟨trivial, .same (by simp [Client.has, hpc])⟩
    | true =>
      cases hstep
      refine ⟨trivial, ?_⟩
      cases hhas : c.has with
      | true => exact .free hhas rfl rfl
      | false =>
        -- a release of a client that does not hold finds the word free
        have hfree : dest = 0 := by
          refine (hrelease rc hpc rfl).resolve_left ?_
          intro hholds
          simp [Client.has, hholds] at hhas
        exact .outside hhas rfl hfree.symm
  | releaseRelease rc =>
    rw [hpc] at hstep
    cases barrier with
    | false =>
      cases hstep
      exact ⟨trivial, .same (by simp [Client.has, hpc])⟩
    | true =>
      cases hstep
      exact ⟨trivial, .same (by simp [Client.has, hpc])⟩

/-- One move of one client under the invariant. -/
theorem move_effect {s : St τ} {a : Label τ} {dest' : ℕ} {c' : Client} (h : Locked s)
    (hfair : Fair s a) (hmove : move s.dest (s.client a.client) a = some (dest', c')) :
    Won c' ∧ Effect s.dest (s.client a.client) dest' c' := by
  obtain ⟨w, hactive, hw⟩ := h.owner
  cases a with
  | lock t =>
    simp only [move] at hmove
    split at hmove
    · rename_i hpc
      cases hmove
      exact ⟨(fun hrc => by cases hrc), .same (by simp [Client.has, hpc])⟩
    · cases hmove
  | release t =>
    simp only [move] at hmove
    split at hmove
    · rename_i hpc
      cases hmove
      exact ⟨trivial, .same (by simp [Client.has, hpc])⟩
    · cases hmove
  | step t barrier =>
    change clientStep s.dest (s.client t) barrier = some (dest', c') at hmove
    change Won c' ∧ Effect s.dest (s.client t) dest' c'
    refine clientStep_effect (h.won t) ?_ ?_ ?_ hmove
    · intro hhas hfree
      rw [hactive.of_inside hhas] at hw
      cases hw.mp hfree
    · rintro rc won hpc rfl
      simp only [Fair, hpc] at hfair
      exact hfair
    · rintro rc hpc rfl
      simp only [Fair, hpc] at hfair
      exact hfair

variable [DecidableEq τ]

theorem Locked.step {s s' : St τ} {a : Label τ} (h : Locked s) (hstep : step s a = some s')
    (hfair : Fair s a) : Locked s' := by
  unfold SpinLock.step at hstep
  obtain ⟨⟨dest', c'⟩, hmove, rfl⟩ := Option.map_eq_some_iff.mp hstep
  obtain ⟨hwon, heffect⟩ := move_effect h hfair hmove
  obtain ⟨w, hactive, hw⟩ := h.owner
  refine ⟨?_, ?_⟩
  · intro t
    change Won (Function.update s.client a.client c' t)
    by_cases ht : t = a.client
    · rw [ht, Function.update_self]
      exact hwon
    · rw [Function.update_of_ne ht]
      exact h.won t
  · cases heffect with
    | outside hout hout' hword =>
      exact ⟨w, hactive.outside hout hout', by rw [hword]; exact hw⟩
    | take hout hin' hfree hword =>
      exact ⟨some c', hactive.stay (.inr (hw.mp hfree)) hin',
        ⟨fun h0 => absurd h0 hword, (fun h0 => by cases h0)⟩⟩
    | stay hin hin' hword =>
      refine ⟨some c', hactive.stay (.inl hin) hin', ?_⟩
      rw [hactive.of_inside hin] at hw
      exact ⟨(fun h0 => by cases hw.mp (hword.mp h0)), (fun h0 => by cases h0)⟩
    | free hin hout' hword =>
      exact ⟨none, hactive.leave hin hout', ⟨fun _ => rfl, fun _ => hword⟩⟩

/-! ## Mutual exclusion -/

/-- The spin lock: no two clients hold it, nobody is about to be told that it has
it while another client holds it, and nobody is told so all of whose attempts
have failed. -/
structure SpinLockOk (s : St τ) : Prop where
  exclusive : ∀ t t', (s.client t).holds = true → (s.client t').holds = true → t = t'
  grants : ∀ t t' won, (s.client t).holds = true → (s.client t').pc = .lockRelease true won →
    t = t'
  wins : ∀ t won, (s.client t).pc = .lockRelease true won → won = true

/-- **The spin lock excludes**, in every run in which every test and set finds the
word free or taken by the same call, and every release is the holder's or finds
the word free. -/
theorem spin_lock_ok {s : St τ} (h : Run step (fun s a _ => Fair s a) init s) :
    SpinLockOk s := by
  have hlocked : Locked s := by
    refine Run.invariant (fun s a s' hI hstep hguard => hI.step hstep hguard) h ?_
    exact ⟨fun _ => trivial, none, fun _ => rfl, ⟨fun _ => rfl, fun _ => rfl⟩⟩
  obtain ⟨w, hactive, -⟩ := hlocked.owner
  have hholds : ∀ t, (s.client t).holds = true → (s.client t).has = true := by
    intro t ht
    simp [Client.has, ht]
  refine ⟨?_, ?_, ?_⟩
  · intro t t' ht ht'
    exact hactive.unique (hholds t ht) (hholds t' ht')
  · intro t t' won ht hpc
    exact hactive.unique (hholds t ht) (by simp [Client.has, hpc])
  · intro t won hpc
    have hw := hlocked.won t
    rw [Won, hpc] at hw
    exact hw rfl

/-- A lock, a release whose first turn the barrier rejects, and a lock by the other
client. -/
theorem spin_lock_ok_two :
    ∃ s : St Bool, Run step (fun s a _ => Fair s a) init s ∧ (s.client true).holds = true ∧
      SpinLockOk s := by
  have hexec : (exec step (fun s a _ => decide (Fair s a)) init
      [.lock false, .step false true, .step false true, .lock true, .step true false,
        .release false, .step false true, .step false false, .step false false, .step false true,
        .step true false, .step true true, .step true true]).any
      (fun s : St Bool => (s.client true).holds) = true := by
    decide
  obtain ⟨s, hrun, hs⟩ := exec_run_of_any hexec
  have hrun' : Run step (fun s a _ => Fair s a) init s :=
    hrun.mono fun _ _ _ hg => of_decide_eq_true hg
  exact ⟨s, hrun', hs, spin_lock_ok hrun'⟩

/-- **Two clients hold the lock**, without any barrier: the second call tests and
sets a word that is set already, and reports success. -/
theorem lock_twice :
    ∃ s : St Bool, Run step (fun _ a _ => ∀ t b, a = .step t b → b = true) init s ∧
      (s.client false).holds = true ∧ (s.client true).holds = true ∧ s.dest = 1 := by
  have hexec : (exec step (fun _ a _ => match a with | .step _ b => b | _ => true) init
      [.lock false, .step false true, .step false true,
        .lock true, .step true true, .step true true]).any
      (fun s : St Bool => (s.client false).holds && (s.client true).holds && s.dest == 1)
        = true := by
    decide
  obtain ⟨s, hrun, hs⟩ := exec_run_of_any hexec
  simp only [Bool.and_eq_true, beq_iff_eq] at hs
  refine ⟨s, hrun.mono ?_, hs.1.1, hs.1.2, hs.2⟩
  rintro _ a _ hg t b rfl
  exact hg

end MxApi.SpinLock
