/-
Held sequences of operations: what their last release achieves, and what it does
not.

Only the last release of a sequence looks at the counter, with the mode of the
last operation and the counter remembered by the first. [`held_sequences`] is
for sequences whose release fits their acquire ([`keeps`]). A sequence that
begins with a read and ends with a write does not: its release makes an even
counter odd, and nobody will make it even again ([`held_sequence_odd`]).
-/
import MxApi.Mrapi.BarrierSequences

set_option autoImplicit false

namespace MxApi.Barrier

open Lib
open mrapi_atomic_mode_t

variable {D τ : Type} [DecidableEq τ]

/-- The client is about to perform the release that ends its sequence. -/
def Client.ending (c : Client D) : Bool :=
  match c.pc with
  | .release _ access => access ≠ .timedOut && !c.axb.sync.active
  | _ => false

/-- **Held sequences.** In every run of `p` against writers whose releases fit
their sequences: when `p` has finished and nobody else is inside, the counter is
even; and when the release that ends a sequence of `p` succeeds, no other client
has been inside since the acquire, and every operation of the sequence has found
the data of that moment, changed by the operations of `p` only. -/
theorem held_sequences {p : τ} {src dest timeout : τ → ℕ} (hremote : ∀ t, dest t ≠ src t)
    {d : D} {s : St D τ} {o : Watch D}
    (h : SequenceRun p
      (init (fun t => sys_atomic_barrier_init (src t) (dest t) (timeout t)) d) s o) :
    ((s.client p).pc = .idle → (s.client p).axb.sync.active = false → ¬ others s p →
      s.elem.counter % 2 = 0) ∧
    ∀ s', (s.client p).ending = true → step s (.step p) = some s' →
      (s'.client p).pc = .idle → o.writes < 2 ^ 15 → ¬ o.met ∧ ¬ o.torn := by
  obtain ⟨hseq, hwatched⟩ := sequences_watched hremote h
  constructor
  · intro hpc hactive halone
    -- nobody is inside
    by_contra hodd
    have hodd' : s.elem.counter % 2 = 1 := by omega
    obtain ⟨t, ht⟩ := hseq.exclusive.odd_iff.mp hodd'
    by_cases htp : t = p
    · have hpos := hseq.exclusive.position p
      rw [Position, hpc] at hpos
      have hheld := hpos (by rw [← htp]; exact ht)
      rw [hactive] at hheld
      cases hheld
    · exact halone ⟨t, htp, ht⟩
  · intro s' hending hstep hret hwrites
    unfold Client.ending at hending
    split at hending
    · rename_i op access hpc
      simp only [ne_eq, decide_not, Bool.and_eq_true, Bool.not_eq_true', decide_eq_false_iff_not]
        at hending
      exact hwatched.ended hseq hpc hending.1 hending.2 hstep hret hwrites
    · cases hending

omit [DecidableEq τ] in
theorem Pc.op_eq_none {pc : Pc D} (h : pc.op = none) : pc = .idle := by
  cases pc with
  | idle => rfl
  | _ => cases h

/-- Two clients in two processes that wait forever. -/
def twoClients : St ℕ Bool :=
  init (fun t => sys_atomic_barrier_init t.toNat (!t).toNat MCA_INFINITE) 0

/-- The observer before anything has happened. -/
def unwatched : Watch ℕ := ⟨0, False, 0, False, false⟩

/-- Two held reads after a write of the other client, up to the last release. -/
theorem held_sequences_two :
    ∃ s o, SequenceRun false twoClients s o ∧ (s.client false).value = some 1 ∧
      ¬ o.met ∧ ¬ o.torn := by
  have hexec : (exec (observed step (watch false))
      (fun q a _ => decide (SequenceStep false q.1 a)) (twoClients, unwatched)
      [.op true (.write (· + 1)), .step true, .step true, .step true, .step true, .step true,
        .hold false true, .op false .read, .step false, .step false, .step false, .step false,
        .hold false false, .op false .read, .step false, .step false]).any
      (fun q => (q.1.client false).ending && ((q.1.client false).value == some 1) &&
        (q.2.writes == 0) &&
        (step q.1 (.step false)).any (fun s' => (s'.client false).pc.op.isNone)) = true := by
    decide
  obtain ⟨⟨s, o⟩, hrun, hs⟩ := exec_run_of_any hexec
  simp only [Bool.and_eq_true, beq_iff_eq] at hs
  have hrun' : SequenceRun false twoClients s o :=
    ⟨unwatched, rfl, hrun.mono fun _ _ _ hg => of_decide_eq_true hg⟩
  obtain ⟨s', hstep, hidle⟩ := (Option.any_eq_true _ _).mp hs.2
  have hended := (held_sequences (by decide) hrun').2 s' hs.1.1.1 hstep
    (Pc.op_eq_none (by simpa using hidle)) (by omega)
  exact ⟨s, o, hrun', hs.1.1.2, hended⟩

/-- **Sequences that begin with a read and end with a write** leave the counter
odd: here a client alone holds a read and a write, and when it has finished no
sequence is open, nobody is in an operation, and no write will ever be acquired. -/
theorem held_sequence_odd :
    ∃ s, Run step (fun _ a _ => ∀ t, a ≠ .override t) twoClients s ∧
      (∀ t, (s.client t).pc = .idle ∧ (s.client t).axb.sync.active = false) ∧
      s.elem.counter % 2 = 1 := by
  have hexec : (exec step (fun _ a _ => match a with | .override _ => false | _ => true) twoClients
      [.hold false true, .op false .read, .step false, .step false, .step false, .step false,
        .hold false false, .op false (.write (· + 1)), .step false, .step false, .step false]).any
      (fun s => (s.elem.counter % 2 == 1) &&
        decide (∀ t, (s.client t).pc.op.isNone = true ∧ (s.client t).axb.sync.active = false))
        = true := by
    decide
  obtain ⟨s, hrun, hs⟩ := exec_run_of_any hexec
  simp only [Bool.and_eq_true, beq_iff_eq, decide_eq_true_eq] at hs
  refine ⟨s, hrun.mono ?_, ?_, hs.1⟩
  · rintro _ a _ hg t rfl
    cases hg
  · intro t
    exact ⟨Pc.op_eq_none (by simpa using (hs.2 t).1), (hs.2 t).2⟩

end MxApi.Barrier
