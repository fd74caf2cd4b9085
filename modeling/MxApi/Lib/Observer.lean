/-
History variables: a record of a run kept beside the state.

What a run did cannot always be read off the state it ends in. [`observed`] runs
a system together with an observer, a value that is updated from every step but
never looked at by the system. The system does not notice: a run of the pair is
a run of the system ([`Run.unobserved`]), and every run of the system is the run
of a pair ([`Run.observe`]). So a statement about observed runs is a statement
about all runs.
-/
import MxApi.Lib.Run

set_option autoImplicit false

namespace MxApi.Lib

variable {S A O : Type*} {step : S → A → Option S} {G : S → A → S → Prop}
  {note : S → A → S → O → O}

/-- A step of the system, noted by the observer. -/
def observed (step : S → A → Option S) (note : S → A → S → O → O) (p : S × O) (a : A) :
    Option (S × O) :=
  (step p.1 a).map fun t => (t, note p.1 a t p.2)

/-- What a step of the pair consists of. -/
theorem observed_eq_some {p q : S × O} {a : A} (h : observed step note p a = some q) :
    step p.1 a = some q.1 ∧ q.2 = note p.1 a q.1 p.2 := by
  unfold observed at h
  obtain ⟨t, ht, rfl⟩ := Option.map_eq_some_iff.mp h
  exact ⟨ht, rfl⟩

/-- Forget the observer. -/
theorem Run.unobserved {p q : S × O}
    (h : Run (observed step note) (fun p a q => G p.1 a q.1) p q) : Run step G p.1 q.1 := by
  induction h with
  | refl => exact .refl _
  | tail _ hmove hguard ih => exact .tail ih (observed_eq_some hmove).1 hguard

/-- Every run can be observed. -/
theorem Run.observe {s t : S} (h : Run step G s t) (o : O) :
    ∃ o', Run (observed step note) (fun p a q => G p.1 a q.1) (s, o) (t, o') := by
  induction h with
  | refl => exact ⟨o, .refl _⟩
  | @tail t u a _ hmove hguard ih =>
    obtain ⟨o', ho'⟩ := ih
    have hnoted : observed step note (t, o') a = some (u, note t a u o') := by
      rw [observed, hmove]
      rfl
    exact ⟨note t a u o', .tail ho' hnoted hguard⟩

/-- **The invariant rule for observed runs.** An invariant `I` of the system is
at hand, before and after the step, when the invariant `J` that relates the
observer to the state is proved preserved. -/
theorem Run.observed_invariant {I : S → Prop} {J : S → O → Prop}
    (hI : ∀ s a t, I s → step s a = some t → G s a t → I t)
    (hJ : ∀ s a t o, I s → I t → J s o → step s a = some t → G s a t → J t (note s a t o))
    {p q : S × O} (h : Run (observed step note) (fun p a q => G p.1 a q.1) p q)
    (hp : I p.1) (hp' : J p.1 p.2) : I q.1 ∧ J q.1 q.2 := by
  refine Run.invariant (I := fun p => I p.1 ∧ J p.1 p.2) ?_ h ⟨hp, hp'⟩
  rintro p a q ⟨hIp, hJp⟩ hmove hguard
  obtain ⟨hstep, hnote⟩ := observed_eq_some hmove
  have hIq : I q.1 := hI _ _ _ hIp hstep hguard
  refine ⟨hIq, ?_⟩
  rw [hnote]
  exact hJ _ _ _ _ hIp hIq hJp hstep hguard

end MxApi.Lib
