/-
Two machines that answer the same operations, and when their answers agree.

Both machines are partial functions of a state and an operation; they return a
new state and an answer, or `none` when the machine stops. The first one is
compared with the second through an abstraction `abs` of its states. Whether
they agree on a whole sequence is decided by the steps of the second one alone
([`take_agree_iff`], [`agree_iff`]).
-/
import Mathlib.Data.List.Basic

set_option autoImplicit false

namespace MxApi.Lib

variable {S T O R : Type*}

/-- Perform the operations one after another and collect the answers; `none` if
the machine stops. -/
def answers (f : S → O → Option (S × R)) : S → List O → Option (S × List R)
  | s, [] => some (s, [])
  | s, o :: os => do
    let (s', r) ← f s o
    let (s'', rs) ← answers f s' os
    some (s'', r :: rs)

/-- One step of the first machine, with its state abstracted. -/
def absStep (abs : S → T) (p : S × R) : T × R := (abs p.1, p.2)

/-- The two machines end in corresponding states with the same answers. -/
def Agree (f : S → O → Option (S × R)) (g : T → O → Option (T × R)) (abs : S → T)
    (s : S) (t : T) (os : List O) : Prop :=
  (answers f s os).map (absStep abs) = answers g t os

/-- `P` holds at every step of the second machine. -/
def AllSteps (g : T → O → Option (T × R)) (P : T → O → Prop) : T → List O → Prop
  | _, [] => True
  | t, o :: os => P t o ∧ ∀ t' r, g t o = some (t', r) → AllSteps g P t' os

section

variable {f : S → O → Option (S × R)} {g : T → O → Option (T × R)} {abs : S → T}

theorem answers_cons (s : S) (o : O) (os : List O) :
    answers f s (o :: os)
      = (f s o).bind fun p => (answers f p.1 os).map fun q => (q.1, p.2 :: q.2) := by
  rw [answers]
  rcases f s o with _ | ⟨s', r⟩
  · rfl
  · rw [Option.bind_some]
    rcases h : answers f s' os with _ | ⟨s'', rs⟩ <;> simp [h]

theorem agree_nil (s : S) (t : T) : Agree f g abs s t [] ↔ abs s = t := by
  simp [Agree, answers, absStep]

/-- Where both machines take the step with the same answer, they agree on the
sequence exactly when they agree on the rest. -/
theorem agree_cons {s s' : S} {t t' : T} {o : O} {r : R} {os : List O}
    (hf : f s o = some (s', r)) (hg : g t o = some (t', r)) :
    Agree f g abs s t (o :: os) ↔ Agree f g abs s' t' os := by
  unfold Agree
  rw [answers_cons, answers_cons, hf, hg, Option.bind_some, Option.bind_some]
  rcases answers f s' os with _ | ⟨sf, rs⟩ <;> rcases answers g t' os with _ | ⟨tf, rs'⟩ <;>
    simp [absStep]

/-- Agreement on a sequence contains agreement on the first answer. -/
theorem agree_head {s : S} {t t' : T} {o : O} {r : R} {os : List O}
    (hg : g t o = some (t', r)) (hrest : ∃ p, answers g t' os = some p)
    (h : Agree f g abs s t (o :: os)) : ∃ s', f s o = some (s', r) := by
  unfold Agree at h
  obtain ⟨⟨tf, rs⟩, hp⟩ := hrest
  rw [answers_cons, answers_cons, hg] at h
  rcases hf : f s o with _ | ⟨s', r'⟩
  · simp [hf, hp] at h
  · rw [hf] at h
    rcases ha : answers f s' os with _ | ⟨sf, rs'⟩
    · simp [ha, hp] at h
    · simp only [Option.bind_some, ha, hp, Option.map_some, absStep, Option.some.injEq,
        Prod.mk.injEq, List.cons.injEq] at h
      exact ⟨s', by rw [h.2.1]⟩

/-- A machine that never stops answers every sequence. -/
theorem answers_total (hg : ∀ t o, ∃ t' r, g t o = some (t', r)) :
    ∀ (os : List O) (t : T), ∃ p, answers g t os = some p
  | [], t => ⟨(t, []), rfl⟩
  | o :: os, t => by
    obtain ⟨t', r, h⟩ := hg t o
    obtain ⟨p, hp⟩ := answers_total hg os t'
    exact ⟨(p.1, r :: p.2), by rw [answers_cons, h]; simp [hp]⟩

variable {W : O → Prop} {P : T → O → Prop}

/-- **Agreement on every initial segment.** If `P` says exactly when one step
agrees, the machines agree on all initial segments of a sequence exactly when
`P` holds at every step of the second machine. -/
theorem take_agree_iff (hg : ∀ t o, ∃ t' r, g t o = some (t', r))
    (hP : ∀ s o, W o → ((f s o).map (absStep abs) = g (abs s) o ↔ P (abs s) o)) :
    ∀ (os : List O) (s : S), (∀ o ∈ os, W o) →
      ((∀ k, Agree f g abs s (abs s) (os.take k)) ↔ AllSteps g P (abs s) os)
  | [], s, _ => by simp [AllSteps, agree_nil]
  | o :: os, s, hW => by
    have hWo : W o := hW o (List.mem_cons_self ..)
    have hWs : ∀ o ∈ os, W o := fun o h => hW o (List.mem_cons_of_mem _ h)
    obtain ⟨t', r, ht⟩ := hg (abs s) o
    constructor
    · intro h
      -- the segment of length one shows the first step
      have hone := h 1
      rw [List.take_succ_cons, List.take_zero] at hone
      obtain ⟨s', hs⟩ := agree_head ht ⟨(t', []), rfl⟩ hone
      have habs : abs s' = t' := (agree_nil s' t').mp ((agree_cons hs ht).mp hone)
      refine ⟨(hP s o hWo).mp (by rw [hs, ht, Option.map_some, absStep, habs]), ?_⟩
      intro t'' r' ht'
      obtain ⟨rfl, rfl⟩ := Prod.mk.inj (Option.some.inj (ht.symm.trans ht'))
      rw [← habs]
      refine (take_agree_iff hg hP os s' hWs).mp fun k => ?_
      have hk := h (k + 1)
      rw [List.take_succ_cons] at hk
      rw [habs]
      exact (agree_cons hs ht).mp hk
    · rintro ⟨hPo, hrest⟩ k
      have hstep := (hP s o hWo).mpr hPo
      rw [ht] at hstep
      obtain ⟨⟨s', r'⟩, hs, heq⟩ := Option.map_eq_some_iff.mp hstep
      obtain ⟨rfl, rfl⟩ := Prod.mk.inj heq
      cases k with
      | zero => exact (agree_nil s (abs s)).mpr rfl
      | succ k =>
        rw [List.take_succ_cons]
        exact (agree_cons hs ht).mpr
          ((take_agree_iff hg hP os s' hWs).mpr (hrest _ _ ht) k)

variable {I : T → Prop}

/-- States that do not correspond are told apart, provided every operation
either answers differently or leaves them apart. `I` is an invariant of the
second machine. -/
theorem not_agree_of_apart (hg : ∀ t o, ∃ t' r, g t o = some (t', r))
    (hI : ∀ t o t' r, W o → I t → g t o = some (t', r) → I t')
    (hkeep : ∀ s t o s' t' r, W o → I t → abs s ≠ t → f s o = some (s', r) →
      g t o = some (t', r) → abs s' ≠ t') :
    ∀ (os : List O) (s : S) (t : T), (∀ o ∈ os, W o) → I t → abs s ≠ t →
      ¬ Agree f g abs s t os
  | [], s, t, _, _, hne => fun h => hne ((agree_nil s t).mp h)
  | o :: os, s, t, hW, ht, hne => by
    intro h
    have hWo : W o := hW o (List.mem_cons_self ..)
    obtain ⟨t', r, hgt⟩ := hg t o
    obtain ⟨s', hs⟩ := agree_head hgt (answers_total hg os t') h
    have hne' := hkeep s t o s' t' r hWo ht hne hs hgt
    exact not_agree_of_apart hg hI hkeep os s' t' (fun o h => hW o (List.mem_cons_of_mem _ h))
      (hI _ _ _ _ hWo ht hgt) hne' ((agree_cons hs hgt).mp h)

/-- **Agreement on the whole sequence.** When a difference of the states never
goes unnoticed, agreement at the end needs every step to agree. -/
theorem agree_iff (hg : ∀ t o, ∃ t' r, g t o = some (t', r))
    (hP : ∀ s o, W o → ((f s o).map (absStep abs) = g (abs s) o ↔ P (abs s) o))
    (hI : ∀ t o t' r, W o → I t → g t o = some (t', r) → I t')
    (hkeep : ∀ s t o s' t' r, W o → I t → abs s ≠ t → f s o = some (s', r) →
      g t o = some (t', r) → abs s' ≠ t')
    (os : List O) (s : S) (hW : ∀ o ∈ os, W o) (hs : I (abs s)) :
    Agree f g abs s (abs s) os ↔ AllSteps g P (abs s) os := by
  constructor
  · induction os generalizing s with
    | nil => exact fun _ => trivial
    | cons o os ih =>
      intro h
      have hWo : W o := hW o (List.mem_cons_self ..)
      have hWs : ∀ o ∈ os, W o := fun o h => hW o (List.mem_cons_of_mem _ h)
      obtain ⟨t', r, ht⟩ := hg (abs s) o
      have hIt : I t' := hI _ _ _ _ hWo hs ht
      obtain ⟨s', hs'⟩ := agree_head ht (answers_total hg os t') h
      have htail := (agree_cons hs' ht).mp h
      have habs : abs s' = t' := by
        by_contra hne
        exact not_agree_of_apart hg hI hkeep os s' t' hWs hIt hne htail
      subst habs
      refine ⟨(hP s o hWo).mp (by rw [hs', ht, Option.map_some, absStep]), ?_⟩
      intro t'' r' ht'
      obtain ⟨rfl, rfl⟩ := Prod.mk.inj (Option.some.inj (ht.symm.trans ht'))
      exact ih s' hWs hIt htail
  · intro h
    have hall := (take_agree_iff hg hP os s hW).mpr h os.length
    rwa [List.take_length] at hall

/-- **A property of every state reached.** If under the invariant `I` a step
restores `I` exactly as long as `P` allows it, and leaves a state without `Q`
otherwise, then `Q` holds after every initial segment exactly when `P` allows
every step. -/
theorem take_reaches_iff {Q : T → Prop} (hIQ : ∀ t, I t → Q t)
    (hstep : ∀ t o, I t → ∃ t' r, g t o = some (t', r) ∧ (P t o → I t') ∧ (¬ P t o → ¬ Q t')) :
    ∀ (os : List O) (t : T), I t →
      ((∀ k, ∃ p, answers g t (os.take k) = some p ∧ Q p.1) ↔ AllSteps g P t os)
  | [], t, ht => by
    refine iff_of_true (fun k => ⟨(t, []), ?_, hIQ t ht⟩) trivial
    rw [List.take_nil]
    rfl
  | o :: os, t, ht => by
    obtain ⟨t', r, hg, hkeep, hbreak⟩ := hstep t o ht
    constructor
    · intro h
      have hP : P t o := by
        by_contra hP
        obtain ⟨p, hp, hQ⟩ := h 1
        rw [List.take_succ_cons, List.take_zero, answers_cons, hg, Option.bind_some, answers,
          Option.map_some, Option.some.injEq] at hp
        subst hp
        exact hbreak hP hQ
      refine ⟨hP, ?_⟩
      intro t'' r' hg'
      obtain ⟨rfl, rfl⟩ := Prod.mk.inj (Option.some.inj (hg.symm.trans hg'))
      refine (take_reaches_iff hIQ hstep os t' (hkeep hP)).mp fun k => ?_
      obtain ⟨p, hp, hQ⟩ := h (k + 1)
      rw [List.take_succ_cons, answers_cons, hg, Option.bind_some] at hp
      obtain ⟨q, hq, rfl⟩ := Option.map_eq_some_iff.mp hp
      exact ⟨q, hq, hQ⟩
    · rintro ⟨hP, hrest⟩ k
      cases k with
      | zero => exact ⟨(t, []), rfl, hIQ t ht⟩
      | succ k =>
        obtain ⟨p, hp, hQ⟩ :=
          (take_reaches_iff hIQ hstep os t' (hkeep hP)).mpr (hrest t' r hg) k
        refine ⟨(p.1, r :: p.2), ?_, hQ⟩
        rw [List.take_succ_cons, answers_cons, hg, Option.bind_some, hp, Option.map_some]

/-- What every step preserves holds of the state reached. -/
theorem answers_invariant (hI : ∀ t o t' r, I t → g t o = some (t', r) → I t') :
    ∀ {os : List O} {t : T} {p : T × List R}, answers g t os = some p → I t → I p.1
  | [], t, p, hp, ht => by
    obtain rfl := Option.some.inj hp
    exact ht
  | o :: os, t, p, hp, ht => by
    rw [answers_cons] at hp
    obtain ⟨⟨t', r⟩, hg, hp⟩ := Option.bind_eq_some_iff.mp hp
    obtain ⟨q, hq, rfl⟩ := Option.map_eq_some_iff.mp hp
    show I q.1
    exact answers_invariant hI hq (hI t o t' r ht hg)

/-- What the steps that `Q` allows preserve holds of every state reached. -/
theorem AllSteps.invariant {Q : T → O → Prop}
    (hI : ∀ t o t' r, I t → Q t o → g t o = some (t', r) → I t') :
    ∀ {os : List O} {t : T}, AllSteps g Q t os → I t →
      ∀ k p, answers g t (os.take k) = some p → I p.1
  | [], t, _, ht, k, p, hp => by
    rw [List.take_nil, answers, Option.some.injEq] at hp
    rw [← hp]
    exact ht
  | o :: os, t, h, ht, 0, p, hp => by
    rw [List.take_zero, answers, Option.some.injEq] at hp
    rw [← hp]
    exact ht
  | o :: os, t, h, ht, k + 1, p, hp => by
    rw [List.take_succ_cons, answers_cons] at hp
    obtain ⟨⟨t', r⟩, hg, hp⟩ := Option.bind_eq_some_iff.mp hp
    obtain ⟨q, hq, rfl⟩ := Option.map_eq_some_iff.mp hp
    exact AllSteps.invariant hI (h.2 t' r hg) (hI _ _ _ _ ht h.1 hg) k q hq

/-- Where `P` and `Q` say the same of every step under an invariant of the steps
that `Q` allows, they allow the same sequences. -/
theorem allSteps_iff {Q : T → O → Prop}
    (hI : ∀ t o t' r, I t → Q t o → g t o = some (t', r) → I t')
    (hPQ : ∀ t o, I t → (P t o ↔ Q t o)) :
    ∀ (os : List O) (t : T), I t → (AllSteps g P t os ↔ AllSteps g Q t os)
  | [], _, _ => Iff.rfl
  | o :: os, t, ht => by
    rw [AllSteps, AllSteps, hPQ t o ht]
    refine and_congr_right fun hQ => forall_congr' fun t' => forall_congr' fun r => ?_
    exact imp_congr_right fun hg => allSteps_iff hI hPQ os t' (hI t o t' r ht hQ hg)

end

end MxApi.Lib
