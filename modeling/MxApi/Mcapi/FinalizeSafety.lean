/-
Threads of any number of processes that register and finalize at the same time.

A removal frees the entry of its thread, and sets the flag of the entry once more
when somebody else may have it; and the last one deletes the memory some time
after it has looked for others. In the runs that meet the guard neither harms
anybody.
-/
import MxApi.Mcapi.RegistrationConcurrent
import MxApi.Mcapi.RegistrationCounts

set_option autoImplicit false

namespace MxApi

open Lib

/-! ## The contract -/

section

variable {τ : Type} [DecidableEq τ] (pid : τ → ℕ)

/-- No thread is in a call. -/
def RegSys.quiet (s : RegSys τ) : Prop := ∀ t, s.pc t = .idle

/-- What is expected in every state: registered threads point to the memory that
all processes find, which has their entries; at quiescence the counters of the
domains are right, while `num_domains` is not used; and a memory is deleted by the one thread that found itself
the last one, if a node was ever taken in it. -/
structure FinalizeOk (s : RegSys τ) : Prop where
  carries : ∀ t w, s.pc t = .idle → s.whoami t = some w →
    ∃ m, s.key = some m ∧ s.mcapi_db (pid t) = some m ∧ CarriesIds (s.memories m) w
  num_nodes : s.quiet → ∀ m, s.key = some m → ∀ d,
    (s.memories m).numNodes d = (s.memories m).allocatedNodes d
  num_domains : ∀ m, s.num_domains m = 0
  observers_le : ∀ m, s.observers m ≤ 1
  deleted : ∀ m < s.created, s.key ≠ some m → s.observers m = 1
  last : s.quiet → (∀ t, s.whoami t = none) → ∀ m, s.used m = true →
    s.observers m = 1 ∧ s.key ≠ some m

/-- At quiescence `num_domains` is the number of the domains. -/
def DomainsCounted (s : RegSys τ) : Prop :=
  s.quiet → ∀ m, s.key = some m → s.num_domains m = (s.memories m).allocatedDomains

/-- The label is one of a removal by thread `t`. -/
def Finalizes (s : RegSys τ) (t : τ) : RegLabel τ → Prop
  | .init _ _ => False
  | .finalize t' => t' = t
  | .step t' _ => t' = t ∧ (s.pc t).leaving = true

/-- The step leaves the nodes of the other threads, with their endpoints and
counters. -/
def LeavesNodes (s : RegSys τ) (t : τ) (s' : RegSys τ) : Prop :=
  ∀ t', t' ≠ t → ∀ w, (s.pc t').held (s.whoami t') = some w → ∀ m, s.key = some m →
    (s'.memories m).node w.dindex w.nindex = (s.memories m).node w.dindex w.nindex

instance [Fintype τ] (s : RegSys τ) (t : τ) (s' : RegSys τ) :
    Decidable (TeardownOk pid s t s') := by
  unfold TeardownOk
  split <;> infer_instance

instance [Fintype τ] (s : RegSys τ) (l : RegLabel τ) (s' : RegSys τ) :
    Decidable (FinalizeGuard pid s l s') :=
  match l with
  | .init _ _ | .finalize _ => isTrue trivial
  | .step t _ => inferInstanceAs (Decidable
      ((∀ m ∈ s.mcapi_db (pid t), StepOk (s.memories m) (s.pc t)) ∧ TeardownOk pid s t s'))

/-! ## Isolation -/

theorem node_setNumNodes {db : mcapi_database} (d k e n : ℕ) :
    (db.setNumNodes d k).node e n = db.node e n := by
  by_cases h : e = d
  · simp [mcapi_database.setNumNodes, mcapi_database.setDomain, mcapi_database.node, h]
  · simp [mcapi_database.setNumNodes, mcapi_database.setDomain, mcapi_database.node, h]

/-- A removal writes to the entry its thread has, or had. -/
theorem regProgram_node {p : ℕ} {db : mcapi_database} {pc : RegPc} (hleaving : pc.leaving = true)
    {d n : ℕ} (hne : (regProgram p db pc).1.node d n ≠ db.node d n) :
    ∃ u w newstate previous, pc = .swapNode u w newstate previous ∧
      (w.dindex, w.nindex) = (d, n) ∧ db.nodeState (d, n) = previous := by
  cases pc with
  | swapNode u w newstate previous =>
    refine ⟨u, w, newstate, previous, rfl, ?_⟩
    rw [regProgram] at hne
    by_cases hprev : (db.node w.dindex w.nindex).state = previous
    · rw [if_pos hprev] at hne
      by_cases hc : d = w.dindex ∧ n = w.nindex
      · obtain ⟨rfl, rfl⟩ := hc
        exact ⟨rfl, hprev⟩
      · exact absurd (mcapi_database.setNode_of_ne db hc _) hne
    · rw [if_neg hprev] at hne
      exact absurd rfl hne
  | decNodes w =>
    rw [regProgram_decNodes] at hne
    exact absurd (node_setNumNodes ..) hne
  | readNode | xchgNode | scan | scanPid | release | detach => exact absurd rfl hne
  | _ => cases hleaving

variable {pid} {s s' : RegSys τ} {t : τ}

/-- **Isolation.** A step of a removal leaves the nodes of the other threads. -/
theorem RegistrationInv.isolated (h : RegistrationInv pid s.toRegistry s.pc) {l : RegLabel τ}
    (hs : s.step pid l = some s') (hg : FinalizeGuard pid s l s') (hl : Finalizes s t l) :
    LeavesNodes s t s' := by
  intro t' htt w hw m hkey
  cases l with
  | init => cases hl
  | finalize t₁ =>
    obtain ⟨w, -, -, rfl | rfl⟩ := finalize_cases hs
    · rfl
    · rfl
  | step t₁ ok =>
    obtain ⟨rfl, hleaving⟩ := hl
    rcases doStep_cases hs with ⟨a, hp, rfl⟩ | ⟨a, m', created, hp, rfl⟩ |
      ⟨last, lastHere, hp, rfl⟩ | ⟨lastHere, hp, rfl⟩ | ⟨hacc, ⟨hnull, rfl⟩ | ⟨k, hdb, rfl⟩⟩
    · rw [hp] at hleaving
      cases hleaving
    · rw [hp] at hleaving
      cases hleaving
    · rfl
    · rfl
    · rfl
    · by_contra hne
      by_cases hmk : m = k
      · subst hmk
        have hmem : (s.doProgram pid t₁ m).memories m =
            (regProgram (pid t₁) (s.memories m) (s.pc t₁)).1 := Function.update_self ..
        rw [hmem] at hne
        obtain ⟨u, w₁, newstate, previous, hp, hc, hprev⟩ := regProgram_node hleaving hne
        have halloc := (h.content hw hkey).1
        rw [hp] at hleaving
        cases u with
        | remove =>
          -- two threads would hold the entry
          have hheld : (s.pc t₁).held (s.whoami t₁) = some w₁ := by
            rw [hp]
            rfl
          have hclaim := RegPc.claim_of_held hheld
          rw [hc] at hclaim
          exact htt ((h.covers m hkey).excl (RegPc.claim_of_held hw) hclaim)
        | rundown last lastHere =>
          -- the entry is not allocated, so nobody holds it
          have hok := hg.1 m hdb
          rw [hp] at hok
          have hfree := (hok (by rw [hc]; exact hprev)).1
          rw [← hprev, halloc] at hfree
          cases hfree
        | _ => cases hleaving
      · have hmem : (s.doProgram pid t₁ k).memories m = s.memories m :=
          Function.update_of_ne hmk ..
        exact hne (by rw [hmem])

/-! ## The runs -/

theorem run_finalizes (h : Run (RegSys.step pid) (FinalizeGuard pid) (RegSys.initial τ) s) :
    RegistrationInv pid s.toRegistry s.pc ∧ TeardownInv pid s ∧ CountInv s := by
  refine h.invariant
    (I := fun s => RegistrationInv pid s.toRegistry s.pc ∧ TeardownInv pid s ∧ CountInv s)
    (fun s l s' hI hs hg => ?_) ⟨.initial, .initial, .initial⟩
  obtain ⟨hinv, hteardown, hcount⟩ := hI
  exact ⟨hinv.step hs (hg.regGuard hteardown), hteardown.step hinv hs hg, hcount.step hinv hs⟩

/-- Nothing writes `num_domains`. -/
theorem num_domains_step {l : RegLabel τ} (hs : s.step pid l = some s') :
    s'.num_domains = s.num_domains := by
  cases l with
  | init t a =>
    obtain ⟨-, -, rfl⟩ := init_cases hs
    rfl
  | finalize t =>
    obtain ⟨w, -, -, rfl | rfl⟩ := finalize_cases hs
    · rfl
    · rfl
  | step t ok =>
    rcases doStep_cases hs with ⟨a, hp, rfl⟩ | ⟨a, m, created, hp, rfl⟩ |
      ⟨last, lastHere, hp, rfl⟩ | ⟨lastHere, hp, rfl⟩ | ⟨hacc, ⟨hnull, rfl⟩ | ⟨m, hdb, rfl⟩⟩
    · cases ok with
      | false => rfl
      | true =>
        rw [if_pos rfl]
        rcases Option.eq_none_or_eq_some s.key with hkey | ⟨m, hkey⟩
        · rw [doAttach_of_none hkey]
        · rw [doAttach_of_some hkey]
    all_goals rfl

theorem run_num_domains {G : RegSys τ → RegLabel τ → RegSys τ → Prop}
    (h : Run (RegSys.step pid) G (RegSys.initial τ) s) (m : ℕ) : s.num_domains m = 0 := by
  refine h.invariant (I := fun s => s.num_domains m = 0) (fun s l s' hI hs _ => ?_) rfl
  rw [num_domains_step hs]
  exact hI

end

/-- A thread creates the memory, registers node 1 of domain 1 and finalizes. -/
def registerAndFinalize : List (RegLabel Bool) :=
  registerOne ++ .finalize false :: List.replicate 41 (.step false true)

/-- Thread `true` of another process attaches before thread `false` finalizes,
and takes its entry after the memory is deleted. -/
def attachAcrossFinalize : List (RegLabel Bool) :=
  registerOne ++ .init true ⟨1, 2, true⟩ :: List.replicate 2 (.step true true) ++
    .finalize false :: List.replicate 41 (.step false true) ++
      List.replicate 34 (.step true true)

end MxApi
