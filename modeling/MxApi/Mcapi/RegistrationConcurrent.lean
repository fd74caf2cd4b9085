/-
Threads of any number of processes that register at the same time.

The search for an id and the swap that takes an entry are separate steps, so two
callers with one id can both miss it and take two entries. Nothing goes wrong in
the runs whose steps on the memory avoid the branches of `StepOk`; that nobody
deletes the memory or drops a pointer follows, because nobody finalizes.
-/
import MxApi.Mcapi.RegistrationRuns

set_option autoImplicit false

namespace MxApi

open Lib

/-! ## The contract -/

section

variable {τ : Type} [DecidableEq τ] (pid : τ → ℕ)

/-- The identity denotes allocated entries with its ids. -/
structure CarriesIds (db : mcapi_database) (w : Whoami) : Prop where
  domain : DomainIs db w.dindex w.domain_id
  lt : w.nindex < MCA_MAX_NODES
  allocated : (db.nodeState (w.dindex, w.nindex)).allocated = true
  node_num : (db.nodeState (w.dindex, w.nindex)).node_num = w.node_num

/-- What is expected of registrations. A thread has succeeded if it has returned
with an identity. -/
structure RegistrationsOk (s : RegSys τ) : Prop where
  distinct : ∀ m < s.created, DistinctIds (s.memories m)
  carries : ∀ t w, s.pc t = .idle → s.whoami t = some w →
    ∃ m, s.key = some m ∧ s.mcapi_db (pid t) = some m ∧ CarriesIds (s.memories m) w
  apart : ∀ t t' w w', t ≠ t' → s.pc t = .idle → s.pc t' = .idle →
    s.whoami t = some w → s.whoami t' = some w' →
      ¬ (w.dindex = w'.dindex ∧ w.nindex = w'.nindex)

/-- Threads register only. -/
def Registers : RegLabel τ → Prop
  | .finalize _ => False
  | _ => True

instance : DecidablePred fun l : RegLabel τ => Registers l
  | .init _ _ => inferInstanceAs (Decidable True)
  | .finalize _ => inferInstanceAs (Decidable False)
  | .step _ _ => inferInstanceAs (Decidable True)

/-- Threads register only, and do not take a branch that breaks the invariant. -/
def RegistrationGuard (s : RegSys τ) (l : RegLabel τ) (_s' : RegSys τ) : Prop :=
  Registers l ∧
    match l with
    | .step t _ => ∀ m ∈ s.mcapi_db (pid t), StepOk (s.memories m) (s.pc t)
    | _ => True

instance (s : RegSys τ) (l : RegLabel τ) (s' : RegSys τ) :
    Decidable (RegistrationGuard pid s l s') := by
  unfold RegistrationGuard
  cases l <;> infer_instance

/-! ## Nobody leaves -/

/-- The program points of a removal. -/
def RegPc.leaving : RegPc → Bool
  | .readNode .remove _ => true
  | .readNode (.rundown _ _) _ => true
  | .xchgNode .remove _ _ => true
  | .xchgNode (.rundown _ _) _ _ => true
  | .swapNode .remove _ _ _ => true
  | .swapNode (.rundown _ _) _ _ _ => true
  | .decNodes _ => true
  | .scan _ _ _ _ _ => true
  | .scanPid _ _ _ _ => true
  | .release _ _ => true
  | .detach _ => true
  | _ => false

/-- Without removals there is one memory at most, which is not deleted, and no
thread is in a removal. -/
structure NobodyLeaves (s : RegSys τ) : Prop where
  key : ∀ m < s.created, s.key = some m
  stays : ∀ t, (s.pc t).leaving = false

theorem nextClear_leaving (a : InitArgs) (d n : ℕ) : (nextClear a d n).leaving = false := by
  unfold nextClear
  split
  · rfl
  · split <;> rfl

theorem next_leaving {u : NodeUpdate} {w : Whoami}
    (h : (RegPc.readNode u w).leaving = false) : (u.next w).leaving = false := by
  cases u with
  | remove | rundown => cases h
  | invalidate | trans_start => rfl
  | clearRundown start =>
    unfold NodeUpdate.next
    cases start <;> rfl

/-- A thread that is not in a removal does not get into one. -/
theorem regProgram_leaving {p : ℕ} {db : mcapi_database} {pc : RegPc}
    (h : pc.leaving = false) : (regProgram p db pc).2.leaving = false := by
  cases pc with
  | clearNodeSwap => exact nextClear_leaving ..
  | findDomain a d | findNode a d n =>
    rw [regProgram]
    split
    · rfl
    · split <;> rfl
  | casDomain a d olddstate | casNode a d n oldnstate =>
    rw [regProgram]
    split
    · rfl
    · split <;> rfl
  | readNode u | xchgNode u => cases u <;> first | rfl | cases h
  | swapNode u w newstate previous =>
    apply next_leaving
    cases u <;> first | rfl | cases h
  | decNodes | scan | scanPid | release | detach => cases h
  | _ => rfl

variable {pid} {s s' : RegSys τ}

omit [DecidableEq τ] in
theorem NobodyLeaves.initial : NobodyLeaves (RegSys.initial τ) :=
  ⟨fun _ h => absurd h (Nat.not_lt_zero _), fun _ => rfl⟩

/-- A thread goes on. -/
theorem update_leaving {pc : τ → RegPc} {t : τ} {pc' : RegPc}
    (h : ∀ t, (pc t).leaving = false) (h' : pc'.leaving = false) (t' : τ) :
    (Function.update pc t pc' t').leaving = false := by
  by_cases htt : t' = t
  · rw [htt, Function.update_self]
    exact h'
  · rw [Function.update_of_ne htt]
    exact h t'

theorem NobodyLeaves.step (h : NobodyLeaves s) {l : RegLabel τ} (hl : Registers l)
    (hs : s.step pid l = some s') : NobodyLeaves s' := by
  cases l with
  | finalize t => cases hl
  | init t a =>
    obtain ⟨-, -, rfl⟩ := init_cases hs
    exact ⟨h.key, update_leaving h.stays rfl⟩
  | step t ok =>
    have hstays := h.stays t
    rcases doStep_cases hs with ⟨a, hp, rfl⟩ | ⟨a, m, created, hp, rfl⟩ |
      ⟨last, lastHere, hp, rfl⟩ | ⟨lastHere, hp, rfl⟩ | ⟨hacc, ⟨hnull, rfl⟩ | ⟨m, hdb, rfl⟩⟩
    · cases ok with
      | false => exact ⟨h.key, update_leaving h.stays rfl⟩
      | true =>
        rcases Option.eq_none_or_eq_some s.key with hkey | ⟨m, hkey⟩
        · -- the new memory is the first one
          rw [if_pos rfl, doAttach_of_none hkey]
          refine ⟨fun m hm => ?_, update_leaving h.stays rfl⟩
          rcases Nat.lt_succ_iff_lt_or_eq.mp hm with hlt | rfl
          · cases hkey.symm.trans (h.key m hlt)
          · rfl
        · rw [if_pos rfl, doAttach_of_some hkey]
          exact ⟨h.key, update_leaving h.stays rfl⟩
    · refine ⟨h.key, update_leaving h.stays ?_⟩
      cases created <;> rfl
    · rw [hp] at hstays
      cases hstays
    · rw [hp] at hstays
      cases hstays
    · exact ⟨h.key, update_leaving h.stays rfl⟩
    · exact ⟨h.key, update_leaving h.stays (regProgram_leaving hstays)⟩

omit [DecidableEq τ] in
/-- Without removals the other threads are never in the way. -/
theorem NobodyLeaves.othersOk (h : NobodyLeaves s) (hinv : RegistrationInv pid s.toRegistry s.pc)
    (t : τ) : OthersOk pid s t := by
  have hstays := h.stays t
  unfold OthersOk
  split
  · rename_i a m hp
    -- all pointers are to the one memory
    cases hdb : s.mcapi_db (pid t) with
    | none => exact Or.inl rfl
    | some k =>
      obtain ⟨m', hkey, hm⟩ := hinv.alive t (by rw [hp]; rfl)
      rw [hp] at hm
      obtain rfl : m = m' := hm
      have hk := h.key k (hinv.mcapi_db_lt _ k hdb)
      obtain rfl := Option.some.inj (hkey.symm.trans hk)
      exact Or.inr rfl
  · rename_i hp
    rw [hp] at hstays
    cases hstays
  · rename_i hp
    rw [hp] at hstays
    cases hstays
  · trivial

/-! ## The runs -/

omit [DecidableEq τ] in
/-- A registered thread has its entries. -/
theorem RegistrationInv.carries (h : RegistrationInv pid s.toRegistry s.pc) {t : τ} {w : Whoami}
    (hp : s.pc t = .idle) (hw : s.whoami t = some w) :
    ∃ m, s.key = some m ∧ s.mcapi_db (pid t) = some m ∧ CarriesIds (s.memories m) w := by
  have hheld : (s.pc t).held (s.whoami t) = some w := by
    rw [hp]
    exact hw
  obtain ⟨m, hm, hpoints⟩ := h.alive t (RegPc.uses_of_held hheld)
  rw [hp] at hpoints
  obtain ⟨halloc, hnum, -⟩ := h.content hheld hm
  refine ⟨m, hm, hpoints, h.entered m hm t w.dindex w.domain_id ?_, ?_, halloc, hnum⟩
  · rw [RegPc.entered, hheld, hp]
    rfl
  · exact (RegPc.Ok.inTable (h.ok t) hheld).2

theorem run_registers
    (h : Run (RegSys.step pid) (RegistrationGuard pid) (RegSys.initial τ) s) :
    RegistrationInv pid s.toRegistry s.pc ∧ NobodyLeaves s := by
  refine h.invariant (I := fun s => RegistrationInv pid s.toRegistry s.pc ∧ NobodyLeaves s)
    (fun s l s' hinv hs hg => ?_) ⟨.initial, .initial⟩
  obtain ⟨hinv, hstays⟩ := hinv
  refine ⟨hinv.step hs ?_, hstays.step hg.1 hs⟩
  cases l with
  | step t ok => exact ⟨hg.2, hstays.othersOk hinv t⟩
  | _ => trivial

end

/-- A thread creates the memory, clears it and registers node 1 of domain 1. -/
def registerOne : List (RegLabel Bool) :=
  .init false ⟨1, 1, true⟩ :: List.replicate 107 (.step false true)

/-- Thread 0 has created the memory. Threads 1 and 2 look for domain 1 and miss
it; then each of them takes an entry for it. -/
def twoMisses : List (RegLabel (Fin 3)) :=
  .init 0 ⟨1, 1, true⟩ :: List.replicate 2 (.step 0 true) ++
    .init 1 ⟨1, 1, true⟩ :: List.replicate 5 (.step 1 true) ++
    .init 2 ⟨1, 2, true⟩ :: List.replicate 4 (.step 2 true) ++
    .step 1 true :: List.replicate 4 (.step 2 true)

end MxApi
