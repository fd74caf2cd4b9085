/-
`sys_atomic_xchg` and `sys_atomic_xchg_ptr` on one location, without a barrier,
by any number of clients.

The exchange is a plain read followed by a compare and swap against the value
read, whose outcome is ignored. If the location has changed in between, nothing
is installed, and the caller is told the value that prevented it as the previous
one ([`xchg_loses_value`]). The exchange is a swap where the compare and swap finds the
value read, or the very value to be stored ([`xchg_swaps_iff`]).

Both functions have the same body, at an integer width and at pointers; the
values are a type `V` here.
-/
import Mathlib.Data.Multiset.Basic
import Mathlib.Data.Multiset.AddSub
import MxApi.Lib.Observer
import MxApi.Mrapi.Atomics

set_option autoImplicit false

namespace MxApi.Xchg

open Lib

variable {V τ : Type}

/-- Where a client stands in a call: before the read, or before the compare and
swap, with the value read. -/
inductive Pc (V : Type)
  | idle
  | read (exchange : V)
  | cas (exchange previous : V)
  deriving DecidableEq, Repr

/-- The location and the clients. -/
structure St (V τ : Type) where
  dest : V
  pc : τ → Pc V

/-- The start of a call, and the next step of one. -/
inductive Label (V τ : Type)
  | xchg (t : τ) (exchange : V)
  | step (t : τ)
  deriving DecidableEq, Repr

/-- What a call that has returned did: the value it was to install, the value it
reported, and the location before and after its compare and swap. -/
structure Returned (V : Type) where
  exchange : V
  previous : V
  before : V
  after : V
  deriving DecidableEq, Repr

variable [DecidableEq V] [DecidableEq τ]

/-- `__sync_val_compare_and_swap`: what it leaves; it returns what it found. -/
def compareAndSwap (dest compare exchange : V) : V := if dest = compare then exchange else dest

/-- A call that nobody interrupts is the sequential `sys_atomic_xchg`. -/
theorem sys_atomic_xchg_eq {size : ℕ} (h : Atomics.IntegerSize size)
    (dest exchange : BitVec (8 * size)) :
    Atomics.sys_atomic_xchg size dest exchange true =
      some (compareAndSwap dest dest exchange, some dest.toNat) := by
  simp [Atomics.sys_atomic_xchg, Atomics.sys_atomic_cas, Atomics.switchSize, h, compareAndSwap,
    Atomics.store]

/-- One step of the system. -/
def step (s : St V τ) : Label V τ → Option (St V τ)
  | .xchg t exchange =>
    match s.pc t with
    | .idle => some { s with pc := Function.update s.pc t (.read exchange) }
    | _ => none
  | .step t =>
    match s.pc t with
    | .idle => none
    | .read exchange => some { s with pc := Function.update s.pc t (.cas exchange s.dest) }
    | .cas exchange previous =>
      some ⟨compareAndSwap s.dest previous exchange, Function.update s.pc t .idle⟩

/-- The observer: the calls that have returned. The value reported is the one the
compare and swap found. -/
def returns (s : St V τ) (a : Label V τ) (s' : St V τ) (calls : List (Returned V)) :
    List (Returned V) :=
  match a with
  | .xchg _ _ => calls
  | .step t =>
    match s.pc t with
    | .cas exchange _ => calls ++ [⟨exchange, s.dest, s.dest, s'.dest⟩]
    | _ => calls

/-- The location starts with `dest`, and nobody is in a call. -/
def init (dest : V) : St V τ := ⟨dest, fun _ => .idle⟩

/-- The compare and swap that the label is about to perform, if any, finds the
value read, or the value to be stored. -/
def Unchanged (s : St V τ) (a : Label V τ) : Prop :=
  match a with
  | .xchg _ _ => True
  | .step t =>
    match s.pc t with
    | .cas exchange previous => s.dest = previous ∨ s.dest = exchange
    | _ => True

instance (s : St V τ) (a : Label V τ) : Decidable (Unchanged s a) := by
  unfold Unchanged
  split
  · infer_instance
  · split <;> infer_instance

/-- Every call has installed its value and reported the value it replaced; and
the values reported, with the value at the location, are the value the location
had at first, with the values installed. -/
structure Swaps (dest : V) (s : St V τ) (calls : List (Returned V)) : Prop where
  installs : ∀ c ∈ calls, c.after = c.exchange
  reports : ∀ c ∈ calls, c.previous = c.before
  conserves : (calls.map Returned.previous : Multiset V) + {s.dest} =
    {dest} + (calls.map Returned.exchange : Multiset V)

/-- One step. -/
theorem Swaps.step {dest : V} {s s' : St V τ} {a : Label V τ} {calls : List (Returned V)}
    (h : Swaps dest s calls) (hstep : step s a = some s') (hguard : Unchanged s a) :
    Swaps dest s' (returns s a s' calls) := by
  cases a with
  | xchg t exchange =>
    simp only [Xchg.step] at hstep
    split at hstep
    · cases hstep
      exact ⟨h.installs, h.reports, h.conserves⟩
    · cases hstep
  | step t =>
    simp only [Xchg.step] at hstep
    unfold Unchanged at hguard
    unfold returns
    dsimp only at hguard ⊢
    cases hpc : s.pc t with
    | idle =>
      rw [hpc] at hstep
      cases hstep
    | read exchange =>
      rw [hpc] at hstep
      cases hstep
      exact ⟨h.installs, h.reports, h.conserves⟩
    | cas exchange previous =>
      rw [hpc] at hstep hguard
      cases hstep
      -- the location has the new value, whether it was stored or was there already
      have hafter : compareAndSwap s.dest previous exchange = exchange := by
        unfold compareAndSwap
        split
        · rfl
        · rename_i hne
          exact hguard.resolve_left hne
      dsimp only
      rw [hafter]
      refine ⟨?_, ?_, ?_⟩
      · intro c hc
        rcases List.mem_append.mp hc with hold | hnew
        · exact h.installs c hold
        · rw [List.mem_singleton.mp hnew]
      · intro c hc
        rcases List.mem_append.mp hc with hold | hnew
        · exact h.reports c hold
        · rw [List.mem_singleton.mp hnew]
      · have hcons := h.conserves
        simp only [List.map_append, List.map_cons, List.map_nil, ← Multiset.coe_add,
          Multiset.coe_singleton]
        rw [hcons, Multiset.add_assoc]

omit [DecidableEq V] [DecidableEq τ] in
theorem Swaps.init (dest : V) : Swaps dest (init dest : St V τ) [] where
  installs := fun _ hc => absurd hc List.not_mem_nil
  reports := fun _ hc => absurd hc List.not_mem_nil
  conserves := Multiset.add_comm _ _

omit [DecidableEq V] [DecidableEq τ] in
/-- The calls that have returned are never forgotten. -/
theorem subset_returns (s s' : St V τ) (a : Label V τ) (calls : List (Returned V)) :
    calls ⊆ returns s a s' calls := by
  unfold returns
  split
  · exact List.Subset.refl _
  · split
    · exact List.subset_append_left _ _
    · exact List.Subset.refl _

/-- A call that installs its value has found what it may find. -/
theorem unchanged_of_installs {s s' : St V τ} {a : Label V τ} {calls : List (Returned V)}
    (hstep : Xchg.step s a = some s')
    (h : ∀ c ∈ returns s a s' calls, c.after = c.exchange) : Unchanged s a := by
  unfold Unchanged
  cases a with
  | xchg t exchange => trivial
  | step t =>
    dsimp only
    split
    · rename_i exchange previous hpc
      simp only [Xchg.step, hpc, Option.some.injEq] at hstep
      have hnew := h ⟨exchange, s.dest, s.dest, s'.dest⟩ (by simp [returns, hpc])
      rw [← hstep] at hnew
      change compareAndSwap s.dest previous exchange = exchange at hnew
      unfold compareAndSwap at hnew
      by_cases heq : s.dest = previous
      · exact .inl heq
      · rw [if_neg heq] at hnew
        exact .inr hnew
    · trivial

/-- **The exchange is a swap exactly where the location has not changed under
it.** The runs after which every call has installed its value, and no value is
lost or reported twice, are those in which every compare and swap finds the value
read or the value to be stored. -/
theorem xchg_swaps_iff (dest : V) (s : St V τ) (calls : List (Returned V)) :
    (Run (observed step returns) (fun _ _ _ => True) (init dest, []) (s, calls) ∧
      Swaps dest s calls) ↔
    Run (observed step returns) (fun q a _ => Unchanged q.1 a) (init dest, []) (s, calls) := by
  constructor
  · rintro ⟨hrun, hswaps⟩
    have hinstalls := hswaps.installs
    clear hswaps
    generalize ((init dest : St V τ), ([] : List (Returned V))) = p at hrun ⊢
    generalize hq : (s, calls) = q at hrun ⊢
    induction hrun generalizing s calls with
    | refl => exact .refl _
    | @tail u v a _ hmove _ ih =>
      subst hq
      obtain ⟨hstep, hcalls⟩ := observed_eq_some hmove
      change calls = _ at hcalls
      rw [hcalls] at hinstalls
      have hprefix : ∀ c ∈ u.2, c.after = c.exchange :=
        fun c hc => hinstalls c (subset_returns _ _ _ _ hc)
      exact .tail (ih u.1 u.2 hprefix rfl) hmove (unchanged_of_installs hstep hinstalls)
  · intro hrun
    refine ⟨hrun.mono fun _ _ _ _ => trivial, ?_⟩
    have hinv := Run.invariant (I := fun q => Swaps dest q.1 q.2) ?_ hrun (Swaps.init dest)
    · exact hinv
    · intro p a q h hmove hguard
      obtain ⟨hstep, hcalls⟩ := observed_eq_some hmove
      rw [hcalls]
      exact h.step hstep hguard

/-- **A value is lost.** Two clients read the location at 0. The first installs 1;
the compare and swap of the second fails, and it is told that it replaced 1 by 2. -/
theorem xchg_loses_value :
    ∃ (s : St ℕ Bool) (calls : List (Returned ℕ)),
      Run (observed step returns) (fun _ _ _ => True) (init 0, []) (s, calls) ∧
        (∀ t, s.pc t = .idle) ∧ calls = [⟨1, 0, 0, 1⟩, ⟨2, 1, 1, 1⟩] ∧ ¬ Swaps 0 s calls := by
  have hexec : (exec (observed step returns) (fun _ _ _ => true) (init 0, [])
      [.xchg false 1, .xchg true 2, .step false, .step true, .step false, .step true]).any
      (fun q => decide ((∀ t, q.1.pc t = .idle) ∧ q.2 = [⟨1, 0, 0, 1⟩, ⟨2, 1, 1, 1⟩])) = true := by
    decide
  obtain ⟨⟨s, calls⟩, hrun, hs⟩ := exec_run_of_any hexec
  obtain ⟨hidle, hcalls⟩ := of_decide_eq_true hs
  change calls = _ at hcalls
  refine ⟨s, calls, hrun.mono fun _ _ _ _ => trivial, hidle, hcalls, ?_⟩
  intro hswaps
  have hnot := hswaps.installs ⟨2, 1, 1, 1⟩ (by rw [hcalls]; simp)
  cases hnot

end MxApi.Xchg
