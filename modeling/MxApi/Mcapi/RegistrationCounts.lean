/-
The counter `num_nodes` of a domain.

A thread is counted from the increment of its registration to the decrement of
its removal, which are not the steps that take and free its entry. At quiescence
the threads counted are those that hold the allocated entries.
-/
import MxApi.Lib.Tally
import MxApi.Mcapi.RegistrationTeardown

set_option autoImplicit false

namespace MxApi

open Lib

namespace mcapi_database

variable (db : mcapi_database)

/-- The counters of the domains. -/
def numNodes (d : ℕ) : ℕ := (db.domains d).num_nodes

/-- How many nodes of a domain are allocated. -/
def allocatedNodes (d : ℕ) : ℕ :=
  ((Finset.range MCA_MAX_NODES).filter fun n => (db.nodeState (d, n)).allocated = true).card

/-- How many domains are allocated. -/
def allocatedDomains : ℕ :=
  ((Finset.range MCA_MAX_DOMAINS).filter fun d => (db.domainState d).allocated = true).card

section

variable {db} (d n k : ℕ) (w : mcapi_domain_state) (v : mcapi_node_state)
  (entry : mcapi_node_entry)

@[simp] theorem numNodes_setDomainState : (db.setDomainState d w).numNodes = db.numNodes := by
  funext e
  by_cases h : e = d
  · simp [setDomainState, setDomain, numNodes, ← h]
  · simp [setDomainState, setDomain, numNodes, h]

@[simp] theorem numNodes_setNode : (db.setNode d n entry).numNodes = db.numNodes := by
  funext e
  by_cases h : e = d
  · simp [setNode, numNodes, ← h]
  · simp [setNode, numNodes, h]

@[simp] theorem numNodes_setNodeState : (db.setNodeState d n v).numNodes = db.numNodes :=
  numNodes_setNode ..

@[simp] theorem numNodes_setNumNodes :
    (db.setNumNodes d k).numNodes = Function.update db.numNodes d k := by
  funext e
  by_cases h : e = d
  · subst h
    simp [setNumNodes, setDomain, numNodes]
  · simp [setNumNodes, setDomain, numNodes, h]

end

end mcapi_database

/-! ## Who is counted -/

/-- The update is made by a thread that is counted. -/
def NodeUpdate.counted : NodeUpdate → Bool
  | .invalidate _ => false
  | .rundown _ _ => false
  | _ => true

/-- The domain in which a thread is counted. -/
def RegPc.counted (who : Option Whoami) : RegPc → Option ℕ
  | .idle => who.map fun w => w.dindex
  | .zeroEndpoints w _ => some w.dindex
  | .readNode u w => if u.counted then some w.dindex else none
  | .xchgNode u w _ => if u.counted then some w.dindex else none
  | .swapNode u w _ _ => if u.counted then some w.dindex else none
  | .decNodes w => some w.dindex
  | _ => none

section

variable {who : Option Whoami} {pc : RegPc}

theorem uses_of_counted {d : ℕ} (h : pc.counted who = some d) : pc.uses who = true := by
  cases pc with
  | idle =>
    obtain ⟨w, rfl, -⟩ := Option.map_eq_some_iff.mp h
    rfl
  | readNode u | xchgNode u | swapNode u =>
    cases u with
    | rundown => cases h
    | _ => rfl
  | zeroEndpoints | decNodes => rfl
  | _ => cases h

theorem counted_of_uses_false (h : pc.uses who = false) : pc.counted who = none := by
  cases hc : pc.counted who with
  | none => rfl
  | some d => cases h.symm.trans (uses_of_counted hc)

theorem nextClear_counted (a : InitArgs) (d n : ℕ) : (nextClear a d n).counted who = none := by
  unfold nextClear
  split
  · rfl
  · split <;> rfl

theorem nextScan_counted (w : Whoami) (d i : ℕ) (last lastHere : Bool) :
    (nextScan w d i last lastHere).counted who = none := by
  rcases nextScan_cases w d i last lastHere with ⟨d', i', heq⟩ | heq
  · rw [heq]
    rfl
  · rw [heq]
    rfl

/-- The counters are changed by their own steps only, and then the thread comes
to be counted or is no longer. -/
theorem regProgram_counted (p : ℕ) (db : mcapi_database) (hok : pc.Ok who)
    (hacc : pc.accesses = true) :
    (∃ w start, pc = .incNodes w start) ∨ (∃ w, pc = .decNodes w) ∨
      (regProgram p db pc).2.counted (RegSys.identity who pc) = pc.counted who ∧
        (regProgram p db pc).1.numNodes = db.numNodes := by
  have hnone : who = none → RegPc.idle.counted who = none := by
    rintro rfl
    rfl
  cases pc with
  | incNodes w start => exact Or.inl ⟨w, start, rfl⟩
  | decNodes w => exact Or.inr (Or.inl ⟨w, rfl⟩)
  | idle | attach | point | release | detach | failed => cases hacc
  | clearDomainSwap a d previous =>
    refine Or.inr (Or.inr ⟨rfl, ?_⟩)
    rw [regProgram]
    split
    · exact mcapi_database.numNodes_setDomainState ..
    · rfl
  | clearNodeSwap a d n previous =>
    refine Or.inr (Or.inr ⟨nextClear_counted a d n, ?_⟩)
    rw [regProgram]
    split
    · exact mcapi_database.numNodes_setNodeState ..
    · rfl
  | findDomain a d =>
    refine Or.inr (Or.inr ⟨?_, rfl⟩)
    rw [regProgram]
    split
    · rfl
    · split <;> rfl
  | casDomain a d olddstate =>
    refine Or.inr (Or.inr ?_)
    rw [regProgram]
    split
    · exact ⟨rfl, mcapi_database.numNodes_setDomainState ..⟩
    · split
      · exact ⟨rfl, rfl⟩
      · exact ⟨hnone hok.1, rfl⟩
  | findNode a d n =>
    refine Or.inr (Or.inr ⟨?_, rfl⟩)
    rw [regProgram]
    split
    · exact hnone hok
    · split <;> rfl
  | casNode a d n oldnstate =>
    refine Or.inr (Or.inr ?_)
    rw [regProgram]
    split
    · exact ⟨rfl, mcapi_database.numNodes_setNodeState ..⟩
    · split
      · exact ⟨rfl, rfl⟩
      · exact ⟨hnone hok.1, rfl⟩
  | swapDomain w start newdstate previous =>
    refine Or.inr (Or.inr ⟨rfl, ?_⟩)
    rw [regProgram]
    split
    · exact mcapi_database.numNodes_setDomainState ..
    · rfl
  | setCaller w start => exact Or.inr (Or.inr ⟨rfl, mcapi_database.numNodes_setNode ..⟩)
  | zeroEndpoints w start => exact Or.inr (Or.inr ⟨rfl, mcapi_database.numNodes_setNode ..⟩)
  | readNode u | xchgNode u => exact Or.inr (Or.inr ⟨by cases u <;> rfl, rfl⟩)
  | swapNode u w newstate previous =>
    refine Or.inr (Or.inr ⟨?_, ?_⟩)
    · cases u with
      | invalidate | remove | rundown => rfl
      | trans_start =>
        obtain ⟨-, rfl⟩ := hok rfl
        rfl
      | clearRundown start =>
        obtain ⟨-, rfl⟩ := hok rfl
        cases start <;> rfl
    · rw [regProgram]
      split
      · exact mcapi_database.numNodes_setNodeState ..
      · rfl
  | scan w d i last lastHere =>
    refine Or.inr (Or.inr ⟨?_, rfl⟩)
    rw [regProgram]
    split
    · rfl
    · exact nextScan_counted ..
  | scanPid w d i lastHere => exact Or.inr (Or.inr ⟨nextScan_counted .., rfl⟩)
  | _ => exact Or.inr (Or.inr ⟨rfl, rfl⟩)

end

/-! ## The invariant -/

section

variable {τ : Type} [DecidableEq τ] {pid : τ → ℕ} {s s' : RegSys τ} {t : τ}

/-- The counter of a domain is the number of the threads counted in it. -/
def CountInv (s : RegSys τ) : Prop :=
  ∀ m, s.key = some m → ∀ d, ∃ k,
    Tally (fun t => (s.pc t).counted (s.whoami t) = some d) k ∧
      (s.memories m).numNodes d = u32 k

omit [DecidableEq τ] in
theorem CountInv.initial : CountInv (RegSys.initial τ) := fun _ h => by cases h

omit [DecidableEq τ] in
/-- A step that changes neither the counters nor who is counted. -/
theorem CountInv.stay (h : CountInv s) (hpc : ∀ t', t' ≠ t → s'.pc t' = s.pc t')
    (hwho : ∀ t', t' ≠ t → s'.whoami t' = s.whoami t')
    (hkey : ∀ m, s'.key = some m →
      s.key = some m ∧ (s'.memories m).numNodes = (s.memories m).numNodes)
    (hcounted : (s'.pc t).counted (s'.whoami t) = (s.pc t).counted (s.whoami t)) :
    CountInv s' := by
  intro m hm d
  obtain ⟨hm', hnum⟩ := hkey m hm
  obtain ⟨k, htally, hk⟩ := h m hm' d
  refine ⟨k, htally.congr fun t' => ?_, ?_⟩
  · by_cases htt : t' = t
    · rw [htt, hcounted]
    · rw [hpc t' htt, hwho t' htt]
  · rw [hnum]
    exact hk

theorem CountInv.goto (h : CountInv s) {pc' : RegPc}
    (hcounted : pc'.counted (s.whoami t) = (s.pc t).counted (s.whoami t)) :
    CountInv (s.goto t pc') := by
  have hself : (s.goto t pc').pc t = pc' := Function.update_self ..
  refine h.stay (fun t' htt => Function.update_of_ne htt ..) (fun _ _ => rfl)
    (fun _ hm => ⟨hm, rfl⟩) ?_
  rw [hself]
  exact hcounted

/-- A step on the memory. -/
theorem CountInv.program (h : CountInv s) (hinv : RegistrationInv pid s.toRegistry s.pc) {m : ℕ}
    (hdb : s.mcapi_db (pid t) = some m) (hacc : (s.pc t).accesses = true) :
    CountInv (s.doProgram pid t m) := by
  have hpc : ∀ t', t' ≠ t → (s.doProgram pid t m).pc t' = s.pc t' := fun t' htt =>
    doProgram_pc_of_ne htt
  have hwho : ∀ t', t' ≠ t → (s.doProgram pid t m).whoami t' = s.whoami t' := fun t' htt =>
    doProgram_whoami_of_ne htt
  have hmem : (s.doProgram pid t m).memories m =
      (regProgram (pid t) (s.memories m) (s.pc t)).1 := Function.update_self ..
  have hothers : ∀ d t', t' ≠ t →
      (((s.doProgram pid t m).pc t').counted ((s.doProgram pid t m).whoami t') = some d ↔
        (s.pc t').counted (s.whoami t') = some d) := by
    intro d t' htt
    rw [hpc t' htt, hwho t' htt]
  rcases regProgram_counted (pid t) (s.memories m) (hinv.ok t) hacc with
    ⟨w, start, hp⟩ | ⟨w, hp⟩ | ⟨hcounted, hnum⟩
  · intro k hk d
    have hkm : k = m := Option.some.inj (hk.symm.trans (hinv.key_eq hdb hp rfl rfl))
    subst hkm
    rw [hp, regProgram_incNodes] at hmem
    obtain ⟨n, htally, hn⟩ := h k hk d
    have hself : ((s.doProgram pid t k).pc t).counted ((s.doProgram pid t k).whoami t) =
        some w.dindex := by
      rw [doProgram_pc_self, hp, regProgram_incNodes]
      rfl
    have hold : (s.pc t).counted (s.whoami t) = none := by
      rw [hp]
      rfl
    rw [hmem, mcapi_database.numNodes_setNumNodes]
    by_cases hd : d = w.dindex
    · subst hd
      refine ⟨n + 1, htally.enter (o := t) ?_ hself (hothers w.dindex), ?_⟩
      · rw [hold]
        exact (Option.some_ne_none _).symm
      · rw [Function.update_self]
        change u32 ((s.memories k).numNodes w.dindex + 1) = _
        rw [hn, u32_succ]
    · refine ⟨n, htally.congr fun t' => ?_, ?_⟩
      · by_cases htt : t' = t
        · rw [htt, hself, hold]
          exact ⟨fun heq => absurd (Option.some.inj heq).symm hd, fun heq => by cases heq⟩
        · exact hothers d t' htt
      · rw [Function.update_of_ne hd]
        exact hn
  · intro k hk d
    have hkm : k = m := Option.some.inj (hk.symm.trans (hinv.key_eq hdb hp rfl rfl))
    subst hkm
    rw [hp, regProgram_decNodes] at hmem
    obtain ⟨n, htally, hn⟩ := h k hk d
    have hself : ((s.doProgram pid t k).pc t).counted ((s.doProgram pid t k).whoami t) =
        none := by
      rw [doProgram_pc_self, hp, regProgram_decNodes]
      rfl
    have hold : (s.pc t).counted (s.whoami t) = some w.dindex := by
      rw [hp]
      rfl
    rw [hmem, mcapi_database.numNodes_setNumNodes]
    by_cases hd : d = w.dindex
    · subst hd
      obtain ⟨j, rfl, hj⟩ := htally.leave (o := t) hold
        (by rw [hself]; exact (Option.some_ne_none _).symm) (hothers w.dindex)
      refine ⟨j, hj, ?_⟩
      rw [Function.update_self]
      change subU32 ((s.memories k).numNodes w.dindex) 1 = _
      rw [hn, subU32_succ]
    · refine ⟨n, htally.congr fun t' => ?_, ?_⟩
      · by_cases htt : t' = t
        · rw [htt, hself, hold]
          exact ⟨fun heq => absurd heq.symm (Option.some_ne_none _),
            fun heq => absurd (Option.some.inj heq).symm hd⟩
        · exact hothers d t' htt
      · rw [Function.update_of_ne hd]
        exact hn
  · refine h.stay hpc hwho (fun k hk => ⟨hk, ?_⟩) ?_
    · by_cases hkm : k = m
      · rw [hkm, hmem]
        exact hnum
      · have hsame : (s.doProgram pid t m).memories k = s.memories k :=
          Function.update_of_ne hkm ..
        rw [hsame]
    · rw [doProgram_pc_self, doProgram_whoami_self]
      exact hcounted

/-- **Every step keeps the counters right.** -/
theorem CountInv.step (h : CountInv s) (hinv : RegistrationInv pid s.toRegistry s.pc)
    {l : RegLabel τ} (hs : s.step pid l = some s') : CountInv s' := by
  cases l with
  | init t a =>
    obtain ⟨hp, hnone, rfl⟩ := init_cases hs
    refine h.goto ?_
    rw [hp, hnone]
    rfl
  | finalize t =>
    obtain ⟨w, hp, hw, rfl | rfl⟩ := finalize_cases hs
    · refine h.goto ?_
      rw [hp, hw]
      rfl
    · exact h
  | step t ok =>
    rcases doStep_cases hs with ⟨a, hp, rfl⟩ | ⟨a, m, created, hp, rfl⟩ |
      ⟨last, lastHere, hp, rfl⟩ | ⟨lastHere, hp, rfl⟩ | ⟨hacc, ⟨hnull, rfl⟩ | ⟨m, hdb, rfl⟩⟩
    · have hnone : s.whoami t = none := by
        have hok := hinv.ok t
        rw [hp] at hok
        exact hok
      cases ok with
      | false =>
        refine h.goto ?_
        rw [hp, hnone]
        rfl
      | true =>
        rw [if_pos rfl]
        rcases Option.eq_none_or_eq_some s.key with hkey | ⟨m, hkey⟩
        · -- nobody is counted in a new memory
          intro m hm d
          rw [doAttach_of_none hkey] at hm ⊢
          obtain rfl := Option.some.inj hm
          refine ⟨0, Tally.none fun t' hc => ?_, ?_⟩
          · change (Function.update s.pc t (.point a s.created true) t').counted (s.whoami t') =
              some d at hc
            by_cases htt : t' = t
            · rw [htt, Function.update_self] at hc
              cases hc
            · rw [Function.update_of_ne htt] at hc
              cases (hinv.uses_false hkey t').symm.trans (uses_of_counted hc)
          · change (Function.update s.memories s.created .zero s.created).numNodes d = u32 0
            rw [Function.update_self]
            rfl
        · rw [doAttach_of_some hkey]
          refine h.stay (fun t' htt => Function.update_of_ne htt ..) (fun _ _ => rfl)
            (fun _ hm => ⟨hm, rfl⟩) ?_
          change (Function.update s.pc t (.point a m false) t).counted _ = _
          rw [Function.update_self, hp]
          rfl
    · refine h.stay (fun t' htt => Function.update_of_ne htt ..) (fun _ _ => rfl)
        (fun _ hm => ⟨hm, rfl⟩) ?_
      change (Function.update s.pc t (if created then .clearDomain a 0 else .findDomain a 0)
        t).counted _ = _
      rw [Function.update_self, hp]
      cases created <;> rfl
    · refine h.stay (fun t' htt => Function.update_of_ne htt ..) (fun _ _ => rfl)
        (fun m hm => ⟨?_, rfl⟩) ?_
      · change (if last = true ∧ s.key = s.shm (pid t) then none else s.key) = some m at hm
        split at hm
        · cases hm
        · exact hm
      · change (Function.update s.pc t (.detach lastHere) t).counted _ = _
        rw [Function.update_self, hp]
        rfl
    · refine h.stay (fun t' htt => Function.update_of_ne htt ..)
        (fun t' htt => Function.update_of_ne htt ..) (fun _ hm => ⟨hm, rfl⟩) ?_
      change (Function.update s.pc t .idle t).counted (Function.update s.whoami t none t) = _
      rw [Function.update_self, Function.update_self, hp]
      rfl
    · refine h.goto ?_
      rw [counted_of_uses_false (hinv.uses_false_of_null hacc hnull)]
      rfl
    · exact h.program hinv hdb hacc

omit [DecidableEq τ] in
/-- **The counters at quiescence.** -/
theorem CountInv.quiet (h : CountInv s) (hinv : RegistrationInv pid s.toRegistry s.pc)
    (hquiet : ∀ t, s.pc t = .idle) {m : ℕ} (hkey : s.key = some m) (d : ℕ) :
    (s.memories m).numNodes d = (s.memories m).allocatedNodes d := by
  obtain ⟨k, htally, hk⟩ := h m hkey d
  have hheld : ∀ t, (s.pc t).held (s.whoami t) = s.whoami t := by
    intro t
    rw [hquiet t]
    rfl
  have hcounted : ∀ t, (s.pc t).counted (s.whoami t) = some d ↔
      ∃ w, s.whoami t = some w ∧ w.dindex = d := by
    intro t
    rw [hquiet t]
    exact Option.map_eq_some_iff
  have hcard : k = (s.memories m).allocatedNodes d := by
    refine htally.eq_card (f := fun t => (s.whoami t).elim 0 Whoami.nindex)
      (fun t t' ht ht' heq => ?_) fun n => ?_
    · obtain ⟨w, hw, hd⟩ := (hcounted t).mp ht
      obtain ⟨w', hw', hd'⟩ := (hcounted t').mp ht'
      rw [hw, hw'] at heq
      have hn : w.nindex = w'.nindex := heq
      have hc := RegPc.claim_of_held ((hheld t).trans hw)
      have hc' := RegPc.claim_of_held ((hheld t').trans hw')
      rw [hd, hn] at hc
      rw [hd'] at hc'
      exact (hinv.covers m hkey).excl hc hc'
    · rw [Finset.mem_filter, Finset.mem_range]
      constructor
      · rintro ⟨-, halloc⟩
        obtain ⟨t, w, hw, hc⟩ := hinv.held_of_allocated hkey halloc
        rw [hheld] at hw
        refine ⟨t, (hcounted t).mpr ⟨w, hw, (Prod.mk.inj hc).1⟩, ?_⟩
        rw [hw]
        exact (Prod.mk.inj hc).2
      · rintro ⟨t, ht, rfl⟩
        obtain ⟨w, hw, rfl⟩ := (hcounted t).mp ht
        have hheld' := (hheld t).trans hw
        rw [hw]
        exact ⟨(RegPc.Ok.inTable (hinv.ok t) hheld').2, (hinv.content hheld' hkey).1⟩
  have hle : k ≤ MCA_MAX_NODES := by
    rw [hcard]
    exact (Finset.card_filter_le _ _).trans_eq (Finset.card_range _)
  rw [hk, ← hcard]
  refine u32_of_lt (hle.trans_lt ?_)
  decide

end

end MxApi
