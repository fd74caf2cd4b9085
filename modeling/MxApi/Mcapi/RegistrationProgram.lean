/-
The atomic steps of registrations and removals keep the invariant, as long as
they do not take one of the branches the guards name.
-/
import MxApi.Mcapi.RegistrationInvariant

set_option autoImplicit false

namespace MxApi

open Lib

/-! ## The branches that break the invariant -/

/-- What a step on the memory must not do: clear the word of an entry that is
allocated; find a domain in an entry that is not; take an entry for a domain or
a node that has one; set the flag of an entry given up over a word that is, or
was when it was read, allocated. -/
def StepOk (db : mcapi_database) : RegPc → Prop
  | .clearDomainSwap _ d previous =>
    db.domainState d = previous → previous.allocated = false
  | .clearNodeSwap _ d n previous =>
    db.nodeState (d, n) = previous → previous.allocated = false
  | .findDomain a d =>
    (db.domainState d).domain_id = a.domain_id → (db.domainState d).allocated = true
  | .casDomain a d olddstate =>
    db.domainState d = { olddstate with allocated := false } →
      ∀ d' < MCA_MAX_DOMAINS, d' ≠ d → (db.domainState d').allocated = true →
        (db.domainState d').domain_id ≠ a.domain_id
  | .casNode a d n oldnstate =>
    db.nodeState (d, n) = { oldnstate with allocated := false } →
      ∀ n' < MCA_MAX_NODES, (db.nodeState (d, n')).allocated = true →
        (db.nodeState (d, n')).node_num ≠ a.node_id
  | .swapNode (.rundown _ _) w newstate previous =>
    db.nodeState (w.dindex, w.nindex) = previous →
      previous.allocated = false ∧ newstate.allocated = false
  | _ => True

instance (db : mcapi_database) (pc : RegPc) : Decidable (StepOk db pc) := by
  unfold StepOk
  split <;> infer_instance

/-- The program points whose step is one on the memory. -/
def RegPc.accesses : RegPc → Bool
  | .idle => false
  | .attach _ => false
  | .point _ _ _ => false
  | .release _ _ => false
  | .detach _ => false
  | .failed => false
  | _ => true

section

variable {τ : Type} [DecidableEq τ] {pid : τ → ℕ} {r : Registry τ} {pc : τ → RegPc} {t : τ}
  {m : ℕ}

omit [DecidableEq τ] in
/-- A thread that needs the memory works on the one of the key. -/
theorem RegistrationInv.key_eq (h : RegistrationInv pid r pc) (hdb : r.mcapi_db (pid t) = some m)
    {p : RegPc} (hp : pc t = p) (hacc : p.accesses = true) (hu : p.uses (r.whoami t) = true) :
    r.key = some m := by
  obtain ⟨k, hk, hpoints⟩ := h.alive t (by rw [hp]; exact hu)
  rw [hp, hdb] at hpoints
  have hkm : some m = some k := by
    cases p with
    | point => cases hacc
    | _ => exact hpoints
  rw [hk, hkm]

/-- A program point at which a thread holds nothing and has found no domain. -/
structure RegPc.Searching (who : Option Whoami) (m : ℕ) (pc : RegPc) : Prop where
  points : pc.PointsTo (some m) m
  held : pc.held who = none
  found : pc.found = none
  ok : pc.Ok who

theorem RegPc.Searching.entered {who : Option Whoami} {pc : RegPc} (h : pc.Searching who m) :
    pc.entered who = none := by
  rw [RegPc.entered, h.found, h.held]
  rfl

/-- A thread that holds nothing goes on searching. -/
theorem RegistrationInv.search (h : RegistrationInv pid r pc)
    (hdb : r.mcapi_db (pid t) = some m) {p pc' : RegPc} (hp : pc t = p)
    (hkey : r.key = some m ∨ pc'.uses (r.whoami t) = false)
    (hheld : p.held (r.whoami t) = none) (hs : pc'.Searching (r.whoami t) m)
    {db : mcapi_database} (hn : db.nodeState = (r.memories m).nodeState)
    (hd : db.domainState = (r.memories m).domainState) :
    RegistrationInv pid (r.write t m db (r.whoami t)) (Function.update pc t pc') := by
  subst hp
  refine h.read hdb (hkey.imp id fun hu => ⟨hheld, hu⟩) hs.points hs.ok hn hd
    (hs.held.trans hheld.symm) (fun w hw => ?_) fun d id hid => ?_
  · rw [hs.held] at hw
    cases hw
  · rw [hs.entered] at hid
    cases hid

/-- The invariant after the step of a thread at program point `p`. -/
def StepInv (pid : τ → ℕ) (r : Registry τ) (pc : τ → RegPc) (t : τ) (m : ℕ) (p : RegPc) : Prop :=
  RegistrationInv pid
    (r.write t m (regProgram (pid t) (r.memories m) p).1 (RegSys.identity (r.whoami t) p))
    (Function.update pc t (regProgram (pid t) (r.memories m) p).2)

section

variable (h : RegistrationInv pid r pc) (hdb : r.mcapi_db (pid t) = some m)

include h hdb

/-! ## Clearing a new memory -/

theorem stepInv_clearDomain {a : InitArgs} {d : ℕ} (hp : pc t = .clearDomain a d) :
    StepInv pid r pc t m (.clearDomain a d) := by
  have hok := h.ok t
  rw [hp] at hok
  unfold StepInv
  rw [regProgram]
  refine h.search hdb hp (Or.inl (h.key_eq hdb hp rfl rfl)) rfl ?_ rfl rfl
  exact ⟨rfl, rfl, rfl, hok⟩

theorem stepInv_clearDomainSwap {a : InitArgs} {d : ℕ} {previous : mcapi_domain_state}
    (hp : pc t = .clearDomainSwap a d previous)
    (hg : StepOk (r.memories m) (.clearDomainSwap a d previous)) :
    StepInv pid r pc t m (.clearDomainSwap a d previous) := by
  have hok := h.ok t
  rw [hp] at hok
  have hkey := h.key_eq hdb hp rfl rfl
  unfold StepInv
  rw [regProgram]
  by_cases hprev : ((r.memories m).domains d).state = previous
  · have hfree : ((r.memories m).domainState d).allocated = false := by
      show ((r.memories m).domains d).state.allocated = false
      rw [hprev]
      exact hg hprev
    rw [if_pos hprev]
    refine h.writeDomain hdb hkey rfl hok (mcapi_database.nodeState_setDomainState d _)
      (mcapi_database.domainState_setDomainState d _) (by rw [hp]; rfl) (fun w hw => by cases hw)
      (fun e id hid => by cases hid) (fun halloc => ?_) fun _ hword => by cases hword
    rw [hfree] at halloc
    cases halloc
  · rw [if_neg hprev]
    refine h.search hdb hp (Or.inl hkey) rfl ?_ rfl rfl
    exact ⟨rfl, rfl, rfl, hok⟩

theorem stepInv_clearNode {a : InitArgs} {d n : ℕ} (hp : pc t = .clearNode a d n) :
    StepInv pid r pc t m (.clearNode a d n) := by
  have hok := h.ok t
  rw [hp] at hok
  unfold StepInv
  rw [regProgram]
  refine h.search hdb hp (Or.inl (h.key_eq hdb hp rfl rfl)) rfl ?_ rfl rfl
  exact ⟨rfl, rfl, rfl, hok⟩

omit h hdb in
omit [DecidableEq τ] in
theorem nextClear_searching {a : InitArgs} {d n : ℕ} (hnone : r.whoami t = none) :
    (nextClear a d n).Searching (r.whoami t) m := by
  unfold nextClear
  split
  · exact ⟨rfl, rfl, rfl, hnone⟩
  · split
    · exact ⟨rfl, rfl, rfl, hnone⟩
    · exact ⟨rfl, rfl, rfl, hnone, by decide⟩

theorem stepInv_clearNodeSwap {a : InitArgs} {d n : ℕ} {previous : mcapi_node_state}
    (hp : pc t = .clearNodeSwap a d n previous)
    (hg : StepOk (r.memories m) (.clearNodeSwap a d n previous)) :
    StepInv pid r pc t m (.clearNodeSwap a d n previous) := by
  have hok := h.ok t
  rw [hp] at hok
  have hkey := h.key_eq hdb hp rfl rfl
  have hnext : (nextClear a d n).Searching (r.whoami t) m := nextClear_searching hok
  unfold StepInv
  rw [regProgram]
  by_cases hprev : ((r.memories m).node d n).state = previous
  · have hfree : ((r.memories m).nodeState (d, n)).allocated = false := by
      show ((r.memories m).node d n).state.allocated = false
      rw [hprev]
      exact hg hprev
    rw [if_pos hprev]
    refine h.writeNode hdb (Or.inl hkey) hnext.points hnext.ok
      (mcapi_database.nodeState_setNodeState d n _)
      (mcapi_database.domainState_setNodeState d n _) (Or.inr ⟨by rw [hp]; rfl, hfree⟩)
      (fun w hw => ?_) (fun _ => rfl) (fun e id hid => ?_) (fun _ hword => by cases hword)
      fun _ hword => by cases hword
    · cases hnext.held.symm.trans hw
    · cases hnext.entered.symm.trans hid
  · rw [if_neg hprev]
    exact h.search hdb hp (Or.inl hkey) rfl hnext rfl rfl

/-! ## Finding or taking the domain's entry -/

theorem stepInv_findDomain {a : InitArgs} {d : ℕ} (hp : pc t = .findDomain a d)
    (hg : StepOk (r.memories m) (.findDomain a d)) : StepInv pid r pc t m (.findDomain a d) := by
  obtain ⟨hnone, hd⟩ : r.whoami t = none ∧ d < MCA_MAX_DOMAINS := by
    have hok := h.ok t
    rw [hp] at hok
    exact hok
  have hkey := h.key_eq hdb hp rfl rfl
  unfold StepInv
  rw [regProgram]
  by_cases hid : ((r.memories m).domains d).state.domain_id = a.domain_id
  · -- the entry found is allocated to the id
    have hfound : DomainIs (r.memories m) d a.domain_id := ⟨hd, hg hid, hid⟩
    rw [if_pos hid]
    refine h.read hdb (Or.inl hkey) rfl hnone rfl rfl (by rw [hp]; rfl) (fun w hw => by cases hw)
      fun e id he => ?_
    obtain ⟨rfl, rfl⟩ := Prod.mk.inj (Option.some.inj he)
    exact Or.inr hfound
  · rw [if_neg hid]
    split
    · refine h.search hdb hp (Or.inl hkey) rfl ?_ rfl rfl
      exact ⟨rfl, rfl, rfl, hnone, by assumption⟩
    · refine h.search hdb hp (Or.inl hkey) rfl ?_ rfl rfl
      exact ⟨rfl, rfl, rfl, hnone, by decide⟩

theorem stepInv_takeDomain {a : InitArgs} {d : ℕ} (hp : pc t = .takeDomain a d) :
    StepInv pid r pc t m (.takeDomain a d) := by
  have hok := h.ok t
  rw [hp] at hok
  unfold StepInv
  rw [regProgram]
  refine h.search hdb hp (Or.inl (h.key_eq hdb hp rfl rfl)) rfl ?_ rfl rfl
  exact ⟨rfl, rfl, rfl, hok⟩

theorem stepInv_casDomain {a : InitArgs} {d : ℕ} {olddstate : mcapi_domain_state}
    (hp : pc t = .casDomain a d olddstate)
    (hg : StepOk (r.memories m) (.casDomain a d olddstate)) :
    StepInv pid r pc t m (.casDomain a d olddstate) := by
  obtain ⟨hnone, hd⟩ : r.whoami t = none ∧ d < MCA_MAX_DOMAINS := by
    have hok := h.ok t
    rw [hp] at hok
    exact hok
  have hkey := h.key_eq hdb hp rfl rfl
  unfold StepInv
  rw [regProgram]
  by_cases hcas : ((r.memories m).domains d).state = { olddstate with allocated := false }
  · have hfree : ((r.memories m).domainState d).allocated = false := by
      show ((r.memories m).domains d).state.allocated = false
      rw [hcas]
    rw [if_pos hcas]
    refine h.writeDomain hdb hkey rfl hnone (mcapi_database.nodeState_setDomainState d _)
      (mcapi_database.domainState_setDomainState d _) (by rw [hp]; rfl) (fun w hw => by cases hw)
      (fun e id he => ?_) (fun halloc => ?_) fun _ _ => hg hcas
    · obtain ⟨rfl, rfl⟩ := Prod.mk.inj (Option.some.inj he)
      refine Or.inr ⟨hd, ?_, ?_⟩ <;>
        rw [mcapi_database.domainState_setDomainState, Function.update_self]
    · rw [hfree] at halloc
      cases halloc
  · rw [if_neg hcas]
    split
    · refine h.search hdb hp (Or.inl hkey) rfl ?_ rfl rfl
      exact ⟨rfl, rfl, rfl, hnone, by assumption⟩
    · refine h.search hdb hp (Or.inl hkey) rfl ?_ rfl rfl
      refine ⟨rfl, hnone, rfl, fun w hw => ?_⟩
      cases hnone.symm.trans hw

/-! ## Finding or taking the node's entry -/

theorem stepInv_findNode {a : InitArgs} {d n : ℕ} (hp : pc t = .findNode a d n) :
    StepInv pid r pc t m (.findNode a d n) := by
  have hnone := h.ok t
  rw [hp] at hnone
  have hkey := h.key_eq hdb hp rfl rfl
  unfold StepInv
  rw [regProgram]
  split
  · -- this node already exists for this domain
    refine h.search hdb hp (Or.inl hkey) rfl ?_ rfl rfl
    refine ⟨rfl, hnone, rfl, fun w hw => ?_⟩
    cases hnone.symm.trans hw
  · split
    · refine h.read hdb (Or.inl hkey) rfl hnone rfl rfl (by rw [hp]; rfl)
        (fun w hw => by cases hw) fun e id he => Or.inl ?_
      rw [hp]
      exact he
    · refine h.read hdb (Or.inl hkey) rfl ⟨hnone, by decide⟩ rfl rfl (by rw [hp]; rfl)
        (fun w hw => by cases hw) fun e id he => Or.inl ?_
      rw [hp]
      exact he

theorem stepInv_takeNode {a : InitArgs} {d n : ℕ} (hp : pc t = .takeNode a d n) :
    StepInv pid r pc t m (.takeNode a d n) := by
  have hok := h.ok t
  rw [hp] at hok
  unfold StepInv
  rw [regProgram]
  refine h.read hdb (Or.inl (h.key_eq hdb hp rfl rfl)) rfl hok rfl rfl (by rw [hp]; rfl)
    (fun w hw => by cases hw) fun e id he => Or.inl ?_
  rw [hp]
  exact he

theorem stepInv_casNode {a : InitArgs} {d n : ℕ} {oldnstate : mcapi_node_state}
    (hp : pc t = .casNode a d n oldnstate)
    (hg : StepOk (r.memories m) (.casNode a d n oldnstate)) :
    StepInv pid r pc t m (.casNode a d n oldnstate) := by
  obtain ⟨hnone, hn⟩ : r.whoami t = none ∧ n < MCA_MAX_NODES := by
    have hok := h.ok t
    rw [hp] at hok
    exact hok
  have hkey := h.key_eq hdb hp rfl rfl
  have hdomain : DomainIs (r.memories m) d a.domain_id :=
    h.entered m hkey t d a.domain_id (by rw [hp]; rfl)
  unfold StepInv
  rw [regProgram]
  by_cases hcas : ((r.memories m).node d n).state = { oldnstate with allocated := false }
  · have hfree : ((r.memories m).nodeState (d, n)).allocated = false := by
      show ((r.memories m).node d n).state.allocated = false
      rw [hcas]
    rw [if_pos hcas]
    refine h.writeNode hdb (Or.inl hkey) rfl ⟨hdomain.1, hn⟩
      (mcapi_database.nodeState_setNodeState d n _)
      (mcapi_database.domainState_setNodeState d n _) (Or.inr ⟨by rw [hp]; rfl, hfree⟩)
      (fun w hw => ?_) (fun hw => by cases hw) (fun e id he => Or.inl ?_) (fun halloc => ?_)
      fun _ _ => hg hcas
    · obtain rfl := Option.some.inj hw
      exact ⟨rfl, rfl, rfl, trivial⟩
    · rw [hp]
      exact he
    · rw [hfree] at halloc
      cases halloc
  · rw [if_neg hcas]
    split
    · refine h.read hdb (Or.inl hkey) rfl ⟨hnone, by assumption⟩ rfl rfl (by rw [hp]; rfl)
        (fun w hw => by cases hw) fun e id he => Or.inl ?_
      rw [hp]
      exact he
    · refine h.search hdb hp (Or.inl hkey) rfl ?_ rfl rfl
      refine ⟨rfl, hnone, rfl, fun w hw => ?_⟩
      cases hnone.symm.trans hw

/-! ## Adding the caller -/

theorem stepInv_readDomain {w : Whoami} {start : Bool} (hp : pc t = .readDomain w start) :
    StepInv pid r pc t m (.readDomain w start) := by
  have hok := h.ok t
  rw [hp] at hok
  have hkey := h.key_eq hdb hp rfl rfl
  obtain ⟨-, halloc, hid⟩ := h.entered m hkey t w.dindex w.domain_id (by rw [hp]; rfl)
  unfold StepInv
  rw [regProgram]
  refine h.read hdb (Or.inl hkey) rfl ⟨hok, hid, halloc⟩ rfl rfl (by rw [hp]; rfl)
    (fun w' hw hc => ?_) fun e id he => Or.inl ?_
  · rw [hp] at hc
    exact hc
  · rw [hp]
    exact he

theorem stepInv_xchgDomain {w : Whoami} {start : Bool} {newdstate : mcapi_domain_state}
    (hp : pc t = .xchgDomain w start newdstate) :
    StepInv pid r pc t m (.xchgDomain w start newdstate) := by
  have hok := h.ok t
  rw [hp] at hok
  unfold StepInv
  rw [regProgram]
  refine h.read hdb (Or.inl (h.key_eq hdb hp rfl rfl)) rfl hok rfl rfl (by rw [hp]; rfl)
    (fun w' hw hc => ?_) fun e id he => Or.inl ?_
  · rw [hp] at hc
    exact hc
  · rw [hp]
    exact he

theorem stepInv_swapDomain {w : Whoami} {start : Bool}
    {newdstate previous : mcapi_domain_state}
    (hp : pc t = .swapDomain w start newdstate previous) :
    StepInv pid r pc t m (.swapDomain w start newdstate previous) := by
  obtain ⟨hin, hid, halloc⟩ :
      w.InTable ∧ newdstate.domain_id = w.domain_id ∧ newdstate.allocated = true := by
    have hok := h.ok t
    rw [hp] at hok
    exact hok
  have hkey := h.key_eq hdb hp rfl rfl
  obtain ⟨-, halloc', hid'⟩ := h.entered m hkey t w.dindex w.domain_id (by rw [hp]; rfl)
  unfold StepInv
  rw [regProgram]
  split
  · refine h.writeDomain hdb hkey rfl hin (mcapi_database.nodeState_setDomainState _ _)
      (mcapi_database.domainState_setDomainState _ _) (by rw [hp]; rfl)
      (fun w' hw hc => ?_) (fun e id he => Or.inl ?_) (fun _ => ⟨halloc, hid.trans hid'.symm⟩)
      fun hfree => ?_
    · rw [hp] at hc
      exact hc
    · rw [hp]
      exact he
    · rw [hfree] at halloc'
      cases halloc'
  · refine h.read hdb (Or.inl hkey) rfl hin rfl rfl (by rw [hp]; rfl)
      (fun w' hw hc => ?_) fun e id he => Or.inl ?_
    · rw [hp] at hc
      exact hc
    · rw [hp]
      exact he

theorem stepInv_setCaller {w : Whoami} {start : Bool} (hp : pc t = .setCaller w start) :
    StepInv pid r pc t m (.setCaller w start) := by
  have hok := h.ok t
  rw [hp] at hok
  unfold StepInv
  rw [regProgram]
  refine h.read hdb (Or.inl (h.key_eq hdb hp rfl rfl)) rfl (fun _ => ⟨hok, rfl⟩) ?_
    (mcapi_database.domainState_setNode _ _ _) (by rw [hp]; rfl) (fun w' hw hc => ?_)
    fun e id he => Or.inl ?_
  · rw [mcapi_database.nodeState_setNode]
    exact Function.update_eq_self _ _
  · rw [hp] at hc
    exact hc
  · rw [hp]
    exact he

theorem stepInv_incNodes {w : Whoami} {start : Bool} (hp : pc t = .incNodes w start) :
    StepInv pid r pc t m (.incNodes w start) := by
  have hok := h.ok t
  rw [hp] at hok
  unfold StepInv
  rw [regProgram_incNodes]
  refine h.read hdb (Or.inl (h.key_eq hdb hp rfl rfl)) rfl hok
    (mcapi_database.nodeState_setNumNodes _ _) (mcapi_database.domainState_setNumNodes _ _)
    (by rw [hp]; rfl) (fun w' hw hc => ?_) fun e id he => Or.inl ?_
  · rw [hp] at hc
    exact hc
  · rw [hp]
    exact he

theorem stepInv_zeroEndpoints {w : Whoami} {start : Bool} (hp : pc t = .zeroEndpoints w start) :
    StepInv pid r pc t m (.zeroEndpoints w start) := by
  have hok := h.ok t
  rw [hp] at hok
  unfold StepInv
  rw [regProgram]
  refine h.read hdb (Or.inl (h.key_eq hdb hp rfl rfl)) rfl (fun _ => hok) ?_
    (mcapi_database.domainState_setNode _ _ _) (by rw [hp]; rfl) (fun w' hw hc => ?_)
    fun e id he => Or.inl ?_
  · rw [mcapi_database.nodeState_setNode]
    exact Function.update_eq_self _ _
  · rw [hp] at hc
    exact hc
  · rw [hp]
    exact he

/-! ## Updating the node's word -/

omit h hdb [DecidableEq τ] in
theorem held_of_not_leaving {u : NodeUpdate} {w : Whoami} {who : Option Whoami}
    (hu : u.leaving = false) :
    (RegPc.readNode u w).held who = some w ∧ (∀ v, (RegPc.xchgNode u w v).held who = some w) ∧
      ∀ v v', (RegPc.swapNode u w v v').held who = some w := by
  have hne : ¬ u.leaving = true := by
    rw [hu]
    exact Bool.false_ne_true
  exact ⟨if_neg hne, fun _ => if_neg hne, fun _ _ => if_neg hne⟩

theorem stepInv_readNode {u : NodeUpdate} {w : Whoami} (hp : pc t = .readNode u w) :
    StepInv pid r pc t m (.readNode u w) := by
  have hok := h.ok t
  rw [hp] at hok
  unfold StepInv
  rw [regProgram]
  cases u with
  | rundown last lastHere =>
    have hkey : r.key = some m ∨ last = false := by
      cases last with
      | true => exact Or.inl (h.key_eq hdb hp rfl rfl)
      | false => exact Or.inr rfl
    refine h.search hdb hp (hkey.imp id fun hl => ?_) rfl ?_ rfl rfl
    · exact hl
    · exact ⟨rfl, rfl, rfl, hok⟩
  | _ =>
    refine h.read hdb (Or.inl (h.key_eq hdb hp rfl rfl)) rfl hok rfl rfl (by rw [hp]; rfl)
      (fun w' hw hc => ?_) fun e id he => Or.inl ?_
    · obtain rfl := Option.some.inj hw
      exact ⟨hc.1, hc.2.1, rfl⟩
    · rw [hp]
      exact he

theorem stepInv_xchgNode {u : NodeUpdate} {w : Whoami} {newstate : mcapi_node_state}
    (hp : pc t = .xchgNode u w newstate) : StepInv pid r pc t m (.xchgNode u w newstate) := by
  have hok := h.ok t
  rw [hp] at hok
  unfold StepInv
  rw [regProgram]
  cases u with
  | rundown last lastHere =>
    have hkey : r.key = some m ∨ last = false := by
      cases last with
      | true => exact Or.inl (h.key_eq hdb hp rfl rfl)
      | false => exact Or.inr rfl
    refine h.search hdb hp (hkey.imp id fun hl => ?_) rfl ?_ rfl rfl
    · exact hl
    · exact ⟨rfl, rfl, rfl, hok⟩
  | _ =>
    refine h.read hdb (Or.inl (h.key_eq hdb hp rfl rfl)) rfl hok rfl rfl (by rw [hp]; rfl)
      (fun w' hw hc => ?_) fun e id he => Or.inl ?_
    · obtain rfl := Option.some.inj hw
      rw [hp] at hc
      exact ⟨hc.1, hc.2.1, hc.2.2, rfl⟩
    · rw [hp]
      exact he

/-- The flag `rundown` is set over a word that is not allocated. -/
theorem stepInv_swapNode_rundown {last lastHere : Bool} {w : Whoami}
    {newstate previous : mcapi_node_state}
    (hp : pc t = .swapNode (.rundown last lastHere) w newstate previous)
    (hg : StepOk (r.memories m) (.swapNode (.rundown last lastHere) w newstate previous)) :
    StepInv pid r pc t m (.swapNode (.rundown last lastHere) w newstate previous) := by
  have hkey : r.key = some m ∨ last = false := by
    cases last with
    | true => exact Or.inl (h.key_eq hdb hp rfl rfl)
    | false => exact Or.inr rfl
  unfold StepInv
  rw [regProgram]
  by_cases hprev : ((r.memories m).node w.dindex w.nindex).state = previous
  · obtain ⟨hfree, hnew⟩ := hg hprev
    have hfree' : ((r.memories m).nodeState (w.dindex, w.nindex)).allocated = false := by
      show ((r.memories m).node w.dindex w.nindex).state.allocated = false
      rw [hprev]
      exact hfree
    rw [if_pos hprev]
    have hword : ¬ newstate.allocated = true := by
      rw [hnew]
      exact Bool.false_ne_true
    have hheld : (pc t).held (r.whoami t) = none := by
      rw [hp]
      rfl
    refine h.writeNode hdb (hkey.imp id fun hl => ⟨hheld, hl⟩) rfl trivial
      (mcapi_database.nodeState_setNodeState _ _ _)
      (mcapi_database.domainState_setNodeState _ _ _) (Or.inr ⟨hheld, hfree'⟩)
      (fun w' hw => by cases hw) (fun _ => hnew) (fun e id he => by cases he)
      (fun _ halloc => absurd halloc hword) fun _ halloc => absurd halloc hword
  · rw [if_neg hprev]
    refine h.search hdb hp (hkey.imp id fun hl => ?_) rfl ?_ rfl rfl
    · exact hl
    · exact ⟨rfl, rfl, rfl, trivial⟩

omit h hdb [DecidableEq τ] in
/-- Where a thread stands after an update that keeps the entry. -/
theorem next_of_keeping {u : NodeUpdate} {w : Whoami} (hu : u.leaving = false)
    (hremove : u ≠ .remove) (hin : w.InTable) (hwho : r.whoami t = some w) :
    (u.next w).PointsTo (some m) m ∧ (u.next w).Ok (r.whoami t) ∧
      (u.next w).held (r.whoami t) = some w ∧
      (∀ v, v.allocated = true → v.node_num = w.node_num → (u.next w).Content w v) ∧
      (u.next w).entered (r.whoami t) = some (w.dindex, w.domain_id) := by
  cases u with
  | remove => exact absurd rfl hremove
  | rundown => cases hu
  | invalidate start => exact ⟨rfl, ⟨hin, hwho⟩, rfl, fun v h₁ h₂ => ⟨h₁, h₂, trivial⟩, rfl⟩
  | trans_start =>
    refine ⟨rfl, fun w' hw => ?_, hwho, fun v h₁ h₂ => ⟨h₁, h₂, trivial⟩, ?_⟩
    · obtain rfl := Option.some.inj (hwho.symm.trans hw)
      exact hin
    · show (none <|> (r.whoami t).map _) = _
      rw [hwho]
      rfl
  | clearRundown start =>
    cases start with
    | true =>
      exact ⟨rfl, fun _ => ⟨hin, hwho⟩, rfl, fun v h₁ h₂ => ⟨h₁, h₂, trivial⟩, rfl⟩
    | false =>
      refine ⟨rfl, fun w' hw => ?_, hwho, fun v h₁ h₂ => ⟨h₁, h₂, trivial⟩, ?_⟩
      · obtain rfl := Option.some.inj (hwho.symm.trans hw)
        exact hin
      · show (none <|> (r.whoami t).map _) = _
        rw [hwho]
        rfl

/-- An update of the entry a thread holds: the swap succeeds, because nobody
else has changed the word. -/
theorem stepInv_swapNode_held {u : NodeUpdate} {w : Whoami}
    {newstate previous : mcapi_node_state} (hp : pc t = .swapNode u w newstate previous)
    (hu : u.leaving = false) : StepInv pid r pc t m (.swapNode u w newstate previous) := by
  obtain ⟨hin, hwho⟩ : w.InTable ∧ r.whoami t = some w := by
    have hok := h.ok t
    rw [hp] at hok
    exact hok hu
  have hheld : (pc t).held (r.whoami t) = some w := by
    rw [hp]
    exact (held_of_not_leaving hu).2.2 newstate previous
  have hkey : r.key = some m := by
    refine h.key_eq hdb hp rfl ?_
    rw [← hp]
    exact RegPc.uses_of_held hheld
  have hcontent := h.content hheld hkey
  rw [hp] at hcontent
  obtain ⟨halloc, hnum, hnewstate, hprevious⟩ := hcontent
  have hprev : ((r.memories m).node w.dindex w.nindex).state = previous := hprevious.symm
  unfold StepInv
  rw [regProgram, if_pos hprev]
  by_cases hremove : u = .remove
  · subst hremove
    have hword : ¬ newstate.allocated = true := by
      rw [hnewstate]
      exact Bool.false_ne_true
    refine h.writeNode hdb (Or.inl hkey) rfl trivial
      (mcapi_database.nodeState_setNodeState _ _ _)
      (mcapi_database.domainState_setNodeState _ _ _) (Or.inl ⟨w, hheld, rfl⟩)
      (fun w' hw => by cases hw) (fun _ => by rw [hnewstate]; rfl) (fun e id he => by cases he)
      (fun _ h' => absurd h' hword) fun _ h' => absurd h' hword
  · obtain ⟨hpoints, hok', hheld', hcontent', hentered'⟩ :=
      next_of_keeping hu hremove hin hwho
    -- the number and the flag `allocated` are as before
    have hsame : newstate.allocated = true ∧ newstate.node_num = w.node_num := by
      rw [hnewstate]
      cases u with
      | remove => exact absurd rfl hremove
      | _ => exact ⟨halloc, hnum⟩
    refine h.writeNode hdb (Or.inl hkey) hpoints hok'
      (mcapi_database.nodeState_setNodeState _ _ _)
      (mcapi_database.domainState_setNodeState _ _ _) (Or.inl ⟨w, hheld, rfl⟩)
      (fun w' hw => ?_) (fun hnone => ?_) (fun e id he => Or.inl ?_)
      (fun _ _ => hsame.2.trans hnum.symm) fun hfree => ?_
    · obtain rfl := Option.some.inj (hheld'.symm.trans hw)
      exact ⟨rfl, hcontent' newstate hsame.1 hsame.2⟩
    · cases hheld'.symm.trans hnone
    · rw [RegPc.entered, hheld, ← he]
      rw [hp]
      exact hentered'.symm
    · cases hfree.symm.trans halloc

/-! ## Looking for other nodes -/

omit h hdb [DecidableEq τ] in
theorem nextScan_searching {w : Whoami} {d i : ℕ} {last lastHere : Bool} {who : Option Whoami} :
    (nextScan w d i last lastHere).Searching who m := by
  unfold nextScan
  split
  · exact ⟨rfl, rfl, rfl, trivial⟩
  · split
    · exact ⟨rfl, rfl, rfl, trivial⟩
    · exact ⟨rfl, rfl, rfl, fun hl => by cases hl⟩

theorem stepInv_decNodes {w : Whoami} (hp : pc t = .decNodes w) :
    StepInv pid r pc t m (.decNodes w) := by
  unfold StepInv
  rw [regProgram_decNodes]
  refine h.search hdb hp (Or.inl (h.key_eq hdb hp rfl rfl)) rfl ?_
    (mcapi_database.nodeState_setNumNodes _ _) (mcapi_database.domainState_setNumNodes _ _)
  exact ⟨rfl, rfl, rfl, trivial⟩

theorem stepInv_scan {w : Whoami} {d i : ℕ} {last lastHere : Bool}
    (hp : pc t = .scan w d i last lastHere) :
    StepInv pid r pc t m (.scan w d i last lastHere) := by
  unfold StepInv
  rw [regProgram]
  split
  · refine h.search hdb hp (Or.inl (h.key_eq hdb hp rfl rfl)) rfl ?_ rfl rfl
    exact ⟨rfl, rfl, rfl, trivial⟩
  · exact h.search hdb hp (Or.inl (h.key_eq hdb hp rfl rfl)) rfl nextScan_searching rfl rfl

theorem stepInv_scanPid {w : Whoami} {d i : ℕ} {lastHere : Bool}
    (hp : pc t = .scanPid w d i lastHere) : StepInv pid r pc t m (.scanPid w d i lastHere) := by
  unfold StepInv
  rw [regProgram]
  exact h.search hdb hp (Or.inl (h.key_eq hdb hp rfl rfl)) rfl nextScan_searching rfl rfl

/-- **A step on the memory keeps the invariant.** -/
theorem RegistrationInv.doProgram (hacc : (pc t).accesses = true)
    (hg : StepOk (r.memories m) (pc t)) : StepInv pid r pc t m (pc t) := by
  generalize hp : pc t = p at hacc hg
  cases p with
  | clearDomain => exact stepInv_clearDomain h hdb hp
  | clearDomainSwap => exact stepInv_clearDomainSwap h hdb hp hg
  | clearNode => exact stepInv_clearNode h hdb hp
  | clearNodeSwap => exact stepInv_clearNodeSwap h hdb hp hg
  | findDomain => exact stepInv_findDomain h hdb hp hg
  | takeDomain => exact stepInv_takeDomain h hdb hp
  | casDomain => exact stepInv_casDomain h hdb hp hg
  | findNode => exact stepInv_findNode h hdb hp
  | takeNode => exact stepInv_takeNode h hdb hp
  | casNode => exact stepInv_casNode h hdb hp hg
  | readDomain => exact stepInv_readDomain h hdb hp
  | xchgDomain => exact stepInv_xchgDomain h hdb hp
  | swapDomain => exact stepInv_swapDomain h hdb hp
  | setCaller => exact stepInv_setCaller h hdb hp
  | readNode => exact stepInv_readNode h hdb hp
  | xchgNode => exact stepInv_xchgNode h hdb hp
  | swapNode u =>
    cases u with
    | rundown => exact stepInv_swapNode_rundown h hdb hp hg
    | _ => exact stepInv_swapNode_held h hdb hp rfl
  | incNodes => exact stepInv_incNodes h hdb hp
  | zeroEndpoints => exact stepInv_zeroEndpoints h hdb hp
  | decNodes => exact stepInv_decNodes h hdb hp
  | scan => exact stepInv_scan h hdb hp
  | scanPid => exact stepInv_scanPid h hdb hp
  | _ => cases hacc

end

end

end MxApi
