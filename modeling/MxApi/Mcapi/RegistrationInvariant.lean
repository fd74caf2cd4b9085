/-
The invariant of concurrent registrations and removals.

A thread holds a node entry from the swap that takes it to the swap that frees
it, and nobody else changes the entry's state word meanwhile: the entries held
are exactly the allocated ones. A thread that has found or taken its domain's
entry relies on the id and the flag `allocated` of that entry only, which do not
change any more. The branches of the programs that break this are named by the
guards.
-/
import MxApi.Lib.Claims
import MxApi.Mcapi.RegistrationSteps

set_option autoImplicit false

namespace MxApi

open Lib

namespace mcapi_database

variable (db : mcapi_database)

/-- The state words of the nodes. -/
def nodeState (c : ℕ × ℕ) : mcapi_node_state := (db.node c.1 c.2).state

def domainState (d : ℕ) : mcapi_domain_state := (db.domains d).state

section

variable {db} (d n e k : ℕ) (w : mcapi_domain_state) (v : mcapi_node_state)
  (entry : mcapi_node_entry)

@[simp] theorem domainState_setDomainState :
    (db.setDomainState d w).domainState = Function.update db.domainState d w := by
  funext e
  by_cases h : e = d
  · subst h
    simp [setDomainState, setDomain, domainState]
  · simp [setDomainState, setDomain, domainState, h]

@[simp] theorem nodeState_setDomainState : (db.setDomainState d w).nodeState = db.nodeState := by
  funext c
  by_cases h : c.1 = d
  · simp [setDomainState, setDomain, nodeState, node, ← h]
  · simp [setDomainState, setDomain, nodeState, node, h]

@[simp] theorem domainState_setNumNodes : (db.setNumNodes d k).domainState = db.domainState := by
  funext e
  by_cases h : e = d
  · subst h
    simp [setNumNodes, setDomain, domainState]
  · simp [setNumNodes, setDomain, domainState, h]

@[simp] theorem nodeState_setNumNodes : (db.setNumNodes d k).nodeState = db.nodeState := by
  funext c
  by_cases h : c.1 = d
  · simp [setNumNodes, setDomain, nodeState, node, ← h]
  · simp [setNumNodes, setDomain, nodeState, node, h]

@[simp] theorem domainState_setNode : (db.setNode d n entry).domainState = db.domainState := by
  funext e
  exact setNode_domain_state ..

@[simp] theorem nodeState_setNode :
    (db.setNode d n entry).nodeState = Function.update db.nodeState (d, n) entry.state := by
  funext c
  by_cases h : c = (d, n)
  · subst h
    simp [nodeState]
  · have hc : ¬ (c.1 = d ∧ c.2 = n) := fun hc => h (Prod.ext hc.1 hc.2)
    simp [nodeState, setNode_of_ne _ hc, h]

@[simp] theorem domainState_setNodeState :
    (db.setNodeState d n v).domainState = db.domainState := domainState_setNode ..

@[simp] theorem nodeState_setNodeState :
    (db.setNodeState d n v).nodeState = Function.update db.nodeState (d, n) v :=
  nodeState_setNode ..

end

end mcapi_database

/-! ## What a thread relies on -/

/-- The update is made after the entry has been given up. -/
def NodeUpdate.leaving : NodeUpdate → Bool
  | .rundown _ _ => true
  | _ => false

/-- The indices of an identity are in range. -/
def Whoami.InTable (w : Whoami) : Prop :=
  w.dindex < MCA_MAX_DOMAINS ∧ w.nindex < MCA_MAX_NODES

namespace RegPc

variable (who : Option Whoami)

/-- The entries a thread holds: those of its call, or between calls those of
its registration. -/
def held : RegPc → Option Whoami
  | .idle => who
  | .readDomain w _ => some w
  | .xchgDomain w _ _ => some w
  | .swapDomain w _ _ _ => some w
  | .setCaller w _ => some w
  | .readNode u w => if u.leaving then none else some w
  | .xchgNode u w _ => if u.leaving then none else some w
  | .swapNode u w _ _ => if u.leaving then none else some w
  | .incNodes w _ => some w
  | .zeroEndpoints w _ => some w
  | _ => none

/-- The domain entry in which a thread looks for its node, and the id. -/
def found : RegPc → Option (ℕ × ℕ)
  | .findNode a d _ => some (d, a.domain_id)
  | .takeNode a d _ => some (d, a.domain_id)
  | .casNode a d _ _ => some (d, a.domain_id)
  | _ => none

/-- The domain entry a thread has found or taken, and the id. -/
def entered (pc : RegPc) : Option (ℕ × ℕ) :=
  pc.found <|> (pc.held who).map fun w => (w.dindex, w.domain_id)

/-- The word of the node held: it has the thread's number, and what the thread
remembers of it is true. -/
def Content (w : Whoami) (v : mcapi_node_state) (pc : RegPc) : Prop :=
  v.allocated = true ∧ v.node_num = w.node_num ∧
    match pc with
    | .xchgNode u _ newstate => newstate = u.apply v
    | .swapNode u _ newstate previous => newstate = u.apply v ∧ previous = v
    | _ => True

/-- The claim of a thread on a node's word. -/
def claim (pc : RegPc) : Option ((ℕ × ℕ) × (mcapi_node_state → Prop)) :=
  (pc.held who).map fun w => ((w.dindex, w.nindex), fun v => pc.Content w v)

/-- The thread still needs the shared memory. After its search for other nodes
only the last one does, until it has deleted it. -/
def uses : RegPc → Bool
  | .idle => who.isSome
  | .attach _ => false
  | .readNode (.rundown last _) _ => last
  | .xchgNode (.rundown last _) _ _ => last
  | .swapNode (.rundown last _) _ _ _ => last
  | .release last _ => last
  | .detach _ => false
  | .failed => false
  | _ => true

/-- The memory a thread uses. -/
def PointsTo (mcapi_db : Option ℕ) (m : ℕ) : RegPc → Prop
  | .point _ m' _ => m' = m
  | _ => mcapi_db = some m

/-- What a thread knows without looking at the memory: its indices are in range,
a domain's word about to be written has its id, and it is registered or not. -/
def Ok : RegPc → Prop
  | .idle => ∀ w, who = some w → w.InTable
  | .attach _ => who = none
  | .point _ _ _ => who = none
  | .clearDomain _ _ => who = none
  | .clearDomainSwap _ _ _ => who = none
  | .clearNode _ _ _ => who = none
  | .clearNodeSwap _ _ _ _ => who = none
  | .findDomain _ d => who = none ∧ d < MCA_MAX_DOMAINS
  | .takeDomain _ d => who = none ∧ d < MCA_MAX_DOMAINS
  | .casDomain _ d _ => who = none ∧ d < MCA_MAX_DOMAINS
  | .findNode _ _ _ => who = none
  | .takeNode _ _ n => who = none ∧ n < MCA_MAX_NODES
  | .casNode _ _ n _ => who = none ∧ n < MCA_MAX_NODES
  | .readDomain w _ => w.InTable
  | .xchgDomain w _ newdstate =>
    w.InTable ∧ newdstate.domain_id = w.domain_id ∧ newdstate.allocated = true
  | .swapDomain w _ newdstate _ =>
    w.InTable ∧ newdstate.domain_id = w.domain_id ∧ newdstate.allocated = true
  | .setCaller w _ => w.InTable
  | .readNode u w => u.leaving = false → w.InTable ∧ who = some w
  | .xchgNode u w _ => u.leaving = false → w.InTable ∧ who = some w
  | .swapNode u w _ _ => u.leaving = false → w.InTable ∧ who = some w
  | .incNodes w _ => w.InTable ∧ who = some w
  | .zeroEndpoints w _ => w.InTable ∧ who = some w
  | _ => True

variable {who} {pc : RegPc}

/-- Who holds an entry needs the memory. -/
theorem uses_of_held {w : Whoami} (h : pc.held who = some w) : pc.uses who = true := by
  cases pc with
  | idle =>
    rw [held] at h
    rw [uses, h]
    rfl
  | readNode u w' | xchgNode u w' _ | swapNode u w' _ _ =>
    cases u with
    | rundown => cases h
    | _ => rfl
  | _ => first | rfl | cases h

theorem Ok.inTable {w : Whoami} (hok : pc.Ok who) (h : pc.held who = some w) : w.InTable := by
  cases pc with
  | idle => exact hok w h
  | readDomain | setCaller =>
    obtain rfl := Option.some.inj h
    exact hok
  | xchgDomain | swapDomain | incNodes | zeroEndpoints =>
    obtain rfl := Option.some.inj h
    exact hok.1
  | readNode u w' | xchgNode u w' _ | swapNode u w' _ _ =>
    cases u with
    | rundown => cases h
    | _ =>
      obtain rfl := Option.some.inj h
      exact (hok rfl).1
  | _ => cases h

theorem uses_of_entered {d domain_id : ℕ} (h : pc.entered who = some (d, domain_id)) :
    pc.uses who = true := by
  unfold entered at h
  cases hheld : pc.held who with
  | some w => exact uses_of_held hheld
  | none =>
    cases pc with
    | findNode | takeNode | casNode => rfl
    | _ =>
      rw [hheld] at h
      cases h

end RegPc

/-! ## The database -/

/-- The ids in the allocated entries of a domain or node are different. -/
structure DistinctIds (db : mcapi_database) : Prop where
  domains : ∀ d < MCA_MAX_DOMAINS, ∀ d' < MCA_MAX_DOMAINS,
    (db.domainState d).allocated = true → (db.domainState d').allocated = true →
      (db.domainState d).domain_id = (db.domainState d').domain_id → d = d'
  nodes : ∀ d < MCA_MAX_DOMAINS, ∀ n < MCA_MAX_NODES, ∀ n' < MCA_MAX_NODES,
    (db.nodeState (d, n)).allocated = true → (db.nodeState (d, n')).allocated = true →
      (db.nodeState (d, n)).node_num = (db.nodeState (d, n')).node_num → n = n'

/-- The domain entry is allocated to the id. -/
def DomainIs (db : mcapi_database) (d domain_id : ℕ) : Prop :=
  d < MCA_MAX_DOMAINS ∧ (db.domainState d).allocated = true ∧
    (db.domainState d).domain_id = domain_id

/-- Allocated domain entries keep their ids. -/
def KeepsDomains (db db' : mcapi_database) : Prop :=
  ∀ d, (db.domainState d).allocated = true →
    (db'.domainState d).allocated = true ∧
      (db'.domainState d).domain_id = (db.domainState d).domain_id

theorem DomainIs.keep {db db' : mcapi_database} {d domain_id : ℕ} (h : DomainIs db d domain_id)
    (hkeep : KeepsDomains db db') : DomainIs db' d domain_id := by
  obtain ⟨hd, halloc, hid⟩ := h
  obtain ⟨halloc', hid'⟩ := hkeep d halloc
  exact ⟨hd, halloc', hid'.trans hid⟩

/-- A node's word that is not allocated. -/
def NodeFree (v : mcapi_node_state) : Prop := v.allocated = false

/-! ## The invariant -/

section

variable {τ : Type} [DecidableEq τ] (pid : τ → ℕ)

structure RegistrationInv (r : Registry τ) (pc : τ → RegPc) : Prop where
  alive : ∀ t, (pc t).uses (r.whoami t) = true →
    ∃ m, r.key = some m ∧ (pc t).PointsTo (r.mcapi_db (pid t)) m
  key_lt : ∀ m, r.key = some m → m < r.created
  mcapi_db_lt : ∀ p m, r.mcapi_db p = some m → m < r.created
  ok : ∀ t, (pc t).Ok (r.whoami t)
  covers : ∀ m, r.key = some m →
    Covers NodeFree (fun t => (pc t).claim (r.whoami t)) (r.memories m).nodeState
  entered : ∀ m, r.key = some m → ∀ t d domain_id,
    (pc t).entered (r.whoami t) = some (d, domain_id) → DomainIs (r.memories m) d domain_id
  distinct : ∀ m, r.key = some m → DistinctIds (r.memories m)

variable {pid} {r : Registry τ} {pc : τ → RegPc}

/-- A thread that holds nothing claims nothing. -/
theorem RegPc.claim_of_held_none {pc : RegPc} {who : Option Whoami} (h : pc.held who = none) :
    pc.claim who = none := by
  rw [RegPc.claim, h]
  rfl

theorem RegPc.claim_of_held {pc : RegPc} {who : Option Whoami} {w : Whoami}
    (h : pc.held who = some w) :
    pc.claim who = some ((w.dindex, w.nindex), fun v => pc.Content w v) := by
  rw [RegPc.claim, h]
  rfl

/-- A step of thread `t` on memory `m`, which is the one of the key or not used
by `t`. -/
theorem RegistrationInv.write (h : RegistrationInv pid r pc) {t : τ} {m : ℕ}
    {db : mcapi_database} {who : Option Whoami} {pc' : RegPc}
    (halive : pc'.uses who = true → r.key = some m ∧ pc'.PointsTo (r.mcapi_db (pid t)) m)
    (hok : pc'.Ok who)
    (hcovers : r.key = some m →
      Covers NodeFree
        (fun t' => (Function.update pc t pc' t').claim (Function.update r.whoami t who t'))
        db.nodeState)
    (hkeeps : r.key = some m → KeepsDomains (r.memories m) db)
    (hentered : ∀ d domain_id, pc'.entered who = some (d, domain_id) → DomainIs db d domain_id)
    (hdistinct : r.key = some m → DistinctIds db)
    (helse : r.key ≠ some m → (pc t).held (r.whoami t) = none) :
    RegistrationInv pid (r.write t m db who) (Function.update pc t pc') := by
  refine ⟨fun t' ht' => ?_, h.key_lt, h.mcapi_db_lt, fun t' => ?_, fun k hk => ?_,
    fun k hk t' d id hd => ?_, fun k hk => ?_⟩
  · by_cases htt : t' = t
    · subst htt
      rw [Registry.write_whoami_self, Function.update_self] at ht'
      rw [Function.update_self]
      exact ⟨m, halive ht'⟩
    · rw [Registry.write_whoami_of_ne _ _ _ _ _ htt, Function.update_of_ne htt] at ht'
      rw [Function.update_of_ne htt]
      exact h.alive t' ht'
  · by_cases htt : t' = t
    · subst htt
      rw [Registry.write_whoami_self, Function.update_self]
      exact hok
    · rw [Registry.write_whoami_of_ne _ _ _ _ _ htt, Function.update_of_ne htt]
      exact h.ok t'
  · by_cases hkm : k = m
    · subst hkm
      rw [Registry.write_memories_self]
      exact hcovers hk
    · -- the memory of the key is another one, in which `t` holds nothing
      have hne : r.key ≠ some m := fun hm => hkm (Option.some.inj (hk.symm.trans hm))
      have hmem : (r.write t m db who).memories k = r.memories k :=
        r.write_memories_of_ne t m db who hkm
      have hnone : pc'.held who = none := by
        cases hheld : pc'.held who with
        | none => rfl
        | some w => exact absurd (halive (RegPc.uses_of_held hheld)).1 hne
      rw [hmem]
      have hsame : (fun t' => (Function.update pc t pc' t').claim
          ((r.write t m db who).whoami t')) = fun t' => (pc t').claim (r.whoami t') := by
        funext t'
        by_cases htt : t' = t
        · subst htt
          rw [Registry.write_whoami_self, Function.update_self,
            RegPc.claim_of_held_none hnone, RegPc.claim_of_held_none (helse hne)]
        · rw [Registry.write_whoami_of_ne _ _ _ _ _ htt, Function.update_of_ne htt]
      rw [hsame]
      exact h.covers k hk
  · have hold : t' ≠ t → (pc t').entered (r.whoami t') = some (d, id) := by
      intro htt
      rw [Registry.write_whoami_of_ne _ _ _ _ _ htt, Function.update_of_ne htt] at hd
      exact hd
    by_cases hkm : k = m
    · subst hkm
      rw [Registry.write_memories_self]
      by_cases htt : t' = t
      · subst htt
        rw [Registry.write_whoami_self, Function.update_self] at hd
        exact hentered d id hd
      · exact (h.entered k hk t' d id (hold htt)).keep (hkeeps hk)
    · have hmem : (r.write t m db who).memories k = r.memories k :=
        r.write_memories_of_ne t m db who hkm
      rw [hmem]
      by_cases htt : t' = t
      · subst htt
        rw [Registry.write_whoami_self, Function.update_self] at hd
        exact absurd (Option.some.inj (hk.symm.trans (halive (RegPc.uses_of_entered hd)).1)) hkm
      · exact h.entered k hk t' d id (hold htt)
  · by_cases hkm : k = m
    · subst hkm
      rw [Registry.write_memories_self]
      exact hdistinct hk
    · have hmem : (r.write t m db who).memories k = r.memories k :=
        r.write_memories_of_ne t m db who hkm
      rw [hmem]
      exact h.distinct k hk

/-! ## The claims after a step -/

/-- A thread that holds nothing before and after a step leaves the claims. -/
theorem covers_same {mem : ℕ × ℕ → mcapi_node_state} {t : τ} {who : Option Whoami} {pc' : RegPc}
    (h : Covers NodeFree (fun t' => (pc t').claim (r.whoami t')) mem)
    (hold : (pc t).held (r.whoami t) = none) (hnew : pc'.held who = none) :
    Covers NodeFree
      (fun t' => (Function.update pc t pc' t').claim (Function.update r.whoami t who t')) mem := by
  have hsame : (fun t' => (Function.update pc t pc' t').claim (Function.update r.whoami t who t'))
      = fun t' => (pc t').claim (r.whoami t') := by
    funext t'
    by_cases htt : t' = t
    · subst htt
      rw [Function.update_self, Function.update_self, RegPc.claim_of_held_none hnew,
        RegPc.claim_of_held_none hold]
    · rw [Function.update_of_ne htt, Function.update_of_ne htt]
  rw [hsame]
  exact h

/-- A thread changes the word of the entry it holds, or of an entry that is not
allocated, and holds that entry afterwards or leaves it free. -/
theorem covers_node {mem mem' : ℕ × ℕ → mcapi_node_state} {t : τ} {who : Option Whoami}
    {pc' : RegPc} (h : Covers NodeFree (fun t' => (pc t').claim (r.whoami t')) mem) (c : ℕ × ℕ)
    (hold : (∃ w, (pc t).held (r.whoami t) = some w ∧ (w.dindex, w.nindex) = c) ∨
      (pc t).held (r.whoami t) = none ∧ (mem c).allocated = false)
    (hmem : ∀ c', c' ≠ c → mem' c' = mem c')
    (hnew : ∀ w, pc'.held who = some w → (w.dindex, w.nindex) = c ∧ pc'.Content w (mem' c))
    (hfree : pc'.held who = none → (mem' c).allocated = false) :
    Covers NodeFree
      (fun t' => (Function.update pc t pc' t').claim (Function.update r.whoami t who t'))
      mem' := by
  refine h.change t c (fun t' P hP => ?_) (fun c' P hP => ?_) (fun t' htt => ?_) hmem
    (fun c' P hP => ?_) fun hnone => ?_
  · rcases hold with ⟨w, hw, hc⟩ | ⟨-, hfreeold⟩
    · subst hc
      exact h.excl hP (RegPc.claim_of_held hw)
    · -- nobody else holds an entry that is not allocated
      obtain ⟨w, -, heq⟩ := Option.map_eq_some_iff.mp hP
      obtain rfl := (Prod.mk.inj heq).2
      have halloc := (h.content hP).1
      rw [hfreeold] at halloc
      cases halloc
  · obtain ⟨w, hw, heq⟩ := Option.map_eq_some_iff.mp hP
    obtain ⟨rfl, -⟩ := Prod.mk.inj heq
    rcases hold with ⟨w', hw', hc⟩ | ⟨hnone, -⟩
    · obtain rfl := Option.some.inj (hw.symm.trans hw')
      exact hc
    · rw [hnone] at hw
      cases hw
  · rw [Function.update_of_ne htt, Function.update_of_ne htt]
  · rw [Function.update_self, Function.update_self] at hP
    obtain ⟨w, hw, heq⟩ := Option.map_eq_some_iff.mp hP
    obtain ⟨rfl, rfl⟩ := Prod.mk.inj heq
    exact hnew w hw
  · rw [Function.update_self, Function.update_self] at hnone
    cases hw : pc'.held who with
    | none => exact hfree hw
    | some w =>
      rw [RegPc.claim, hw] at hnone
      cases hnone

omit [DecidableEq τ] in
/-- What a thread remembers of the word of the entry it holds is true. -/
theorem RegistrationInv.content (h : RegistrationInv pid r pc) {t : τ} {w : Whoami} {m : ℕ}
    (hw : (pc t).held (r.whoami t) = some w) (hkey : r.key = some m) :
    (pc t).Content w ((r.memories m).nodeState (w.dindex, w.nindex)) := by
  exact (h.covers m hkey).content (RegPc.claim_of_held hw)

omit [DecidableEq τ] in
/-- While an entry is allocated, somebody holds it. -/
theorem RegistrationInv.held_of_allocated (h : RegistrationInv pid r pc) {m : ℕ} (hkey : r.key = some m) {c : ℕ × ℕ}
    (halloc : ((r.memories m).nodeState c).allocated = true) :
    ∃ t w, (pc t).held (r.whoami t) = some w ∧ (w.dindex, w.nindex) = c := by
  by_contra hnone
  have hfree := (h.covers m hkey).rest c fun t P hP => ?_
  · rw [NodeFree, halloc] at hfree
    cases hfree
  · obtain ⟨w, hw, heq⟩ := Option.map_eq_some_iff.mp hP
    exact hnone ⟨t, w, hw, (Prod.mk.inj heq).1⟩

theorem KeepsDomains.of_eq {db db' : mcapi_database} (h : db'.domainState = db.domainState) :
    KeepsDomains db db' := by
  intro d hd
  rw [h]
  exact ⟨hd, rfl⟩

theorem DistinctIds.of_eq {db db' : mcapi_database} (h : DistinctIds db)
    (hd : db'.domainState = db.domainState) (hn : db'.nodeState = db.nodeState) :
    DistinctIds db' := by
  constructor
  · rw [hd]
    exact h.domains
  · rw [hn]
    exact h.nodes

/-- A step on the memory the process points to, which is the one of the key or
not needed by the thread. -/
theorem RegistrationInv.program (h : RegistrationInv pid r pc) {t : τ} {m : ℕ}
    {db : mcapi_database} {who : Option Whoami} {pc' : RegPc} (hdb : r.mcapi_db (pid t) = some m)
    (hkey : r.key = some m ∨ (pc t).held (r.whoami t) = none ∧ pc'.uses who = false)
    (hpoints : pc'.PointsTo (some m) m) (hok : pc'.Ok who)
    (hcovers : r.key = some m →
      Covers NodeFree
        (fun t' => (Function.update pc t pc' t').claim (Function.update r.whoami t who t'))
        db.nodeState)
    (hkeeps : r.key = some m → KeepsDomains (r.memories m) db)
    (hentered : ∀ d domain_id, pc'.entered who = some (d, domain_id) →
      (pc t).entered (r.whoami t) = some (d, domain_id) ∨ DomainIs db d domain_id)
    (hdistinct : r.key = some m → DistinctIds db) :
    RegistrationInv pid (r.write t m db who) (Function.update pc t pc') := by
  have huses : pc'.uses who = true → r.key = some m := by
    intro hu
    rcases hkey with hkey | ⟨-, hnot⟩
    · exact hkey
    · rw [hnot] at hu
      cases hu
  refine h.write (fun hu => ⟨huses hu, ?_⟩) hok hcovers hkeeps (fun d id hid => ?_) hdistinct
    fun hne => ?_
  · rw [hdb]
    exact hpoints
  · have hk := huses (RegPc.uses_of_entered hid)
    rcases hentered d id hid with hold | hnew
    · exact (h.entered m hk t d id hold).keep (hkeeps hk)
    · exact hnew
  · rcases hkey with hkey | ⟨hnone, -⟩
    · exact absurd hkey hne
    · exact hnone

/-- The claims if no node's word is changed. -/
theorem RegistrationInv.covers_read (h : RegistrationInv pid r pc) {t : τ} {m : ℕ}
    {who : Option Whoami} {pc' : RegPc} (hkey : r.key = some m)
    (hheld : pc'.held who = (pc t).held (r.whoami t))
    (hcontent : ∀ w, pc'.held who = some w →
      (pc t).Content w ((r.memories m).nodeState (w.dindex, w.nindex)) →
        pc'.Content w ((r.memories m).nodeState (w.dindex, w.nindex))) :
    Covers NodeFree
      (fun t' => (Function.update pc t pc' t').claim (Function.update r.whoami t who t'))
      (r.memories m).nodeState := by
  cases hw : (pc t).held (r.whoami t) with
  | none => exact covers_same (h.covers m hkey) hw (hheld.trans hw)
  | some w =>
    refine covers_node (h.covers m hkey) (w.dindex, w.nindex) (Or.inl ⟨w, hw, rfl⟩)
      (fun _ _ => rfl) (fun w' hw' => ?_) fun hnone => ?_
    · obtain rfl := Option.some.inj ((hw.symm.trans hheld.symm).trans hw')
      exact ⟨rfl, hcontent w hw' (h.content hw hkey)⟩
    · rw [hheld, hw] at hnone
      cases hnone

section

variable {t : τ} {m : ℕ} {db : mcapi_database} {who : Option Whoami} {pc' : RegPc}

/-- **A step that changes no state word.** -/
theorem RegistrationInv.read (h : RegistrationInv pid r pc) (hdb : r.mcapi_db (pid t) = some m)
    (hkey : r.key = some m ∨ (pc t).held (r.whoami t) = none ∧ pc'.uses who = false)
    (hpoints : pc'.PointsTo (some m) m) (hok : pc'.Ok who)
    (hn : db.nodeState = (r.memories m).nodeState)
    (hd : db.domainState = (r.memories m).domainState)
    (hheld : pc'.held who = (pc t).held (r.whoami t))
    (hcontent : ∀ w, pc'.held who = some w →
      (pc t).Content w ((r.memories m).nodeState (w.dindex, w.nindex)) →
        pc'.Content w ((r.memories m).nodeState (w.dindex, w.nindex)))
    (hentered : ∀ d domain_id, pc'.entered who = some (d, domain_id) →
      (pc t).entered (r.whoami t) = some (d, domain_id) ∨ DomainIs db d domain_id) :
    RegistrationInv pid (r.write t m db who) (Function.update pc t pc') := by
  refine h.program hdb hkey hpoints hok (fun hk => ?_) (fun _ => .of_eq hd) hentered
    fun hk => (h.distinct m hk).of_eq hd hn
  rw [hn]
  exact h.covers_read hk hheld hcontent

/-- **A step that changes a domain's word**, but not the id of an allocated one. -/
theorem RegistrationInv.writeDomain (h : RegistrationInv pid r pc) {d : ℕ}
    {word : mcapi_domain_state} (hdb : r.mcapi_db (pid t) = some m) (hkey : r.key = some m)
    (hpoints : pc'.PointsTo (some m) m) (hok : pc'.Ok who)
    (hn : db.nodeState = (r.memories m).nodeState)
    (hd : db.domainState = Function.update (r.memories m).domainState d word)
    (hheld : pc'.held who = (pc t).held (r.whoami t))
    (hcontent : ∀ w, pc'.held who = some w →
      (pc t).Content w ((r.memories m).nodeState (w.dindex, w.nindex)) →
        pc'.Content w ((r.memories m).nodeState (w.dindex, w.nindex)))
    (hentered : ∀ d domain_id, pc'.entered who = some (d, domain_id) →
      (pc t).entered (r.whoami t) = some (d, domain_id) ∨ DomainIs db d domain_id)
    (hkeep : ((r.memories m).domainState d).allocated = true →
      word.allocated = true ∧ word.domain_id = ((r.memories m).domainState d).domain_id)
    (hnew : ((r.memories m).domainState d).allocated = false → word.allocated = true →
      ∀ d' < MCA_MAX_DOMAINS, d' ≠ d → ((r.memories m).domainState d').allocated = true →
        ((r.memories m).domainState d').domain_id ≠ word.domain_id) :
    RegistrationInv pid (r.write t m db who) (Function.update pc t pc') := by
  have hdistinct := h.distinct m hkey
  -- another allocated entry has another id than the word written
  have hother : ∀ d', d < MCA_MAX_DOMAINS → d' < MCA_MAX_DOMAINS → d' ≠ d →
      word.allocated = true → ((r.memories m).domainState d').allocated = true →
        ((r.memories m).domainState d').domain_id ≠ word.domain_id := by
    intro d' hlt hd' hne hword halloc' hid
    cases halloc : ((r.memories m).domainState d).allocated with
    | true => exact hne (hdistinct.domains d' hd' d hlt halloc' halloc
        (hid.trans (hkeep halloc).2))
    | false => exact hnew halloc hword d' hd' hne halloc' hid
  refine h.program hdb (Or.inl hkey) hpoints hok (fun hk => ?_) (fun _ e he => ?_) hentered
    fun _ => ⟨fun d₁ h₁ d₂ h₂ ha₁ ha₂ hid => ?_, ?_⟩
  · rw [hn]
    exact h.covers_read hk hheld hcontent
  · rw [hd]
    by_cases hed : e = d
    · subst hed
      rw [Function.update_self]
      exact hkeep he
    · rw [Function.update_of_ne hed]
      exact ⟨he, rfl⟩
  · rw [hd] at ha₁ ha₂ hid
    by_cases hd₁ : d₁ = d
    · by_cases hd₂ : d₂ = d
      · rw [hd₁, hd₂]
      · subst hd₁
        rw [Function.update_self] at ha₁ hid
        rw [Function.update_of_ne hd₂] at ha₂ hid
        exact absurd hid.symm (hother d₂ h₁ h₂ hd₂ ha₁ ha₂)
    · rw [Function.update_of_ne hd₁] at ha₁ hid
      by_cases hd₂ : d₂ = d
      · subst hd₂
        rw [Function.update_self] at ha₂ hid
        exact absurd hid (hother d₁ h₂ h₁ hd₁ ha₂ ha₁)
      · rw [Function.update_of_ne hd₂] at ha₂ hid
        exact hdistinct.domains d₁ h₁ d₂ h₂ ha₁ ha₂ hid
  · rw [hn]
    exact hdistinct.nodes

/-- **A step that changes a node's word**, of an entry the thread holds or of one
that is not allocated. -/
theorem RegistrationInv.writeNode (h : RegistrationInv pid r pc) {c : ℕ × ℕ}
    {word : mcapi_node_state} (hdb : r.mcapi_db (pid t) = some m)
    (hkey : r.key = some m ∨ (pc t).held (r.whoami t) = none ∧ pc'.uses who = false)
    (hpoints : pc'.PointsTo (some m) m) (hok : pc'.Ok who)
    (hn : db.nodeState = Function.update (r.memories m).nodeState c word)
    (hd : db.domainState = (r.memories m).domainState)
    (hold : (∃ w, (pc t).held (r.whoami t) = some w ∧ (w.dindex, w.nindex) = c) ∨
      (pc t).held (r.whoami t) = none ∧ ((r.memories m).nodeState c).allocated = false)
    (hheld : ∀ w, pc'.held who = some w → (w.dindex, w.nindex) = c ∧ pc'.Content w word)
    (hfree : pc'.held who = none → word.allocated = false)
    (hentered : ∀ d domain_id, pc'.entered who = some (d, domain_id) →
      (pc t).entered (r.whoami t) = some (d, domain_id) ∨ DomainIs db d domain_id)
    (hkeep : ((r.memories m).nodeState c).allocated = true → word.allocated = true →
      word.node_num = ((r.memories m).nodeState c).node_num)
    (hnew : ((r.memories m).nodeState c).allocated = false → word.allocated = true →
      ∀ n < MCA_MAX_NODES, ((r.memories m).nodeState (c.1, n)).allocated = true →
        ((r.memories m).nodeState (c.1, n)).node_num ≠ word.node_num) :
    RegistrationInv pid (r.write t m db who) (Function.update pc t pc') := by
  have hself : db.nodeState c = word := by
    rw [hn, Function.update_self]
  refine h.program hdb hkey hpoints hok (fun hk => ?_) (fun _ => .of_eq hd) hentered fun hk => ?_
  · refine covers_node (h.covers m hk) c hold (fun c' hc' => ?_) (fun w hw => ?_) fun hnone => ?_
    · rw [hn, Function.update_of_ne hc']
    · rw [hself]
      exact hheld w hw
    · rw [hself]
      exact hfree hnone
  · have hdistinct := h.distinct m hk
    -- another allocated entry of the domain has another number than the word written
    have hother : ∀ n, c.1 < MCA_MAX_DOMAINS → c.2 < MCA_MAX_NODES → n < MCA_MAX_NODES → n ≠ c.2 →
        word.allocated = true → ((r.memories m).nodeState (c.1, n)).allocated = true →
          ((r.memories m).nodeState (c.1, n)).node_num ≠ word.node_num := by
      intro n h₁ h₂ hlt hne hword halloc' hnum
      cases halloc : ((r.memories m).nodeState c).allocated with
      | true => exact hne (hdistinct.nodes c.1 h₁ n hlt c.2 h₂ halloc' halloc
          (hnum.trans (hkeep halloc hword)))
      | false => exact hnew halloc hword n hlt halloc' hnum
    refine ⟨by rw [hd]; exact hdistinct.domains, fun d hlt n₁ h₁ n₂ h₂ ha₁ ha₂ hnum => ?_⟩
    rw [hn] at ha₁ ha₂ hnum
    by_cases hc₁ : (d, n₁) = c
    · subst hc₁
      by_cases hc₂ : n₂ = n₁
      · exact hc₂.symm
      · have hne : (d, n₂) ≠ (d, n₁) := fun heq => hc₂ (Prod.mk.inj heq).2
        rw [Function.update_self] at ha₁ hnum
        rw [Function.update_of_ne hne] at ha₂ hnum
        exact absurd hnum.symm (hother n₂ hlt h₁ h₂ hc₂ ha₁ ha₂)
    · rw [Function.update_of_ne hc₁] at ha₁ hnum
      by_cases hc₂ : (d, n₂) = c
      · subst hc₂
        rw [Function.update_self] at ha₂ hnum
        have hne : n₁ ≠ n₂ := fun heq => hc₁ (by rw [heq])
        exact absurd hnum (hother n₁ hlt h₂ h₁ hne ha₂ ha₁)
      · rw [Function.update_of_ne hc₂] at ha₂ hnum
        exact hdistinct.nodes d hlt n₁ h₁ n₂ h₂ ha₁ ha₂ hnum

end

end

end MxApi
