/-
The entries of registered nodes: what a registration or a removal does to them
on one database.

A registered node holds a domain entry and a node entry that carry its ids, and
its domain is found in that entry. Other nodes do not change them, except a new
domain that takes the domain entry.
-/
import Mathlib.Data.List.Range
import MxApi.Mcapi.Registration

set_option autoImplicit false

namespace MxApi

open Lib

/-! ## Looking up domains and nodes -/

section

variable {db : mcapi_database} {d n domain_id node_id : ℕ}

theorem findDomain_eq_some_iff :
    db.findDomain domain_id = some d ↔
      d < MCA_MAX_DOMAINS ∧ (db.domains d).state.domain_id = domain_id ∧
        ∀ e < d, (db.domains e).state.domain_id ≠ domain_id := by
  rw [mcapi_database.findDomain, List.find?_range_eq_some]
  simp only [beq_iff_eq, List.mem_range, Bool.not_eq_eq_eq_not, Bool.not_true, beq_eq_false_iff_ne]
  tauto

theorem findDomain_eq_none_iff :
    db.findDomain domain_id = none ↔
      ∀ e < MCA_MAX_DOMAINS, (db.domains e).state.domain_id ≠ domain_id := by
  simp [mcapi_database.findDomain]

theorem freeNode_eq_some (h : db.freeNode d = some n) :
    n < MCA_MAX_NODES ∧ (db.node d n).state.allocated = false := by
  rw [mcapi_database.freeNode, List.find?_range_eq_some] at h
  exact ⟨List.mem_range.mp h.2.1, by simpa using h.1⟩

theorem freeDomain_lt (h : db.freeDomain = some d) : d < MCA_MAX_DOMAINS := by
  rw [mcapi_database.freeDomain, List.find?_range_eq_some] at h
  exact List.mem_range.mp h.2.1

theorem nodeExists_eq_true_iff :
    db.nodeExists d node_id = true ↔
      ∃ n < MCA_MAX_NODES, (db.node d n).state.allocated = true ∧
        (db.node d n).state.node_num = node_id := by
  simp [mcapi_database.nodeExists]

theorem anyNode_eq_true_iff {p : mcapi_node_entry → Bool} :
    db.anyNode p = true ↔
      ∃ d < MCA_MAX_DOMAINS, ∃ n < MCA_MAX_NODES,
        (db.node d n).state.allocated = true ∧ p (db.node d n) = true := by
  simp [mcapi_database.anyNode]

end

/-! ## What the functions write -/

section

variable {db : mcapi_database} {d n e k domain_id node_id p : ℕ} {start : Bool} {me : Whoami}

@[simp] theorem claimDomain_node : (db.claimDomain d domain_id).node e k = db.node e k := by
  by_cases h : e = d
  · subst h
    simp [mcapi_database.claimDomain, mcapi_database.setDomain, mcapi_database.node]
  · simp [mcapi_database.claimDomain, mcapi_database.setDomain, mcapi_database.node, h]

theorem claimDomain_self :
    ((db.claimDomain d domain_id).domains d).state.domain_id = domain_id := by
  simp [mcapi_database.claimDomain, mcapi_database.setDomain]

theorem claimDomain_of_ne (h : e ≠ d) :
    (db.claimDomain d domain_id).domains e = db.domains e := by
  simp [mcapi_database.claimDomain, mcapi_database.setDomain, h]

@[simp] theorem addCaller_domain_id :
    ((addCaller db d n node_id p start).domains e).state.domain_id
      = (db.domains e).state.domain_id := by
  by_cases h : e = d
  · subst h
    simp [addCaller, mcapi_database.setDomain]
  · simp [addCaller, mcapi_database.setDomain, h]

@[simp] theorem addCaller_domain_allocated :
    ((addCaller db d n node_id p start).domains e).state.allocated
      = (db.domains e).state.allocated := by
  by_cases h : e = d
  · subst h
    simp [addCaller, mcapi_database.setDomain]
  · simp [addCaller, mcapi_database.setDomain, h]

theorem addCaller_node_of_ne (h : ¬ (e = d ∧ k = n)) :
    (addCaller db d n node_id p start).node e k = db.node e k := by
  by_cases he : e = d
  · subst he
    have hk : k ≠ n := fun hk => h ⟨rfl, hk⟩
    simp [addCaller, mcapi_database.setDomain, mcapi_database.node, hk]
  · simp [addCaller, mcapi_database.setDomain, mcapi_database.node, he]

theorem addCaller_node_self (db : mcapi_database) (d n node_id p : ℕ) (start : Bool) :
    ((addCaller db d n node_id p start).node d n).state
        = { node_num := node_id, allocated := true, valid := start, rundown := false } ∧
      ((addCaller db d n node_id p start).node d n).pid = p := by
  simp [addCaller, mcapi_database.setDomain, mcapi_database.node]

@[simp] theorem mcapi_trans_finalize_domain_state :
    (((mcapi_trans_finalize db me p).1.domains e).state) = (db.domains e).state := by
  by_cases h : e = me.dindex
  · subst h
    simp [mcapi_trans_finalize, mcapi_database.setDomain]
  · simp [mcapi_trans_finalize, mcapi_database.setDomain, h]

theorem mcapi_trans_finalize_node_of_ne (h : ¬ (e = me.dindex ∧ k = me.nindex)) :
    (mcapi_trans_finalize db me p).1.node e k = db.node e k := by
  by_cases he : e = me.dindex
  · subst he
    have hk : k ≠ me.nindex := fun hk => h ⟨rfl, hk⟩
    simp [mcapi_trans_finalize, mcapi_database.setDomain, mcapi_database.node, hk]
  · simp [mcapi_trans_finalize, mcapi_database.setDomain, mcapi_database.node, he]

end

/-! ## The entries of a registered node -/

/-- The entries named by an identity carry its ids. -/
structure HoldsIds (db : mcapi_database) (w : Whoami) : Prop where
  dindex_lt : w.dindex < MCA_MAX_DOMAINS
  nindex_lt : w.nindex < MCA_MAX_NODES
  domain_id : (db.domains w.dindex).state.domain_id = w.domain_id
  node_num : (db.node w.dindex w.nindex).state.node_num = w.node_num
  allocated : (db.node w.dindex w.nindex).state.allocated = true

/-- The ids and the membership of the entries of an identity are the same. -/
def SameEntries (db db' : mcapi_database) (w : Whoami) : Prop :=
  (db'.domains w.dindex).state.domain_id = (db.domains w.dindex).state.domain_id ∧
    (db'.domains w.dindex).state.allocated = (db.domains w.dindex).state.allocated ∧
    (db'.node w.dindex w.nindex).state.node_num = (db.node w.dindex w.nindex).state.node_num ∧
    (db'.node w.dindex w.nindex).state.allocated = (db.node w.dindex w.nindex).state.allocated

/-- The node is registered by a thread of the process, and its domain is found
in the entry it has. -/
structure Enrolled (db : mcapi_database) (p : ℕ) (w : Whoami) : Prop where
  holds : HoldsIds db w
  found : db.findDomain w.domain_id = some w.dindex
  pid : (db.node w.dindex w.nindex).pid = p

/-- A database with the same domain ids and the same entries of an identity. -/
theorem Enrolled.congr {db db' : mcapi_database} {p : ℕ} {w : Whoami} (h : Enrolled db p w)
    (hid : ∀ e, (db'.domains e).state.domain_id = (db.domains e).state.domain_id)
    (hnode : db'.node w.dindex w.nindex = db.node w.dindex w.nindex) : Enrolled db' p w := by
  have hfound := findDomain_eq_some_iff.mp h.found
  refine ⟨⟨h.holds.dindex_lt, h.holds.nindex_lt, ?_, ?_, ?_⟩, ?_, ?_⟩
  · rw [hid]
    exact h.holds.domain_id
  · rw [hnode]
    exact h.holds.node_num
  · rw [hnode]
    exact h.holds.allocated
  · apply findDomain_eq_some_iff.mpr
    refine ⟨hfound.1, ?_, fun e he => ?_⟩
    · rw [hid]
      exact hfound.2.1
    · rw [hid]
      exact hfound.2.2 e he
  · rw [hnode]
    exact h.pid

section

variable {db : mcapi_database} {d n domain_id node_id p q : ℕ} {start : Bool} {w me : Whoami}

theorem SameEntries.refl (db : mcapi_database) (w : Whoami) : SameEntries db db w :=
  ⟨rfl, rfl, rfl, rfl⟩

theorem SameEntries.trans {db' db'' : mcapi_database} (h : SameEntries db db' w)
    (h' : SameEntries db' db'' w) : SameEntries db db'' w :=
  ⟨h'.1.trans h.1, h'.2.1.trans h.2.1, h'.2.2.1.trans h.2.2.1, h'.2.2.2.trans h.2.2.2⟩

/-- Taking another entry for a new domain. -/
theorem Enrolled.claimDomain (h : Enrolled db p w) (hnew : db.findDomain domain_id = none)
    (hd : w.dindex ≠ d) :
    Enrolled (db.claimDomain d domain_id) p w ∧ SameEntries db (db.claimDomain d domain_id) w := by
  have hfound := findDomain_eq_some_iff.mp h.found
  have hid : w.domain_id ≠ domain_id := by
    rw [← h.holds.domain_id]
    exact findDomain_eq_none_iff.mp hnew _ h.holds.dindex_lt
  have hentry : (db.claimDomain d domain_id).domains w.dindex = db.domains w.dindex :=
    claimDomain_of_ne hd
  refine ⟨⟨⟨h.holds.dindex_lt, h.holds.nindex_lt, ?_, ?_, ?_⟩, ?_, ?_⟩, ?_, ?_, ?_, ?_⟩
  · rw [hentry]
    exact h.holds.domain_id
  · rw [claimDomain_node]
    exact h.holds.node_num
  · rw [claimDomain_node]
    exact h.holds.allocated
  · apply findDomain_eq_some_iff.mpr
    refine ⟨hfound.1, ?_, fun e he => ?_⟩
    · rw [hentry]
      exact hfound.2.1
    · by_cases hed : e = d
      · rw [hed, claimDomain_self]
        exact hid.symm
      · rw [claimDomain_of_ne hed]
        exact hfound.2.2 e he
  · rw [claimDomain_node]
    exact h.pid
  · rw [hentry]
  · rw [hentry]
  · rw [claimDomain_node]
  · rw [claimDomain_node]

/-- A new domain is found in the entry taken for it. -/
theorem findDomain_claimDomain (hnew : db.findDomain domain_id = none)
    (hd : d < MCA_MAX_DOMAINS) : (db.claimDomain d domain_id).findDomain domain_id = some d := by
  apply findDomain_eq_some_iff.mpr
  refine ⟨hd, claimDomain_self, fun e he => ?_⟩
  rw [claimDomain_of_ne (Nat.ne_of_lt he)]
  exact findDomain_eq_none_iff.mp hnew e (Nat.lt_trans he hd)

/-- Adding the caller in another node entry. -/
theorem Enrolled.addCaller (h : Enrolled db p w) (node_id q : ℕ) (start : Bool)
    (hdn : ¬ (w.dindex = d ∧ w.nindex = n)) :
    Enrolled (addCaller db d n node_id q start) p w ∧
      SameEntries db (MxApi.addCaller db d n node_id q start) w := by
  have hnode : (MxApi.addCaller db d n node_id q start).node w.dindex w.nindex
      = db.node w.dindex w.nindex := addCaller_node_of_ne hdn
  refine ⟨h.congr (fun e => addCaller_domain_id) hnode, addCaller_domain_id,
    addCaller_domain_allocated, ?_, ?_⟩
  · rw [hnode]
  · rw [hnode]

/-- The caller's own entries. -/
theorem enrolled_addCaller (hfound : db.findDomain domain_id = some d) (hn : n < MCA_MAX_NODES) :
    Enrolled (addCaller db d n node_id p start) p ⟨node_id, n, domain_id, d⟩ := by
  have hd := findDomain_eq_some_iff.mp hfound
  obtain ⟨hstate, hpid⟩ := addCaller_node_self db d n node_id p start
  refine ⟨⟨hd.1, hn, ?_, ?_, ?_⟩, ?_, hpid⟩
  · rw [addCaller_domain_id]
    exact hd.2.1
  · rw [hstate]
  · rw [hstate]
  · apply findDomain_eq_some_iff.mpr
    simpa using hd

/-- Removing another node. -/
theorem Enrolled.finalize (h : Enrolled db p w)
    (hdn : ¬ (w.dindex = me.dindex ∧ w.nindex = me.nindex)) :
    Enrolled (mcapi_trans_finalize db me q).1 p w ∧
      SameEntries db (mcapi_trans_finalize db me q).1 w := by
  have hnode : (mcapi_trans_finalize db me q).1.node w.dindex w.nindex
      = db.node w.dindex w.nindex := mcapi_trans_finalize_node_of_ne hdn
  refine ⟨h.congr (fun e => by rw [mcapi_trans_finalize_domain_state]) hnode, ?_, ?_, ?_, ?_⟩
  · rw [mcapi_trans_finalize_domain_state]
  · rw [mcapi_trans_finalize_domain_state]
  · rw [hnode]
  · rw [hnode]

/-- While another node is registered the last one has not been removed, and not
the last one of its process. -/
theorem Enrolled.not_last (h : Enrolled db p w)
    (hdn : ¬ (w.dindex = me.dindex ∧ w.nindex = me.nindex)) :
    (mcapi_trans_finalize db me q).2.1 = false ∧
      (p = q → (mcapi_trans_finalize db me q).2.2 = false) := by
  have hafter := (h.finalize (q := q) hdn).1
  have hany : ∀ f : mcapi_node_entry → Bool,
      f ((mcapi_trans_finalize db me q).1.node w.dindex w.nindex) = true →
        (mcapi_trans_finalize db me q).1.anyNode f = true := fun f hf =>
    anyNode_eq_true_iff.mpr
      ⟨_, h.holds.dindex_lt, _, h.holds.nindex_lt, hafter.holds.allocated, hf⟩
  constructor
  · show (!(mcapi_trans_finalize db me q).1.anyNode fun _ => true) = false
    rw [hany _ rfl]
    rfl
  · intro hpq
    show (!(mcapi_trans_finalize db me q).1.anyNode fun node => node.pid == q) = false
    rw [hany _ (by rw [hafter.pid, hpq, beq_self_eq_true])]
    rfl

end

/-! ## Registration on one database -/

/-- After the domain's part the domain has its entry, and the nodes enrolled
before are still enrolled if they are not in the entry taken. -/
theorem enterDomain_spec {db db' : mcapi_database} {domain_id d : ℕ}
    (h : enterDomain db domain_id = some (d, db')) :
    db'.findDomain domain_id = some d ∧
      ((db.findDomain domain_id = some d ∧ db' = db) ∨
        db.findDomain domain_id = none ∧ db.freeDomain = some d ∧
          db' = db.claimDomain d domain_id) := by
  unfold enterDomain at h
  cases hfind : db.findDomain domain_id with
  | some e =>
    rw [hfind] at h
    obtain ⟨rfl, rfl⟩ := Prod.mk.inj (Option.some.inj h)
    exact ⟨hfind, Or.inl ⟨rfl, rfl⟩⟩
  | none =>
    rw [hfind] at h
    obtain ⟨e, he, heq⟩ := Option.map_eq_some_iff.mp h
    obtain ⟨rfl, rfl⟩ := Prod.mk.inj heq
    exact ⟨findDomain_claimDomain hfind (freeDomain_lt he), Or.inr ⟨rfl, he, rfl⟩⟩

/-- The node's part does nothing, or adds the caller in a free entry. -/
theorem enterNode_cases (db : mcapi_database) (domain_id d node_id p : ℕ) (start : Bool) :
    enterNode db domain_id d node_id p start = (db, none) ∨
      ∃ n, db.nodeExists d node_id = false ∧ db.freeNode d = some n ∧
        enterNode db domain_id d node_id p start
          = (addCaller db d n node_id p start, some ⟨node_id, n, domain_id, d⟩) := by
  unfold enterNode
  cases hex : db.nodeExists d node_id with
  | true => exact Or.inl rfl
  | false =>
    cases hfree : db.freeNode d with
    | none => exact Or.inl rfl
    | some n => exact Or.inr ⟨n, rfl, rfl, rfl⟩

/-- A registered pair is found by the search for the node. -/
theorem Enrolled.nodeExists {db : mcapi_database} {p : ℕ} {w : Whoami} (h : Enrolled db p w) :
    db.nodeExists w.dindex w.node_num = true :=
  nodeExists_eq_true_iff.mpr ⟨_, h.holds.nindex_lt, h.holds.allocated, h.holds.node_num⟩

/-- A registered pair is refused. -/
theorem Enrolled.refused {db : mcapi_database} {p q : ℕ} {w : Whoami} (h : Enrolled db p w)
    (start : Bool) : mcapi_trans_initialize db w.domain_id w.node_num q start = (db, none) := by
  unfold mcapi_trans_initialize enterDomain
  rw [h.found]
  show enterNode db w.domain_id w.dindex w.node_num q start = (db, none)
  unfold enterNode
  rw [if_pos h.nodeExists]

section

variable {db : mcapi_database} {domain_id node_id p q : ℕ} {start : Bool} {w me : Whoami}

theorem mcapi_trans_initialize_of_none (h : enterDomain db domain_id = none) :
    mcapi_trans_initialize db domain_id node_id q start = (db, none) := by
  unfold mcapi_trans_initialize
  rw [h]

theorem mcapi_trans_initialize_of_some {db' : mcapi_database} {d : ℕ}
    (h : enterDomain db domain_id = some (d, db')) :
    mcapi_trans_initialize db domain_id node_id q start
      = enterNode db' domain_id d node_id q start := by
  unfold mcapi_trans_initialize
  rw [h]

/-- A node registered before stays as it is, and a new one gets another entry
and other ids, if the entry of a new domain is not the one of the node. -/
theorem Enrolled.register (h : Enrolled db p w) (node_id q : ℕ) (start : Bool)
    (hfree : db.findDomain domain_id = none → ∀ d, db.freeDomain = some d → w.dindex ≠ d) :
    (Enrolled ( mcapi_trans_initialize db domain_id node_id q start).1 p w ∧
      SameEntries db ( mcapi_trans_initialize db domain_id node_id q start).1 w) ∧
    ∀ me, ( mcapi_trans_initialize db domain_id node_id q start).2 = some me →
      ¬ (me.dindex = w.dindex ∧ me.nindex = w.nindex) ∧
        ¬ (w.domain_id = domain_id ∧ w.node_num = node_id) := by
  cases hent : enterDomain db domain_id with
  | none =>
    rw [mcapi_trans_initialize_of_none hent]
    exact ⟨⟨h, .refl db w⟩, fun _ hme => by cases hme⟩
  | some r =>
    obtain ⟨d, db'⟩ := r
    rw [mcapi_trans_initialize_of_some hent]
    obtain ⟨hfound, hdb⟩ := enterDomain_spec hent
    have hmid : Enrolled db' p w ∧ SameEntries db db' w := by
      rcases hdb with ⟨-, rfl⟩ | ⟨hnone, hd, rfl⟩
      · exact ⟨h, .refl _ w⟩
      · exact h.claimDomain hnone (hfree hnone d hd)
    rcases enterNode_cases db' domain_id d node_id q start with heq | ⟨n, hex, hn, heq⟩
    · rw [heq]
      exact ⟨hmid, fun _ hme => by cases hme⟩
    · -- the entry taken was not allocated, the one of the node is
      have hdn : ¬ (w.dindex = d ∧ w.nindex = n) := by
        rintro ⟨rfl, rfl⟩
        have hfalse := (freeNode_eq_some hn).2
        rw [hmid.1.holds.allocated] at hfalse
        cases hfalse
      obtain ⟨hs, hsame⟩ := hmid.1.addCaller node_id q start hdn
      rw [heq]
      refine ⟨⟨hs, hmid.2.trans hsame⟩, fun me hme => ?_⟩
      obtain rfl := Option.some.inj hme
      refine ⟨fun hsameIndex => hdn ⟨hsameIndex.1.symm, hsameIndex.2.symm⟩, ?_⟩
      rintro ⟨rfl, rfl⟩
      obtain rfl := Option.some.inj (hmid.1.found.symm.trans hfound)
      rw [hmid.1.nodeExists] at hex
      cases hex

/-- The identity given is enrolled and has the ids asked for. -/
theorem register_enrolled (h : ( mcapi_trans_initialize db domain_id node_id q start).2 = some me) :
    Enrolled ( mcapi_trans_initialize db domain_id node_id q start).1 q me ∧
      me.domain_id = domain_id ∧ me.node_num = node_id := by
  cases hent : enterDomain db domain_id with
  | none =>
    rw [mcapi_trans_initialize_of_none hent] at h
    cases h
  | some r =>
    obtain ⟨d, db'⟩ := r
    rw [mcapi_trans_initialize_of_some hent] at h ⊢
    have hfound := (enterDomain_spec hent).1
    rcases enterNode_cases db' domain_id d node_id q start with heq | ⟨n, -, hn, heq⟩
    · rw [heq] at h
      cases h
    · rw [heq] at h ⊢
      obtain rfl := Option.some.inj h
      exact ⟨enrolled_addCaller hfound (freeNode_eq_some hn).1, rfl, rfl⟩

end

/-- The entry taken for a new domain gets the new id. -/
theorem register_domain_id {db : mcapi_database} {domain_id node_id p d : ℕ} {start : Bool}
    (hnone : db.findDomain domain_id = none) (hd : db.freeDomain = some d) :
    ((( mcapi_trans_initialize db domain_id node_id p start).1.domains d).state).domain_id
      = domain_id := by
  have hent : enterDomain db domain_id = some (d, db.claimDomain d domain_id) := by
    unfold enterDomain
    rw [hnone]
    show db.freeDomain.map _ = _
    rw [hd]
    rfl
  rw [mcapi_trans_initialize_of_some hent]
  rcases enterNode_cases (db.claimDomain d domain_id) domain_id d node_id p start with
    heq | ⟨n, -, -, heq⟩
  · rw [heq]
    exact claimDomain_self
  · rw [heq, addCaller_domain_id]
    exact claimDomain_self

/-- In a memory just cleared there is room for every node. -/
theorem register_clear (db : mcapi_database) (domain_id node_id p : ℕ) (start : Bool) :
    ( mcapi_trans_initialize db.clear domain_id node_id p start).2.isSome = true := by
  have hnode : ∀ n < MCA_MAX_NODES, (db.clear.node 0 n).state.allocated = false := by
    intro n hn
    simp [mcapi_database.clear, mcapi_database.node, hn, MCA_MAX_DOMAINS]
  -- the first domain entry is the one found, or the one taken
  obtain ⟨db', hent, hsame⟩ : ∃ db', enterDomain db.clear domain_id = some (0, db') ∧
      ∀ n, db'.node 0 n = db.clear.node 0 n := by
    unfold enterDomain
    cases hfind : db.clear.findDomain domain_id with
    | some d =>
      obtain ⟨hd, hid, hfirst⟩ := findDomain_eq_some_iff.mp hfind
      have hzero : (db.clear.domains 0).state.domain_id = (db.clear.domains d).state.domain_id := by
        have h0 : 0 < MCA_MAX_DOMAINS := by decide
        simp [mcapi_database.clear, hd, h0]
      have hd0 : d = 0 := by
        by_contra hne
        exact hfirst 0 (Nat.pos_of_ne_zero hne) (hzero.trans hid)
      subst hd0
      exact ⟨db.clear, rfl, fun _ => rfl⟩
    | none =>
      have hfree : db.clear.freeDomain = some 0 := by
        simp [mcapi_database.freeDomain, List.find?_range_eq_some, mcapi_database.clear,
          MCA_MAX_DOMAINS]
      exact ⟨db.clear.claimDomain 0 domain_id, by rw [hfree]; rfl, fun _ => claimDomain_node⟩
  have hex : db'.nodeExists 0 node_id = false := by
    rw [← Bool.not_eq_true, nodeExists_eq_true_iff]
    rintro ⟨n, hn, halloc, -⟩
    rw [hsame, hnode n hn] at halloc
    cases halloc
  have hfree : db'.freeNode 0 = some 0 := by
    rw [mcapi_database.freeNode, List.find?_range_eq_some]
    refine ⟨?_, List.mem_range.mpr (by decide), fun j hj => by omega⟩
    rw [hsame, hnode 0 (by decide)]
    rfl
  rw [mcapi_trans_initialize_of_some hent, enterNode, hex, hfree]
  rfl

end MxApi
