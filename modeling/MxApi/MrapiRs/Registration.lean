/-
What initialize and finalize of the Rust database do.

Neither does its work. The searches of initialize bind indexes of their own, so that every thread
is given the first entry of each table; the call ends in an error whatever it has done, and it
keeps the global semaphore ([`initialize_returned`]). So the first call of a sequence is wrong
already ([`registration_ok_iff`]). Finalize keeps the semaphore too, if it gets it at all
([`finalize_never_ok`]); the entry that it clears is the one that the identifiers of node and
domain would name as indexes ([`finalize_clears`]), and no count of references goes down
([`finalize_node_locked_spec`]).
-/
import MxApi.MrapiRs.Database

set_option autoImplicit false

namespace MxApi.MrapiRs

open Lib

variable {w w' : World} {c : Thread} {db db' : MrapiDatabase} {d n : ℕ}

/-! ## Registration -/

/-- Entry `n` of domain entry `d` is that of the node. -/
structure RegisteredAt (db : MrapiDatabase) (domain_id node_id d n : ℕ) : Prop where
  d_lt : d < MRAPI_MAX_DOMAINS
  n_lt : n < MRAPI_MAX_NODES
  domain_valid : (db.domains d).state.valid = true
  domain_id : (db.domains d).state.domain_id = u32 domain_id
  node_valid : (db.node d n).state.valid = true
  node_num : (db.node d n).state.node_num = u32 node_id

def Registered (db : MrapiDatabase) (domain_id node_id : ℕ) : Prop :=
  ∃ d n, RegisteredAt db domain_id node_id d n

/-- The semaphore of `w'` has the value that it had, or with which it is made. -/
def Released (w w' : World) : Prop := w'.sem = some (w.sem.getD 1)

/-- A new pair gets an entry that was free, in the entry of its domain if that has one, and the
thread knows it; a known pair is refused, and the tables stay. -/
structure RegisterOk (w : World) (c : Thread) (domain_id node_id : ℕ) (w' : World) (ok : Bool) :
    Prop where
  fresh : ¬ Registered w.db domain_id node_id → ok = true ∧ ∃ d n,
    RegisteredAt w'.db domain_id node_id d n ∧ (w.db.node d n).state.valid = false ∧
    (∀ d', d' < MRAPI_MAX_DOMAINS → (w.db.domains d').state.valid = true →
      (w.db.domains d').state.domain_id = u32 domain_id → d' = d) ∧
    (∀ d' n', (d', n') ≠ (d, n) → w'.db.node d' n' = w.db.node d' n') ∧
    whoami w' c = some (node_id, n, domain_id, d)
  known : Registered w.db domain_id node_id → ok = false ∧ w'.db = w.db
  released : Released w w'

/-- A thread and the domain and node that it asks for. -/
abbrev Call := Thread × ℕ × ℕ

/-- Each call of a sequence returns and does what it should. -/
def RegistrationOk : World → List Call → Prop
  | _, [] => True
  | w, (c, domain_id, node_id) :: rest =>
    ∃ w' ok, database_initialize w c domain_id node_id = .returned (w', ok) ∧
      RegisterOk w c domain_id node_id w' ok ∧ RegistrationOk w' rest

/-- A lock of the semaphore takes one off its value. -/
theorem create_sys_semaphore_returned (h : create_sys_semaphore w = .returned w') :
    ∃ v, w'.sem = some v ∧ w.sem.getD 1 = v + 1 := by
  unfold create_sys_semaphore at h
  split at h
  · rename_i hsem
    cases h
    exact ⟨0, rfl, by rw [hsem]; rfl⟩
  · cases h
  · rename_i v hsem
    cases h
    exact ⟨v, rfl, by rw [hsem]; rfl⟩

/-- **What initialize returns**: an error; and to a thread that is not registered, with the
semaphore one down. -/
theorem initialize_returned {domain_id node_id : ℕ} {ok : Bool}
    (h : database_initialize w c domain_id node_id = .returned (w', ok)) :
    ok = false ∧ (whoami w c = none → ∃ v, w'.sem = some v ∧ w.sem.getD 1 = v + 1) := by
  unfold database_initialize at h
  split at h
  · rename_i hwho
    cases h
    refine ⟨rfl, fun hnone => ?_⟩
    rw [hnone] at hwho
    cases hwho
  · cases hlock : create_sys_semaphore w with
    | panicked =>
      rw [hlock] at h
      cases h
    | blocked =>
      rw [hlock] at h
      cases h
    | returned w₁ =>
      rw [hlock] at h
      have hsem := create_sys_semaphore_returned hlock
      dsimp only at h
      -- each way out keeps what the lock left
      split at h
      · cases h
      · split at h
        · cases h
          exact ⟨rfl, fun _ => hsem⟩
        · split at h
          · cases h
          · split at h
            · cases h
            · split at h
              · cases h
              · cases h
                exact ⟨rfl, fun _ => hsem⟩

/-- No call is right. -/
theorem not_registerOk {domain_id node_id : ℕ} {ok : Bool} (hwho : whoami w c = none)
    (h : database_initialize w c domain_id node_id = .returned (w', ok)) :
    ¬ RegisterOk w c domain_id node_id w' ok := by
  obtain ⟨v, hv, hold⟩ := (initialize_returned h).2 hwho
  intro hok
  have hreleased := hok.released
  unfold Released at hreleased
  rw [hv, hold] at hreleased
  exact Nat.ne_of_lt (Nat.lt_succ_self v) (Option.some.inj hreleased)

/-- **When a sequence of registrations is right**: never, once there is a call. -/
theorem registration_ok_iff {calls : List Call}
    (hfresh : ∀ call ∈ calls, whoami w call.1 = none) : RegistrationOk w calls ↔ calls = [] := by
  constructor
  · intro hok
    cases calls with
    | nil => rfl
    | cons call rest =>
      obtain ⟨w', ok, heq, hcall, -⟩ := hok
      have hwho := hfresh call List.mem_cons_self
      exact absurd hcall (not_registerOk hwho heq)
  · rintro rfl
    exact trivial

def thread11 : Thread := ⟨1, 1⟩

def thread12 : Thread := ⟨1, 2⟩

/-- Two threads on an empty database. -/
theorem registration_ok_iff_two :
    ¬ RegistrationOk World.initial [(thread11, 1, 2), (thread12, 1, 3)] := by
  have hiff := @registration_ok_iff World.initial [(thread11, 1, 2), (thread12, 1, 3)]
    fun _ _ => rfl
  intro hok
  cases hiff.mp hok

/-- **The first call on an empty database** returns an error and keeps the semaphore; the thread
is told that its node is the domain; and the next thread waits for the semaphore for ever. -/
theorem first_registration_fails :
    ∃ w, database_initialize World.initial thread11 1 2 = .returned (w, false) ∧
      ¬ Registered World.initial.db 1 2 ∧ ¬ Released World.initial w ∧
      whoami w thread11 = some (1, 0, 1, 0) ∧
      database_initialize w thread12 1 3 = .blocked ∧
      ¬ RegistrationOk World.initial [(thread11, 1, 2)] := by
  refine ⟨_, rfl, ?_, ?_, ?_, rfl, ?_⟩
  · rintro ⟨d, n, h⟩
    cases h.node_valid
  · intro h
    cases h
  · decide
  · rintro ⟨w', ok, heq, hcall, -⟩
    exact not_registerOk rfl heq hcall

/-! ## The entry that finalize clears -/

theorem setDomain_node (domain : MrapiDomainData) (d' n' : ℕ) :
    (db.setDomain d domain).node d' n' = if d' = d then domain.nodes n' else db.node d' n' := by
  unfold MrapiDatabase.node MrapiDatabase.setDomain
  dsimp only
  rw [Function.update_apply]
  split
  · rfl
  · rfl

theorem setNode_node (node : MrapiNodeData) (d' n' : ℕ) :
    (db.setNode d n node).node d' n' = if d' = d ∧ n' = n then node else db.node d' n' := by
  unfold MrapiDatabase.setNode
  rw [setDomain_node]
  by_cases hd : d' = d
  · rw [if_pos hd]
    dsimp only
    rw [Function.update_apply, hd]
    by_cases hn : n' = n
    · rw [if_pos hn, if_pos ⟨rfl, hn⟩]
    · rw [if_neg hn, if_neg fun h => hn h.2]
      rfl
  · rw [if_neg hd, if_neg fun h => hd h.1]

theorem setNode_self (node : MrapiNodeData) : (db.setNode d n node).node d n = node := by
  rw [setNode_node, if_pos ⟨rfl, rfl⟩]

/-- A run-down changes no node, no count of references, and no semaphore. -/
theorem rundownProcess_rest (db : MrapiDatabase) (p : ℕ) :
    (rundownProcess db p).node = db.node ∧ (rundownProcess db p).sems = db.sems ∧
      ∀ s, ((rundownProcess db p).shmems s).valid = (db.shmems s).valid ∧
        ((rundownProcess db p).shmems s).refs = (db.shmems s).refs := by
  unfold rundownProcess
  dsimp only
  split
  · split
    · refine ⟨rfl, rfl, fun s => ?_⟩
      dsimp only
      split
      · exact ⟨rfl, rfl⟩
      · exact ⟨rfl, rfl⟩
    · exact ⟨rfl, rfl, fun s => ⟨rfl, rfl⟩⟩
  · exact ⟨rfl, rfl, fun s => ⟨rfl, rfl⟩⟩

/-- Who used nothing takes no reference away. -/
theorem releaseShmem_zero (shmem : MrapiShmem) : releaseShmem shmem 0 = some shmem := by
  unfold releaseShmem
  rw [if_neg fun h => absurd h.2 (by decide)]

theorem releaseSem_zero (sem : MrapiSem) : releaseSem sem 0 = sem := by
  unfold releaseSem
  rw [if_neg fun h => absurd h.2 (by decide)]

theorem clearNode_node (d' n' : ℕ) : (clearNode db d n).node d' n' =
    if d' = d ∧ n' = n then (db.node d n).clear else db.node d' n' := by
  unfold clearNode
  dsimp only
  rw [setDomain_node]
  split
  · rename_i hd
    change (db.setNode d n (db.node d n).clear).node d n' = _
    rw [setNode_node, hd]
  · rw [setNode_node]

/-- A node with clear lists releases nothing. -/
theorem releaseObjects_clear (hsems : (db.node d n).sems = fun _ => 0)
    (hshmems : (db.node d n).shmems = fun _ => 0) (h : releaseObjects db d n = some db') :
    db'.node = db.node ∧ db'.sems = db.sems ∧ db'.shmems = db.shmems := by
  unfold releaseObjects at h
  dsimp only at h
  split at h
  · obtain rfl := Option.some.inj h
    refine ⟨?_, ?_, ?_⟩
    · funext d' n'
      change (db.setNode d n _).node d' n' = db.node d' n'
      rw [setNode_node]
      split
      · rename_i hplace
        rw [hplace.1, hplace.2, hsems]
        simp only [ite_self]
        rw [← hsems]
      · rfl
    · funext s
      dsimp only
      rw [hsems, releaseSem_zero, ite_self]
    · funext s
      dsimp only
      rw [hshmems, releaseShmem_zero, Option.getD_some, ite_self]
  · cases h

/-- **What finalize does to a node**: its entry is clear, and all others stay. No reference is
taken away, because the lists of the node are clear when they are asked. -/
theorem finalize_node_locked_spec (h : finalize_node_locked db d n = some db') :
    d < MRAPI_MAX_DOMAINS ∧ n < MRAPI_MAX_NODES ∧
      (∀ d' n', db'.node d' n' =
        if d' = d ∧ n' = n then (db.node d n).clear else db.node d' n') ∧
      db'.sems = db.sems ∧ ∀ s, (db'.shmems s).refs = (db.shmems s).refs := by
  unfold finalize_node_locked at h
  split at h
  · rename_i hindex
    dsimp only at h
    split at h
    · obtain ⟨hnode, hsems, hshmems⟩ := rundownProcess_rest (db.setNode d n { db.node d n with
        state := { (db.node d n).state with valid := false, allocated := false } })
        (db.node d n).proc_num
      obtain ⟨hnode', hsems', hshmems'⟩ := releaseObjects_clear
        (by rw [clearNode_node, if_pos ⟨rfl, rfl⟩]; rfl)
        (by rw [clearNode_node, if_pos ⟨rfl, rfl⟩]; rfl) h
      refine ⟨hindex.1, hindex.2, fun d' n' => ?_, hsems'.trans hsems, fun s => ?_⟩
      · rw [hnode', clearNode_node, hnode, setNode_self, setNode_node]
        split
        · rfl
        · rfl
      · rw [hshmems']
        exact (hshmems s).2
    · cases h
  · cases h

/-! ## Finalize -/

theorem access_database_pre_returned (h : access_database_pre w = .returned w') :
    w'.db = w.db ∧ w'.tls = w.tls ∧
      (w'.sem = none ∨ ∃ v, w'.sem = some v ∧ w.sem = some (v + 1)) := by
  unfold access_database_pre at h
  split at h
  · rename_i hsem
    cases h
    exact ⟨rfl, rfl, .inl hsem⟩
  · cases h
  · rename_i v hsem
    cases h
    exact ⟨rfl, rfl, .inr ⟨v, rfl, hsem⟩⟩

/-- **What finalize does to the nodes**: the entry is clear that the identifiers of the node and of
the domain name as indexes of a domain and of a node; and the semaphore is one down. -/
theorem finalize_clears {node_id nindex domain_id dindex : ℕ}
    (hwho : whoami w c = some (node_id, nindex, domain_id, dindex))
    (h : database_finalize w c = .returned w') :
    (∃ v, w'.sem = some v ∧ w.sem = some (v + 1)) ∧ node_id < MRAPI_MAX_DOMAINS ∧
      domain_id < MRAPI_MAX_NODES ∧ ∀ d n, w'.db.node d n =
        if d = node_id ∧ n = domain_id then (w.db.node node_id domain_id).clear
        else w.db.node d n := by
  unfold database_finalize free_resources at h
  split at h
  · cases h
  · cases hpre : access_database_pre w with
    | panicked =>
      rw [hpre] at h
      cases h
    | blocked =>
      rw [hpre] at h
      cases h
    | returned w₁ =>
      rw [hpre] at h
      obtain ⟨hdb, htls, hsem⟩ := access_database_pre_returned hpre
      have hwho₁ : whoami w₁ c = some (node_id, nindex, domain_id, dindex) := by
        unfold whoami at hwho ⊢
        rw [htls]
        exact hwho
      dsimp only at h
      rw [hwho₁] at h
      dsimp only at h
      cases hfinalized : finalize_node_locked w₁.db node_id domain_id with
      | none =>
        rw [hfinalized] at h
        cases h
      | some db₁ =>
        rw [hfinalized] at h
        dsimp only [Option.bind_some] at h
        rw [if_neg Bool.false_ne_true] at h
        dsimp only at h
        obtain ⟨hnode, hdomain, hall, -⟩ := finalize_node_locked_spec hfinalized
        split at h
        · cases h
        · split at h
          · cases h
          · split at h
            · cases h
            · rename_i hset
              cases h
              refine ⟨hsem.resolve_left hset, hnode, hdomain, fun d n => ?_⟩
              rw [← hdb]
              exact hall d n

/-- What a finalize should do for the node that its thread is: its entry is clear and no other one
changes, the objects in its lists have one reference less and all others as many as before, the
entry of its process is clear exactly if that was its last node, and the semaphore is free. -/
def FinalizeOk (w : World) (c : Thread) : Prop :=
  ∃ w' node_id n domain_id d, database_finalize w c = .returned w' ∧
    whoami w c = some (node_id, n, domain_id, d) ∧
    (∀ d' n', w'.db.node d' n' =
      if d' = d ∧ n' = n then (w.db.node d n).clear else w.db.node d' n') ∧
    (∀ s, s < MRAPI_MAX_SHMEMS → (w.db.shmems s).valid = true → (w'.db.shmems s).refs =
      if (w.db.node d n).shmems s = 1 then (w.db.shmems s).refs - 1 else (w.db.shmems s).refs) ∧
    (∀ s, s < MRAPI_MAX_SEMS → (w.db.sems s).valid = true → (w'.db.sems s).refs =
      if (w.db.node d n).sems s = 1 then (w.db.sems s).refs - 1 else (w.db.sems s).refs) ∧
    (w'.db.processes (w.db.node d n).proc_num = .zero ↔ ∀ d' n', (d', n') ≠ (d, n) →
      (w.db.node d' n').state.valid = true →
      (w.db.node d' n').proc_num ≠ (w.db.node d n).proc_num) ∧
    Released w w'

/-- **No finalize is right**, whatever the tables hold and whoever calls it. -/
theorem finalize_never_ok (w : World) (c : Thread) : ¬ FinalizeOk w c := by
  rintro ⟨w', node_id, n, domain_id, d, heq, hwho, -, -, -, -, hreleased⟩
  obtain ⟨v, hv, hold⟩ := (finalize_clears hwho heq).1
  unfold Released at hreleased
  rw [hv, hold] at hreleased
  exact Nat.ne_of_lt (Nat.lt_succ_self v) (Option.some.inj hreleased)

/-- **A finalize after its registration** waits for ever for the semaphore that the registration
has kept; given the semaphore it clears another entry and keeps it again; and where the identifier
of the domain is no index, it panics. -/
theorem finalize_fails :
    (∃ w, database_initialize World.initial thread11 1 2 = .returned (w, false) ∧
      database_finalize w thread11 = .blocked ∧ ¬ FinalizeOk w thread11) ∧
    (∃ w w', database_initialize World.initial thread11 1 2 = .returned (w, false) ∧
      database_finalize { w with sem := some 1 } thread11 = .returned w' ∧ w'.sem = some 0 ∧
      (w'.db.node 0 0).state.valid = true) ∧
    ∃ w, database_initialize World.initial thread11 5 2 = .returned (w, false) ∧
      database_finalize { w with sem := some 1 } thread11 = .panicked := by
  refine ⟨⟨_, rfl, rfl, ?_⟩, ⟨_, _, rfl, rfl, rfl, rfl⟩, ⟨_, rfl, rfl⟩⟩
  rintro ⟨w', node_id, n, domain_id, d, heq, -⟩
  cases heq

end MxApi.MrapiRs
