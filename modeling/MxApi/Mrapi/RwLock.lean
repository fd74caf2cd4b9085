/-
Reader-writer locks: `mrapi_impl_rwl_lock` and `mrapi_impl_rwl_unlock` on one entry,
by all nodes.

A reader takes one lock of the entry and a writer takes them all. How many these are
a writer reads in a critical section of its own, so between reading and taking others
may come and go. Each client counts the locks it has been granted and has not given
back, and unlocks only in a mode in which it holds one.

All the locks of an entry that has none are no locks: with a reader limit of 0, which
`mrapi_rwl_create` accepts, every writer is let in ([`two_writers`]). Any other limit
within the array excludes.
-/
import Mathlib.Algebra.Order.BigOperators.Group.Finset
import Mathlib.Logic.Function.Basic
import MxApi.Lib.Run
import MxApi.Mrapi.LockEntry

set_option autoImplicit false

namespace MxApi.RwLock

open Lib LockTable lock_type mrapi_rwl_mode_t mrapi_status_t

/-- A client: where it stands, and how many reader and writer locks it holds. -/
structure Client where
  pc : Pc
  readers : ℕ
  writers : ℕ
  deriving DecidableEq, Repr

/-- The entry and the clients. -/
structure St where
  sem : mrapi_sem_t
  client : Node → Client

/-- A node locks, unlocks, or takes its next step. -/
inductive Label
  | lock (c : Node) (mode : mrapi_rwl_mode_t) (timeout : ℕ)
  | unlock (c : Node) (mode : mrapi_rwl_mode_t)
  | step (c : Node)
  deriving DecidableEq, Repr

/-- Who moves. -/
def Label.node : Label → Node
  | .lock c _ _ | .unlock c _ | .step c => c

/-- The locks a client holds in a mode. -/
def Client.holds (cl : Client) : mrapi_rwl_mode_t → ℕ
  | MRAPI_RWL_READER => cl.readers
  | MRAPI_RWL_WRITER => cl.writers

/-- The client was granted a lock. -/
def Client.grant (cl : Client) : mrapi_rwl_mode_t → Client
  | MRAPI_RWL_READER => { cl with readers := cl.readers + 1 }
  | MRAPI_RWL_WRITER => { cl with writers := cl.writers + 1 }

/-- The client gave a lock back. -/
def Client.giveBack (cl : Client) : mrapi_rwl_mode_t → Client
  | MRAPI_RWL_READER => { cl with readers := cl.readers - 1 }
  | MRAPI_RWL_WRITER => { cl with writers := cl.writers - 1 }

/-- A client goes to `pc`. It was granted a lock if that is a return of `MRAPI_TRUE`
from the loop that acquires, and gave one back if it is one from a release. -/
def Client.goto (cl : Client) (pc : Pc) : Client :=
  match cl.pc, pc with
  | .acquire (.rwl mode) _ _ _ _, .done (some ⟨true, _, _⟩) => { cl.grant mode with pc := pc }
  | .release (.rwl mode) _, .done (some ⟨true, _, _⟩) => { cl.giveBack mode with pc := pc }
  | _, _ => { cl with pc := pc }

/-- What a label does. A node unlocks in the mode in which it locked. -/
def move (sem : mrapi_sem_t) (cl : Client) : Label → Option (mrapi_sem_t × Client)
  | .lock _ mode timeout =>
    match cl.pc with
    | .done _ => some (sem, { cl with pc := (Op.rwl_lock mode timeout).start })
    | _ => none
  | .unlock _ mode =>
    match cl.pc with
    | .done _ =>
      if 0 < cl.holds mode then some (sem, { cl with pc := (Op.rwl_unlock mode).start }) else none
    | _ => none
  | .step c => (clientStep c sem cl.pc).map fun o => (o.sem, cl.goto o.pc)

/-- One step of the system. -/
def step (s : St) (a : Label) : Option St :=
  (move s.sem (s.client a.node) a).map fun p =>
    ⟨p.1, Function.update s.client a.node p.2⟩

/-- A lock that has just been created, as `mrapi_impl_rwl_create` does it, and nobody
in a call. -/
def init (creator : Node) (handle key reader_lock_limit : ℕ)
    (attributes : mrapi_sem_attributes_t) : St :=
  ⟨createSem creator handle key 0 reader_lock_limit MRAPI_RWL attributes,
    fun _ => ⟨.done none, 0, 0⟩⟩

/-- While a client holds a writer lock no other holds any lock, and no more reader
locks are held than the limit allows. -/
structure RwlOk (reader_lock_limit : ℕ) (s : St) : Prop where
  exclusive : ∀ c c', c' ≠ c → 0 < (s.client c).writers →
    (s.client c').readers = 0 ∧ (s.client c').writers = 0
  readers : ∀ S : Finset Node, ∑ c ∈ S, (s.client c).readers ≤ reader_lock_limit

/-- Every lock that is created with the limit excludes, in every run. -/
def RwlExcludes (reader_lock_limit : ℕ) : Prop :=
  ∀ (creator : Node) (handle key : ℕ) (attributes : mrapi_sem_attributes_t) (s : St),
    Run step (fun _ _ _ => True) (init creator handle key reader_lock_limit attributes) s →
      RwlOk reader_lock_limit s

/-! ## The invariant -/

/-- What a mode takes of an entry. -/
def weight (limit : ℕ) : mrapi_rwl_mode_t → ℕ
  | MRAPI_RWL_READER => 1
  | MRAPI_RWL_WRITER => limit

/-- The records that the client's locks stand for. -/
def Client.records (limit : ℕ) (cl : Client) : ℕ := cl.readers + limit * cl.writers

/-- What is true of a client in a call. -/
def CallInv (limit : ℕ) (cl : Client) : Prop :=
  match cl.pc with
  | .done _ | .limitLock _ => True
  | .acquire (.rwl mode) num_locks _ _ _ => num_locks = weight limit mode
  | .release (.rwl mode) num_locks => num_locks = weight limit mode ∧ 0 < cl.holds mode
  | .limitUnlock => 0 < cl.writers
  | _ => False

/-- The invariant: the entry is counted, and the records of a client are its own. -/
structure RwlInv (limit : ℕ) (s : St) : Prop where
  counted : Counted s.sem
  limit_eq : s.sem.shared_lock_limit = limit
  valid : s.sem.valid = true
  call : ∀ c, CallInv limit (s.client c)
  own : ∀ c, s.sem.own c = (s.client c).records limit

/-- One move of one client, as the others see it. -/
structure Effect (limit : ℕ) (c : Node) (sem sem' : mrapi_sem_t) (cl' : Client) : Prop where
  counted : Counted sem'
  limit_eq : sem'.shared_lock_limit = limit
  valid : sem'.valid = true
  call : CallInv limit cl'
  own : sem'.own c = cl'.records limit
  others : ∀ c', c' ≠ c → sem'.own c' = sem.own c'

theorem records_grant (limit : ℕ) (cl : Client) (mode : mrapi_rwl_mode_t) (pc : Pc) :
    Client.records limit { cl.grant mode with pc := pc } =
      cl.records limit + weight limit mode := by
  cases mode with
  | MRAPI_RWL_READER =>
    change cl.readers + 1 + limit * cl.writers = cl.readers + limit * cl.writers + 1
    omega
  | MRAPI_RWL_WRITER =>
    change cl.readers + limit * (cl.writers + 1) = cl.readers + limit * cl.writers + limit
    rw [Nat.mul_succ, Nat.add_assoc]

theorem records_giveBack (limit : ℕ) (cl : Client) (mode : mrapi_rwl_mode_t) (pc : Pc)
    (hholds : 0 < cl.holds mode) :
    Client.records limit { cl.giveBack mode with pc := pc } + weight limit mode =
      cl.records limit := by
  cases mode with
  | MRAPI_RWL_READER =>
    change cl.readers - 1 + limit * cl.writers + 1 = cl.readers + limit * cl.writers
    change 0 < cl.readers at hholds
    omega
  | MRAPI_RWL_WRITER =>
    change cl.readers + limit * (cl.writers - 1) + limit = cl.readers + limit * cl.writers
    have hpos : cl.writers ≠ 0 := Nat.pos_iff_ne_zero.mp hholds
    obtain ⟨n, hn⟩ := Nat.exists_eq_succ_of_ne_zero hpos
    rw [hn, Nat.succ_sub_one, Nat.mul_succ, Nat.add_assoc]

theorem weight_le_records (limit : ℕ) (cl : Client) (mode : mrapi_rwl_mode_t)
    (hholds : 0 < cl.holds mode) : weight limit mode ≤ cl.records limit := by
  have hback := records_giveBack limit cl mode cl.pc hholds
  omega

section
variable {limit : ℕ} {c : Node} {sem : mrapi_sem_t} {cl : Client}

/-- A move that leaves the entry and the client's locks alone. -/
theorem Effect.same (hcounted : Counted sem) (hlimit : sem.shared_lock_limit = limit)
    (hvalid : sem.valid = true) (hown : sem.own c = cl.records limit) {pc : Pc}
    (hcall : CallInv limit { cl with pc := pc }) : Effect limit c sem sem { cl with pc := pc } :=
  ⟨hcounted, hlimit, hvalid, hcall, hown, fun _ _ => rfl⟩

theorem goto_granted {mode : mrapi_rwl_mode_t} {m : ℤ} {timeout time : ℕ}
    {status : mrapi_status_t} (hpc : cl.pc = .acquire (.rwl mode) m timeout time status) :
    cl.goto ((Acquirer.rwl mode).resume true MRAPI_SUCCESS) =
      { cl.grant mode with pc := .done (some ⟨true, MRAPI_SUCCESS, none⟩) } := by
  unfold Client.goto
  rw [hpc]
  rfl

theorem goto_refused {mode : mrapi_rwl_mode_t} {m : ℤ} {timeout time : ℕ}
    {status : mrapi_status_t} (hpc : cl.pc = .acquire (.rwl mode) m timeout time status)
    (status' : mrapi_status_t) :
    cl.goto ((Acquirer.rwl mode).resume false status') =
      { cl with pc := .done (some ⟨false, status', none⟩) } := by
  unfold Client.goto
  rw [hpc]
  rfl

theorem goto_again {mode : mrapi_rwl_mode_t} {m : ℤ} {timeout time : ℕ}
    {status : mrapi_status_t} (hpc : cl.pc = .acquire (.rwl mode) m timeout time status)
    (time' : ℕ) (status' : mrapi_status_t) :
    cl.goto (.acquire (.rwl mode) m timeout time' status') =
      { cl with pc := .acquire (.rwl mode) m timeout time' status' } := by
  unfold Client.goto
  rw [hpc]

theorem weight_pos (hpos : 0 < limit) (mode : mrapi_rwl_mode_t) : 0 < weight limit mode := by
  cases mode with
  | MRAPI_RWL_READER => exact Nat.one_pos
  | MRAPI_RWL_WRITER => exact hpos

/-- An attempt to acquire: all that was asked for becomes the caller's, or nothing. -/
theorem acquire_effect (hpos : 0 < limit) (hcounted : Counted sem)
    (hlimit : sem.shared_lock_limit = limit) (hvalid : sem.valid = true)
    (hown : sem.own c = cl.records limit) (mode : mrapi_rwl_mode_t) (status : mrapi_status_t) :
    ∃ n : ℕ, (mrapi_impl_acquire_lock_locked c sem (weight limit mode) status).2.1 = n ∧
      (n = weight limit mode ∨ n = 0) ∧
      ∀ cl' : Client, CallInv limit cl' → cl'.records limit = cl.records limit + n →
        Effect limit c sem (mrapi_impl_acquire_lock_locked c sem (weight limit mode) status).1
          cl' := by
  obtain ⟨n, ys, hchanged, heq, hn⟩ := acquire_eq c sem (weight limit mode) status
  have hexact := acquire_exact hcounted c (weight_pos hpos mode) status
  have hcounted' := hcounted.acquire c (weight limit mode) status
  rw [heq] at hcounted' ⊢
  refine ⟨n, hn, ?_, ?_⟩
  · rw [hn] at hexact
    split at hexact
    · exact .inl (by exact_mod_cast hexact)
    · exact .inr (by exact_mod_cast hexact)
  · intro cl' hcall hrecords
    refine ⟨hcounted', hlimit, hvalid, hcall, ?_, ?_⟩
    · rw [hrecords, ← hown]
      exact own_acquire hchanged
    · intro c' hne
      exact own_acquire_other (Ne.symm hne) hchanged

/-- A turn of the loop that acquires. -/
theorem acquireStep_effect (hpos : 0 < limit) (hcounted : Counted sem)
    (hlimit : sem.shared_lock_limit = limit) (hvalid : sem.valid = true)
    (hown : sem.own c = cl.records limit) {mode : mrapi_rwl_mode_t} {timeout time : ℕ}
    {status : mrapi_status_t}
    (hpc : cl.pc = .acquire (.rwl mode) (weight limit mode) timeout time status) :
    Effect limit c sem (acquireStep c sem (.rwl mode) (weight limit mode) timeout time status).sem
      (cl.goto (acquireStep c sem (.rwl mode) (weight limit mode) timeout time status).pc) := by
  obtain ⟨n, hn, hall, heffect⟩ :=
    acquire_effect hpos hcounted hlimit hvalid hown mode status
  unfold acquireStep
  dsimp only
  rw [hn]
  split
  · -- granted
    rename_i hgot
    rw [goto_granted hpc]
    obtain rfl : n = weight limit mode := by exact_mod_cast hgot
    exact heffect _ trivial (records_grant limit cl mode _)
  · -- refused, and nothing was taken
    rename_i hgot
    obtain rfl : n = 0 := by
      refine hall.resolve_left ?_
      rintro rfl
      exact hgot rfl
    split
    · rw [goto_refused hpc]
      exact heffect _ trivial rfl
    · rw [goto_again hpc]
      exact heffect _ rfl rfl

/-- A release of a lock that the client holds succeeds. -/
theorem releaseStep_effect (hpos : 0 < limit) (hcounted : Counted sem)
    (hlimit : sem.shared_lock_limit = limit) (hvalid : sem.valid = true)
    (hown : sem.own c = cl.records limit) {mode : mrapi_rwl_mode_t}
    (hpc : cl.pc = .release (.rwl mode) (weight limit mode)) (hholds : 0 < cl.holds mode) :
    Effect limit c sem (removeStep (mrapi_impl_release_lock c sem (weight limit mode))).sem
      (cl.goto (removeStep (mrapi_impl_release_lock c sem (weight limit mode))).pc) := by
  have hcast : sem.limit = limit := by
    have := hcounted.limit_cast
    omega
  have hle : weight limit mode ≤ sem.own c := by
    rw [hown]
    exact weight_le_records limit cl mode hholds
  have hmax : weight limit mode ≤ MRAPI_MAX_SHARED_LOCKS := by
    have h1 := own_le_taken c sem
    have h2 := hcounted.taken_le
    have h3 := hcounted.le_max
    omega
  rcases removeLocks_cases hcounted (fun x (hx : x.mine c = true) => mine_used hx) hmax
      (fun h0 => absurd h0 (weight_pos hpos mode).ne') with
    ⟨hfail, -, -, -, -⟩ | ⟨-, -, hrc, hstatus, -, ys, hchanged, heq⟩
  · rcases hfail with hinvalid | hfew
    · rw [hvalid] at hinvalid
      cases hinvalid
    · exact absurd hle (Nat.not_le_of_lt hfew)
  · have hgoto : cl.goto (removeStep (mrapi_impl_release_lock c sem (weight limit mode))).pc =
        { cl.giveBack mode with
          pc := .done (some ⟨true, MRAPI_SUCCESS, none⟩) } := by
      unfold Client.goto
      rw [hpc, removeStep, mrapi_impl_release_lock, hrc, hstatus]
    rw [hgoto, removeStep, mrapi_impl_release_lock, heq]
    have hback := records_giveBack limit cl mode (.done (some ⟨true, MRAPI_SUCCESS, none⟩)) hholds
    have hrelease := own_release hchanged
    refine ⟨hcounted.removed (fun _ => mine_used) hchanged, hlimit, hvalid, trivial, ?_, ?_⟩
    · change ys.countP (mrapi_lock_t.mine c) = _
      omega
    · intro c' hne
      exact own_release_other (Ne.symm hne) hchanged

/-- **One critical section** of one client. -/
theorem clientStep_effect (hpos : 0 < limit) (hcounted : Counted sem)
    (hlimit : sem.shared_lock_limit = limit) (hvalid : sem.valid = true)
    (hcall : CallInv limit cl) (hown : sem.own c = cl.records limit) {o : Outcome}
    (hstep : clientStep c sem cl.pc = some o) : Effect limit c sem o.sem (cl.goto o.pc) := by
  unfold CallInv at hcall
  cases hpc : cl.pc with
  | done ret =>
    rw [hpc] at hstep
    cases hstep
  | acquire who m timeout time status =>
    rw [hpc] at hstep hcall
    cases who with
    | rwl mode =>
      obtain rfl := Option.some.inj hstep
      obtain rfl : m = weight limit mode := hcall
      exact acquireStep_effect hpos hcounted hlimit hvalid hown hpc
    | _ => exact hcall.elim
  | release who m =>
    rw [hpc] at hstep hcall
    cases who with
    | rwl mode =>
      obtain rfl := Option.some.inj hstep
      obtain ⟨rfl, hholds⟩ := hcall
      exact releaseStep_effect hpos hcounted hlimit hvalid hown hpc hholds
    | _ => exact hcall.elim
  | limitLock timeout =>
    rw [hpc] at hstep
    obtain rfl := Option.some.inj hstep
    have hgoto : cl.goto (semLock (.rwl MRAPI_RWL_WRITER) sem.shared_lock_limit timeout) =
        { cl with pc := semLock (.rwl MRAPI_RWL_WRITER) sem.shared_lock_limit timeout } := by
      unfold Client.goto
      rw [hpc, semLock]
    rw [hgoto]
    exact .same hcounted hlimit hvalid hown hlimit
  | limitUnlock =>
    rw [hpc] at hstep hcall
    obtain rfl := Option.some.inj hstep
    have hgoto : cl.goto (.release (.rwl MRAPI_RWL_WRITER) sem.shared_lock_limit) =
        { cl with pc := .release (.rwl MRAPI_RWL_WRITER) sem.shared_lock_limit } := by
      unfold Client.goto
      rw [hpc]
    rw [hgoto]
    exact .same hcounted hlimit hvalid hown ⟨hlimit, hcall⟩
  | _ =>
    rw [hpc] at hcall
    exact hcall.elim

end

/-- **One step** keeps the invariant. -/
theorem RwlInv.step {limit : ℕ} {s s' : St} {a : Label} (hpos : 0 < limit) (h : RwlInv limit s)
    (hstep : step s a = some s') : RwlInv limit s' := by
  unfold RwLock.step at hstep
  obtain ⟨⟨sem', cl'⟩, hmove, rfl⟩ := Option.map_eq_some_iff.mp hstep
  have heffect : Effect limit a.node s.sem sem' cl' := by
    have hown := h.own a.node
    cases a with
    | lock c mode timeout =>
      simp only [move] at hmove
      split at hmove
      · cases hmove
        refine .same h.counted h.limit_eq h.valid hown ?_
        cases mode with
        | MRAPI_RWL_READER => exact rfl
        | MRAPI_RWL_WRITER => exact trivial
      · cases hmove
    | unlock c mode =>
      simp only [move] at hmove
      split at hmove
      · split at hmove
        · rename_i hholds
          cases hmove
          refine .same h.counted h.limit_eq h.valid hown ?_
          cases mode with
          | MRAPI_RWL_READER => exact ⟨rfl, hholds⟩
          | MRAPI_RWL_WRITER => exact hholds
        · cases hmove
      · cases hmove
    | step c =>
      obtain ⟨o, ho, heq⟩ := Option.map_eq_some_iff.mp hmove
      cases heq
      exact clientStep_effect hpos h.counted h.limit_eq h.valid (h.call c) hown ho
  refine ⟨heffect.counted, heffect.limit_eq, heffect.valid, ?_, ?_⟩
  · intro c
    change CallInv limit (Function.update s.client a.node cl' c)
    by_cases hc : c = a.node
    · rw [hc, Function.update_self]
      exact heffect.call
    · rw [Function.update_of_ne hc]
      exact h.call c
  · intro c
    change sem'.own c = (Function.update s.client a.node cl' c).records limit
    by_cases hc : c = a.node
    · rw [hc, Function.update_self]
      exact heffect.own
    · rw [Function.update_of_ne hc, heffect.others c hc]
      exact h.own c

theorem RwlInv.init {limit : ℕ} (hmax : limit ≤ MRAPI_MAX_SHARED_LOCKS) (creator : Node)
    (handle key : ℕ) (attributes : mrapi_sem_attributes_t) :
    RwlInv limit (init creator handle key limit attributes) where
  counted := .create hmax creator handle key 0 MRAPI_RWL attributes
  limit_eq := createSem_limit hmax creator handle key 0 MRAPI_RWL attributes
  valid := rfl
  call := fun _ => trivial
  own := fun c => own_create creator c handle key 0 limit MRAPI_RWL attributes

/-! ## Exclusion -/

/-- A writer's records are all there are. -/
theorem RwlInv.rwlOk {limit : ℕ} {s : St} (hpos : 0 < limit) (h : RwlInv limit s) :
    RwlOk limit s := by
  have htaken : s.sem.taken ≤ limit := by
    have hle := h.counted.taken_le
    have hcast := h.counted.limit_cast
    have hlimit := h.limit_eq
    omega
  refine ⟨?_, ?_⟩
  · intro c c' hne hwriter
    have hall : limit ≤ s.sem.own c := by
      rw [h.own c]
      exact weight_le_records limit (s.client c) MRAPI_RWL_WRITER hwriter
    have hsum := own_add_own_le (Ne.symm hne) s.sem
    have hnone : (s.client c').records limit = 0 := by
      rw [← h.own c']
      omega
    have hboth := Nat.add_eq_zero_iff.mp hnone
    exact ⟨hboth.1, (Nat.mul_eq_zero.mp hboth.2).resolve_left hpos.ne'⟩
  · intro S
    calc ∑ c ∈ S, (s.client c).readers ≤ ∑ c ∈ S, s.sem.own c := by
          refine Finset.sum_le_sum ?_
          intro c _
          rw [h.own c]
          exact Nat.le_add_right _ _
      _ ≤ s.sem.taken := sum_own_le S s.sem
      _ ≤ limit := htaken

/-- Two writers on a lock whose reader limit is 0. -/
theorem exists_two_writers :
    ∃ s : St, Run step (fun _ _ _ => True) (init node0 0 7 0 ⟨false, false⟩) s ∧
      (s.client node0).writers = 1 ∧ (s.client node1).writers = 1 := by
  have hexec : (exec step (fun _ _ _ => true) (init node0 0 7 0 ⟨false, false⟩)
      [.lock node0 MRAPI_RWL_WRITER 1, .step node0, .step node0,
        .lock node1 MRAPI_RWL_WRITER 1, .step node1, .step node1]).any
      (fun s => (s.client node0).writers == 1 && (s.client node1).writers == 1) = true := by
    decide +kernel
  obtain ⟨s, hrun, hs⟩ := exec_run_of_any hexec
  simp only [Bool.and_eq_true, beq_iff_eq] at hs
  exact ⟨s, hrun.mono fun _ _ _ _ => trivial, hs⟩

theorem not_excludes_of_two_writers {limit : ℕ} {s : St} (h : RwlOk limit s)
    (h0 : (s.client node0).writers = 1) (h1 : (s.client node1).writers = 1) : False := by
  have hexclusive := (h.exclusive node0 node1 (by decide) (by rw [h0]; decide)).2
  rw [h1] at hexclusive
  cases hexclusive

/-- **Reader-writer locks exclude if and only if they have a lock to take**, for limits
within the array. -/
theorem rwl_excludes_iff {reader_lock_limit : ℕ}
    (hmax : reader_lock_limit ≤ MRAPI_MAX_SHARED_LOCKS) :
    RwlExcludes reader_lock_limit ↔ reader_lock_limit ≠ 0 := by
  constructor
  · rintro hexcludes rfl
    obtain ⟨s, hrun, h0, h1⟩ := exists_two_writers
    exact not_excludes_of_two_writers (hexcludes _ _ _ _ s hrun) h0 h1
  · intro hne creator handle key attributes s hrun
    have hpos : 0 < reader_lock_limit := Nat.pos_of_ne_zero hne
    have hinv : RwlInv reader_lock_limit s :=
      Run.invariant (fun _ _ _ hI hstep _ => hI.step hpos hstep) hrun
        (.init hmax creator handle key attributes)
    exact hinv.rwlOk hpos

/-- A lock for five readers. -/
theorem rwl_excludes_five : 5 ≤ MRAPI_MAX_SHARED_LOCKS ∧ RwlExcludes 5 :=
  ⟨by decide, (rwl_excludes_iff (by decide)).mpr (by decide)⟩

/-- **Two writers at once**, on a lock that was created with the reader limit 0. -/
theorem two_writers : ¬ RwlExcludes 0 := by
  intro hexcludes
  obtain ⟨s, hrun, h0, h1⟩ := exists_two_writers
  exact not_excludes_of_two_writers (hexcludes _ _ _ _ s hrun) h0 h1

end MxApi.RwLock
