/-
`SemRef::trylock`, `lock` and `unlock` (`sysvr4/src/lib.rs`, `sysvr4/src/unix.rs`) on one member
of a semaphore set.

A reference locks its member in one of two ways: by the system semaphore, which counts and knows
no owner, or, with the spin lock, by a word of shared memory that holds the identity of the thread
that has it, cut to 32 bits. Each access is one system call or one compare and exchange, hence one
step. The set exists, has the member, and is as `sem_create` leaves it.

Without the spin lock every unlock makes room for one more holder, whoever calls it, so that there
are no more holders than one and the unlocks of threads that did not hold the member; a thread that
does not get it is told `EAGAIN`. With the spin lock there is one holder at most and an unlock by
another thread changes nothing, provided that the threads have different identities
([`sem_ref_ok`]).
-/
import MxApi.Lib.Run
import MxApi.Lib.Tally

set_option autoImplicit false

namespace MxApi.SemRef

open Lib

/-! ## The member -/

inductive Errno
  | EAGAIN
  | EINTR
  | ERANGE
  deriving DecidableEq, Repr

open Errno

def SEMVMX : ℕ := 32767

/-- `semop` with one operation that does not wait, on a semaphore with value `val`. -/
def semop (val : ℕ) (sem_op : ℤ) (interrupted : Bool) : Except Errno ℕ :=
  if interrupted then .error EINTR
  else if (val : ℤ) + sem_op < 0 then .error EAGAIN
  else if (SEMVMX : ℤ) < val + sem_op then .error ERANGE
  else .ok ((val : ℤ) + sem_op).toNat

/-- `val` is the value of the system semaphore, `spin` the word of the spin lock. -/
structure Member where
  val : ℕ
  spin : ℕ
  deriving DecidableEq, Repr

/-- The identity of a thread as the spin lock has it: `thread_id::get() as u32`. -/
def lockOf (id : ℕ) : ℕ := id % 2 ^ 32

/-! ## The calls -/

section Calls

variable (spinlock_guard : Bool) (id : ℕ) (m : Member) (interrupted : Bool)

/-- One turn of the loop of `sem_trylock`; `none` is another turn. -/
def sem_trylock : Member × Option (Except Errno Bool) :=
  match semop m.val (-1) interrupted with
  | .ok val => ({ m with val := val }, some (.ok true))
  | .error e => if e ≠ EINTR then (m, some (.error e)) else (m, none)

def trylock : Member × Option (Except Errno Bool) :=
  if !spinlock_guard then sem_trylock m interrupted
  else if m.spin = 0 then ({ m with spin := lockOf id }, some (.ok true))
  else (m, some (.ok false))

/-- One turn of the loop of `lock`. -/
def lock : Member × Option (Option Bool) :=
  match trylock spinlock_guard id m interrupted with
  | (m', none) => (m', none)
  | (m', some (.ok v)) =>
    if !spinlock_guard then (m', some (some v))
    else if v then (m', some (some true))
    else (m', none)
  | (m', some (.error e)) =>
    if !spinlock_guard && e != EAGAIN then (m', some none)
    else (m', none)

def unlock : Member × Option Bool :=
  if !spinlock_guard then
    match semop m.val 1 interrupted with
    | .ok val => ({ m with val := val }, some true)
    | .error _ => (m, none)
  else if m.spin = lockOf id then ({ m with spin := 0 }, some true)
  else (m, some false)

end Calls

/-! ## Threads -/

inductive Op
  | trylock
  | lock
  | unlock
  deriving DecidableEq, Repr

inductive Returned
  | trylock (r : Except Errno Bool)
  | lock (r : Option Bool)
  | unlock (r : Option Bool)
  deriving DecidableEq

/-- The call that a thread is in, whether it holds the member, and what its last call returned.
It holds the member from a lock or trylock that reports success to its own next unlock. -/
structure Client where
  op : Option Op
  holds : Bool
  returned : Option Returned
  deriving DecidableEq

/-- One step of a thread in a call. -/
def clientStep (spinlock_guard : Bool) (id : ℕ) (m : Member) (c : Client) (interrupted : Bool) :
    Option (Member × Client) :=
  match c.op with
  | none => none
  | some .trylock =>
    match trylock spinlock_guard id m interrupted with
    | (m', none) => some (m', c)
    | (m', some r) =>
      some (m', ⟨none, c.holds || decide (r = .ok true), some (.trylock r)⟩)
  | some .lock =>
    match lock spinlock_guard id m interrupted with
    | (m', none) => some (m', c)
    | (m', some r) => some (m', ⟨none, c.holds || decide (r = some true), some (.lock r)⟩)
  | some .unlock =>
    let r := unlock spinlock_guard id m interrupted
    some (r.1, ⟨none, false, some (.unlock r.2)⟩)

variable {τ : Type}

/-- `strays` counts the unlocks by threads that did not hold the member. -/
structure St (τ : Type) where
  member : Member
  client : τ → Client
  strays : ℕ

inductive Label (τ : Type)
  | call (t : τ) (op : Op)
  | step (t : τ) (interrupted : Bool)
  deriving DecidableEq, Repr

/-- The step is an unlock by a thread that does not hold the member. -/
def Client.strays (c : Client) : ℕ := if c.op = some .unlock ∧ c.holds = false then 1 else 0

/-- `id` says which identity each thread has. -/
def step [DecidableEq τ] (spinlock_guard : Bool) (id : τ → ℕ) (s : St τ) : Label τ → Option (St τ)
  | .call t op =>
    if (s.client t).op = none then
      some { s with client := Function.update s.client t { s.client t with op := some op } }
    else none
  | .step t interrupted =>
    (clientStep spinlock_guard (id t) s.member (s.client t) interrupted).map fun r =>
      { member := r.1
        client := Function.update s.client t r.2
        strays := s.strays + (s.client t).strays }

/-- The member as `sem_create` and `shmem_create` leave it. -/
def init : St τ := ⟨⟨1, 0⟩, fun _ => ⟨none, false, none⟩, 0⟩

/-! ## The contract -/

/-- No more holders than one and the unlocks that made room for more; with the spin lock one. -/
structure HoldersOk (spinlock_guard : Bool) (s : St τ) : Prop where
  counted : ∃ k, Tally (fun t => (s.client t).holds = true) k ∧ k ≤ 1 + s.strays
  exclusive : spinlock_guard = true ∨ s.strays = 0 →
    ∀ t t', (s.client t).holds = true → (s.client t').holds = true → t = t'

/-- What a thread is told that tries to lock a member that is held. -/
def refusal (spinlock_guard : Bool) : Except Errno Bool :=
  if spinlock_guard then .ok false else .error EAGAIN

/-- With the spin lock an unlock by a thread that does not hold the member changes nothing; and a
trylock of a member that is held is refused. -/
structure StepOk (spinlock_guard : Bool) (s : St τ) (t : τ) (s' : St τ) : Prop where
  unlock : spinlock_guard = true → (s.client t).op = some .unlock → (s.client t).holds = false →
    s'.member = s.member ∧ ∀ t', (s'.client t').holds = (s.client t').holds
  trylock : spinlock_guard = true ∨ s.strays = 0 → (s.client t).op = some .trylock →
    (∃ o, (s.client o).holds = true) → s'.member = s.member ∧
      ∀ r, (s'.client t).returned = some (.trylock r) → (s'.client t).op = none →
        r = refusal spinlock_guard

/-- Different threads have different identities, none of which is that of a free spin lock. -/
structure DistinctIds (id : τ → ℕ) : Prop where
  nonzero : ∀ t, lockOf (id t) ≠ 0
  injective : ∀ t t', lockOf (id t) = lockOf (id t') → t = t'

/-! ## The system semaphore -/

variable {s s' : St τ}

/-- The value of the semaphore and its holders are no more than one and the stray unlocks. -/
def Counted (s : St τ) : Prop :=
  ∃ k, Tally (fun t => (s.client t).holds = true) k ∧ s.member.val + k ≤ 1 + s.strays

theorem Counted.init : Counted (init : St τ) := by
  refine ⟨0, .none ?_, ?_⟩
  · intro t h
    cases h
  · exact le_refl 1

/-- One step of one thread without the spin lock: what it adds to the value it takes from the
holders, or it is a stray unlock. -/
inductive Effect (m : Member) (c : Client) (m' : Member) (c' : Client) : Prop
  | same (hval : m'.val = m.val) (hholds : c'.holds = c.holds)
  | acquire (hval : m.val = m'.val + 1) (hholds : c'.holds = true)
  | release (hval : m'.val ≤ m.val + 1) (hold : c.holds = true) (hholds : c'.holds = false)
  | stray (hval : m'.val ≤ m.val + 1) (hold : c.holds = false) (hholds : c'.holds = false)
      (hstray : c.strays = 1)

/-- A semaphore is taken from one up. -/
theorem semop_take {val v : ℕ} {interrupted : Bool} (h : semop val (-1) interrupted = .ok v) :
    val = v + 1 := by
  unfold semop at h
  split at h
  · cases h
  · split at h
    · cases h
    · split at h
      · cases h
      · cases h
        omega

/-- A semaphore that is given back is one more. -/
theorem semop_give {val v : ℕ} {interrupted : Bool} (h : semop val 1 interrupted = .ok v) :
    v = val + 1 := by
  unfold semop at h
  split at h
  · cases h
  · split at h
    · cases h
    · split at h
      · cases h
      · cases h
        omega

/-- At zero a semaphore cannot be taken. -/
theorem semop_zero (interrupted : Bool) :
    semop 0 (-1) interrupted = .error (if interrupted then EINTR else EAGAIN) := by
  cases interrupted <;> rfl

/-- One turn of the loop takes the semaphore and succeeds, or it leaves it alone. -/
theorem sem_trylock_cases (m : Member) (interrupted : Bool) :
    (∃ v, m.val = v + 1 ∧ sem_trylock m interrupted = ({ m with val := v }, some (.ok true))) ∨
      ((sem_trylock m interrupted).1 = m ∧
        ∀ b, (sem_trylock m interrupted).2 ≠ some (.ok b)) := by
  unfold sem_trylock
  cases hop : semop m.val (-1) interrupted with
  | ok v => exact .inl ⟨v, semop_take hop, rfl⟩
  | error e =>
    right
    dsimp only
    split
    · exact ⟨rfl, fun b h => by cases h⟩
    · exact ⟨rfl, fun b h => by cases h⟩

/-- **One step of a thread without the spin lock.** -/
theorem clientStep_effect {k : ℕ} {m m' : Member} {c c' : Client} {interrupted : Bool}
    (hstep : clientStep false k m c interrupted = some (m', c')) : Effect m c m' c' := by
  unfold clientStep at hstep
  cases hop : c.op with
  | none =>
    rw [hop] at hstep
    cases hstep
  | some op =>
    rw [hop] at hstep
    cases op with
    | trylock =>
      have heq : trylock false k m interrupted = sem_trylock m interrupted := rfl
      dsimp only at hstep
      rw [heq] at hstep
      rcases sem_trylock_cases m interrupted with ⟨v, hval, htaken⟩ | ⟨hsame, hnot⟩
      · rw [htaken] at hstep
        cases hstep
        exact .acquire hval (by simp)
      · -- what is returned is no success
        rcases hr : sem_trylock m interrupted with ⟨m₁, r⟩
        rw [hr] at hsame hnot hstep
        dsimp only at hsame hnot
        cases r with
        | none =>
          cases hstep
          exact .same (by rw [hsame]) rfl
        | some r =>
          cases hstep
          refine .same (by rw [hsame]) ?_
          have hr : r ≠ .ok true := fun h => hnot true (congrArg some h)
          simp [hr]
    | lock =>
      have heq : trylock false k m interrupted = sem_trylock m interrupted := rfl
      unfold lock at hstep
      dsimp only at hstep
      rw [heq] at hstep
      rcases sem_trylock_cases m interrupted with ⟨v, hval, htaken⟩ | ⟨hsame, hnot⟩
      · rw [htaken] at hstep
        cases hstep
        exact .acquire hval (by simp)
      · rcases hr : sem_trylock m interrupted with ⟨m₁, r⟩
        rw [hr] at hsame hnot hstep
        dsimp only at hsame hnot
        cases r with
        | none =>
          cases hstep
          exact .same (by rw [hsame]) rfl
        | some r =>
          cases r with
          | ok b => exact absurd rfl (hnot b)
          | error e =>
            dsimp only at hstep
            split at hstep
            · rename_i hm
              split at hm
              · cases hm
              · cases hm
                cases hstep
                exact .same (by rw [hsame]) rfl
            · rename_i hm
              split at hm
              · cases hm
                cases hstep
                exact .same (by rw [hsame]) (by simp)
              · cases hm
    | unlock =>
      dsimp only at hstep
      obtain ⟨rfl, rfl⟩ := Prod.mk.inj (Option.some.inj hstep)
      -- the value grows by one at most
      have hle : (unlock false k m interrupted).1.val ≤ m.val + 1 := by
        unfold unlock
        cases hgive : semop m.val 1 interrupted with
        | ok v => exact le_of_eq (semop_give hgive)
        | error e => exact Nat.le_succ _
      cases hholds : c.holds with
      | true => exact .release hle hholds rfl
      | false => exact .stray hle hholds rfl (if_pos ⟨hop, hholds⟩)

variable [DecidableEq τ] {id : τ → ℕ}

/-- One thread's holding after a step. -/
theorem holds_update (t : τ) (c' : Client) (t' : τ) :
    (Function.update s.client t c' t').holds = if t' = t then c'.holds else (s.client t').holds := by
  rw [Function.update_apply]
  split
  · rfl
  · rfl

/-- A thread that neither takes nor gives back leaves the holders as they are. -/
theorem tally_same {k : ℕ} {t : τ} {c' : Client} (hholds : c'.holds = (s.client t).holds)
    (h : Tally (fun t => (s.client t).holds = true) k) :
    Tally (fun t' => (Function.update s.client t c' t').holds = true) k := by
  apply h.congr
  intro t'
  rw [holds_update]
  split
  · rename_i ht
    rw [hholds, ht]
  · rfl

theorem Counted.step (h : Counted s) {a : Label τ} (hstep : step false id s a = some s') :
    Counted s' := by
  obtain ⟨k, htally, hle⟩ := h
  cases a with
  | call t op =>
    dsimp only [SemRef.step] at hstep
    split at hstep
    · cases hstep
      exact ⟨k, tally_same rfl htally, hle⟩
    · cases hstep
  | step t interrupted =>
    obtain ⟨⟨m', c'⟩, hclient, rfl⟩ := Option.map_eq_some_iff.mp hstep
    have hself : (Function.update s.client t c' t).holds = c'.holds := by
      rw [Function.update_self]
    have hothers : ∀ o, o ≠ t →
        ((Function.update s.client t c' o).holds = true ↔ (s.client o).holds = true) := by
      intro o ho
      rw [Function.update_of_ne ho]
    cases clientStep_effect hclient with
    | same hval hholds =>
      refine ⟨k, tally_same hholds htally, ?_⟩
      dsimp only
      omega
    | acquire hval hholds =>
      cases hold : (s.client t).holds with
      | true =>
        refine ⟨k, tally_same (hholds.trans hold.symm) htally, ?_⟩
        dsimp only
        omega
      | false =>
        refine ⟨k + 1, ?_, ?_⟩
        · apply htally.enter _ (hself.trans hholds) hothers
          rw [hold]
          exact Bool.false_ne_true
        · dsimp only
          omega
    | release hval hold hholds =>
      obtain ⟨j, hj, hless⟩ : ∃ j, k = j + 1 ∧
          Tally (fun o => (Function.update s.client t c' o).holds = true) j := by
        apply htally.leave hold _ hothers
        rw [hself, hholds]
        exact Bool.false_ne_true
      refine ⟨j, hless, ?_⟩
      dsimp only
      omega
    | stray hval hold hholds hstray =>
      refine ⟨k, tally_same (hholds.trans hold.symm) htally, ?_⟩
      dsimp only
      omega

/-! ## The spin lock -/

/-- The word of the spin lock is that of its holder. -/
def Owned (id : τ → ℕ) (s : St τ) : Prop :=
  ∀ t, (s.client t).holds = true ↔ s.member.spin = lockOf (id t)

omit [DecidableEq τ] in
theorem Owned.init (hid : DistinctIds id) : Owned id (init : St τ) := by
  intro t
  constructor
  · intro h
    cases h
  · intro h
    exact absurd h.symm (hid.nonzero t)

/-- One step of one thread with the spin lock: it leaves the word and what it holds, takes a free
word, or gives its own back. -/
inductive SpinEffect (lock : ℕ) (m : Member) (c : Client) (m' : Member) (c' : Client) : Prop
  | same (hspin : m'.spin = m.spin) (hholds : c'.holds = c.holds)
  | take (hfree : m.spin = 0) (hspin : m'.spin = lock) (hholds : c'.holds = true)
  | give (hown : m.spin = lock) (hspin : m'.spin = 0) (hholds : c'.holds = false)

/-- **One step of a thread with the spin lock**, which holds it if the word is its own. -/
theorem clientStep_spin {k : ℕ} {m m' : Member} {c c' : Client} {interrupted : Bool}
    (hown : c.holds = true → m.spin = lockOf k)
    (hstep : clientStep true k m c interrupted = some (m', c')) :
    SpinEffect (lockOf k) m c m' c' := by
  unfold clientStep at hstep
  cases hop : c.op with
  | none =>
    rw [hop] at hstep
    cases hstep
  | some op =>
    rw [hop] at hstep
    by_cases hfree : m.spin = 0
    · have htry : trylock true k m interrupted =
          ({ m with spin := lockOf k }, some (.ok true)) := by
        unfold trylock
        rw [if_neg (by decide), if_pos hfree]
      cases op with
      | trylock =>
        dsimp only at hstep
        rw [htry] at hstep
        cases hstep
        exact .take hfree rfl (by simp)
      | lock =>
        unfold lock at hstep
        dsimp only at hstep
        rw [htry] at hstep
        cases hstep
        exact .take hfree rfl (by simp)
      | unlock =>
        dsimp only at hstep
        obtain ⟨rfl, rfl⟩ := Prod.mk.inj (Option.some.inj hstep)
        unfold unlock
        rw [if_neg (by decide)]
        by_cases hlock : m.spin = lockOf k
        · rw [if_pos hlock]
          exact .give hlock rfl rfl
        · rw [if_neg hlock]
          refine .same rfl ?_
          cases hholds : c.holds with
          | false => rfl
          | true => exact absurd (hown hholds) hlock
    · have htry : trylock true k m interrupted = (m, some (.ok false)) := by
        unfold trylock
        rw [if_neg (by decide), if_neg hfree]
      cases op with
      | trylock =>
        dsimp only at hstep
        rw [htry] at hstep
        cases hstep
        exact .same rfl (by simp)
      | lock =>
        unfold lock at hstep
        dsimp only at hstep
        rw [htry] at hstep
        cases hstep
        exact .same rfl rfl
      | unlock =>
        dsimp only at hstep
        obtain ⟨rfl, rfl⟩ := Prod.mk.inj (Option.some.inj hstep)
        unfold unlock
        rw [if_neg (by decide)]
        by_cases hlock : m.spin = lockOf k
        · rw [if_pos hlock]
          exact .give hlock rfl rfl
        · rw [if_neg hlock]
          refine .same rfl ?_
          cases hholds : c.holds with
          | false => rfl
          | true => exact absurd (hown hholds) hlock

theorem Owned.step (h : Owned id s) (hid : DistinctIds id) {a : Label τ}
    (hstep : step true id s a = some s') : Owned id s' := by
  cases a with
  | call t op =>
    dsimp only [SemRef.step] at hstep
    split at hstep
    · cases hstep
      intro t'
      dsimp only
      rw [holds_update]
      split
      · rename_i ht
        rw [ht]
        exact h t
      · exact h t'
    · cases hstep
  | step t interrupted =>
    obtain ⟨⟨m', c'⟩, hclient, rfl⟩ := Option.map_eq_some_iff.mp hstep
    intro t'
    dsimp only
    rw [holds_update]
    cases clientStep_spin (h t).mp hclient with
    | same hspin hholds =>
      rw [hspin]
      split
      · rename_i ht
        rw [hholds, ht]
        exact h t
      · exact h t'
    | take hfree hspin hholds =>
      rw [hspin]
      split
      · rename_i ht
        rw [hholds, ht]
        exact ⟨fun _ => rfl, fun _ => rfl⟩
      · rename_i ht
        -- nobody held a free word
        rw [h t', hfree]
        exact ⟨fun h0 => absurd h0.symm (hid.nonzero t'),
          fun hsame => absurd (hid.injective t' t hsame.symm) ht⟩
    | give hown hspin hholds =>
      rw [hspin]
      split
      · rw [hholds]
        exact ⟨(fun hf => nomatch hf), fun h0 => absurd h0.symm (hid.nonzero t')⟩
      · rename_i ht
        rw [h t', hown]
        exact ⟨fun hsame => absurd (hid.injective t' t hsame.symm) ht,
          fun h0 => absurd h0.symm (hid.nonzero t')⟩

/-! ## Mutual exclusion -/

omit [DecidableEq τ] in
theorem Counted.holdersOk (h : Counted s) : HoldersOk false s := by
  obtain ⟨k, htally, hle⟩ := h
  refine ⟨⟨k, htally, by omega⟩, ?_⟩
  rintro hor t t' ht ht'
  have hstrays : s.strays = 0 := hor.resolve_left Bool.false_ne_true
  by_contra hne
  -- two holders are more than one
  obtain ⟨j, hj, hless⟩ : ∃ j, k = j + 1 ∧
      Tally (fun o => o ≠ t ∧ (s.client o).holds = true) j :=
    htally.leave ht (fun h => h.1 rfl) fun o ho => ⟨And.right, fun h => ⟨ho, h⟩⟩
  have hpos := hless.ne_zero ⟨fun heq => hne heq.symm, ht'⟩
  omega

omit [DecidableEq τ] in
theorem Owned.holdersOk (h : Owned id s) (hid : DistinctIds id) : HoldersOk true s := by
  have hexclusive : ∀ t t', (s.client t).holds = true → (s.client t').holds = true → t = t' := by
    intro t t' ht ht'
    exact hid.injective t t' (((h t).mp ht).symm.trans ((h t').mp ht'))
  refine ⟨?_, fun _ => hexclusive⟩
  by_cases hsome : ∃ t, (s.client t).holds = true
  · obtain ⟨t, ht⟩ := hsome
    refine ⟨1, ?_, Nat.le_add_right 1 _⟩
    apply (Tally.none (p := fun _ : τ => False) fun _ h => h).enter (fun h => h) ht
    intro o ho
    exact ⟨fun ho' => ho (hexclusive o t ho' ht), False.elim⟩
  · exact ⟨0, .none fun t ht => hsome ⟨t, ht⟩, Nat.zero_le _⟩

/-- A trylock of a member that cannot be taken is refused, or goes on. -/
theorem trylock_refused {spinlock_guard : Bool} {k : ℕ} {m m' : Member} {c c' : Client}
    {interrupted : Bool} (hop : c.op = some .trylock)
    (hheld : if spinlock_guard then m.spin ≠ 0 else m.val = 0)
    (hstep : clientStep spinlock_guard k m c interrupted = some (m', c')) :
    m' = m ∧ ∀ r, c'.returned = some (.trylock r) → c'.op = none → r = refusal spinlock_guard := by
  unfold clientStep at hstep
  rw [hop] at hstep
  dsimp only at hstep
  cases spinlock_guard with
  | true =>
    rw [if_pos rfl] at hheld
    have htry : trylock true k m interrupted = (m, some (.ok false)) := by
      unfold trylock
      rw [if_neg (by decide), if_neg hheld]
    rw [htry] at hstep
    cases hstep
    refine ⟨rfl, fun r hr _ => ?_⟩
    cases hr
    rfl
  | false =>
    rw [if_neg Bool.false_ne_true] at hheld
    unfold trylock sem_trylock at hstep
    rw [hheld, semop_zero] at hstep
    cases interrupted with
    | true =>
      cases hstep
      refine ⟨rfl, fun r _ hnone => ?_⟩
      rw [hop] at hnone
      cases hnone
    | false =>
      cases hstep
      refine ⟨rfl, fun r hr _ => ?_⟩
      cases hr
      rfl

/-- **One step of one thread** where the holders are right. -/
theorem step_stepOk {spinlock_guard : Bool} (hcounted : spinlock_guard = false → Counted s)
    (howned : spinlock_guard = true → DistinctIds id ∧ Owned id s) {t : τ} {interrupted : Bool}
    (hstep : step spinlock_guard id s (.step t interrupted) = some s') :
    StepOk spinlock_guard s t s' := by
  obtain ⟨⟨m', c'⟩, hclient, rfl⟩ := Option.map_eq_some_iff.mp hstep
  constructor
  · rintro rfl hop hnot
    obtain ⟨-, h⟩ := howned rfl
    have hother : s.member.spin ≠ lockOf (id t) := by
      intro hown
      rw [(h t).mpr hown] at hnot
      cases hnot
    unfold clientStep at hclient
    rw [hop] at hclient
    unfold unlock at hclient
    dsimp only at hclient
    rw [if_neg (by decide), if_neg hother] at hclient
    cases hclient
    refine ⟨rfl, fun t' => ?_⟩
    dsimp only
    rw [holds_update]
    split
    · rename_i ht
      rw [ht, hnot]
    · rfl
  · rintro hor hop ⟨o, ho⟩
    have hheld : if spinlock_guard then s.member.spin ≠ 0 else s.member.val = 0 := by
      cases spinlock_guard with
      | true =>
        obtain ⟨hid, h⟩ := howned rfl
        rw [if_pos rfl, (h o).mp ho]
        exact hid.nonzero o
      | false =>
        obtain ⟨k, htally, hle⟩ := hcounted rfl
        have hstrays : s.strays = 0 := hor.resolve_left Bool.false_ne_true
        have hpos := htally.ne_zero ho
        rw [if_neg Bool.false_ne_true]
        omega
    obtain ⟨hm, hret⟩ := trylock_refused hop hheld hclient
    refine ⟨hm, ?_⟩
    dsimp only
    rw [Function.update_self]
    exact hret

/-- **A reference excludes**, in every run: with the spin lock, if the threads have different
identities, and without it as far as nobody unlocks what it does not hold. -/
theorem sem_ref_ok {spinlock_guard : Bool}
    (h : Run (step spinlock_guard id) (fun _ _ _ => True) init s)
    (hid : spinlock_guard = true → DistinctIds id) :
    HoldersOk spinlock_guard s ∧ ∀ t interrupted s',
      step spinlock_guard id s (.step t interrupted) = some s' → StepOk spinlock_guard s t s' := by
  cases spinlock_guard with
  | true =>
    have howned : Owned id s :=
      h.invariant (fun _ _ _ hI hstep _ => hI.step (hid rfl) hstep) (.init (hid rfl))
    exact ⟨howned.holdersOk (hid rfl), fun t interrupted s' hstep =>
      step_stepOk (fun hf => absurd hf.symm Bool.false_ne_true) (fun _ => ⟨hid rfl, howned⟩) hstep⟩
  | false =>
    have hcounted : Counted s :=
      h.invariant (fun _ _ _ hI hstep _ => hI.step hstep) .init
    exact ⟨hcounted.holdersOk, fun t interrupted s' hstep =>
      step_stepOk (fun _ => hcounted) (fun hf => absurd hf Bool.false_ne_true) hstep⟩

/-- Two threads with the spin lock: one takes it, the other is refused and its unlock does
nothing. -/
theorem sem_ref_ok_two :
    ∃ s : St Bool, Run (step true fun t => if t then 7 else 8) (fun _ _ _ => True) init s ∧
      (s.client true).holds = true ∧ (s.client false).returned = some (.unlock (some false)) ∧
      HoldersOk true s ∧ ∀ t interrupted s',
        step true (fun t => if t then 7 else 8) s (.step t interrupted) = some s' →
          StepOk true s t s' := by
  have hexec : (exec (step true fun t => if t then 7 else 8) (fun _ _ _ => true) init
      [.call true .lock, .step true false, .call false .trylock, .step false false,
        .call false .unlock, .step false false]).any
      (fun s : St Bool => (s.client true).holds &&
        decide ((s.client false).returned = some (.unlock (some false)))) = true := by
    decide
  obtain ⟨s, hrun, hs⟩ := exec_run_of_any hexec
  rw [Bool.and_eq_true, decide_eq_true_eq] at hs
  have hrun' : Run (step true fun t => if t then 7 else 8) (fun _ _ _ => True) init s :=
    hrun.mono fun _ _ _ _ => trivial
  refine ⟨s, hrun', hs.1, hs.2, sem_ref_ok hrun' fun _ => ⟨by decide, by decide⟩⟩

/-- **Three ways to miss it.** Without the spin lock a trylock of a member that is held returns
`EAGAIN`, and an unlock by a thread that does not hold it lets two threads hold it; with the spin
lock so does an unlock by a thread whose identity has the same 32 bits. -/
theorem sem_ref_shared :
    (∃ s : St Bool, Run (step false fun t => if t then 7 else 8) (fun _ _ _ => True) init s ∧
      (s.client false).holds = true ∧
      (s.client true).returned = some (.trylock (.error EAGAIN))) ∧
    (∃ s : St Bool, Run (step false fun t => if t then 7 else 8) (fun _ _ _ => True) init s ∧
      (s.client false).holds = true ∧ (s.client true).holds = true) ∧
    ∃ s : St Bool, Run (step true fun t => if t then 7 else 2 ^ 32 + 7) (fun _ _ _ => True) init s ∧
      (s.client false).holds = true ∧ (s.client true).holds = true := by
  refine ⟨?_, ?_, ?_⟩
  · have hexec : (exec (step false fun t => if t then 7 else 8) (fun _ _ _ => true) init
        [.call false .lock, .step false false, .call true .trylock, .step true false]).any
        (fun s : St Bool => (s.client false).holds &&
          decide ((s.client true).returned = some (.trylock (.error EAGAIN)))) = true := by
      decide
    obtain ⟨s, hrun, hs⟩ := exec_run_of_any hexec
    rw [Bool.and_eq_true, decide_eq_true_eq] at hs
    exact ⟨s, hrun.mono fun _ _ _ _ => trivial, hs⟩
  · have hexec : (exec (step false fun t => if t then 7 else 8) (fun _ _ _ => true) init
        [.call false .lock, .step false false, .call true .unlock, .step true false,
          .call true .trylock, .step true false]).any
        (fun s : St Bool => (s.client false).holds && (s.client true).holds) = true := by
      decide
    obtain ⟨s, hrun, hs⟩ := exec_run_of_any hexec
    rw [Bool.and_eq_true] at hs
    exact ⟨s, hrun.mono fun _ _ _ _ => trivial, hs⟩
  · have hexec : (exec (step true fun t => if t then 7 else 2 ^ 32 + 7) (fun _ _ _ => true) init
        [.call false .lock, .step false false, .call true .unlock, .step true false,
          .call true .trylock, .step true false]).any
        (fun s : St Bool => (s.client false).holds && (s.client true).holds) = true := by
      decide
    obtain ⟨s, hrun, hs⟩ := exec_run_of_any hexec
    rw [Bool.and_eq_true] at hs
    exact ⟨s, hrun.mono fun _ _ _ _ => trivial, hs⟩

end MxApi.SemRef
