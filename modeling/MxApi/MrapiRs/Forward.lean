/-
`MrapiDatabase::atomic_forward` (`mrapi/src/internal/db.rs`), called by any number of threads at
once, with targets that take what is in their slots.

For the opening and the closing of a process the call walks over the processes, claims the slot
of each valid one and copies the operation into it. For the duplication of a shared memory it
posts to one process, its source, and what the C function does once is the body of a `loop` that
nothing leaves: the operation is posted again and again, and the test whether the source is valid
is followed by no `continue` ([`posts_unbounded`]). Everything else posts once
([`posts_once_iff`]).

Slots are used by reading and by copying in one step each. A process may become valid at any
time, and a target may mark its slot as free whenever it is in use. The handler behind the
signal is empty in the source, so when that happens is left open.
-/
import Mathlib.Data.List.Nodup
import Mathlib.Data.Finset.Card
import MxApi.Lib.Run
import MxApi.MrapiRs.Database

set_option autoImplicit false

namespace MxApi.MrapiRs.Forward

open Lib

/-! ## Data -/

inductive MrapiAtomic
  | MrapiAtomNoop
  | MrapiAtomOpenproc
  | MrapiAtomCloseproc
  | MrapiAtomShmdup
  deriving DecidableEq, Repr

open MrapiAtomic

/-- `atype as u8`. -/
def MrapiAtomic.asU8 : MrapiAtomic → ℕ
  | MrapiAtomNoop => 0
  | MrapiAtomOpenproc => 1
  | MrapiAtomCloseproc => 2
  | MrapiAtomShmdup => 3

/-- The shared memory index, and the handle source. -/
structure MrapiAtomicOpData where
  index : ℤ
  source : ℕ
  deriving DecidableEq, Repr

inductive MrapiAtomicOperation
  | Open
  | Close
  | Dup (data : MrapiAtomicOpData)
  | Sync
  deriving DecidableEq, Repr

structure MrapiAtomicOp where
  atype : MrapiAtomic
  /-- Source process index. -/
  spindex : ℕ
  valid : Bool
  shmem : ℕ
  /-- Offset from base address. -/
  dest : ℕ
  operation : MrapiAtomicOperation
  deriving DecidableEq, Repr

/-- Leave `valid` unchanged. -/
def MrapiAtomicOp.update (self op : MrapiAtomicOp) : MrapiAtomicOp :=
  { self with
    atype := op.atype, spindex := op.spindex, shmem := op.shmem, dest := op.dest
    operation := op.operation }

/-- What the call looks at of a process. -/
structure Process where
  state : MrapiProcessState
  /-- 1 if can be signaled. -/
  link : ℕ → ℤ
  op : MrapiAtomicOp

/-- The arguments of a call, and `MRAPI_PINDEX` of its thread. -/
structure Args where
  s : ℕ
  op : MrapiAtomicOp
  pindex : Option ℕ

/-- The operation as the call completes it. -/
def Args.prepared (a : Args) : MrapiAtomicOp :=
  { a.op with spindex := a.pindex.getD a.op.spindex, shmem := a.s, valid := true }

/-- The one target of a duplication. -/
def MrapiAtomicOp.source (op : MrapiAtomicOp) : ℕ :=
  match op.operation with
  | .Dup data => data.source
  | _ => 0

/-! ## The call -/

/-- Where a call is. The two branches claim, copy and signal in the same words; what follows
depends on the kind of the operation. -/
inductive Pc
  | start
  /-- At the head of the loop over the processes. -/
  | scan (p : ℕ)
  /-- Before the test whether the source is the process itself. -/
  | dup
  /-- At the head of the `loop`. -/
  | sourceValid (p : ℕ)
  | claim (p : ℕ)
  | update (p : ℕ)
  | signal (p : ℕ)
  | awaitLink (p : ℕ)
  | returned (ok : Bool)
  | panicked
  deriving DecidableEq, Repr

/-- A post, with what held when it was made. -/
structure Post where
  target : ℕ
  /-- The call had claimed the slot of the target since its last post. -/
  claimed : Bool
  /-- The target was valid. -/
  valid : Bool
  deriving DecidableEq, Repr

/-- The slot last claimed and the posts are history. -/
structure Call where
  pc : Pc
  claimed : Option ℕ
  posts : List Post

structure St (τ : Type) where
  processes : ℕ → Process
  call : τ → Call

inductive Label (τ : Type)
  /-- The next step of a call, and what `kill` returns if it gets there. -/
  | call (t : τ) (kill : Bool)
  /-- A target marks its slot as free. -/
  | consume (p : ℕ)
  /-- A process becomes valid. -/
  | join (p : ℕ)
  /-- A target updates a link. -/
  | link (p q : ℕ) (value : ℤ)

section Model

variable {τ : Type} [DecidableEq τ]

def St.setProcess (s : St τ) (p : ℕ) (process : Process) : St τ :=
  { s with processes := Function.update s.processes p process }

def St.setCall (s : St τ) (t : τ) (c : Call) : St τ :=
  { s with call := Function.update s.call t c }

def St.goto (s : St τ) (t : τ) (pc : Pc) : St τ := s.setCall t { s.call t with pc := pc }

/-- Whether the loop that spins on the link goes on; an index out of range panics. -/
def linkPending (op : MrapiAtomicOp) (process : Process) : Option Bool :=
  if op.spindex < MRAPI_MAX_PROCESSES then
    some (op.atype.asU8 - MrapiAtomOpenproc.asU8 = (process.link op.spindex % 2 ^ 8).toNat)
  else none

/-- One step of a call with operation `op`. -/
def atomic_forward (s : St τ) (t : τ) (op : MrapiAtomicOp) (kill : Bool) : Option (St τ) :=
  match (s.call t).pc with
  | .start =>
    match op.atype with
    | MrapiAtomOpenproc | MrapiAtomCloseproc => some (s.goto t (.scan 0))
    | MrapiAtomShmdup => some (s.goto t .dup)
    | MrapiAtomNoop => some (s.goto t (.returned false))
  | .scan p =>
    if p < MRAPI_MAX_PROCESSES then
      let pstate := (s.processes p).state
      if op.spindex ≠ p ∧ pstate.valid then some (s.goto t (.claim p))
      else some (s.goto t (.scan (p + 1)))
    else some (s.goto t (.returned true))
  | .dup =>
    let p := op.source
    -- the state of the process is loaded first
    if p < MRAPI_MAX_PROCESSES then
      if op.spindex ≠ p then some (s.goto t (.sourceValid p))
      else some (s.goto t (.returned true))
    else some (s.goto t .panicked)
  | .sourceValid p =>
    -- a source that is not valid makes the thread yield, and then go on
    some (s.goto t (.claim p))
  | .claim p =>
    -- spin in this process while operation is in use
    if (s.processes p).op.valid then some s
    else
      let slot := { (s.processes p).op with valid := true }
      some ((s.setProcess p { s.processes p with op := slot }).setCall t
        { s.call t with pc := .update p, claimed := some p })
  | .update p =>
    let slot := (s.processes p).op.update op
    let post := ⟨p, (s.call t).claimed = some p, (s.processes p).state.valid⟩
    some ((s.setProcess p { s.processes p with op := slot }).setCall t
      ⟨.signal p, none, (s.call t).posts ++ [post]⟩)
  | .signal p =>
    -- `unwrap` of the result of `kill`
    if kill then
      match op.atype with
      | MrapiAtomShmdup => some (s.goto t (.sourceValid p))
      | _ => some (s.goto t (.awaitLink p))
    else some (s.goto t .panicked)
  | .awaitLink p =>
    match linkPending op (s.processes p) with
    | some true => some s
    | some false => some (s.goto t (.scan (p + 1)))
    | none => some (s.goto t .panicked)
  | .returned _ | .panicked => none

def step (args : τ → Args) (s : St τ) : Label τ → Option (St τ)
  | .call t kill => atomic_forward s t (args t).prepared kill
  | .consume p =>
    some (s.setProcess p { s.processes p with op := { (s.processes p).op with valid := false } })
  | .join p =>
    some (s.setProcess p
      { s.processes p with state := { (s.processes p).state with valid := true } })
  | .link p q value =>
    some (s.setProcess p
      { s.processes p with link := Function.update (s.processes p).link q value })

/-- No call has begun; the processes and their slots are arbitrary. -/
def init (processes : ℕ → Process) : St τ := ⟨processes, fun _ => ⟨.start, none, []⟩⟩

/-- The states reached in any order of steps. -/
def Reached (args : τ → Args) (processes : ℕ → Process) : St τ → Prop :=
  Run (step args) (fun _ _ _ => True) (init processes)

end Model

/-! ## Posting once -/

/-- A call posts at most once to each target, into a slot it has claimed, while the target is
valid; and not more often than there are processes. -/
structure PostsOnce (c : Call) : Prop where
  once : (c.posts.map Post.target).Nodup
  claimed : ∀ x ∈ c.posts, x.claimed = true
  valid : ∀ x ∈ c.posts, x.valid = true
  bounded : c.posts.length ≤ MRAPI_MAX_PROCESSES

/-- The duplication whose source is another process. -/
def DupOfOther (op : MrapiAtomicOp) : Prop :=
  op.atype = MrapiAtomShmdup ∧ op.source ≠ op.spindex ∧ op.source < MRAPI_MAX_PROCESSES

/-- The kinds that are sent to all processes. -/
def ToAll (op : MrapiAtomicOp) : Prop :=
  op.atype = MrapiAtomOpenproc ∨ op.atype = MrapiAtomCloseproc

/-- The targets posted to so far are below this. -/
def Pc.bound : Pc → ℕ
  | .start | .dup | .sourceValid _ => 0
  | .scan p | .claim p | .update p => p
  | .signal p | .awaitLink p => p + 1
  | .returned _ | .panicked => MRAPI_MAX_PROCESSES

/-- Where a call can be, and what it knows there. -/
def Pc.Ok (op : MrapiAtomicOp) (processes : ℕ → Process) (claimed : Option ℕ) : Pc → Prop
  | .start | .returned _ | .panicked => True
  | .dup => op.atype = MrapiAtomShmdup
  | .sourceValid _ => False
  | .scan p => ToAll op ∧ p ≤ MRAPI_MAX_PROCESSES
  | .claim p => ToAll op ∧ p < MRAPI_MAX_PROCESSES ∧ (processes p).state.valid = true
  | .update p => ToAll op ∧ p < MRAPI_MAX_PROCESSES ∧ (processes p).state.valid = true ∧
      claimed = some p
  | .signal p | .awaitLink p => ToAll op ∧ p < MRAPI_MAX_PROCESSES

/-- The invariant of a call. -/
structure CallInv (op : MrapiAtomicOp) (processes : ℕ → Process) (c : Call) : Prop where
  pc : c.pc.Ok op processes c.claimed
  once : (c.posts.map Post.target).Nodup
  below : ∀ x ∈ c.posts, x.target < c.pc.bound
  claimed : ∀ x ∈ c.posts, x.claimed = true
  valid : ∀ x ∈ c.posts, x.valid = true

section Safety

variable {τ : Type} [DecidableEq τ] {op : MrapiAtomicOp} {processes processes' : ℕ → Process}
  {c : Call} {s s' : St τ} {t u : τ} {kill : Bool}

/-- The processes that are valid stay so. -/
def StayValid (processes processes' : ℕ → Process) : Prop :=
  ∀ p, (processes p).state.valid = true → (processes' p).state.valid = true

theorem StayValid.refl (processes : ℕ → Process) : StayValid processes processes := fun _ h => h

theorem stayValid_update {q : ℕ} {process : Process}
    (h : (processes q).state.valid = true → process.state.valid = true) :
    StayValid processes (Function.update processes q process) := by
  intro p hp
  by_cases hpq : p = q
  · subst hpq
    rw [Function.update_self]
    exact h hp
  · rwa [Function.update_of_ne hpq]

/-- What the others do leaves a call what it knows. -/
theorem CallInv.mono (h : CallInv op processes c) (hvalid : StayValid processes processes') :
    CallInv op processes' c := by
  refine ⟨?_, h.once, h.below, h.claimed, h.valid⟩
  have hpc := h.pc
  cases hc : c.pc with
  | start | returned | panicked => trivial
  | dup | sourceValid | scan | signal | awaitLink =>
    rw [hc] at hpc
    exact hpc
  | claim p =>
    rw [hc] at hpc
    exact ⟨hpc.1, hpc.2.1, hvalid p hpc.2.2⟩
  | update p =>
    rw [hc] at hpc
    exact ⟨hpc.1, hpc.2.1, hvalid p hpc.2.2.1, hpc.2.2.2⟩

/-- A move without a post. -/
theorem CallInv.goto {pc : Pc} (h : CallInv op s.processes (s.call t))
    (hpc : pc.Ok op s.processes (s.call t).claimed) (hbound : (s.call t).pc.bound ≤ pc.bound) :
    CallInv op (s.goto t pc).processes ((s.goto t pc).call t) := by
  unfold St.goto St.setCall
  dsimp only
  rw [Function.update_self]
  exact ⟨hpc, h.once, fun x hx => lt_of_lt_of_le (h.below x hx) hbound, h.claimed, h.valid⟩

theorem init_inv (processes : ℕ → Process) : CallInv op processes ⟨.start, none, []⟩ :=
  ⟨trivial, List.nodup_nil, nofun, nofun, nofun⟩

/-- **A step of the call itself.** One case for each program point. -/
theorem CallInv.advance (hop : ¬ DupOfOther op) (h : CallInv op s.processes (s.call t))
    (hstep : atomic_forward s t op kill = some s') :
    CallInv op s'.processes (s'.call t) := by
  have hpc := h.pc
  unfold atomic_forward at hstep
  cases hc : (s.call t).pc with
  | start =>
    simp only [hc] at hstep
    split at hstep <;> rename_i hkind <;> cases hstep
    · exact h.goto ⟨Or.inl hkind, Nat.zero_le _⟩ (by rw [hc]; exact Nat.zero_le _)
    · exact h.goto ⟨Or.inr hkind, Nat.zero_le _⟩ (by rw [hc]; exact Nat.zero_le _)
    · exact h.goto hkind (by rw [hc]; exact Nat.zero_le _)
    · exact h.goto trivial (by rw [hc]; exact Nat.zero_le _)
  | scan p =>
    rw [hc] at hpc
    simp only [hc] at hstep
    split at hstep
    · rename_i hp
      split at hstep <;> rename_i htarget <;> cases hstep
      · exact h.goto ⟨hpc.1, hp, htarget.2⟩ (by rw [hc]; exact Nat.le_refl _)
      · exact h.goto ⟨hpc.1, hp⟩ (by rw [hc]; exact Nat.le_succ _)
    · cases hstep
      exact h.goto trivial (by rw [hc]; exact hpc.2)
  | dup =>
    rw [hc] at hpc
    simp only [hc] at hstep
    split at hstep
    · rename_i hp
      -- the source is the process itself
      rw [if_neg fun hne => hop ⟨hpc, fun heq => hne heq.symm, hp⟩] at hstep
      cases hstep
      exact h.goto trivial (by rw [hc]; exact Nat.zero_le _)
    · cases hstep
      exact h.goto trivial (by rw [hc]; exact Nat.zero_le _)
  | sourceValid p =>
    rw [hc] at hpc
    exact hpc.elim
  | claim p =>
    rw [hc] at hpc
    simp only [hc] at hstep
    split at hstep <;> cases hstep
    · exact h
    · have hvalid : StayValid s.processes (Function.update s.processes p
          { s.processes p with op := { (s.processes p).op with valid := true } }) :=
        stayValid_update id
      have hmono := h.mono hvalid
      simp only [St.setCall, St.setProcess, Function.update_self]
      refine ⟨⟨hpc.1, hpc.2.1, hvalid p hpc.2.2, rfl⟩, h.once, ?_, h.claimed, h.valid⟩
      have hbelow := hmono.below
      rw [hc] at hbelow
      exact hbelow
  | update p =>
    rw [hc] at hpc
    simp only [hc] at hstep
    cases hstep
    have hbelow := h.below
    rw [hc] at hbelow
    simp only [St.setCall, St.setProcess, Function.update_self]
    -- the new target is above the earlier ones
    refine ⟨⟨hpc.1, hpc.2.1⟩, ?_, ?_, ?_, ?_⟩
    · rw [List.map_append, List.map_singleton]
      refine List.Nodup.append h.once (List.nodup_singleton _) ?_
      intro q hq hqp
      obtain ⟨x, hx, rfl⟩ := List.mem_map.mp hq
      exact absurd (List.mem_singleton.mp hqp) (Nat.ne_of_lt (hbelow x hx))
    · intro x hx
      rcases List.mem_append.mp hx with hx | hx
      · exact Nat.lt_succ_of_lt (hbelow x hx)
      · rw [List.mem_singleton.mp hx]
        exact Nat.lt_succ_self p
    · intro x hx
      rcases List.mem_append.mp hx with hx | hx
      · exact h.claimed x hx
      · rw [List.mem_singleton.mp hx]
        exact decide_eq_true hpc.2.2.2
    · intro x hx
      rcases List.mem_append.mp hx with hx | hx
      · exact h.valid x hx
      · rw [List.mem_singleton.mp hx]
        exact hpc.2.2.1
  | signal p =>
    rw [hc] at hpc
    have hkind : op.atype ≠ MrapiAtomShmdup := by
      rcases hpc.1 with hkind | hkind <;> rw [hkind] <;> nofun
    simp only [hc] at hstep
    split at hstep
    · -- an operation that goes to all processes waits for the link
      cases hstep
      exact h.goto hpc (by rw [hc]; exact Nat.le_refl _)
    · cases hstep
      exact h.goto trivial (by rw [hc]; exact hpc.2)
  | awaitLink p =>
    rw [hc] at hpc
    simp only [hc] at hstep
    split at hstep <;> cases hstep
    · exact h
    · exact h.goto ⟨hpc.1, hpc.2⟩ (by rw [hc]; exact Nat.le_refl _)
    · exact h.goto trivial (by rw [hc]; exact hpc.2)
  | returned | panicked =>
    simp only [hc] at hstep
    cases hstep

/-- A step of a call does not touch the other calls, nor make a process invalid. -/
theorem atomic_forward_frame (hstep : atomic_forward s t op kill = some s') :
    StayValid s.processes s'.processes ∧ ∀ u, u ≠ t → s'.call u = s.call u := by
  have hset (s₁ : St τ) (c : Call) (u : τ) (hu : u ≠ t) :
      (s₁.setCall t c).call u = s₁.call u := by
    unfold St.setCall
    exact Function.update_of_ne hu _ _
  unfold atomic_forward at hstep
  split at hstep
  · split at hstep <;> cases hstep <;> exact ⟨.refl _, hset s _⟩
  · dsimp only at hstep
    split at hstep
    · split at hstep <;> cases hstep <;> exact ⟨.refl _, hset s _⟩
    · cases hstep
      exact ⟨.refl _, hset s _⟩
  · dsimp only at hstep
    split at hstep
    · split at hstep <;> cases hstep <;> exact ⟨.refl _, hset s _⟩
    · cases hstep
      exact ⟨.refl _, hset s _⟩
  · cases hstep
    exact ⟨.refl _, hset s _⟩
  · split at hstep <;> cases hstep
    · exact ⟨.refl _, fun _ _ => rfl⟩
    · exact ⟨stayValid_update id, hset _ _⟩
  · cases hstep
    exact ⟨stayValid_update id, hset _ _⟩
  · split at hstep
    · split at hstep <;> cases hstep <;> exact ⟨.refl _, hset s _⟩
    · cases hstep
      exact ⟨.refl _, hset s _⟩
  · split at hstep <;> cases hstep
    · exact ⟨.refl _, fun _ _ => rfl⟩
    · exact ⟨.refl _, hset s _⟩
    · exact ⟨.refl _, hset s _⟩
  · cases hstep
  · cases hstep

/-- **A step of the system** keeps the invariant of a call that is no duplication from another
process, whoever moves. -/
theorem step_inv {args : τ → Args} {l : Label τ} (hop : ¬ DupOfOther (args t).prepared)
    (h : CallInv (args t).prepared s.processes (s.call t)) (hstep : step args s l = some s') :
    CallInv (args t).prepared s'.processes (s'.call t) := by
  cases l with
  | call u kill =>
    by_cases hut : t = u
    · subst hut
      exact h.advance hop hstep
    · obtain ⟨hvalid, hcall⟩ := atomic_forward_frame hstep
      rw [hcall t hut]
      exact h.mono hvalid
  | consume p =>
    cases hstep
    exact h.mono (stayValid_update id)
  | join p =>
    cases hstep
    exact h.mono (stayValid_update fun _ => rfl)
  | link p q value =>
    cases hstep
    exact h.mono (stayValid_update id)

/-- The targets posted to are indexes of processes. -/
theorem Pc.bound_le {pc : Pc} {claimed : Option ℕ} (h : pc.Ok op processes claimed) :
    pc.bound ≤ MRAPI_MAX_PROCESSES := by
  cases pc with
  | start | dup | sourceValid => exact Nat.zero_le _
  | scan p => exact h.2
  | claim p | update p => exact Nat.le_of_lt h.2.1
  | signal p | awaitLink p => exact h.2
  | returned | panicked => exact Nat.le_refl _

theorem CallInv.postsOnce (h : CallInv op processes c) : PostsOnce c := by
  refine ⟨h.once, h.claimed, h.valid, ?_⟩
  -- different targets below the number of processes
  have hsubset : (c.posts.map Post.target).toFinset ⊆ Finset.range MRAPI_MAX_PROCESSES := by
    intro p hp
    obtain ⟨x, hx, rfl⟩ := List.mem_map.mp (List.mem_toFinset.mp hp)
    exact Finset.mem_range.mpr (lt_of_lt_of_le (h.below x hx) (Pc.bound_le h.pc))
  have hcard := Finset.card_le_card hsubset
  rwa [List.toFinset_card_of_nodup h.once, List.length_map, Finset.card_range] at hcard

theorem postsOnce_of_reached {args : τ → Args} (hop : ¬ DupOfOther (args t).prepared)
    (h : Reached args processes s) : PostsOnce (s.call t) := by
  have hinv : CallInv (args t).prepared s.processes (s.call t) := by
    refine Run.invariant
      (I := fun s : St τ => CallInv (args t).prepared s.processes (s.call t)) ?_ h ?_
    · intro _ _ _ hs hstep _
      exact step_inv hop hs hstep
    · exact init_inv processes
  exact hinv.postsOnce

end Safety

/-! ## The duplication -/

section Duplication

variable {τ : Type} [DecidableEq τ] {args : τ → Args} {s : St τ} {t : τ} {p : ℕ}

/-- **One round of the loop**, after the target has consumed its slot: another post. -/
theorem posts_again (hkind : (args t).prepared.atype = MrapiAtomShmdup)
    (hpc : (s.call t).pc = .sourceValid p) :
    ∃ s', Run (step args) (fun _ _ _ => True) s s' ∧ (s'.call t).pc = .sourceValid p ∧
      (s'.call t).posts = (s.call t).posts ++ [⟨p, true, (s.processes p).state.valid⟩] ∧
      (s'.processes p).state = (s.processes p).state := by
  obtain ⟨s₁, h₁, hpc₁, hposts₁, hstate₁, hfree₁⟩ : ∃ s₁, step args s (.consume p) = some s₁ ∧
      (s₁.call t).pc = .sourceValid p ∧ (s₁.call t).posts = (s.call t).posts ∧
      (s₁.processes p).state = (s.processes p).state ∧ (s₁.processes p).op.valid = false :=
    ⟨_, rfl, hpc, rfl, by simp [St.setProcess], by simp [St.setProcess]⟩
  obtain ⟨s₂, h₂, hpc₂, hposts₂, hprocesses₂⟩ : ∃ s₂, step args s₁ (.call t true) = some s₂ ∧
      (s₂.call t).pc = .claim p ∧ (s₂.call t).posts = (s₁.call t).posts ∧
      s₂.processes = s₁.processes := by
    refine ⟨s₁.goto t (.claim p), ?_, ?_, ?_, rfl⟩
    · simp only [step, atomic_forward, hpc₁]
    · simp [St.goto, St.setCall]
    · simp [St.goto, St.setCall]
  obtain ⟨s₃, h₃, hpc₃, hclaimed₃, hposts₃, hstate₃⟩ :
      ∃ s₃, step args s₂ (.call t true) = some s₃ ∧ (s₃.call t).pc = .update p ∧
      (s₃.call t).claimed = some p ∧ (s₃.call t).posts = (s₂.call t).posts ∧
      (s₃.processes p).state = (s₂.processes p).state := by
    rw [← hprocesses₂] at hfree₁
    simp only [step, atomic_forward, hpc₂, hfree₁, Bool.false_eq_true, if_false]
    exact ⟨_, rfl, by simp [St.setCall], by simp [St.setCall], by simp [St.setCall],
      by simp [St.setCall, St.setProcess]⟩
  obtain ⟨s₄, h₄, hpc₄, hposts₄, hstate₄⟩ : ∃ s₄, step args s₃ (.call t true) = some s₄ ∧
      (s₄.call t).pc = .signal p ∧
      (s₄.call t).posts = (s₃.call t).posts ++ [⟨p, true, (s₃.processes p).state.valid⟩] ∧
      (s₄.processes p).state = (s₃.processes p).state := by
    simp only [step, atomic_forward, hpc₃]
    exact ⟨_, rfl, by simp [St.setCall], by simp [St.setCall, hclaimed₃],
      by simp [St.setCall, St.setProcess]⟩
  obtain ⟨s₅, h₅, hpc₅, hposts₅, hprocesses₅⟩ : ∃ s₅, step args s₄ (.call t true) = some s₅ ∧
      (s₅.call t).pc = .sourceValid p ∧ (s₅.call t).posts = (s₄.call t).posts ∧
      s₅.processes = s₄.processes := by
    refine ⟨s₄.goto t (.sourceValid p), ?_, ?_, ?_, rfl⟩
    · simp only [step, atomic_forward, hpc₄, hkind, if_true]
    · simp [St.goto, St.setCall]
    · simp [St.goto, St.setCall]
  have hstate : (s₃.processes p).state = (s.processes p).state := by
    rw [hstate₃, hprocesses₂, hstate₁]
  refine ⟨s₅, ?_, hpc₅, ?_, ?_⟩
  · have hrun := Run.single (G := fun _ _ _ => True) h₁ trivial
    exact ((((hrun.tail h₂ trivial).tail h₃ trivial).tail h₄ trivial).tail h₅ trivial)
  · rw [hposts₅, hposts₄, hposts₃, hposts₂, hposts₁, hstate]
  · rw [hprocesses₅, hstate₄, hstate]

/-- The call gets to its loop. -/
theorem reaches_loop (processes : ℕ → Process) (hop : DupOfOther (args t).prepared) :
    ∃ s, Reached args processes s ∧
      (s.call t).pc = .sourceValid (args t).prepared.source ∧ (s.call t).posts = [] ∧
      s.processes = processes := by
  obtain ⟨hkind, hother, hrange⟩ := hop
  have h₁ : step args (init processes) (.call t true) = some ((init processes).goto t .dup) := by
    simp only [step, atomic_forward, init, hkind]
  have h₂ : step args ((init processes).goto t .dup) (.call t true) =
      some (((init processes).goto t .dup).goto t (.sourceValid (args t).prepared.source)) := by
    have hpc : (((init processes).goto t .dup).call t).pc = .dup := by simp [St.goto, St.setCall]
    simp only [step, atomic_forward, hpc, hrange, if_true]
    rw [if_pos fun heq => hother heq.symm]
  refine ⟨_, (Run.single h₁ trivial).tail h₂ trivial, ?_, ?_, rfl⟩
  · simp [St.goto, St.setCall]
  · simp [St.goto, St.setCall, init]

/-- **A duplication is posted any number of times**, also to a source that is not valid. -/
theorem posts_unbounded (processes : ℕ → Process) (hop : DupOfOther (args t).prepared) (n : ℕ) :
    ∃ s, Reached args processes s ∧ (s.call t).posts = List.replicate n
      ⟨(args t).prepared.source, true, (processes (args t).prepared.source).state.valid⟩ := by
  suffices h : ∃ s, Reached args processes s ∧
      (s.call t).pc = .sourceValid (args t).prepared.source ∧
      (s.call t).posts = List.replicate n
        ⟨(args t).prepared.source, true, (processes (args t).prepared.source).state.valid⟩ ∧
      (s.processes (args t).prepared.source).state =
        (processes (args t).prepared.source).state by
    obtain ⟨s, hreached, -, hposts, -⟩ := h
    exact ⟨s, hreached, hposts⟩
  induction n with
  | zero =>
    obtain ⟨s, hreached, hpc, hposts, hprocesses⟩ := reaches_loop processes hop
    exact ⟨s, hreached, hpc, hposts, by rw [hprocesses]⟩
  | succ n ih =>
    obtain ⟨s, hreached, hpc, hposts, hstate⟩ := ih
    obtain ⟨s', hrun, hpc', hposts', hstate'⟩ := posts_again hop.1 hpc
    refine ⟨s', hreached.trans hrun, hpc', ?_, hstate'.trans hstate⟩
    rw [hposts', hposts, hstate, List.replicate_succ']

/-- **Which operations are posted once**: all but the duplications from another process. -/
theorem posts_once_iff (args : τ → Args) (processes : ℕ → Process) (t : τ) :
    (∀ s, Reached args processes s → PostsOnce (s.call t)) ↔ ¬ DupOfOther (args t).prepared := by
  constructor
  · intro h hop
    obtain ⟨s, hreached, hposts⟩ := posts_unbounded processes hop 2
    have honce := (h s hreached).once
    rw [hposts] at honce
    simp [List.replicate] at honce
  · intro hop s hreached
    exact postsOnce_of_reached hop hreached

/-- Process 0 asks process 1 for its handle of a shared memory. -/
def dupArgs : Unit → Args :=
  fun _ => ⟨0, ⟨MrapiAtomShmdup, 0, false, 0, 0, .Dup ⟨0, 1⟩⟩, some 0⟩

/-- A valid process whose slot is free. -/
def freeProcess : Process :=
  ⟨⟨1, true, true⟩, fun _ => 1, ⟨MrapiAtomNoop, 0, false, 0, 0, .Open⟩⟩

/-- The target takes the operation out of its slot, and finds it there again. -/
theorem dup_not_posted_once :
    ¬ ∀ s, Reached dupArgs (fun _ => freeProcess) s → PostsOnce (s.call ()) := by
  intro h
  have hother : DupOfOther (dupArgs ()).prepared := ⟨rfl, by decide, by decide⟩
  obtain ⟨s, hreached, hposts⟩ := posts_unbounded (fun _ => freeProcess) hother 2
  have honce := (h s hreached).once
  rw [hposts] at honce
  exact absurd honce (by decide)

end Duplication

end MxApi.MrapiRs.Forward
