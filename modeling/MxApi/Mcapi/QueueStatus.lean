/-
`mcapi_trans_queue_status` (`Fragments/transport_sm_queue_abb.c`) against the two functions
whose results it is to foretell.

The test for room is the same. The test for entries is not: `queue_head` rounds `ack_counter`
down to the last completed pop, and `queue_status` does not, although its comment says so. The
two part when a pop is in progress and `update_counter` stands next to `ack_counter`
([`PopAtEnd`], [`predicts_iff`]): while the last entry is being popped `queue_head` finds an
entry and `queue_status` finds a producer at work.

The pairs of counters that are reached are those of any number of clients that push and pop
at once ([`clientStep`]), one access to a counter at a time.
-/
import MxApi.Lib.Run
import MxApi.Mcapi.Queue

set_option autoImplicit false

namespace MxApi.QueueStatus

open Lib mcapi_status_t

/-! ## The source -/

/-- Checks queue status as if a push or pop was attempted. -/
def mcapi_trans_queue_status (q : queue) : mcapi_status_t :=
  -- check write status
  let tempAC := q.ack_counter
  let lastUC := lastCompleted q.update_counter
  let diff := toInt32 (subU32 lastUC tempAC)
  if diff ≥ 2 * MCAPI_MAX_QUEUE_ENTRIES then MCAPI_ERR_QUEUE_FULL
  else if diff = 2 * MCAPI_MAX_QUEUE_ENTRIES - 1 then MCAPI_ERR_QUEUE_FULL_CONSUMER_READING
  else
    -- check read status
    let tempUC := q.update_counter
    -- "last completed operation", but an odd counter is taken as it is
    let lastAC := q.ack_counter
    if tempUC = lastAC then MCAPI_ERR_QUEUE_EMPTY
    else if subU32 tempUC tempAC = 1 then MCAPI_ERR_QUEUE_EMPTY_PRODUCER_INSERTING
    else MCAPI_SUCCESS

/-- It foretells `queue_tail`, and where there is room, `queue_head`. -/
structure Predicts (q : queue) : Prop where
  full : mcapi_trans_queue_status q = MCAPI_ERR_QUEUE_FULL ↔
    (mcapi_trans_queue_tail q).2 = MCAPI_ERR_QUEUE_FULL
  reading : mcapi_trans_queue_status q = MCAPI_ERR_QUEUE_FULL_CONSUMER_READING ↔
    (mcapi_trans_queue_tail q).2 = MCAPI_ERR_QUEUE_FULL_CONSUMER_READING
  empty : (mcapi_trans_queue_tail q).2 = MCAPI_SUCCESS →
    (mcapi_trans_queue_status q = MCAPI_ERR_QUEUE_EMPTY ↔
      (mcapi_trans_queue_head q).2 = MCAPI_ERR_QUEUE_EMPTY)
  inserting : (mcapi_trans_queue_tail q).2 = MCAPI_SUCCESS →
    (mcapi_trans_queue_status q = MCAPI_ERR_QUEUE_EMPTY_PRODUCER_INSERTING ↔
      (mcapi_trans_queue_head q).2 = MCAPI_ERR_QUEUE_EMPTY_PRODUCER_INSERTING)

/-- A pop is in progress, and `update_counter` is at most one step away from `ack_counter`. -/
def PopAtEnd (q : queue) : Prop :=
  q.ack_counter % 2 = 1 ∧ (q.update_counter = q.ack_counter ∨
    subU32 q.update_counter q.ack_counter = 1 ∨ subU32 q.ack_counter q.update_counter = 1)

/-! ## One pair of counters -/

/-- The status is that of the tail, and then that of a head which is not rounded. -/
theorem queue_status_eq (q : queue) :
    mcapi_trans_queue_status q =
      match (mcapi_trans_queue_tail q).2 with
      | MCAPI_SUCCESS => headStatus q.update_counter q.ack_counter
      | status => status := by
  unfold mcapi_trans_queue_status mcapi_trans_queue_tail tailStatus headStatus
  dsimp only
  split_ifs <;> rfl

/-- The statuses of a tail are three. -/
theorem tail_cases (q : queue) :
    (mcapi_trans_queue_tail q).2 = MCAPI_ERR_QUEUE_FULL ∨
      (mcapi_trans_queue_tail q).2 = MCAPI_ERR_QUEUE_FULL_CONSUMER_READING ∨
      (mcapi_trans_queue_tail q).2 = MCAPI_SUCCESS := by
  unfold mcapi_trans_queue_tail tailStatus
  dsimp only
  split_ifs
  · exact Or.inl rfl
  · exact Or.inr (Or.inl rfl)
  · exact Or.inr (Or.inr rfl)

/-- Where the pop in progress is at the end, there is room: the counters are close together. -/
theorem tail_of_popAtEnd {q : queue} (hu : q.update_counter < 2 ^ 32)
    (ha : q.ack_counter < 2 ^ 32) (h : PopAtEnd q) :
    (mcapi_trans_queue_tail q).2 = MCAPI_SUCCESS := by
  obtain ⟨hodd, hnext⟩ := h
  have hN := MCAPI_MAX_QUEUE_ENTRIES_eq
  -- the difference is -1 or 1
  have hdiff : toInt32 (subU32 (lastCompleted q.update_counter) q.ack_counter) ≤ 1 := by
    unfold toInt32 subU32 lastCompleted
    unfold subU32 at hnext
    split <;> omega
  unfold mcapi_trans_queue_tail tailStatus
  dsimp only
  rw [if_neg (by omega), if_neg (by omega)]

theorem headStatus_empty_iff (x y : ℕ) : headStatus x y = MCAPI_ERR_QUEUE_EMPTY ↔ x = y := by
  unfold headStatus
  split_ifs with heq
  · exact iff_of_true rfl heq
  · exact iff_of_false nofun heq
  · exact iff_of_false nofun heq

theorem headStatus_inserting_iff {x y : ℕ} (hx : x < 2 ^ 32) :
    headStatus x y = MCAPI_ERR_QUEUE_EMPTY_PRODUCER_INSERTING ↔ subU32 x y = 1 := by
  unfold headStatus
  split_ifs with heq hone
  · refine iff_of_false nofun ?_
    unfold subU32
    omega
  · exact iff_of_true rfl hone
  · exact iff_of_false nofun hone

/-- **The head that is rounded and the one that is not** say the same about an empty queue
unless a pop is in progress at the end. -/
theorem heads_agree_iff {q : queue} (hu : q.update_counter < 2 ^ 32)
    (ha : q.ack_counter < 2 ^ 32) :
    ((headStatus q.update_counter q.ack_counter = MCAPI_ERR_QUEUE_EMPTY ↔
        (mcapi_trans_queue_head q).2 = MCAPI_ERR_QUEUE_EMPTY) ∧
      (headStatus q.update_counter q.ack_counter = MCAPI_ERR_QUEUE_EMPTY_PRODUCER_INSERTING ↔
        (mcapi_trans_queue_head q).2 = MCAPI_ERR_QUEUE_EMPTY_PRODUCER_INSERTING)) ↔
      ¬ PopAtEnd q := by
  unfold mcapi_trans_queue_head PopAtEnd
  dsimp only
  rw [headStatus_empty_iff, headStatus_empty_iff, headStatus_inserting_iff hu,
    headStatus_inserting_iff hu]
  unfold subU32 lastCompleted
  omega

/-- **Exactly when the status is right**, for every pair of counters. -/
theorem predicts_iff {q : queue} (hu : q.update_counter < 2 ^ 32)
    (ha : q.ack_counter < 2 ^ 32) : Predicts q ↔ ¬ PopAtEnd q := by
  have hstatus := queue_status_eq q
  constructor
  · intro h hend
    have hroom := tail_of_popAtEnd hu ha hend
    rw [hroom] at hstatus
    have hempty := h.empty hroom
    have hinserting := h.inserting hroom
    rw [hstatus] at hempty hinserting
    exact (heads_agree_iff hu ha).mp ⟨hempty, hinserting⟩ hend
  · intro hend
    have hheads := (heads_agree_iff hu ha).mpr hend
    rcases tail_cases q with htail | htail | htail
    · rw [htail] at hstatus
      exact ⟨by rw [hstatus, htail], by rw [hstatus, htail], by rw [htail]; nofun,
        by rw [htail]; nofun⟩
    · rw [htail] at hstatus
      exact ⟨by rw [hstatus, htail], by rw [hstatus, htail], by rw [htail]; nofun,
        by rw [htail]; nofun⟩
    · rw [htail] at hstatus
      refine ⟨?_, ?_, fun _ => ?_, fun _ => ?_⟩
      · rw [hstatus, htail]
        refine iff_of_false ?_ nofun
        unfold headStatus
        split_ifs <;> nofun
      · rw [hstatus, htail]
        refine iff_of_false ?_ nofun
        unfold headStatus
        split_ifs <;> nofun
      · rw [hstatus]
        exact hheads.1
      · rw [hstatus]
        exact hheads.2

/-! ## Clients that push and pop

Each access to a counter is a step: a read, a compare and swap, the increment at the end. A
client that finds the counter odd, or whose compare and swap fails, starts over. -/

/-- Where a client is, with its local variables. -/
inductive ClientPc
  | idle
  /-- About to read `UC`. -/
  | pushUC
  /-- About to read `tempAC`. -/
  | pushAC (UC : ℕ)
  | pushCas (UC : ℕ)
  /-- The entry is selected, and the counter odd. -/
  | pushInc (x : ℕ)
  | popAC
  | popUC (AC : ℕ)
  | popCas (AC : ℕ)
  | popInc (x : ℕ)
  /-- The call has returned. -/
  | returned (result : Except mcapi_status_t ℕ)

inductive ClientLabel (τ : Type)
  | push (i : τ)
  | pop (i : τ)
  | step (i : τ)
  | leave (i : τ)

structure Clients (τ : Type) where
  q : queue
  pc : τ → ClientPc

section Clients

variable {τ : Type} [DecidableEq τ]

def Clients.init (τ : Type) (ct : channel_type) : Clients τ := ⟨queue.zero ct, fun _ => .idle⟩

def Clients.goto (s : Clients τ) (i : τ) (pc : ClientPc) : Clients τ :=
  { s with pc := Function.update s.pc i pc }

/-- One step of a call. -/
def advance (s : Clients τ) (i : τ) : Option (Clients τ) :=
  match s.pc i with
  | .idle | .returned _ => none
  | .pushUC =>
    let UC := s.q.update_counter
    -- multiple clients, push in progress
    if UC % 2 ≠ 0 then some (s.goto i .pushUC) else some (s.goto i (.pushAC UC))
  | .pushAC UC =>
    match tailStatus (lastCompleted UC) s.q.ack_counter with
    | MCAPI_SUCCESS => some (s.goto i (.pushCas UC))
    | status => some (s.goto i (.returned (.error status)))
  | .pushCas UC =>
    if s.q.update_counter = UC then
      some ({ s with q := { s.q with update_counter := u32 (UC + 1) } }.goto i
        (.pushInc (qindexOf (lastCompleted UC))))
    else some (s.goto i .pushUC)
  | .pushInc x =>
    some ({ s with q := { s.q with update_counter := u32 (s.q.update_counter + 1) } }.goto i
      (.returned (.ok x)))
  | .popAC =>
    let AC := s.q.ack_counter
    -- multiple clients, pop in progress
    if AC % 2 ≠ 0 then some (s.goto i .popAC) else some (s.goto i (.popUC AC))
  | .popUC AC =>
    match headStatus s.q.update_counter (lastCompleted AC) with
    | MCAPI_SUCCESS => some (s.goto i (.popCas AC))
    | status => some (s.goto i (.returned (.error status)))
  | .popCas AC =>
    if s.q.ack_counter = AC then
      some ({ s with q := { s.q with ack_counter := u32 (AC + 1) } }.goto i
        (.popInc (qindexOf (lastCompleted AC))))
    else some (s.goto i .popAC)
  | .popInc x =>
    some ({ s with q := { s.q with ack_counter := u32 (s.q.ack_counter + 1) } }.goto i
      (.returned (.ok x)))

def clientStep (s : Clients τ) : ClientLabel τ → Option (Clients τ)
  | .push i => match s.pc i with
    | .idle => some (s.goto i .pushUC)
    | _ => none
  | .pop i => match s.pc i with
    | .idle => some (s.goto i .popAC)
    | _ => none
  | .step i => advance s i
  | .leave i => match s.pc i with
    | .returned _ => some (s.goto i .idle)
    | _ => none

/-- The counters are 32-bit words. -/
def InRange (q : queue) : Prop := q.update_counter < 2 ^ 32 ∧ q.ack_counter < 2 ^ 32

theorem advance_inRange {s t : Clients τ} {i : τ} (hrange : InRange s.q)
    (h : advance s i = some t) : InRange t.q := by
  unfold advance at h
  split at h
  · cases h
  · cases h
  · dsimp only at h
    split at h <;> cases h <;> exact hrange
  · split at h <;> cases h <;> exact hrange
  · split at h <;> cases h
    · exact ⟨u32_lt _, hrange.2⟩
    · exact hrange
  · cases h
    exact ⟨u32_lt _, hrange.2⟩
  · dsimp only at h
    split at h <;> cases h <;> exact hrange
  · split at h <;> cases h <;> exact hrange
  · split at h <;> cases h
    · exact ⟨hrange.1, u32_lt _⟩
    · exact hrange
  · cases h
    exact ⟨hrange.1, u32_lt _⟩

theorem clientStep_inRange {s t : Clients τ} {l : ClientLabel τ} (hrange : InRange s.q)
    (h : clientStep s l = some t) : InRange t.q := by
  cases l with
  | push i =>
    simp only [clientStep] at h
    split at h <;> cases h
    exact hrange
  | pop i =>
    simp only [clientStep] at h
    split at h <;> cases h
    exact hrange
  | step i => exact advance_inRange hrange h
  | leave i =>
    simp only [clientStep] at h
    split at h <;> cases h
    exact hrange

/-- The states that clients reach from an empty queue. -/
def Reached (ct : channel_type) : Clients τ → Prop :=
  Run clientStep (fun _ _ _ => True) (Clients.init τ ct)

/-- **In every state that pushes and pops reach**, the status is right if and only if no pop
is in progress at the end of the queue. -/
theorem queue_status_predicts_iff {ct : channel_type} {s : Clients τ} (h : Reached ct s) :
    Predicts s.q ↔ ¬ PopAtEnd s.q := by
  have hrange : InRange s.q := by
    refine Run.invariant (I := fun s : Clients τ => InRange s.q) ?_ h ?_
    · intro _ _ _ hs hstep _
      exact clientStep_inRange hs hstep
    · exact ⟨Nat.two_pow_pos 32, Nat.two_pow_pos 32⟩
  exact predicts_iff hrange.1 hrange.2

end Clients

/-! ## The last entry

One client has pushed an entry; then it pushes another, or a second client pops it. -/

open ClientLabel in
/-- A push of the first client. -/
def pushed : List (ClientLabel Bool) := [push false, step false, step false, step false,
  step false, leave false]

theorem exec_reached (labels : List (ClientLabel Bool)) {p : Clients Bool → Bool}
    (h : (exec clientStep (fun _ _ _ => true) (Clients.init Bool .MCAPI_NO_CHAN) labels).any p =
      true) : ∃ s : Clients Bool, Reached .MCAPI_NO_CHAN s ∧ p s = true := by
  obtain ⟨s, hrun, hp⟩ := exec_run_of_any h
  exact ⟨s, hrun.mono fun _ _ _ _ => trivial, hp⟩

/-- A push in progress behind an entry is no matter. -/
theorem queue_status_while_pushing :
    ∃ s : Clients Bool, s.q.update_counter = 3 ∧ s.q.ack_counter = 0 ∧ Predicts s.q := by
  obtain ⟨s, hreached, hs⟩ := exec_reached (pushed ++ [ClientLabel.push false,
    ClientLabel.step false, ClientLabel.step false, ClientLabel.step false])
    (p := fun s => s.q.update_counter = 3 ∧ s.q.ack_counter = 0) (by decide +kernel)
  obtain ⟨hu, ha⟩ := of_decide_eq_true hs
  refine ⟨s, hu, ha, (queue_status_predicts_iff hreached).mpr ?_⟩
  rintro ⟨hodd, -⟩
  rw [ha] at hodd
  cases hodd

/-- **While the last entry is popped**, `queue_head` finds an entry, and the status is that a
producer is inserting one. -/
theorem queue_status_while_popping :
    ¬ ∀ s : Clients Bool, Reached .MCAPI_NO_CHAN s → Predicts s.q := by
  intro hall
  obtain ⟨s, hreached, hs⟩ := exec_reached (pushed ++ [ClientLabel.pop true,
    ClientLabel.step true, ClientLabel.step true, ClientLabel.step true])
    (p := fun s => (mcapi_trans_queue_tail s.q).2 = MCAPI_SUCCESS ∧
      (mcapi_trans_queue_head s.q).2 = MCAPI_SUCCESS ∧
      mcapi_trans_queue_status s.q = MCAPI_ERR_QUEUE_EMPTY_PRODUCER_INSERTING)
    (by decide +kernel)
  obtain ⟨htail, hhead, hstatus⟩ := of_decide_eq_true hs
  have hinserting := ((hall s hreached).inserting htail).mp hstatus
  rw [hhead] at hinserting
  cases hinserting

end MxApi.QueueStatus
