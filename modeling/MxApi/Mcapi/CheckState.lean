/-
Completing a receive request on state buffers (`check_receive_request_state_` of
`Fragments/transport_sm_request_abb.c`), on an endpoint for messages, while others send and
receive.

The shared memory is accessed as `mcapi_trans_recv_state` does, whose program is that of the
reader `none` here; the other readers are `some y`. The request has one field for the size
of the caller's buffer and for the size of the message, and it is set before the window test
at the end of a round. When the test fails and the loop starts over, the buffer of the
caller is as large as the part of the abandoned message that was read.

Recorded beside the request are the sizes of the messages that were abandoned, and the
receipt of the read that was confirmed.
-/
import MxApi.Mcapi.Calls
import MxApi.Mcapi.StateSafety

set_option autoImplicit false

namespace MxApi.StateRequest

open Lib channel_type mcapi_buffer_state mcapi_status_t
open Calls (Status)

/-! ## The program -/

/-- What the check reads and writes of the request. -/
structure CheckRequest where
  size : ℕ
  status : Status
  completed : Bool

structure CheckSys (ω ρ : Type) where
  base : StateSys ω (Option ρ)
  request : CheckRequest
  /-- the sizes of the messages that were read, and not confirmed -/
  abandoned : List ℕ
  confirmed : Option Receipt

inductive CheckLabel (ω ρ : Type)
  /-- a step of the senders and of the other receivers -/
  | other (a : StateLabel ω (Option ρ))
  /-- the check is called -/
  | check
  /-- its next atomic step -/
  | step

/-- Not a step of the reader that checks the request. -/
def ofOthers {ω ρ : Type} : StateLabel ω (Option ρ) → Bool
  | .recv y _ => y.isSome
  | .free y _ => y.isSome
  | .stepRead y => y.isSome
  | .send .. => true
  | .stepWrite _ => true

section System

variable {ω ρ : Type} [DecidableEq ω] [DecidableEq ρ]

/-- What the step from `pc` to `pc'` does with the request, beside the memory that it leaves.
The status is reset when there is a message, and set again after it was read. -/
def afterStep (s : CheckSys ω ρ) (base : StateSys ω (Option ρ)) : ReadPc → ReadPc → CheckSys ω ρ
  | .readBuffIndex .., .recvBuffIndex .. =>
    { s with base := base, request := { s.request with status := .MCAPI_SUCCESS } }
  | .copy .., .confirm _ _ _ _ d =>
    { s with
      base := base
      request :=
        -- a larger message leaves the size as it was
        if d.received_size > s.request.size then
          { s.request with status := .MCAPI_ERR_MSG_TRUNCATED }
        else { s.request with size := d.received_size } }
  | .confirm _ _ _ _ d, .readCounter f g =>
    -- the loop starts over with what the request holds by then
    { s with
      base := { base with
        rpc := Function.update base.rpc none
          (.readCounter { f with buffer_size := s.request.size } g) }
      abandoned := s.abandoned ++ [d.received_size] }
  | .confirm f g _ index d, .idle =>
    { s with
      base := base
      request := { s.request with completed := true }
      confirmed := some ⟨f, g.began, index, d⟩ }
  | _, _ => { s with base := base }

def checkStep (K : ℕ) (s : CheckSys ω ρ) : CheckLabel ω ρ → Option (CheckSys ω ρ)
  | .other a =>
    if ofOthers a then (stateStep K s.base a).map fun base => { s with base := base } else none
  | .check =>
    -- a completed request is not checked again
    if s.request.completed then none
    else (stateStep K s.base (.recv none ⟨s.request.size, false⟩)).map fun base =>
      { s with base := base }
  | .step =>
    (stateStep K s.base (.stepRead none)).map fun base =>
      afterStep s base (s.base.rpc none) (base.rpc none)

/-- A fresh endpoint, and a receive with a buffer of `c` bytes that found no message. -/
def CheckSys.init (ω ρ : Type) (pool : ℕ → buffer_entry) (c : ℕ) : CheckSys ω ρ :=
  ⟨StateSys.init ω (Option ρ) MCAPI_NO_CHAN pool, ⟨c, .MCAPI_ERR_QUEUE_EMPTY, false⟩, [], none⟩

/-! ## What the request holds -/

/-- What is left of a buffer of `c` bytes after these messages. -/
def capacity (c : ℕ) (abandoned : List ℕ) : ℕ := abandoned.foldl min c

theorem capacity_append (c : ℕ) (abandoned : List ℕ) (size : ℕ) :
    capacity c (abandoned ++ [size]) = min (capacity c abandoned) size :=
  List.foldl_concat ..

/-- It is at least `k` if the buffer and all of the messages are. -/
theorem le_capacity {k c : ℕ} (abandoned : List ℕ) :
    k ≤ capacity c abandoned ↔ k ≤ c ∧ ∀ size ∈ abandoned, k ≤ size := by
  unfold capacity
  induction abandoned generalizing c with
  | nil => simp
  | cons size abandoned ih =>
    rw [List.foldl_cons, ih, Nat.le_min, List.forall_mem_cons, and_assoc]

theorem capacity_le (c : ℕ) (abandoned : List ℕ) : capacity c abandoned ≤ c :=
  ((le_capacity abandoned).mp (Nat.le_refl _)).1

/-- The size and the status of a request with a buffer of `cap` bytes that has read a
message of `size` bytes. -/
structure HasRead (request : CheckRequest) (cap size : ℕ) : Prop where
  size_eq : request.size = min cap size
  truncated_iff : request.status = .MCAPI_ERR_MSG_TRUNCATED ↔ cap < size

/-- What the program of the check and the request hold, when `cap` bytes are left. -/
def CheckPc (request : CheckRequest) (cap : ℕ) : ReadPc → Prop
  | .idle => request.size = cap
  | .readCounter f _ | .readState f _ _ | .readBuffIndex f _ _ =>
    f.buffer_size = cap ∧ request.size = cap
  | .recvBuffIndex f _ _ | .setParent f _ _ _ | .readSize f _ _ _ | .copy f _ _ _ _ _ =>
    f.buffer_size = cap ∧ request.size = cap ∧ request.status = .MCAPI_SUCCESS
  | .confirm f _ _ _ d => f.buffer_size = cap ∧ HasRead request cap d.received_size
  | .casReceived .. | .freeMarker _ | .freeRead _ | .freeCas .. | .freeParent _
  | .freeEntry .. | .failed => False

/-- The invariant of a request with a buffer of `c` bytes. -/
structure CheckInv (c : ℕ) (s : CheckSys ω ρ) : Prop where
  channel : s.base.sh.q.channel_type = MCAPI_NO_CHAN
  pending : s.confirmed = none → s.request.completed = false ∧
    CheckPc s.request (capacity c s.abandoned) (s.base.rpc none)
  done : ∀ r, s.confirmed = some r → s.request.completed = true ∧ s.base.rpc none = .idle ∧
    r.args.buffer_size = capacity c s.abandoned ∧
    HasRead s.request (capacity c s.abandoned) r.delivery.received_size

/-! ## Every step keeps it -/

omit [DecidableEq ω] [DecidableEq ρ] in
theorem CheckInv.init (pool : ℕ → buffer_entry) (c : ℕ) :
    CheckInv c (CheckSys.init ω ρ pool c) where
  channel := rfl
  pending := fun _ => ⟨rfl, rfl⟩
  done := nofun

theorem casState_channel (sh : Shared) (j : ℕ) (old new : mcapi_buffer_state) :
    (sh.casState j old new).2.q.channel_type = sh.q.channel_type := by
  unfold Shared.casState
  split <;> rfl

theorem casMagic_channel (sh : Shared) (i old new : ℕ) :
    (sh.casMagic i old new).2.q.channel_type = sh.q.channel_type := by
  unfold Shared.casMagic
  split <;> rfl

theorem writeProgram_channel (K : ℕ) (sh : Shared) (p : WritePc) :
    (writeProgram K sh p).1.q.channel_type = sh.q.channel_type := by
  cases p with
  | casMarker | casAllocated =>
    simp only [writeProgram]
    split
    · simp only [casMagic_channel, casState_channel]
    · simp only [casMagic_channel, casState_channel]
  | allocBuffer =>
    simp only [writeProgram]
    split
    · split
      · simp only [casMagic_channel]
      · simp only [casMagic_channel]
    · rfl
  | copy =>
    simp only [writeProgram]
    split
    · rfl
    · split <;> rfl
  | giveUp | rereadState | casCounter =>
    simp only [writeProgram]
    split <;> rfl
  | idle | incCounter | readState | readBuffIndex | reserve | setFree | clearBuffIndex
  | setBuffIndex | setParent | setSize | failed => rfl

theorem readProgram_channel (K now : ℕ) (sh : Shared) (p : ReadPc) :
    (readProgram K now sh p).1.q.channel_type = sh.q.channel_type := by
  cases p with
  | freeCas => exact casMagic_channel ..
  | freeEntry => exact casState_channel ..
  | readBuffIndex =>
    simp only [readProgram]
    split
    · rfl
    · split <;> rfl
  | copy =>
    simp only [readProgram]
    split
    · rfl
    · rfl
    · split <;> rfl
  | casReceived | confirm | freeMarker | freeParent =>
    simp only [readProgram]
    split <;> rfl
  | idle | readCounter | readState | recvBuffIndex | setParent | readSize | freeRead | failed => rfl

variable {K c : ℕ} {s s' : CheckSys ω ρ} {base : StateSys ω (Option ρ)}

/-- The others leave the program of the check and the type of the channel alone. -/
theorem stateStep_others {a : StateLabel ω (Option ρ)} (ha : ofOthers a = true)
    {b b' : StateSys ω (Option ρ)} (h : stateStep K b a = some b') :
    b'.rpc none = b.rpc none ∧ b'.sh.q.channel_type = b.sh.q.channel_type := by
  have hupdate : ∀ (y : Option ρ) (pc : ReadPc), y.isSome = true →
      Function.update b.rpc y pc none = b.rpc none := by
    rintro y pc hy
    refine Function.update_of_ne ?_ _ _
    rintro rfl
    cases hy
  cases a with
  | send x m =>
    simp only [stateStep, Option.ite_none_right_eq_some, Option.some.injEq] at h
    obtain ⟨-, rfl⟩ := h
    exact ⟨rfl, rfl⟩
  | recv y f =>
    simp only [stateStep, Option.ite_none_right_eq_some, Option.some.injEq] at h
    obtain ⟨-, rfl⟩ := h
    exact ⟨hupdate y _ ha, rfl⟩
  | free y i =>
    simp only [stateStep, Option.ite_none_right_eq_some, Option.some.injEq] at h
    obtain ⟨-, rfl⟩ := h
    exact ⟨hupdate y _ ha, rfl⟩
  | stepWrite x =>
    simp only [stateStep, Option.some.injEq] at h
    subst h
    exact ⟨rfl, writeProgram_channel ..⟩
  | stepRead y =>
    simp only [stateStep, Option.some.injEq] at h
    subst h
    exact ⟨hupdate y _ ha, readProgram_channel ..⟩

omit [DecidableEq ω] [DecidableEq ρ] in
/-- A step that does nothing with the request. -/
theorem CheckInv.move (h : CheckInv c s) (hconfirmed : s.confirmed = none)
    (hchannel : base.sh.q.channel_type = MCAPI_NO_CHAN)
    (hpc : CheckPc s.request (capacity c s.abandoned) (base.rpc none)) :
    CheckInv c { s with base := base } where
  channel := hchannel
  pending := fun _ => ⟨(h.pending hconfirmed).1, hpc⟩
  done := by
    intro r hr
    rw [hconfirmed] at hr
    cases hr

omit [DecidableEq ω] in
/-- What the step of the check does, from each of its program points. -/
theorem afterStep_inv (h : CheckInv c s) {now : ℕ} {sh : Shared}
    (hsh : sh.q.channel_type = MCAPI_NO_CHAN) (hchannel : base.sh.q.channel_type = MCAPI_NO_CHAN)
    (hrpc : base.rpc none = (readProgram K now sh (s.base.rpc none)).2.1) :
    CheckInv c (afterStep s base (s.base.rpc none) (base.rpc none)) := by
  cases hconfirmed : s.confirmed with
  | some r =>
    -- the check has returned
    obtain ⟨hcompleted, hidle, hrest⟩ := h.done r hconfirmed
    rw [hidle] at hrpc ⊢
    have hrpc' : base.rpc none = .idle := hrpc
    rw [hrpc']
    refine ⟨hchannel, fun hnone => ?_, fun r' hr' => ⟨hcompleted, hrpc', ?_⟩⟩
    · exact absurd (hconfirmed.symm.trans hnone) (by simp)
    · obtain rfl := Option.some.inj (hconfirmed.symm.trans hr')
      exact hrest
  | none =>
    obtain ⟨hcompleted, hpc⟩ := h.pending hconfirmed
    cases hp : s.base.rpc none with
    | idle =>
      rw [hp] at hrpc hpc
      have hrpc' : base.rpc none = .idle := hrpc
      rw [hrpc']
      exact h.move hconfirmed hchannel (by rw [hrpc']; exact hpc)
    | readCounter f g =>
      rw [hp] at hrpc hpc
      have hrpc' : base.rpc none = .readState f ⟨g.began, now⟩ sh.q.update_counter := hrpc
      rw [hrpc']
      exact h.move hconfirmed hchannel (by rw [hrpc']; exact hpc)
    | readState f g counter =>
      rw [hp] at hrpc hpc
      have hrpc' : base.rpc none = .readBuffIndex f g counter := hrpc
      rw [hrpc']
      exact h.move hconfirmed hchannel (by rw [hrpc']; exact hpc)
    | readBuffIndex f g counter =>
      rw [hp] at hrpc hpc
      simp only [readProgram, hsh, reduceCtorEq, if_false] at hrpc
      split at hrpc
      · -- no message: the request keeps what the rounds before have left of its buffer
        rw [hrpc]
        exact h.move hconfirmed hchannel (by rw [hrpc]; exact hpc.2)
      · rw [hrpc]
        refine ⟨hchannel, fun _ => ⟨hcompleted, ?_⟩, fun r hr => ?_⟩
        · dsimp only [afterStep]
          rw [hrpc]
          exact ⟨hpc.1, hpc.2, rfl⟩
        · exact absurd (hconfirmed.symm.trans hr) (by simp)
    | recvBuffIndex f g counter =>
      rw [hp] at hrpc hpc
      have hrpc' : base.rpc none = .setParent f g counter
          (bufferIndex (sh.q.elements (readSlot K counter)).buff_index) := hrpc
      rw [hrpc']
      exact h.move hconfirmed hchannel (by rw [hrpc']; exact hpc)
    | setParent f g counter index =>
      rw [hp] at hrpc hpc
      have hrpc' : base.rpc none = .readSize f g counter index := hrpc
      rw [hrpc']
      exact h.move hconfirmed hchannel (by rw [hrpc']; exact hpc)
    | readSize f g counter index =>
      rw [hp] at hrpc hpc
      have hrpc' : base.rpc none = .copy f g counter index (sh.buffers index).size [] := hrpc
      rw [hrpc']
      exact h.move hconfirmed hchannel (by rw [hrpc']; exact hpc)
    | copy f g counter index size data =>
      rw [hp] at hrpc hpc
      simp only [readProgram, hsh] at hrpc
      split at hrpc
      · rw [hrpc]
        exact h.move hconfirmed hchannel (by rw [hrpc]; exact hpc)
      · -- the size and the status of the request are set
        rw [hrpc]
        obtain ⟨hf, hsize, hstatus⟩ := hpc
        refine ⟨hchannel, fun _ => ?_, fun r hr => ?_⟩
        · dsimp only [afterStep]
          rw [hrpc]
          split
          · rename_i hlarger
            rw [hsize] at hlarger
            refine ⟨hcompleted, hf, ?_, ?_⟩
            · rw [Nat.min_eq_left (Nat.le_of_lt hlarger)]
              exact hsize
            · exact iff_of_true rfl hlarger
          · rename_i hsmall
            rw [hsize] at hsmall
            refine ⟨hcompleted, hf, ?_, ?_⟩
            · rw [Nat.min_eq_right (Nat.not_lt.mp hsmall)]
            · refine iff_of_false ?_ hsmall
              rw [hstatus]
              simp
        · exact absurd (hconfirmed.symm.trans hr) (by simp)
    | confirm f g counter index d =>
      rw [hp] at hrpc hpc
      obtain ⟨hf, hread⟩ := hpc
      simp only [readProgram] at hrpc
      split at hrpc
      · -- confirmed
        rw [hrpc]
        refine ⟨hchannel, (fun h => by cases h), fun r hr => ?_⟩
        obtain rfl := Option.some.inj hr
        exact ⟨rfl, hrpc, hf, hread.size_eq, hread.truncated_iff⟩
      · -- abandoned
        rw [hrpc]
        refine ⟨hchannel, fun _ => ⟨hcompleted, ?_⟩, fun r hr => ?_⟩
        · dsimp only [afterStep]
          rw [Function.update_self, capacity_append]
          exact ⟨hread.size_eq, hread.size_eq⟩
        · exact absurd (hconfirmed.symm.trans hr) (by simp)
    | casReceived | freeMarker | freeRead | freeCas | freeParent | freeEntry | failed =>
      rw [hp] at hpc
      exact hpc.elim

/-- **Every step keeps the invariant of the request.** -/
theorem CheckInv.step (h : CheckInv c s) {a : CheckLabel ω ρ} (hmove : checkStep K s a = some s') :
    CheckInv c s' := by
  cases a with
  | other a =>
    simp only [checkStep, Option.ite_none_right_eq_some] at hmove
    obtain ⟨ha, hmove⟩ := hmove
    obtain ⟨b, hb, rfl⟩ := Option.map_eq_some_iff.mp hmove
    obtain ⟨hrpc, hchannel⟩ := stateStep_others ha hb
    refine ⟨hchannel.trans h.channel, fun hnone => ?_, fun r hr => ?_⟩
    · rw [hrpc]
      exact h.pending hnone
    · rw [hrpc]
      exact h.done r hr
  | check =>
    simp only [checkStep, Option.ite_none_left_eq_some] at hmove
    obtain ⟨hcompleted, hmove⟩ := hmove
    obtain ⟨b, hb, rfl⟩ := Option.map_eq_some_iff.mp hmove
    simp only [stateStep, Option.ite_none_right_eq_some, Option.some.injEq] at hb
    obtain ⟨hidle, rfl⟩ := hb
    have hconfirmed : s.confirmed = none := by
      by_contra hne
      obtain ⟨r, hr⟩ := Option.ne_none_iff_exists'.mp hne
      exact hcompleted (h.done r hr).1
    have hpc := (h.pending hconfirmed).2
    have hrpc : s.base.rpc none = .idle := by
      cases hp : s.base.rpc none <;> rw [hp] at hidle <;> first | rfl | cases hidle
    rw [hrpc] at hpc
    refine h.move hconfirmed h.channel ?_
    simp only [Function.update_self]
    exact ⟨hpc, hpc⟩
  | step =>
    rw [checkStep] at hmove
    obtain ⟨b, hb, rfl⟩ := Option.map_eq_some_iff.mp hmove
    simp only [stateStep, Option.some.injEq] at hb
    have hrpc : b.rpc none =
        (readProgram K s.base.now s.base.sh (s.base.rpc none)).2.1 := by
      rw [← hb]
      simp only [Function.update_self]
    have hchannel : b.sh.q.channel_type = MCAPI_NO_CHAN := by
      rw [← hb]
      exact (readProgram_channel ..).trans h.channel
    exact afterStep_inv h h.channel hchannel hrpc

/-- What a completed request holds, in every run. -/
theorem confirmed_request {pool : ℕ → buffer_entry} {r : Receipt}
    (hrun : Run (checkStep K) (fun _ _ _ => True) (CheckSys.init ω ρ pool c) s)
    (hr : s.confirmed = some r) :
    s.request.completed = true ∧ r.args.buffer_size = capacity c s.abandoned ∧
      HasRead s.request (capacity c s.abandoned) r.delivery.received_size := by
  have hinv : CheckInv c s := hrun.invariant (fun _ _ _ h hmove _ => h.step hmove) (.init pool c)
  obtain ⟨hcompleted, -, hargs, hread⟩ := hinv.done r hr
  exact ⟨hcompleted, hargs, hread⟩

/-! ## The message that is confirmed -/

/-- What the steps of a run are asked for: no two sends overlap, and a window test of the
check that succeeds is in the window. -/
def Guarded (K : ℕ) (s : CheckSys ω ρ) : CheckLabel ω ρ → Prop
  | .other a => SendsAlone s.base a
  | .check => True
  | .step => ConfirmsInWindow K s.base (.stepRead none)

omit [DecidableEq ω] in
/-- A receive that starts over may do so with another size. -/
theorem stateInv_retry {b : StateSys ω (Option ρ)} (h : StateInv MCAPI_NO_CHAN K b)
    {f : RecvArgs} {g : Moment} (hrpc : b.rpc none = .readCounter f g) (f' : RecvArgs) :
    StateInv MCAPI_NO_CHAN K
      { b with rpc := Function.update b.rpc none (.readCounter f' g) } where
  core := h.core
  writers := h.writers
  readers := by
    intro y
    by_cases hy : y = none
    · have hok := h.readers none
      rw [hrpc] at hok
      simp only [hy, Function.update_self]
      exact hok
    · simp only [Function.update_of_ne hy]
      exact h.readers y
  held := h.held

omit [DecidableEq ω] in
/-- The step of the check keeps the invariant of the exchange. -/
theorem afterStep_base (h : StateInv MCAPI_NO_CHAN K base) (pc : ReadPc) :
    StateInv MCAPI_NO_CHAN K (afterStep s base pc (base.rpc none)).base := by
  unfold afterStep
  split
  · exact h
  · exact h
  · rename_i hrpc
    exact stateInv_retry h hrpc _
  · exact h
  · exact h

omit [DecidableEq ω] in
/-- It confirms what the program of the receive returns. -/
theorem afterStep_confirmed {now : ℕ} {sh : Shared} {pc : ReadPc} {r : Receipt}
    (hr : (afterStep s base pc (readProgram K now sh pc).2.1).confirmed = some r) :
    s.confirmed = some r ∨ (readProgram K now sh pc).2.2 = some r := by
  cases pc with
  | confirm f g counter index d =>
    simp only [readProgram] at hr ⊢
    split at hr
    · rename_i htest
      rw [if_pos htest]
      exact .inr hr
    · exact .inl hr
  | _ =>
    left
    unfold afterStep at hr
    split at hr <;> first | exact hr | contradiction

/-- What was sent stays sent. -/
theorem stateStep_sent {a : StateLabel ω (Option ρ)} {b b' : StateSys ω (Option ρ)}
    (h : stateStep K b a = some b') :
    ∃ calls results, b'.calls = b.calls ++ calls ∧ b'.results = b.results ++ results := by
  cases a with
  | send x m =>
    simp only [stateStep, Option.ite_none_right_eq_some, Option.some.injEq] at h
    obtain ⟨-, rfl⟩ := h
    exact ⟨[], [], (List.append_nil _).symm, (List.append_nil _).symm⟩
  | recv y f =>
    simp only [stateStep, Option.ite_none_right_eq_some, Option.some.injEq] at h
    obtain ⟨-, rfl⟩ := h
    exact ⟨[], [], (List.append_nil _).symm, (List.append_nil _).symm⟩
  | free y i =>
    simp only [stateStep, Option.ite_none_right_eq_some, Option.some.injEq] at h
    obtain ⟨-, rfl⟩ := h
    exact ⟨[], [], (List.append_nil _).symm, (List.append_nil _).symm⟩
  | stepWrite x =>
    simp only [stateStep, Option.some.injEq] at h
    subst h
    exact ⟨_, _, rfl, rfl⟩
  | stepRead y =>
    simp only [stateStep, Option.some.injEq] at h
    subst h
    exact ⟨[], [], (List.append_nil _).symm, (List.append_nil _).symm⟩

theorem Delivered.step {a : StateLabel ω (Option ρ)} {b b' : StateSys ω (Option ρ)} {r : Receipt}
    (hr : Delivered MCAPI_NO_CHAN b.calls b.results r) (h : stateStep K b a = some b') :
    Delivered MCAPI_NO_CHAN b'.calls b'.results r := by
  obtain ⟨calls, results, hcalls, hresults⟩ := stateStep_sent h
  rw [hcalls, hresults]
  exact hr.mono calls results

/-- The request is complete with the first `min c m` bytes of the message, and with
`MCAPI_ERR_MSG_TRUNCATED` exactly if the message is larger than `c`. -/
structure Delivers (c : ℕ) (m : Msg) (request : CheckRequest) (r : Receipt) : Prop where
  completed : request.completed = true
  size : request.size = min c m.buffer_size
  payload : r.delivery.payload = .message ((List.range (min c m.buffer_size)).map m.buffer)
  truncated_iff : request.status = .MCAPI_ERR_MSG_TRUNCATED ↔ m.buffer_size > c

/-- **A retried receive is right if and only if no message that it abandoned was shorter than
what it is to deliver**, in every run and for the message that is confirmed in it. -/
theorem retried_receive_iff {pool : ℕ → buffer_entry} {r : Receipt} {m : Msg}
    (hrun : Run (checkStep K) (fun _ _ _ => True) (CheckSys.init ω ρ pool c) s)
    (hr : s.confirmed = some r)
    (hm : r.delivery = stateDelivery MCAPI_NO_CHAN m r.index r.args.buffer_size) :
    Delivers c m s.request r ↔ ∀ size ∈ s.abandoned, min c m.buffer_size ≤ size := by
  obtain ⟨hcompleted, hargs, hread⟩ := confirmed_request hrun hr
  have hle := capacity_le c s.abandoned
  have hsize : r.delivery.received_size = m.buffer_size := by rw [hm]; rfl
  have hpayload : r.delivery.payload =
      .message ((List.range (min m.buffer_size (capacity c s.abandoned))).map m.buffer) := by
    rw [hm, hargs]
    rfl
  rw [hsize] at hread
  constructor
  · intro h
    -- the buffer that was left is as large as the part that is delivered
    have hmin : min (capacity c s.abandoned) m.buffer_size = min c m.buffer_size :=
      hread.size_eq.symm.trans h.size
    have hcap : min c m.buffer_size ≤ capacity c s.abandoned := by omega
    exact ((le_capacity _).mp hcap).2
  · intro h
    have hcap : min c m.buffer_size ≤ capacity c s.abandoned :=
      (le_capacity _).mpr ⟨Nat.min_le_left _ _, h⟩
    have hmin : min (capacity c s.abandoned) m.buffer_size = min c m.buffer_size := by omega
    refine ⟨hcompleted, hread.size_eq.trans hmin, ?_, ?_⟩
    · rw [hpayload, Nat.min_comm, hmin]
    · rw [hread.truncated_iff]
      omega

end System

/-! ## Two runs -/

/-- A message of two bytes. -/
def twoBytes : Msg := ⟨fun _ => 9, 2, 0, two_le_max_msg_size⟩

/-- A send of the first message, the check up to the window test, a send of the second
message to the same entry, and the rest of the check. -/
def collision (m m' : Msg) : List (CheckLabel Unit Empty) :=
  .other (.send () m) :: List.replicate (m.buffer_size + 12) (.other (.stepWrite ())) ++
    .check :: List.replicate (m.buffer_size + 7) .step ++
    .other (.send () m') :: List.replicate (m'.buffer_size + 10) (.other (.stepWrite ())) ++
    List.replicate 10 .step

/-- The message that was abandoned is longer than the one that is delivered. -/
theorem retried_receive_shorter : ∃ (s : CheckSys Unit Empty) (r : Receipt),
    s.abandoned = [2] ∧ Delivers 2 .oneByte s.request r := by
  have hexec : (exec (checkStep 1) (fun _ _ _ => true)
      (CheckSys.init Unit Empty (fun _ => .zero) 2) (collision twoBytes .oneByte)).any
      (fun s => decide (s.abandoned = [2]) && s.confirmed.any fun r =>
        decide (r.delivery = stateDelivery MCAPI_NO_CHAN .oneByte r.index r.args.buffer_size)) =
        true := by
    decide +kernel
  obtain ⟨s, hrun, hs⟩ := exec_run_of_any hexec
  rw [Bool.and_eq_true, decide_eq_true_eq] at hs
  obtain ⟨habandoned, hconfirmed⟩ := hs
  obtain ⟨r, hr, hm⟩ := (Option.any_eq_true _ _).mp hconfirmed
  refine ⟨s, r, habandoned, (retried_receive_iff (hrun.mono fun _ _ _ _ => trivial) hr
    (of_decide_eq_true hm)).mpr ?_⟩
  rw [habandoned]
  decide

/-- A message of one byte is abandoned, and then one of two bytes is confirmed: of this, one
byte is delivered, and it is reported to be truncated, though the buffer has two. -/
theorem retried_receive_cuts : ¬ ∀ (K c : ℕ) (pool : ℕ → buffer_entry) (s : CheckSys Unit Empty)
    (r : Receipt) (m : Msg), 0 < K →
    Run (checkStep K) (fun s a _ => Guarded K s a) (CheckSys.init Unit Empty pool c) s →
    s.confirmed = some r → r.delivery = stateDelivery MCAPI_NO_CHAN m r.index r.args.buffer_size →
    Delivers c m s.request r := by
  intro hall
  have hexec : (exec (checkStep 1)
      (fun s a _ => match a with
        | .step => decide (ConfirmsInWindow 1 s.base (.stepRead none))
        | _ => true)
      (CheckSys.init Unit Empty (fun _ => .zero) 2) (collision .oneByte twoBytes)).any
      (fun s => decide (s.request.size = 1) && s.confirmed.any fun r =>
        decide (r.delivery = stateDelivery MCAPI_NO_CHAN twoBytes r.index r.args.buffer_size)) =
        true := by
    decide +kernel
  obtain ⟨s, hrun, hs⟩ := exec_run_of_any hexec
  rw [Bool.and_eq_true, decide_eq_true_eq] at hs
  obtain ⟨hsize, hconfirmed⟩ := hs
  obtain ⟨r, hr, hm⟩ := (Option.any_eq_true _ _).mp hconfirmed
  have hguarded : Run (checkStep 1) (fun s a _ => Guarded 1 s a)
      (CheckSys.init Unit Empty (fun _ => .zero) 2) s := by
    refine hrun.mono fun s a _ hg => ?_
    cases a with
    | other a => exact sendsAlone_unit s.base a
    | check => trivial
    | step =>
      have hwindow : ConfirmsInWindow 1 s.base (.stepRead none) := of_decide_eq_true hg
      exact hwindow
  have hdelivers := hall 1 2 _ s r twoBytes (by decide) hguarded hr (of_decide_eq_true hm)
  exact absurd (hsize.symm.trans hdelivers.size) (by decide)

end MxApi.StateRequest
