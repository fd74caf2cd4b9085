/-
The two transports under one client.

Every call is issued in both, with the requests that each of them reserves. In the
lock-based transport a test completes its receive as soon as the message is there. In
the lock-free one the receives of an endpoint are completed in the order of their
entries: the test of one that is not at the front of the queue changes nothing. So the
lock-free client lags behind the other, but what it completes it completes with the
same status, size and bytes ([`transports_agree`]).

Both clients keep the same mailboxes, and the two sides never look at each other.
-/
import MxApi.Lib.Run
import MxApi.Mcapi.BaselineMailboxes
import MxApi.Mcapi.LockFreeMailboxes

set_option autoImplicit false

namespace MxApi.Messages

open Lib CallStatus

/-! ## Both clients -/

structure Both (E : Type) where
  base : Client (Baseline.Transport E)
  free : Client (LockFree.Transport E)

/-- A call, with the requests that it reserves in the two transports. -/
structure BothCall (E : Type) where
  call : MessageCall E
  base : ℕ
  free : ℕ

def initialBoth (E : Type) : Both E := ⟨Baseline.initialClient E, LockFree.initialClient E⟩

section Calls

variable {E : Type} [DecidableEq E]

def bothStep (s : Both E) (c : BothCall E) : Option (Both E) :=
  match clientCall (Baseline.api E) s.base c.base c.call,
    clientCall (LockFree.api E) s.free c.free c.call with
  | some (base, _), some (free, _) => some ⟨base, free⟩
  | _, _ => none

/-- Requests are reserved that are free, operations are tested that were started, and
neither transport lacks room. -/
def withinBounds (s : Both E) (c : BothCall E) : Prop :=
  (Baseline.enabled s.base c.base c.call ∧ s.base.transport.room c.call) ∧
    LockFree.enabled s.free c.free c.call ∧ s.free.transport.room c.call

/-- The condition on a call under which the transports agree. -/
def goodBothCall (s : Both E) (c : BothCall E) : Prop :=
  withinBounds s c ∧ LockFree.orderly s.free c.call

instance (c : Client (Baseline.Transport E)) (r : ℕ) :
    ∀ call : MessageCall E, Decidable (Baseline.enabled c r call)
  | .send _ _ | .recv _ _ => inferInstanceAs (Decidable (_ = true))
  | .test _ => inferInstanceAs (Decidable (_ < _))

instance (s : Baseline.Transport E) : ∀ call : MessageCall E, Decidable (s.room call)
  | .send _ _ => inferInstanceAs (Decidable (_ ∧ _))
  | .recv _ _ => inferInstanceAs (Decidable (_ → _))
  | .test _ => inferInstanceAs (Decidable True)

instance (c : Client (LockFree.Transport E)) (r : ℕ) :
    ∀ call : MessageCall E, Decidable (LockFree.enabled c r call)
  | .send _ _ | .recv _ _ => inferInstanceAs (Decidable (_ = true))
  | .test _ => inferInstanceAs (Decidable (_ < _))

instance (s : LockFree.Transport E) : ∀ call : MessageCall E, Decidable (s.room call)
  | .send _ _ => inferInstanceAs (Decidable (_ ∧ _))
  | .recv _ _ => inferInstanceAs (Decidable (_ → _))
  | .test _ => inferInstanceAs (Decidable True)

instance (q : queue) : Decidable (LockFree.tailFree q) := inferInstanceAs (Decidable (_ ∧ _))

instance (q : queue) : Decidable (LockFree.headOpen q) := by
  unfold LockFree.headOpen
  infer_instance

instance (c : Client (LockFree.Transport E)) :
    ∀ call : MessageCall E, Decidable (LockFree.orderly c call)
  | .send e _ => inferInstanceAs (Decidable (LockFree.tailFree (c.transport.recv_queue e)))
  | .recv e _ => inferInstanceAs (Decidable (LockFree.headOpen (c.transport.recv_queue e)))
  | .test k => inferInstanceAs (Decidable (∀ x ∈ c.started[k]?, _ → _))

instance (s : Both E) (c : BothCall E) : Decidable (withinBounds s c) :=
  inferInstanceAs (Decidable (_ ∧ _))

instance (s : Both E) (c : BothCall E) : Decidable (goodBothCall s c) :=
  inferInstanceAs (Decidable (_ ∧ _))

/-! ## Agreement -/

/-- What one client has completed the other has completed too, with the same status,
size and bytes. -/
structure Agree (s : Both E) : Prop where
  length : s.base.started.length = s.free.started.length
  completed : ∀ (k : ℕ) (y : ClientRequest) (c : Completion), s.free.started[k]? = some y →
    y.outcome = some c →
      ∃ x, s.base.started[k]? = some x ∧ x.outcome = some c ∧ x.buffer = y.buffer

/-- Operation `k` has come out the same in both clients, or in neither. -/
def SameOperation (s : Both E) (k : ℕ) : Prop :=
  ∃ x y, s.base.started[k]? = some x ∧ s.free.started[k]? = some y ∧
    x.outcome = y.outcome ∧ x.buffer = y.buffer

/-- The call returns in both transports. A send or a receive replies the same, and the
new operation is the same. After a test the operation is the same too, unless the
lock-free transport holds it back; then it is left as it is. -/
def CallsAgree (s : Both E) (c : BothCall E) : Prop :=
  ∃ s' reply reply', bothStep s c = some s' ∧
    clientCall (Baseline.api E) s.base c.base c.call = some (s'.base, reply) ∧
    clientCall (LockFree.api E) s.free c.free c.call = some (s'.free, reply') ∧
    match c.call with
    | .send _ _ | .recv _ _ => reply = reply' ∧ SameOperation s' s.base.started.length
    | .test k =>
      if LockFree.heldBack s.free c.call then
        reply' = ⟨some false, MCAPI_SUCCESS, none, none⟩ ∧ s'.free.started = s.free.started
      else SameOperation s' k ∧ (SameOperation s k → reply = reply')

end Calls

/-! ## What a test makes of an operation -/

section Answers

variable {E : Type} {f : Mailboxes E} {ready : ℕ → Completion → Prop}
  {waiting : ℕ → E → ℕ → ℕ → Prop} {x : ClientRequest} {o : Operation E}

/-- A test that is not held back leaves what is due. -/
theorem Tracked.answer (h : Tracked f ready waiting x o) :
    (f.answer false x o).1.outcome = (f.due o).map Prod.fst ∧
      (f.answer false x o).1.buffer = (f.due o).bind Prod.snd := by
  cases h with
  | ended hdue =>
    rw [Mailboxes.answer_over, hdue]
    exact ⟨rfl, rfl⟩
  | ready hr h => exact ⟨rfl, rfl⟩
  | waits hr h =>
    rename_i r j size e
    cases hdue : f.due (.wait e j size) with
    | none =>
      rw [Mailboxes.answer_none (Or.inr hdue)]
      exact ⟨rfl, rfl⟩
    | some d =>
      rw [Mailboxes.answer_some hdue]
      exact ⟨rfl, rfl⟩

/-- An operation that is held back is left alone. -/
theorem Mailboxes.answer_held (hx : x.outcome = none) :
    f.answer true x o = (x, ⟨some false, MCAPI_SUCCESS, none, none⟩) := by
  rw [answer, hx]
  rfl

/-- What is held back is not over. -/
theorem Tracked.not_over [DecidableEq E] {s : LockFree.Transport E}
    (h : Tracked f ready waiting x o) (hbehind : s.behind x.request = true) :
    x.outcome = none := by
  cases h with
  | ended hdue =>
    have hzero : mcapi_trans_decode_request_handle 0 = none := by decide
    simp only [LockFree.Transport.behind, hzero, Bool.false_eq_true] at hbehind
  | ready hr h => rfl
  | waits hr h => rfl

/-- What is completed was due. -/
theorem Tracked.completed (h : Tracked f ready waiting x o) {c : Completion}
    (hc : x.outcome = some c) : f.due o = some (c, x.buffer) := by
  cases h with
  | ended hdue =>
    rw [Option.some.injEq] at hc
    rw [hdue, hc]
  | ready hr h => cases hc
  | waits hr h => cases hc

/-- What a test replies depends on the operation only through whether it is over. -/
theorem Mailboxes.answer_reply {y : ClientRequest} (hxy : x.outcome = y.outcome) :
    (f.answer false x o).2 = (f.answer false y o).2 := by
  rw [answer, answer, hxy]
  split
  · rfl
  · split
    · rfl
    · rfl

/-- An operation that was started in both, with the same bytes. -/
theorem sameOperation_start {E : Type} {s s' : Both E} {r r' : ℕ} {buffer : Option Bytes}
    (hlen : s.base.started.length = s.free.started.length)
    (hbase : s'.base.started = s.base.started ++ [⟨r, buffer, none⟩])
    (hfree : s'.free.started = s.free.started ++ [⟨r', buffer, none⟩]) :
    SameOperation s' s.base.started.length := by
  refine ⟨⟨r, buffer, none⟩, ⟨r', buffer, none⟩, ?_, ?_, rfl, rfl⟩
  · rw [hbase, List.getElem?_concat_length]
  · rw [hfree, hlen, List.getElem?_concat_length]

end Answers

/-! ## The invariant -/

section Invariant

variable {E : Type} [DecidableEq E] {s : Both E} {c : BothCall E}

/-- Both clients keep the mailboxes, and the lock-free one is not ahead. -/
structure BothInv (s : Both E) (f : Mailboxes E) (issued : E → List Baseline.Receive)
    (h : E → ℕ) (g : LockFree.Ghost E) : Prop where
  base : Baseline.ClientInv s.base f issued h
  free : LockFree.ClientInv s.free f g
  behind : ∀ (k : ℕ) (x y : ClientRequest), s.base.started[k]? = some x →
    s.free.started[k]? = some y → y.outcome.isSome = true → x.outcome.isSome = true

variable {f : Mailboxes E} {issued : E → List Baseline.Receive} {h : E → ℕ}
  {g : LockFree.Ghost E}

theorem BothInv.length (hs : BothInv s f issued h g) :
    s.base.started.length = s.free.started.length :=
  hs.base.tracks.length.trans hs.free.tracks.length.symm

theorem BothInv.agree (hs : BothInv s f issued h g) : Agree s := by
  refine ⟨hs.length, ?_⟩
  intro k y c hy hc
  have hlt : k < s.base.started.length := by
    rw [hs.length]
    exact (List.getElem?_eq_some_iff.mp hy).1
  have hlto : k < f.operations.length := by
    rw [← hs.base.tracks.length]
    exact hlt
  have hx := List.getElem?_eq_getElem hlt
  have ho := List.getElem?_eq_getElem hlto
  have hover := hs.behind k _ y hx hy (by rw [hc]; rfl)
  obtain ⟨c', hc'⟩ := Option.isSome_iff_exists.mp hover
  -- both were due
  have hdue := (hs.free.tracks.tracked k y _ hy ho).completed hc
  have hdue' := (hs.base.tracks.tracked k _ _ hx ho).completed hc'
  rw [hdue, Option.some.injEq, Prod.mk.injEq] at hdue'
  obtain ⟨rfl, hbuffer⟩ := hdue'
  exact ⟨_, hx, hc', hbuffer.symm⟩

/-- An operation that is started is over in neither client. -/
theorem behind_start {xs ys : List ClientRequest} {x y : ClientRequest}
    (hlen : xs.length = ys.length) (hy : y.outcome = none)
    (hover : ∀ (k : ℕ) (a b : ClientRequest), xs[k]? = some a → ys[k]? = some b →
      b.outcome.isSome = true → a.outcome.isSome = true)
    (k : ℕ) (a b : ClientRequest) (ha : (xs ++ [x])[k]? = some a) (hb : (ys ++ [y])[k]? = some b)
    (hb' : b.outcome.isSome = true) : a.outcome.isSome = true := by
  rcases Nat.lt_or_ge k xs.length with hlt | hge
  · rw [List.getElem?_append_left hlt] at ha
    rw [List.getElem?_append_left (by omega)] at hb
    exact hover k a b ha hb hb'
  · rw [List.getElem?_append_right (by omega), List.getElem?_singleton] at hb
    split at hb
    · obtain rfl := Option.some.inj hb
      rw [hy] at hb'
      cases hb'
    · cases hb

/-- A test that leaves an operation over in the lock-free client leaves it over in the
other. -/
theorem behind_set {xs ys : List ClientRequest} {x y : ClientRequest} {k : ℕ}
    (hxy : y.outcome.isSome = true → x.outcome.isSome = true)
    (hover : ∀ (k : ℕ) (a b : ClientRequest), xs[k]? = some a → ys[k]? = some b →
      b.outcome.isSome = true → a.outcome.isSome = true)
    (i : ℕ) (a b : ClientRequest) (ha : (xs.set k x)[i]? = some a) (hb : (ys.set k y)[i]? = some b)
    (hb' : b.outcome.isSome = true) : a.outcome.isSome = true := by
  rw [List.getElem?_set] at ha hb
  split at ha
  · rename_i hki
    rw [if_pos hki] at hb
    split at ha
    · split at hb
      · obtain rfl := Option.some.inj ha
        obtain rfl := Option.some.inj hb
        exact hxy hb'
      · cases hb
    · cases ha
  · rename_i hki
    rw [if_neg hki] at hb
    exact hover i a b ha hb hb'

theorem bothStep_eq {base : Client (Baseline.Transport E)} {free : Client (LockFree.Transport E)}
    {reply reply' : CallReply}
    (hbase : clientCall (Baseline.api E) s.base c.base c.call = some (base, reply))
    (hfree : clientCall (LockFree.api E) s.free c.free c.call = some (free, reply')) :
    bothStep s c = some ⟨base, free⟩ := by
  rw [bothStep, hbase, hfree]

/-- A good call returns in both, and the invariant and the agreement are kept. -/
theorem BothInv.step (hs : BothInv s f issued h g) (hgood : goodBothCall s c) :
    CallsAgree s c ∧ ∀ s', bothStep s c = some s' →
      ∃ f' issued' h' g', BothInv s' f' issued' h' g' := by
  obtain ⟨⟨⟨hbase, hbroom⟩, hfree, hfroom⟩, horderly⟩ := hgood
  obtain ⟨call, rb, rf⟩ := c
  have hlen := hs.length
  cases call with
  | send e a =>
    obtain ⟨b, reply, w, hb, hbinv, ⟨r, hbs⟩, hbr⟩ := hs.base.send hbase hbroom
    obtain ⟨q, reply', g', hq, hqinv, ⟨r', hqs⟩, hqr⟩ := hs.free.send hfree hfroom horderly
    have hstep := bothStep_eq (c := ⟨.send e a, rb, rf⟩) hb hq
    refine ⟨⟨⟨b, q⟩, reply, reply', hstep, hb, hq, by rw [hbr, hqr],
      sameOperation_start hlen hbs hqs⟩, ?_⟩
    intro s' hs'
    rw [hstep, Option.some.injEq] at hs'
    subst hs'
    refine ⟨_, _, _, _, hbinv, hqinv, ?_⟩
    dsimp only
    rw [hbs, hqs]
    exact behind_start hlen rfl hs.behind
  | recv e size =>
    obtain ⟨b, reply, issued', w, hb, hbinv, ⟨r, hbs⟩, hbr⟩ := hs.base.recv hbase hbroom
    obtain ⟨q, reply', g', hq, hqinv, ⟨r', hqs⟩, hqr⟩ := hs.free.recv hfree hfroom horderly
    have hstep := bothStep_eq (c := ⟨.recv e size, rb, rf⟩) hb hq
    refine ⟨⟨⟨b, q⟩, reply, reply', hstep, hb, hq, by rw [hbr, hqr],
      sameOperation_start hlen hbs hqs⟩, ?_⟩
    intro s' hs'
    rw [hstep, Option.some.injEq] at hs'
    subst hs'
    refine ⟨_, _, _, _, hbinv, hqinv, ?_⟩
    dsimp only
    rw [hbs, hqs]
    exact behind_start hlen rfl hs.behind
  | test k =>
    obtain ⟨b, reply, issued', h', hb, hbinv, x, o, hx, ho, hbs, hbr⟩ := hs.base.test hbase
    obtain ⟨q, reply', g', hq, hqinv, y, o', hy, ho', hqs, hqr⟩ := hs.free.test hfree horderly
    rw [ho, Option.some.injEq] at ho'
    subst ho'
    have hstep := bothStep_eq (c := ⟨.test k, rb, rf⟩) hb hq
    have hxt := (hs.base.tracks.tracked k x o hx ho).answer
    have hyt := (hs.free.tracks.tracked k y o hy ho).answer
    have hk : k < s.base.started.length := (List.getElem?_eq_some_iff.mp hx).1
    have hk' : k < s.free.started.length := (List.getElem?_eq_some_iff.mp hy).1
    cases hheld : LockFree.heldBack s.free (.test k) with
    | true =>
      have hnone : y.outcome = none := by
        rw [LockFree.heldBack_test hy] at hheld
        exact (hs.free.tracks.tracked k y o hy ho).not_over hheld
      rw [hheld, Mailboxes.answer_held hnone] at hqs hqr
      refine ⟨⟨⟨b, q⟩, reply, reply', hstep, hb, hq, ?_⟩, ?_⟩
      · dsimp only
        rw [hheld, if_pos rfl, hqs]
        obtain ⟨_, rfl⟩ := List.getElem?_eq_some_iff.mp hy
        exact ⟨hqr, List.set_getElem_self hk'⟩
      · intro s' hs'
        rw [hstep, Option.some.injEq] at hs'
        subst hs'
        refine ⟨_, _, _, _, hbinv, hqinv, ?_⟩
        dsimp only
        rw [hbs, hqs]
        apply behind_set _ hs.behind
        rw [hnone]
        intro hc
        cases hc
    | false =>
      rw [hheld] at hqs hqr
      have hsame : (f.answer false x o).1.outcome = (f.answer false y o).1.outcome := by
        rw [hxt.1, hyt.1]
      refine ⟨⟨⟨b, q⟩, reply, reply', hstep, hb, hq, ?_⟩, ?_⟩
      · dsimp only
        rw [hheld, if_neg Bool.false_ne_true]
        refine ⟨⟨_, _, ?_, ?_, hsame, by rw [hxt.2, hyt.2]⟩, ?_⟩
        · rw [hbs, List.getElem?_set_self hk]
        · rw [hqs, List.getElem?_set_self hk']
        · rintro ⟨x', y', hx', hy', hxy, -⟩
          rw [hx, Option.some.injEq] at hx'
          rw [hy, Option.some.injEq] at hy'
          subst hx' hy'
          rw [hbr, hqr]
          exact Mailboxes.answer_reply hxy
      · intro s' hs'
        rw [hstep, Option.some.injEq] at hs'
        subst hs'
        refine ⟨_, _, _, _, hbinv, hqinv, ?_⟩
        dsimp only
        rw [hbs, hqs]
        apply behind_set _ hs.behind
        rw [hsame]
        exact id

theorem initialBoth_inv (E : Type) [DecidableEq E] : ∃ f issued h g,
    BothInv (initialBoth E) f issued h g := by
  refine ⟨_, _, _, _, Baseline.initialClient_inv E, LockFree.initialClient_inv E, ?_⟩
  intro k x y hx
  cases hx

end Invariant

/-! ## Runs -/

/-- **The lock-free transport against the lock-based one.** In every run of good calls
what the lock-free client has completed the other has completed in the same way, and the
next good call returns in both and keeps the operations the same. -/
theorem transports_agree {E : Type} [DecidableEq E] (s : Both E)
    (hrun : Run bothStep (fun s c _ => goodBothCall s c) (initialBoth E) s) :
    Agree s ∧ ∀ c, goodBothCall s c → CallsAgree s c := by
  have hinv : ∃ f issued h g, BothInv s f issued h g := by
    refine hrun.invariant (I := fun s => ∃ f issued h g, BothInv s f issued h g) ?_
      (initialBoth_inv E)
    rintro s c s' ⟨f, issued, h, g, hs⟩ hstep hgood
    exact (hs.step hgood).2 s' hstep
  obtain ⟨f, issued, h, g, hs⟩ := hinv
  exact ⟨hs.agree, fun c hgood => (hs.step hgood).1⟩

/-- A receive of four bytes and one of one byte wait for two messages. The second is
tested first, and comes out only when it is tested after the first one. -/
theorem transports_agree_two : ∃ s : Both Unit,
    (s.free.started.map (fun x => (x.outcome, x.buffer)) =
      [(some ⟨MCAPI_SUCCESS, 2⟩, some [7, 8]), (some ⟨MCAPI_ERR_MSG_TRUNCATED, 1⟩, some [5]),
        (none, none), (none, none)]) ∧ Agree s := by
  have hexec : (exec bothStep (fun s c _ => decide (goodBothCall s c)) (initialBoth Unit)
      [⟨.recv () 4, 0, 0⟩, ⟨.recv () 1, 1, 1⟩, ⟨.send () [7, 8], 2, 2⟩, ⟨.send () [5, 6], 3, 3⟩,
        ⟨.test 1, 0, 0⟩, ⟨.test 0, 0, 0⟩, ⟨.test 1, 0, 0⟩]).any
      (fun s => decide (s.free.started.map (fun x => (x.outcome, x.buffer)) =
        [(some ⟨MCAPI_SUCCESS, 2⟩, some [7, 8]), (some ⟨MCAPI_ERR_MSG_TRUNCATED, 1⟩, some [5]),
          (none, none), (none, none)])) = true := by
    decide +kernel
  obtain ⟨s, hrun, hs⟩ := exec_run_of_any hexec
  refine ⟨s, of_decide_eq_true hs, ?_⟩
  exact (transports_agree s (hrun.mono fun _ _ _ hg => of_decide_eq_true hg)).1

/-- Two receives wait and two messages come. The test of the second receive completes it in
the lock-based transport, and not in the lock-free one. -/
theorem transports_disagree : ¬ ∀ s : Both Unit,
    Run bothStep (fun s c _ => withinBounds s c) (initialBoth Unit) s →
      ∀ k < s.base.started.length, SameOperation s k := by
  intro hall
  have hexec : (exec bothStep (fun s c _ => decide (withinBounds s c)) (initialBoth Unit)
      [⟨.recv () 4, 0, 0⟩, ⟨.recv () 1, 1, 1⟩, ⟨.send () [7, 8], 2, 2⟩, ⟨.send () [5, 6], 3, 3⟩,
        ⟨.test 1, 0, 0⟩]).any
      (fun s => decide ((s.base.started[1]?.map ClientRequest.outcome,
        s.free.started[1]?.map ClientRequest.outcome) =
          (some (some ⟨MCAPI_ERR_MSG_TRUNCATED, 1⟩), some none))) = true := by
    decide +kernel
  obtain ⟨s, hrun, hs⟩ := exec_run_of_any hexec
  obtain ⟨hbase, hfree⟩ := Prod.mk.inj (of_decide_eq_true hs)
  obtain ⟨x, hx, hxo⟩ := Option.map_eq_some_iff.mp hbase
  obtain ⟨y, hy, hyo⟩ := Option.map_eq_some_iff.mp hfree
  obtain ⟨x', y', hx', hy', hsame, -⟩ :=
    hall s (hrun.mono fun _ _ _ hg => of_decide_eq_true hg) 1 (List.getElem?_eq_some_iff.mp hx).1
  rw [hx, Option.some.injEq] at hx'
  rw [hy, Option.some.injEq] at hy'
  subst hx' hy'
  rw [hxo, hyo] at hsame
  cases hsame

end MxApi.Messages
