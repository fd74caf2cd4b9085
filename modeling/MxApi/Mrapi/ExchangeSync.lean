/-
Exchange sync objects: one writing and one reading client hand an element back
and forth through its flag `valid`.

The flag says whose turn it is: the writer acquires while it is false, the
reader while it is true, and a release flips it. The release after an acquire
that timed out flips it as well, and gives away a turn the client never had
([`exchange_not_alternating`]). Where such a flip comes to nothing
([`returns`]), what takes effect is a write, a read of what was written, the
next write, and so on ([`exchange_alternates`]).
-/
import MxApi.Mrapi.BarrierHeld

set_option autoImplicit false

namespace MxApi.Barrier

open Lib
open mrapi_atomic_mode_t

variable {D τ : Type}

/-! ## One client -/

/-- The client has performed its operation and has not yet passed the element on. -/
def Client.performed (c : Client D) : Bool :=
  match c.pc with
  | .release _ .acquired | .flip _ .acquired _ | .flipCas _ .acquired _ _ => true
  | _ => false

/-- Where a client with an exchange sync object and operations of mode `m` may
stand, and what it then knows of the flag. -/
def Place (m : mrapi_atomic_mode_t) (e : mrapi_msg_t D) (c : Client D) : Prop :=
  match c.pc with
  | .idle => True
  | .enter op | .spin op _ => op.mode = m ∧ c.axb.mode = m
  | .cas _ _ => False
  | .body op access => op.mode = m ∧ c.axb.mode = m ∧ access = .acquired ∧ e.valid = m.valid
  | .release op access => op.mode = m ∧ c.axb.mode = m ∧ access ≠ .skipped ∧
      (access = .acquired → e.valid = m.valid)
  | .flip op access valid => op.mode = m ∧ c.axb.mode = m ∧ access ≠ .skipped ∧
      (access = .acquired → e.valid = m.valid ∧ valid = !m.valid)
  | .flipCas op access valid previous => op.mode = m ∧ c.axb.mode = m ∧ access ≠ .skipped ∧
      (access = .acquired → e.valid = m.valid ∧ valid = !m.valid ∧ previous = m.valid)

/-- A client of an exchange that neither holds nor overrides. -/
structure Exchanger (m : mrapi_atomic_mode_t) (e : mrapi_msg_t D) (c : Client D) : Prop where
  xchg : c.axb.xchg = true
  override : c.axb.sync.override = false
  hold : c.axb.sync.hold = false
  active : c.axb.sync.active = false
  place : Place m e c

/-- A client whose turn it is not knows nothing of the flag. -/
theorem Exchanger.of_other {m : mrapi_atomic_mode_t} {e : mrapi_msg_t D} {c : Client D}
    (h : Exchanger m e c) (hvalid : e.valid ≠ m.valid) (e' : mrapi_msg_t D) :
    Exchanger m e' c where
  xchg := h.xchg
  override := h.override
  hold := h.hold
  active := h.active
  place := by
    have hplace := h.place
    unfold Place at hplace ⊢
    cases hpc : c.pc with
    | body op access =>
      rw [hpc] at hplace
      exact absurd hplace.2.2.2 hvalid
    | release op access =>
      rw [hpc] at hplace
      exact ⟨hplace.1, hplace.2.1, hplace.2.2.1, fun ha => absurd (hplace.2.2.2 ha) hvalid⟩
    | flip op access valid =>
      rw [hpc] at hplace
      exact ⟨hplace.1, hplace.2.1, hplace.2.2.1, fun ha => absurd (hplace.2.2.2 ha).1 hvalid⟩
    | flipCas op access valid previous =>
      rw [hpc] at hplace
      exact ⟨hplace.1, hplace.2.1, hplace.2.2.1, fun ha => absurd (hplace.2.2.2 ha).1 hvalid⟩
    | _ =>
      rw [hpc] at hplace
      exact hplace

/-- Who has performed its operation has the turn. -/
theorem Exchanger.turn {m : mrapi_atomic_mode_t} {e : mrapi_msg_t D} {c : Client D}
    (h : Exchanger m e c) (hperformed : c.performed = true) : e.valid = m.valid := by
  have hplace := h.place
  unfold Client.performed at hperformed
  unfold Place at hplace
  split at hperformed
  · rename_i op hpc
    rw [hpc] at hplace
    exact hplace.2.2.2 rfl
  · rename_i op valid hpc
    rw [hpc] at hplace
    exact (hplace.2.2.2 rfl).1
  · rename_i op valid previous hpc
    rw [hpc] at hplace
    exact (hplace.2.2.2 rfl).1
  · cases hperformed

/-- What one step of a client does: nothing that others see, its operation, or
passing the element on. -/
inductive Turn (m : mrapi_atomic_mode_t) (e : mrapi_msg_t D) (c : Client D) (e' : mrapi_msg_t D)
    (c' : Client D) : Option (Op D) → Prop
  | quiet (elem : e' = e) (performed : c'.performed = c.performed) : Turn m e c e' c' none
  | act (op : Op D) (hop : op.mode = m) (before : c.performed = false)
      (after : c'.performed = true) (mine : e.valid = m.valid)
      (elem : e' = { e with data := op.apply e.data }) : Turn m e c e' c' (some op)
  | pass (before : c.performed = true) (after : c'.performed = false)
      (elem : e' = { e with valid := !e.valid }) : Turn m e c e' c' none

/-- The flip that the client is about to perform, if any, is its own: after an
acquire that timed out it comes to nothing. -/
def returns (e : mrapi_msg_t D) (c : Client D) : Bool :=
  match c.pc with
  | .flipCas _ .timedOut valid previous => e.valid != previous || e.valid == valid
  | _ => true

theorem failed_performed (c : Client D) (op : Op D) (timeout : ℕ) :
    (c.failed op timeout).performed = false := by
  unfold Client.failed
  split
  · rfl
  · split <;> rfl

theorem Exchanger.failed {m : mrapi_atomic_mode_t} {e : mrapi_msg_t D} {c : Client D}
    (h : Exchanger m e c) {op : Op D} (hop : op.mode = m) (hmode : c.axb.mode = m)
    (timeout : ℕ) : Exchanger m e (c.failed op timeout) := by
  unfold Client.failed
  split
  · exact ⟨h.xchg, h.override, h.hold, h.active, hop, hmode⟩
  · split
    · refine ⟨h.xchg, h.override, h.hold, h.hold, hop, hmode, by decide, fun ha => ?_⟩
      cases ha
    · exact ⟨h.xchg, h.override, h.hold, h.active, hop, hmode⟩

/-- **One step of a client of an exchange.** -/
theorem Exchanger.clientStep {m : mrapi_atomic_mode_t} {e e' : mrapi_msg_t D} {c c' : Client D}
    {t : τ} (h : Exchanger m e c) (hreturns : returns e c = true)
    (hstep : clientStep e c = some (e', c')) :
    Exchanger m e' c' ∧ Turn m e c e' c' (performs c (.step t : Label D τ)) := by
  have hplace := h.place
  unfold Place at hplace
  unfold performs
  unfold Barrier.clientStep at hstep
  cases hpc : c.pc with
  | idle =>
    rw [hpc] at hstep
    cases hstep
  | enter op =>
    rw [hpc] at hstep hplace
    obtain ⟨hop, hmode⟩ := hplace
    have hsynced : c.axb.synced = true := by
      have hm : c.axb.mode ≠ MRAPI_ATOMIC_NONE := by
        rw [hmode, ← hop]
        cases op <;> simp [Op.mode]
      simp [mrapi_atomic_barrier_t.synced, hm, h.xchg, h.active]
    rw [hsynced] at hstep
    cases hstep
    refine ⟨⟨h.xchg, h.override, h.hold, h.active, hop, hmode⟩, .quiet rfl ?_⟩
    simp [Client.performed, hpc, Client.goto]
  | spin op timeout =>
    rw [hpc] at hstep hplace
    obtain ⟨hop, hmode⟩ := hplace
    have hbefore : c.performed = false := by rw [Client.performed, hpc]
    unfold try_acquire at hstep
    rw [h.override, h.xchg] at hstep
    simp only [Bool.false_eq_true, if_false, if_true, Option.some.injEq, Prod.mk.injEq] at hstep
    obtain ⟨rfl, rfl⟩ := hstep
    by_cases hvalid : c.axb.mode.valid = e.valid
    · rw [if_pos hvalid]
      rw [hmode] at hvalid
      exact ⟨⟨h.xchg, h.override, h.hold, h.hold, hop, hmode, rfl, hvalid.symm⟩,
        .quiet rfl hbefore.symm⟩
    · rw [if_neg hvalid]
      exact ⟨h.failed hop hmode timeout,
        .quiet rfl ((failed_performed c op timeout).trans hbefore.symm)⟩
  | cas op timeout =>
    rw [hpc] at hplace
    exact hplace.elim
  | body op access =>
    rw [hpc] at hstep hplace
    obtain ⟨hop, hmode, rfl, hvalid⟩ := hplace
    cases hstep
    refine ⟨⟨h.xchg, h.override, h.hold, h.active, hop, hmode, by decide, fun _ => hvalid⟩, ?_⟩
    exact .act op hop (by rw [Client.performed, hpc]) rfl hvalid rfl
  | release op access =>
    rw [hpc] at hstep hplace
    obtain ⟨hop, hmode, haccess, hvalid⟩ := hplace
    have hsynced : c.axb.synced = true := by
      have hm : c.axb.mode ≠ MRAPI_ATOMIC_NONE := by
        rw [hmode, ← hop]
        cases op <;> simp [Op.mode]
      simp [mrapi_atomic_barrier_t.synced, hm, h.xchg, h.active]
    unfold atomic_barrier_release at hstep
    rw [hsynced, h.xchg] at hstep
    simp only [Bool.true_eq_false, if_false, if_true, Option.some.injEq, Prod.mk.injEq] at hstep
    obtain ⟨rfl, rfl⟩ := hstep
    refine ⟨⟨h.xchg, h.override, h.hold, h.active, hop, hmode, haccess, ?_⟩, ?_⟩
    · intro ha
      exact ⟨hvalid ha, by rw [hvalid ha]⟩
    · refine .quiet rfl ?_
      unfold Client.performed
      rw [hpc]
      cases access <;> rfl
  | flip op access valid =>
    rw [hpc] at hstep hplace
    obtain ⟨hop, hmode, haccess, hvalid⟩ := hplace
    cases hstep
    refine ⟨⟨h.xchg, h.override, h.hold, h.active, hop, hmode, haccess, ?_⟩, ?_⟩
    · intro ha
      exact ⟨(hvalid ha).1, (hvalid ha).2, (hvalid ha).1⟩
    · refine .quiet rfl ?_
      unfold Client.performed
      rw [hpc]
      cases access <;> rfl
  | flipCas op access valid previous =>
    rw [hpc] at hstep hplace
    obtain ⟨hop, hmode, haccess, hvalid⟩ := hplace
    simp only [Option.some.injEq, Prod.mk.injEq] at hstep
    obtain ⟨rfl, rfl⟩ := hstep
    refine ⟨⟨h.xchg, rfl, h.hold, h.active, trivial⟩, ?_⟩
    cases access with
    | skipped => exact absurd rfl haccess
    | acquired =>
      obtain ⟨hturn, rfl, rfl⟩ := hvalid rfl
      rw [if_pos hturn, ← hturn]
      exact .pass (by rw [Client.performed, hpc]) rfl rfl
    | timedOut =>
      refine .quiet ?_ (by rw [Client.performed, Client.performed, hpc]; rfl)
      rw [returns, hpc] at hreturns
      split
      · rename_i heq
        simp only [heq, bne_self_eq_false, Bool.false_or, beq_iff_eq] at hreturns
        rw [← hreturns, ← heq]
      · rfl

/-! ## The two together -/

/-- An operation that took effect, with the value it wrote or read. -/
inductive Event (D : Type)
  | wrote (d : D)
  | read (d : D)
  deriving DecidableEq, Repr

/-- Writes that have all been read, each before the next. -/
def exchanged (ds : List D) : List (Event D) := ds.flatMap fun d => [.wrote d, .read d]

theorem exchanged_concat (ds : List D) (d : D) :
    exchanged (ds ++ [d]) = exchanged ds ++ [.wrote d] ++ [.read d] := by
  simp [exchanged]

/-- The observer: what took effect, in order. -/
def record (s : St D τ) (a : Label D τ) (_ : St D τ) (log : List (Event D)) : List (Event D) :=
  match performs (s.client a.client) a with
  | none => log
  | some .read => log ++ [.read s.elem.data]
  | some (.write f) => log ++ [.wrote (f s.elem.data)]

/-- The labels of the exchange of `w` and `r`: only `w` writes, only `r` reads, and
nobody holds or overrides. -/
def ExchangeLabel (w r : τ) : Label D τ → Prop
  | .hold _ _ | .override _ => False
  | .op t op => (t = w ∧ op.mode = MRAPI_ATOMIC_WRITE) ∨ (t = r ∧ op.mode = MRAPI_ATOMIC_READ)
  | .step _ => True

/-- The steps of the exchange in which a flip after a timeout comes to nothing. -/
def ExchangeStep (w r : τ) (s : St D τ) (a : Label D τ) : Prop :=
  match a with
  | .step t => returns s.elem (s.client t) = true
  | a => ExchangeLabel w r a

instance [DecidableEq τ] (w r : τ) (a : Label D τ) : Decidable (ExchangeLabel w r a) :=
  match a with
  | .hold _ _ | .override _ => isFalse id
  | .op t op => inferInstanceAs (Decidable
      ((t = w ∧ op.mode = MRAPI_ATOMIC_WRITE) ∨ (t = r ∧ op.mode = MRAPI_ATOMIC_READ)))
  | .step _ => isTrue trivial

instance [DecidableEq τ] (w r : τ) (s : St D τ) (a : Label D τ) :
    Decidable (ExchangeStep w r s a) :=
  match a with
  | .hold _ _ | .override _ => isFalse id
  | .op t op => inferInstanceAs (Decidable (ExchangeLabel w r (.op t op)))
  | .step t => inferInstanceAs (Decidable (returns s.elem (s.client t) = true))

/-- What holds in every state of an exchange. -/
structure Exchanging (w r : τ) (s : St D τ) : Prop where
  writer : Exchanger MRAPI_ATOMIC_WRITE s.elem (s.client w)
  reader : Exchanger MRAPI_ATOMIC_READ s.elem (s.client r)
  rest : ∀ t, t ≠ w → t ≠ r → (s.client t).pc = .idle

/-- A value has been written and not yet read. -/
def pending (w r : τ) (s : St D τ) : Bool :=
  if s.elem.valid then !(s.client r).performed else (s.client w).performed

/-- The log is an exchange, with a last write if a value is pending. -/
def Logged (w r : τ) (s : St D τ) (log : List (Event D)) : Prop :=
  ∃ ds, log = exchanged ds ++ if pending w r s then [.wrote s.elem.data] else []

variable [DecidableEq τ]

/-- A step of one client, as the other sees it. -/
theorem Turn.other {m m' : mrapi_atomic_mode_t} {e e' : mrapi_msg_t D} {c c' u : Client D}
    {o : Option (Op D)} (h : Turn m e c e' c' o) (hc : Exchanger m e c)
    (hu : Exchanger m' e u) (hm : m.valid ≠ m'.valid) : Exchanger m' e' u := by
  cases h with
  | quiet helem _ => exact helem ▸ hu
  | act op _ _ _ hmine helem => exact hu.of_other (fun h => hm (hmine.symm.trans h)) e'
  | pass hbefore _ helem =>
    exact hu.of_other (fun h => hm ((hc.turn hbefore).symm.trans h)) e'

/-- A step of the writer or the reader. -/
theorem Exchanging.cases {w r : τ} {s s' : St D τ} {a : Label D τ} (h : Exchanging w r s)
    (hwr : w ≠ r) (hstep : step s a = some s') (hguard : ExchangeStep w r s a) :
    (a.client = w ∧ s'.client r = s.client r ∧
      Exchanger MRAPI_ATOMIC_WRITE s'.elem (s'.client w) ∧
      Turn MRAPI_ATOMIC_WRITE s.elem (s.client w) s'.elem (s'.client w)
        (performs (s.client w) a)) ∨
    (a.client = r ∧ s'.client w = s.client w ∧
      Exchanger MRAPI_ATOMIC_READ s'.elem (s'.client r) ∧
      Turn MRAPI_ATOMIC_READ s.elem (s.client r) s'.elem (s'.client r)
        (performs (s.client r) a)) := by
  obtain ⟨c', hmove, hclient⟩ := step_eq_some hstep
  have hw : a.client = w → s'.client r = s.client r := by
    rintro rfl
    rw [hclient, Function.update_of_ne (Ne.symm hwr)]
  have hr : a.client = r → s'.client w = s.client w := by
    rintro rfl
    rw [hclient, Function.update_of_ne hwr]
  have hself : s'.client a.client = c' := by rw [hclient, Function.update_self]
  cases a with
  | hold t hold => exact hguard.elim
  | override t => exact hguard.elim
  | op t op =>
    obtain ⟨hpc, helem, hc'⟩ := move_start hmove
    change s'.client t = c' at hself
    change (s.client t).pc = .idle at hpc
    change c' = (s.client t).start op at hc'
    have hquiet : c'.performed = (s.client t).performed := by
      rw [hc', Client.performed, Client.performed, hpc]
      rfl
    rcases hguard with ⟨rfl, hmode⟩ | ⟨rfl, hmode⟩
    · have hc := h.writer
      refine .inl ⟨rfl, hw rfl, ?_, ?_⟩
      · rw [hself, helem, hc']
        exact ⟨hc.xchg, hc.override, hc.hold, hc.active, hmode, hmode⟩
      · rw [hself]
        exact .quiet helem hquiet
    · have hc := h.reader
      refine .inr ⟨rfl, hr rfl, ?_, ?_⟩
      · rw [hself, helem, hc']
        exact ⟨hc.xchg, hc.override, hc.hold, hc.active, hmode, hmode⟩
      · rw [hself]
        exact .quiet helem hquiet
  | step t =>
    change clientStep s.elem (s.client t) = some (s'.elem, c') at hmove
    change s'.client t = c' at hself
    by_cases htw : t = w
    · subst htw
      have hboth := h.writer.clientStep (t := t) hguard hmove
      rw [← hself] at hboth
      exact .inl ⟨rfl, hw rfl, hboth⟩
    · by_cases htr : t = r
      · subst htr
        have hboth := h.reader.clientStep (t := t) hguard hmove
        rw [← hself] at hboth
        exact .inr ⟨rfl, hr rfl, hboth⟩
      · -- nobody else has ever started
        rw [clientStep, h.rest t htw htr] at hmove
        cases hmove

theorem Exchanging.step {w r : τ} {s s' : St D τ} {a : Label D τ} (h : Exchanging w r s)
    (hwr : w ≠ r) (hstep : step s a = some s') (hguard : ExchangeStep w r s a) :
    Exchanging w r s' := by
  have hrest : ∀ t, t ≠ w → t ≠ r → (s'.client t).pc = .idle := by
    intro t htw htr
    obtain ⟨c', -, hclient⟩ := step_eq_some hstep
    have hta : t ≠ a.client := by
      rcases h.cases hwr hstep hguard with hw | hr
      · rw [hw.1]
        exact htw
      · rw [hr.1]
        exact htr
    rw [hclient, Function.update_of_ne hta]
    exact h.rest t htw htr
  rcases h.cases hwr hstep hguard with ⟨-, hr, hw', hturn⟩ | ⟨-, hw, hr', hturn⟩
  · refine ⟨hw', ?_, hrest⟩
    rw [hr]
    exact hturn.other h.writer h.reader (by decide)
  · refine ⟨?_, hr', hrest⟩
    rw [hw]
    exact hturn.other h.reader h.writer (by decide)

/-- **The log goes on alternating.** -/
theorem Logged.step {w r : τ} {s s' : St D τ} {a : Label D τ} {log : List (Event D)}
    (hex : Exchanging w r s) (h : Logged w r s log) (hwr : w ≠ r)
    (hstep : step s a = some s') (hguard : ExchangeStep w r s a) :
    Logged w r s' (record s a s' log) := by
  obtain ⟨ds, hlog⟩ := h
  unfold Logged record
  unfold pending at hlog ⊢
  rcases hex.cases hwr hstep hguard with ⟨ha, hr, -, hturn⟩ | ⟨ha, hw, -, hturn⟩
  · rw [ha, hr]
    generalize performs (s.client w) a = o at hturn
    cases hturn with
    | quiet helem hperformed =>
      rw [helem, hperformed]
      exact ⟨ds, hlog⟩
    | act op hop hbefore hafter hmine helem =>
      have hvalid : s.elem.valid = false := hmine
      rw [hvalid, hbefore] at hlog
      rw [helem, hvalid, hafter]
      cases op with
      | read => cases hop
      | write f => exact ⟨ds, by rw [hlog]; simp [Op.apply]⟩
    | pass hbefore hafter helem =>
      have hvalid : s.elem.valid = false := hex.writer.turn hbefore
      have hreader : (s.client r).performed = false := by
        by_contra hp
        rw [hex.reader.turn (by simpa using hp)] at hvalid
        cases hvalid
      rw [hvalid, hbefore] at hlog
      rw [helem, hvalid, hreader]
      exact ⟨ds, hlog⟩
  · rw [ha, hw]
    generalize performs (s.client r) a = o at hturn
    cases hturn with
    | quiet helem hperformed =>
      rw [helem, hperformed]
      exact ⟨ds, hlog⟩
    | act op hop hbefore hafter hmine helem =>
      have hvalid : s.elem.valid = true := hmine
      rw [hvalid, hbefore] at hlog
      rw [helem, hvalid, hafter]
      cases op with
      | write f => cases hop
      | read => exact ⟨ds ++ [s.elem.data], by rw [hlog, exchanged_concat]; simp⟩
    | pass hbefore hafter helem =>
      have hvalid : s.elem.valid = true := hex.reader.turn hbefore
      have hwriter : (s.client w).performed = false := by
        by_contra hp
        rw [hex.writer.turn (by simpa using hp)] at hvalid
        cases hvalid
      rw [hvalid, hbefore] at hlog
      rw [helem, hvalid, hwriter]
      exact ⟨ds, hlog⟩

omit [DecidableEq τ] in
/-- A client that timed out neither performs its operation nor passes the element
on. -/
theorem Turn.timedOut {m : mrapi_atomic_mode_t} {e e' : mrapi_msg_t D} {c c' : Client D}
    {t : τ} (hc : Exchanger m e c) (htimed : c.timedOut = true)
    (h : Turn m e c e' c' (performs c (.step t : Label D τ))) : e' = e := by
  have hplace := hc.place
  unfold Client.timedOut at htimed
  unfold Place at hplace
  have hnone : performs c (.step t : Label D τ) = none := by
    unfold performs
    split at htimed
    · rename_i op hpc
      rw [hpc] at hplace
      cases hplace.2.2.1
    all_goals first | (rename_i hpc; rw [hpc]) | cases htimed
  have hperformed : c.performed = false := by
    unfold Client.performed
    split at htimed
    all_goals first | (rename_i hpc; rw [hpc]) | cases htimed
  rw [hnone] at h
  cases h with
  | quiet helem _ => exact helem
  | pass hbefore _ _ =>
    rw [hperformed] at hbefore
    cases hbefore

/-! ## The alternation -/

/-- **An exchange alternates.** In every run in which the flips after a timeout
come to nothing, what has taken effect is a write, a read of the value written,
the next write, and so on, up to a last write that is still to be read; and the
step of an operation whose acquire timed out leaves the element unchanged. -/
theorem exchange_alternates {w r : τ} (hwr : w ≠ r) {src dest timeout : τ → ℕ} {d : D}
    {s : St D τ} {log : List (Event D)}
    (h : Run (observed step record) (fun q a _ => ExchangeStep w r q.1 a)
      (init (fun t => sys_atomic_exchange_init (src t) (dest t) (timeout t)) d, []) (s, log)) :
    (∃ ds, log = exchanged ds ∨ ∃ d, log = exchanged ds ++ [.wrote d]) ∧
      ∀ t s', (s.client t).timedOut = true → ExchangeStep w r s (.step t) →
        step s (.step t) = some s' → s'.elem = s.elem := by
  have hboth : Exchanging w r s ∧ Logged w r s log := by
    refine Run.observed_invariant (G := fun s a _ => ExchangeStep w r s a)
      (I := Exchanging w r) (J := Logged w r) ?_ ?_ h ?_ ?_
    · intro s a s' hI hstep hguard
      exact hI.step hwr hstep hguard
    · intro s a s' log hI _ hJ hstep hguard
      exact hJ.step hI hwr hstep hguard
    · exact ⟨⟨rfl, rfl, rfl, rfl, trivial⟩, ⟨rfl, rfl, rfl, rfl, trivial⟩, fun _ _ _ => rfl⟩
    · exact ⟨[], rfl⟩
  obtain ⟨hex, ds, hlog⟩ := hboth
  constructor
  · cases hp : pending w r s with
    | false =>
      rw [hp] at hlog
      exact ⟨ds, .inl (by simpa using hlog)⟩
    | true =>
      rw [hp] at hlog
      exact ⟨ds, .inr ⟨s.elem.data, by simpa using hlog⟩⟩
  · intro t s' htimed hguard hstep
    rcases hex.cases hwr hstep hguard with ⟨ha, -, -, hturn⟩ | ⟨ha, -, -, hturn⟩
    · change t = w at ha
      subst ha
      exact hturn.timedOut hex.writer htimed
    · change t = r at ha
      subst ha
      exact hturn.timedOut hex.reader htimed

/-- A writer and a reader in two processes; the reader does not wait. -/
def writerReader : St ℕ Bool :=
  init (fun t => sys_atomic_exchange_init t.toNat (!t).toNat (if t then 0 else MCA_INFINITE)) 0

/-- A value is exchanged. -/
theorem exchange_alternates_two :
    ∃ s log, Run (observed step record) (fun q a _ => ExchangeStep false true q.1 a)
        (writerReader, []) (s, log) ∧
      log.length = 2 ∧ ∃ ds, log = exchanged ds ∨ ∃ d, log = exchanged ds ++ [.wrote d] := by
  have hexec : (exec (observed step record)
      (fun q a _ => decide (ExchangeStep false true q.1 a)) (writerReader, [])
      ([Label.op false (.write (· + 1))] ++ List.replicate 6 (Label.step false) ++
        [Label.op true .read] ++ List.replicate 6 (Label.step true))).any
      (fun q => q.2.length == 2) = true := by
    decide +kernel
  obtain ⟨⟨s, log⟩, hrun, hs⟩ := exec_run_of_any hexec
  have hrun' : Run (observed step record) (fun q a _ => ExchangeStep false true q.1 a)
      (writerReader, []) (s, log) := hrun.mono fun _ _ _ hg => of_decide_eq_true hg
  exact ⟨s, log, hrun', by simpa using hs, (exchange_alternates (by decide) hrun').1⟩

/-- **The alternation fails.** A read before the first write times out; its
release flips the flag, and the next read takes effect with nothing written. -/
theorem exchange_not_alternating :
    ∃ s log, Run (observed step record) (fun _ a _ => ExchangeLabel false true a)
        (writerReader, []) (s, log) ∧ log = [.read 0] := by
  have hexec : (exec (observed step record)
      (fun _ a _ => decide (ExchangeLabel false true a)) (writerReader, [])
      ([Label.op true .read] ++ List.replicate 5 (Label.step true) ++
        [Label.op true .read] ++ List.replicate 3 (Label.step true))).any
      (fun q => decide (q.2 = [.read 0])) = true := by
    decide +kernel
  obtain ⟨⟨s, log⟩, hrun, hs⟩ := exec_run_of_any hexec
  exact ⟨s, log, hrun.mono fun _ _ _ hg => of_decide_eq_true hg, of_decide_eq_true hs⟩

end MxApi.Barrier
