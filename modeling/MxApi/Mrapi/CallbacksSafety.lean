/-
The callbacks of resources where every step is admitted ([`Admitted`]): what is registered is
inside the arrays, and the first callback of a node is called once for every `f` of its events.

Of an entry the accounts are kept ([`Accounts`]): the events that have incremented its count are
those that were reset away, `f` at a time, and those in the count. Each reset is a call that has
been made or is about to be. At most one event at a time has seen the count reach `f`. A step of
an event is one rule of the accounts of its entry and leaves those of the others alone.

Without the conditions the arrays overflow ([`registrations_overrun`]) and two events that meet
call the callback twice ([`concurrent_events_call_twice`]).
-/
import MxApi.Lib.Tally
import MxApi.Mrapi.Callbacks

set_option autoImplicit false

namespace MxApi.Callbacks

open Lib

section Accounts

variable {ι : Type} [DecidableEq ι] {pc : ι → EventPc} {c f k n i : ℕ} {e e' : ι} {p : EventPc}
  {node : Node}

/-! ## Program points -/

/-- The entry an event has incremented. -/
def EventPc.entry : EventPc → Option ℕ
  | .test _ index | .reset _ index | .call _ index _ => some index
  | _ => none

def EventPc.calling (i : ℕ) : EventPc → Prop
  | .call _ index _ => index = i
  | _ => False

def EventPc.resetting (i : ℕ) : EventPc → Prop
  | .reset _ index => index = i
  | _ => False

/-- Between the increment and the reset. -/
def EventPc.busy (i : ℕ) : EventPc → Prop
  | .test _ index | .reset _ index => index = i
  | _ => False

theorem EventPc.entry_of_calling (h : p.calling i) : p.entry = some i := by
  cases p with
  | call node index ev => exact congrArg some h
  | idle | search | increment | test | reset => exact h.elim

theorem EventPc.entry_of_busy (h : p.busy i) : p.entry = some i := by
  cases p with
  | test node index | reset node index => exact congrArg some h
  | idle | search | increment | call => exact h.elim

theorem EventPc.busy_of_resetting (h : p.resetting i) : p.busy i := by
  cases p with
  | reset node index => exact h
  | idle | search | increment | test | call => exact h.elim

/-! ## The accounts of an entry -/

/-- `f` is the frequency of entry `i` and `c` its count, `k` events of its node have ended, and
its callback has been called `n` times. -/
structure Accounts (pc : ι → EventPc) (c f k n i : ℕ) : Prop where
  sum : ∃ resets a b, Tally (fun e => (pc e).entry = some i) a ∧
    Tally (fun e => (pc e).calling i) b ∧ k + a = resets * f + c ∧ n + b = resets
  le : c ≤ f
  one : c = f → ∃ e, ∀ e', (pc e').busy i ↔ e' = e
  below : c < f → ∀ e, ¬ (pc e).resetting i

omit [DecidableEq ι] in
/-- No event is there. -/
theorem Accounts.init (hf : 1 ≤ f) (hnone : ∀ e, (pc e).entry ≠ some i) :
    Accounts pc 0 f 0 0 i where
  sum := ⟨0, 0, 0, .none hnone, .none fun e h => hnone e (EventPc.entry_of_calling h), by omega,
    rfl⟩
  le := Nat.zero_le f
  one := by omega
  below := fun _ e h => hnone e (EventPc.entry_of_busy (EventPc.busy_of_resetting h))

/-- An event that is not at the entry, before or after its step, is no matter. -/
theorem Accounts.other (h : Accounts pc c f k n i) (hold : (pc e).entry ≠ some i)
    (hnew : p.entry ≠ some i) : Accounts (Function.update pc e p) c f k n i := by
  have hpoint (P : EventPc → Prop) (hP : ∀ q : EventPc, P q → q.entry = some i) (e' : ι) :
      P (Function.update pc e p e') ↔ P (pc e') := by
    by_cases he : e' = e
    · subst he
      rw [Function.update_self]
      exact ⟨fun hp => absurd (hP p hp) hnew, fun hp => absurd (hP _ hp) hold⟩
    · rw [Function.update_of_ne he]
  obtain ⟨resets, a, b, ha, hb, hsum, hcalls⟩ := h.sum
  refine ⟨⟨resets, a, b, ha.congr (hpoint _ fun _ => id), hb.congr (hpoint _ fun _ => EventPc.entry_of_calling), hsum,
    hcalls⟩, h.le, ?_, ?_⟩
  · intro hc
    obtain ⟨e₀, h₀⟩ := h.one hc
    exact ⟨e₀, fun e' => (hpoint _ (fun _ => EventPc.entry_of_busy) e').trans (h₀ e')⟩
  · intro hc e' h'
    have hentry (q : EventPc) (hq : q.resetting i) : q.entry = some i :=
      EventPc.entry_of_busy (EventPc.busy_of_resetting hq)
    exact h.below hc e' ((hpoint _ hentry e').mp h')

theorem update_other (P : EventPc → Prop) (e' : ι) (he : e' ≠ e) :
    P (Function.update pc e p e') ↔ P (pc e') := by
  rw [Function.update_of_ne he]

/-- The increment: if it reaches the frequency, no other event is between its increment and
its reset. -/
theorem Accounts.increment (h : Accounts pc c f k n i) (hpc : pc e = .increment node i)
    (hc : c < f) (halone : f ≤ c + 1 → ∀ e', e' ≠ e → (pc e').testing i = false) :
    Accounts (Function.update pc e (.test node i)) (c + 1) f k n i := by
  obtain ⟨resets, a, b, ha, hb, hsum, hcalls⟩ := h.sum
  have ha' : Tally (fun e' => (Function.update pc e (.test node i) e').entry = some i) (a + 1) := by
    refine ha.enter (o := e) ?_ ?_ fun e' he =>
      update_other (fun q : EventPc => q.entry = some i) e' he
    · rw [hpc]
      nofun
    · rw [Function.update_self]
      rfl
  have hb' : Tally (fun e' => (Function.update pc e (.test node i) e').calling i) b := by
    refine hb.congr fun e' => ?_
    by_cases he : e' = e
    · subst he
      rw [Function.update_self, hpc]
      exact Iff.rfl
    · exact update_other _ e' he
  refine ⟨⟨resets, a + 1, b, ha', hb', by omega, hcalls⟩, by omega, ?_, ?_⟩
  · intro hreached
    -- no event is resetting, as the count was below, and no other is testing
    refine ⟨e, fun e' => ⟨fun hbusy => ?_, ?_⟩⟩
    · by_contra he
      rw [Function.update_of_ne he] at hbusy
      have htesting := halone (by omega) e' he
      have hresetting := h.below hc e'
      cases hp : pc e' with
      | test node' index =>
        rw [hp] at hbusy htesting
        exact of_decide_eq_false htesting hbusy
      | reset node' index =>
        rw [hp] at hbusy hresetting
        exact hresetting hbusy
      | idle | search | increment | call =>
        rw [hp] at hbusy
        exact hbusy
    · rintro rfl
      rw [Function.update_self]
      rfl
  · intro _ e' hresetting
    by_cases he : e' = e
    · subst he
      rw [Function.update_self] at hresetting
      exact hresetting
    · rw [Function.update_of_ne he] at hresetting
      exact h.below hc e' hresetting

/-- The test where the count has reached the frequency. -/
theorem Accounts.reached (h : Accounts pc c f k n i) (hpc : pc e = .test node i) (hc : f ≤ c) :
    Accounts (Function.update pc e (.reset node i)) c f k n i := by
  obtain ⟨resets, a, b, ha, hb, hsum, hcalls⟩ := h.sum
  have hpoint (P : EventPc → Prop) (hP : P (.reset node i) ↔ P (.test node i)) (e' : ι) :
      P (Function.update pc e (.reset node i) e') ↔ P (pc e') := by
    by_cases he : e' = e
    · subst he
      rw [Function.update_self, hpc]
      exact hP
    · exact update_other P e' he
  refine ⟨⟨resets, a, b, ha.congr (hpoint (fun q => q.entry = some i) Iff.rfl),
    hb.congr (hpoint _ Iff.rfl), hsum, hcalls⟩, h.le, ?_, by omega⟩
  intro hcf
  obtain ⟨e₀, h₀⟩ := h.one hcf
  exact ⟨e₀, fun e' => (hpoint _ Iff.rfl e').trans (h₀ e')⟩

/-- The test where it has not: the event ends. -/
theorem Accounts.pass (h : Accounts pc c f k n i) (hpc : pc e = .test node i) (hc : c < f) :
    Accounts (Function.update pc e .idle) c f (k + 1) n i := by
  obtain ⟨resets, a, b, ha, hb, hsum, hcalls⟩ := h.sum
  have ha' : ∃ a', a = a' + 1 ∧
      Tally (fun e' => (Function.update pc e .idle e').entry = some i) a' := by
    refine ha.leave (o := e) ?_ ?_ fun e' he =>
      update_other (fun q : EventPc => q.entry = some i) e' he
    · rw [hpc]
      rfl
    · rw [Function.update_self]
      nofun
  obtain ⟨a', rfl, ha'⟩ := ha'
  have hpoint (P : EventPc → Prop) (hold : ¬ P (.test node i)) (hnew : ¬ P .idle) (e' : ι) :
      P (Function.update pc e .idle e') ↔ P (pc e') := by
    by_cases he : e' = e
    · subst he
      rw [Function.update_self, hpc]
      exact iff_of_false hnew hold
    · exact update_other P e' he
  refine ⟨⟨resets, a', b, ha', hb.congr (hpoint _ id id), by omega, hcalls⟩, h.le, by omega, ?_⟩
  intro hcf e' hresetting
  exact h.below hcf e' ((hpoint _ id id e').mp hresetting)

/-- The reset takes `f` events out of the count, for a call. -/
theorem Accounts.reset (h : Accounts pc c f k n i) (hpc : pc e = .reset node i) (ev : ℕ)
    (hf : 1 ≤ f) : Accounts (Function.update pc e (.call node i ev)) 0 f k n i := by
  obtain ⟨resets, a, b, ha, hb, hsum, hcalls⟩ := h.sum
  have hbusy : (pc e).busy i := by
    rw [hpc]
    rfl
  have hcf : c = f := by
    by_contra hne
    have hresetting : (pc e).resetting i := by
      rw [hpc]
      rfl
    exact h.below (lt_of_le_of_ne h.le hne) e hresetting
  have ha' : Tally (fun e' => (Function.update pc e (.call node i ev) e').entry = some i) a := by
    refine ha.congr fun e' => ?_
    by_cases he : e' = e
    · subst he
      rw [Function.update_self, hpc]
      exact Iff.rfl
    · exact update_other (fun q : EventPc => q.entry = some i) e' he
  have hb' : Tally (fun e' => (Function.update pc e (.call node i ev) e').calling i) (b + 1) := by
    refine hb.enter (o := e) ?_ ?_ fun e' he => update_other _ e' he
    · rw [hpc]
      exact id
    · rw [Function.update_self]
      rfl
  refine ⟨⟨resets + 1, a, b + 1, ha', hb', ?_, by omega⟩, by omega, by omega, ?_⟩
  · rw [Nat.succ_mul]
    omega
  · intro _ e' hresetting
    by_cases he : e' = e
    · subst he
      rw [Function.update_self] at hresetting
      exact hresetting
    · -- two events had seen the count reach the frequency
      rw [Function.update_of_ne he] at hresetting
      obtain ⟨e₀, h₀⟩ := h.one hcf
      have hfirst := (h₀ e').mp (EventPc.busy_of_resetting hresetting)
      exact he (hfirst.trans ((h₀ e).mp hbusy).symm)

/-- The call, after which the event ends. -/
theorem Accounts.call {ev : ℕ} (h : Accounts pc c f k n i) (hpc : pc e = .call node i ev) :
    Accounts (Function.update pc e .idle) c f (k + 1) (n + 1) i := by
  obtain ⟨resets, a, b, ha, hb, hsum, hcalls⟩ := h.sum
  have ha' : ∃ a', a = a' + 1 ∧
      Tally (fun e' => (Function.update pc e .idle e').entry = some i) a' := by
    refine ha.leave (o := e) ?_ ?_ fun e' he =>
      update_other (fun q : EventPc => q.entry = some i) e' he
    · rw [hpc]
      rfl
    · rw [Function.update_self]
      nofun
  have hb' : ∃ b', b = b' + 1 ∧
      Tally (fun e' => (Function.update pc e .idle e').calling i) b' := by
    refine hb.leave (o := e) ?_ ?_ fun e' he => update_other _ e' he
    · rw [hpc]
      rfl
    · rw [Function.update_self]
      exact id
  obtain ⟨a', rfl, ha'⟩ := ha'
  obtain ⟨b', rfl, hb'⟩ := hb'
  have hpoint (P : EventPc → Prop) (hold : ¬ P (.call node i ev)) (hnew : ¬ P .idle) (e' : ι) :
      P (Function.update pc e .idle e') ↔ P (pc e') := by
    by_cases he : e' = e
    · subst he
      rw [Function.update_self, hpc]
      exact iff_of_false hnew hold
    · exact update_other P e' he
  refine ⟨⟨resets, a', b', ha', hb', by omega, by omega⟩, h.le, ?_, ?_⟩
  · intro hcf
    obtain ⟨e₀, h₀⟩ := h.one hcf
    exact ⟨e₀, fun e' => (hpoint _ id id e').trans (h₀ e')⟩
  · intro hcf e' hresetting
    exact h.below hcf e' ((hpoint _ id id e').mp hresetting)

omit [DecidableEq ι] in
/-- **Once for every `f` events**, when none is in progress. -/
theorem Accounts.fired (h : Accounts pc c f k n i) (hf : 1 ≤ f)
    (hnone : ∀ e, (pc e).entry ≠ some i) : n = k / f := by
  obtain ⟨resets, a, b, ha, hb, hsum, hcalls⟩ := h.sum
  have ha0 := ha.eq_zero hnone
  have hb0 := hb.eq_zero fun e hcall => hnone e (EventPc.entry_of_calling hcall)
  -- a count that stands at the frequency is that of an event in progress
  have hbelow : c < f := by
    refine lt_of_le_of_ne h.le fun hcf => ?_
    obtain ⟨e₀, h₀⟩ := h.one hcf
    exact hnone e₀ (EventPc.entry_of_busy ((h₀ e₀).mpr rfl))
  have hk : k = c + n * f := by
    rw [ha0, Nat.add_zero, ← hcalls, hb0, Nat.add_zero] at hsum
    omega
  rw [hk, Nat.add_mul_div_right _ _ (by omega), Nat.div_eq_of_lt hbelow, Nat.zero_add]

end Accounts

/-! ## First registrations -/

section First

variable {registered : List Registration} {node node' : Node} {i i' : ℕ}
  {r r' new : Registration}

theorem IsFirst.same_entry (h : IsFirst registered node i r) (h' : IsFirst registered node' i r') :
    node = node' ∧ r = r' := by
  have hr : r = r' := Option.some.inj (h.at_index.symm.trans h'.at_index)
  exact ⟨by rw [← h.node_eq, ← h'.node_eq, hr], hr⟩

theorem IsFirst.same_node (h : IsFirst registered node i r)
    (h' : IsFirst registered node i' r') : i = i' := by
  rcases Nat.lt_trichotomy i i' with hlt | heq | hlt
  · exact absurd h.node_eq (h'.first i hlt r h.at_index)
  · exact heq
  · exact absurd h'.node_eq (h.first i' hlt r' h'.at_index)

theorem IsFirst.lt (h : IsFirst registered node i r) : i < registered.length :=
  (List.getElem?_eq_some_iff.mp h.at_index).1

theorem IsFirst.append (h : IsFirst registered node i r) :
    IsFirst (registered ++ [new]) node i r where
  at_index := by
    rw [List.getElem?_append_left h.lt]
    exact h.at_index
  node_eq := h.node_eq
  first := by
    intro j hj r' hr'
    rw [List.getElem?_append_left (hj.trans h.lt)] at hr'
    exact h.first j hj r' hr'

/-- What is first after one more registration was first before, or it is that registration. -/
theorem IsFirst.of_append (h : IsFirst (registered ++ [new]) node i r) :
    IsFirst registered node i r ∨
      (i = registered.length ∧ r = new ∧ ∀ r' ∈ registered, r'.node ≠ node) := by
  have hlt := h.lt
  rw [List.length_append, List.length_singleton] at hlt
  rcases Nat.lt_succ_iff_lt_or_eq.mp hlt with hi | rfl
  · refine .inl ⟨?_, h.node_eq, ?_⟩
    · rw [← h.at_index, List.getElem?_append_left hi]
    · intro j hj r' hr'
      refine h.first j hj r' ?_
      rw [List.getElem?_append_left (hj.trans hi)]
      exact hr'
  · refine .inr ⟨rfl, ?_, ?_⟩
    · have hat := h.at_index
      rw [List.getElem?_concat_length, Option.some.injEq] at hat
      exact hat.symm
    · intro r' hr'
      obtain ⟨j, hj, hat⟩ := List.mem_iff_getElem.mp hr'
      refine h.first j hj r' ?_
      rw [List.getElem?_append_left hj, List.getElem?_eq_getElem hj, hat]

end First

/-! ## The invariant -/

section Invariant

variable {ι : Type} [DecidableEq ι] {s s' : St ι} {e : ι} {node : Node} {i : ℕ}
  {r : Registration} {p : EventPc}

/-- An event past its search has found the first callback of its node. -/
def EventPc.Ok (registered : List Registration) (counted : Bool) : EventPc → Prop
  | .idle | .search _ => True
  | .increment node index | .test node index | .reset node index =>
    counted = true ∧ ∃ r, IsFirst registered node index r
  | .call node index the_event =>
    counted = true ∧ ∃ r, IsFirst registered node index r ∧ the_event = r.event

/-- An entry holds what was registered. -/
structure Holds (c : mrapi_callback_t) (r : Registration) : Prop where
  func : c.callback_func = r.func
  event : c.callback_event = r.event
  frequency : c.callback_frequency = r.frequency
  node_id : c.node_id = r.node.node_id
  word : r.frequency < 2 ^ 32

/-- The count of an entry. -/
def St.count (s : St ι) (i : ℕ) : ℕ := (s.db.callbacks_array i).callback_count

/-- How often the callback of an entry has been called. -/
def St.called (s : St ι) (i : ℕ) : ℕ := s.calls.countP fun x => x.index = i

/-- The accounts of all first callbacks. -/
def AllAccounts (s : St ι) : Prop :=
  ∀ node i r, IsFirst s.registered node i r → 1 ≤ r.frequency →
    Accounts s.pc (s.count i) r.frequency (s.ended node) (s.called i) i

structure Inv (s : St ι) : Prop where
  inside : s.db.overrun = false
  index : s.db.callback_index = s.registered.length
  room : s.db.callback_index ≤ MRAPI_MAX_CALLBACKS
  rollover : s.db.rollover_index ≤ MRAPI_MAX_CALLBACKS
  holds : ∀ i r, s.registered[i]? = some r → Holds (s.db.callbacks_array i) r
  event : ∀ e, (s.pc e).Ok s.registered (s.counted e)
  calls : ∀ x ∈ s.calls, ∃ r, s.registered[x.index]? = some r ∧ x = ⟨x.index, r.func, r.event⟩
  fresh : ∀ node, (∀ r ∈ s.registered, r.node ≠ node) → s.ended node = 0
  accounts : AllAccounts s

omit [DecidableEq ι] in
theorem Inv.init : Inv (init ι) where
  inside := rfl
  index := rfl
  room := Nat.zero_le _
  rollover := Nat.zero_le _
  holds := nofun
  event := fun _ => trivial
  calls := nofun
  fresh := fun _ _ => rfl
  accounts := fun _ _ _ h => absurd h.at_index nofun

omit [DecidableEq ι] in
theorem Inv.callbacksRight (h : Inv s) : CallbacksRight s where
  inside := h.inside
  fired := by
    intro node i r hfirst hf hnone
    refine (h.accounts node i r hfirst hf).fired hf fun e hentry => hnone e ?_
    -- an event at the entry is one of the node
    have hok := h.event e
    cases hp : s.pc e with
    | test node' index | reset node' index =>
      rw [hp] at hok hentry
      obtain ⟨-, r', hr'⟩ := hok
      rw [Option.some.inj hentry] at hr'
      exact congrArg some (hr'.same_entry hfirst).1
    | call node' index ev =>
      rw [hp] at hok hentry
      obtain ⟨-, r', hr', -⟩ := hok
      rw [Option.some.inj hentry] at hr'
      exact congrArg some (hr'.same_entry hfirst).1
    | idle | search | increment =>
      rw [hp] at hentry
      cases hentry
  own := by
    intro node i r hfirst x hx hxi
    obtain ⟨r', hr', hx'⟩ := h.calls x hx
    rw [hxi, hfirst.at_index, Option.some.injEq] at hr'
    rw [hx', hxi, hr']

/-- A step of an event moves the accounts of the entry it has found. -/
theorem AllAccounts.move (h : AllAccounts s) (hregistered : s'.registered = s.registered)
    (hpc : s'.pc = Function.update s.pc e p) (hfirst : IsFirst s.registered node i r)
    (hold : ∀ j, j ≠ i → (s.pc e).entry ≠ some j) (hnew : ∀ j, j ≠ i → p.entry ≠ some j)
    (hcount : ∀ j, j ≠ i → s'.count j = s.count j)
    (hended : ∀ node', node' ≠ node → s'.ended node' = s.ended node')
    (hcalled : ∀ j, j ≠ i → s'.called j = s.called j)
    (hown : 1 ≤ r.frequency →
      Accounts s.pc (s.count i) r.frequency (s.ended node) (s.called i) i →
      Accounts (Function.update s.pc e p) (s'.count i) r.frequency (s'.ended node)
        (s'.called i) i) : AllAccounts s' := by
  intro node' j r' hfirst' hf
  rw [hregistered] at hfirst'
  rw [hpc]
  by_cases hj : j = i
  · subst hj
    obtain ⟨rfl, rfl⟩ := hfirst'.same_entry hfirst
    exact hown hf (h _ _ _ hfirst' hf)
  · have hnode : node' ≠ node := by
      rintro rfl
      exact hj (hfirst'.same_node hfirst)
    rw [hcount j hj, hended node' hnode, hcalled j hj]
    exact (h _ _ _ hfirst' hf).other (hold j hj) (hnew j hj)

/-- A step of an event away from all entries. -/
theorem AllAccounts.away (h : AllAccounts s) (hregistered : s'.registered = s.registered)
    (hpc : s'.pc = Function.update s.pc e p) (hold : (s.pc e).entry = none)
    (hnew : p.entry = none) (hcount : ∀ j, s'.count j = s.count j)
    (hended : s'.ended = s.ended) (hcalls : s'.calls = s.calls) : AllAccounts s' := by
  intro node i r hfirst hf
  have hcalled : s'.called i = s.called i := by rw [St.called, hcalls, St.called]
  rw [hregistered] at hfirst
  rw [hpc, hcount i, hended, hcalled]
  refine (h node i r hfirst hf).other ?_ ?_
  · rw [hold]
    nofun
  · rw [hnew]
    nofun

/-! ## Registering and starting -/

theorem EventPc.Ok.append {registered : List Registration} {counted : Bool}
    {new : Registration} (h : p.Ok registered counted) : p.Ok (registered ++ [new]) counted := by
  cases p with
  | idle | search => trivial
  | increment | test | reset =>
    obtain ⟨hcounted, r, hr⟩ := h
    exact ⟨hcounted, r, hr.append⟩
  | call =>
    obtain ⟨hcounted, r, hr, hev⟩ := h
    exact ⟨hcounted, r, hr.append, hev⟩

omit [DecidableEq ι] in
/-- The entry after the last is nobody's yet. -/
theorem Inv.entry_lt (h : Inv s) (e : ι) {j : ℕ} (hentry : (s.pc e).entry = some j) :
    j < s.registered.length := by
  have hok := h.event e
  cases hp : s.pc e with
  | test node index | reset node index =>
    rw [hp] at hok hentry
    obtain ⟨-, r, hr⟩ := hok
    rw [← Option.some.inj hentry]
    exact hr.lt
  | call node index ev =>
    rw [hp] at hok hentry
    obtain ⟨-, r, hr, -⟩ := hok
    rw [← Option.some.inj hentry]
    exact hr.lt
  | idle | search | increment =>
    rw [hp] at hentry
    cases hentry

omit [DecidableEq ι] in
theorem Inv.called_eq_zero (h : Inv s) : s.called s.registered.length = 0 := by
  rw [St.called, List.countP_eq_zero]
  intro x hx
  obtain ⟨r, hr, -⟩ := h.calls x hx
  have hlt := (List.getElem?_eq_some_iff.mp hr).1
  rw [decide_eq_true_iff]
  omega

omit [DecidableEq ι] in
/-- A registration takes the next entry, if there is room. -/
theorem Inv.register (h : Inv s) (node : Node) (frequency func : ℕ) {event : ℕ}
    (hevent : event ≠ 0)
    (hroom : s.db.callback_index < MRAPI_MAX_CALLBACKS) :
    Inv { s with
      db := (mrapi_impl_resource_register_callback s.db (some node) event frequency func).1
      registered := s.registered ++ [⟨node, func, event, u32 frequency⟩] } := by
  have hmax : MRAPI_MAX_CALLBACKS = 10 := rfl
  have hdb : (mrapi_impl_resource_register_callback s.db (some node) event frequency func).1 =
      { s.db with
        callbacks_array := Function.update s.db.callbacks_array s.db.callback_index
          ⟨func, event, u32 frequency, 0, node.node_id⟩
        callback_index := s.db.callback_index + 1 } := by
    simp only [mrapi_impl_resource_register_callback, if_neg hevent,
      mrapi_database.setCallback, if_pos hroom]
    rw [u16_of_lt (by omega)]
  rw [hdb]
  have hindex := h.index
  -- the entries before keep what they hold
  have hbefore : ∀ j, j < s.registered.length →
      Function.update s.db.callbacks_array s.db.callback_index
        ⟨func, event, u32 frequency, 0, node.node_id⟩ j = s.db.callbacks_array j := by
    intro j hj
    exact Function.update_of_ne (by omega) _ _
  refine ⟨h.inside, ?_, hroom, h.rollover, ?_, fun e => (h.event e).append, ?_, ?_, ?_⟩
  · rw [List.length_append, List.length_singleton, ← hindex]
  · intro i r hr
    dsimp only
    rcases Nat.lt_or_ge i s.registered.length with hi | hi
    · rw [List.getElem?_append_left hi] at hr
      rw [hbefore i hi]
      exact h.holds i r hr
    · have hlt := (List.getElem?_eq_some_iff.mp hr).1
      rw [List.length_append, List.length_singleton] at hlt
      have heq : i = s.registered.length := by omega
      rw [heq, List.getElem?_concat_length, Option.some.injEq] at hr
      rw [heq, ← hindex, Function.update_self, ← hr]
      exact ⟨rfl, rfl, rfl, rfl, u32_lt _⟩
  · intro x hx
    obtain ⟨r, hr, hx'⟩ := h.calls x hx
    refine ⟨r, ?_, hx'⟩
    rw [List.getElem?_append_left (List.getElem?_eq_some_iff.mp hr).1]
    exact hr
  · intro node' hnone
    exact h.fresh node' fun r hr => hnone r (List.mem_append_left _ hr)
  · intro node' i r hfirst hf
    rcases hfirst.of_append with hfirst' | ⟨rfl, rfl, hnone⟩
    · have hcount := congrArg mrapi_callback_t.callback_count (hbefore i hfirst'.lt)
      have haccounts := h.accounts node' i r hfirst' hf
      dsimp only [St.count, St.called] at haccounts ⊢
      rwa [hcount]
    · -- the first callback of its node: nothing has been counted
      have hcount : (Function.update s.db.callbacks_array s.db.callback_index
          ⟨func, event, u32 frequency, 0, node.node_id⟩ s.registered.length).callback_count =
            0 := by
        rw [← hindex, Function.update_self]
      have hcalled := h.called_eq_zero
      have hended := h.fresh node' hnone
      dsimp only [St.count, St.called] at hcalled ⊢
      rw [hcount, hcalled, hended]
      exact .init hf fun e hentry => Nat.lt_irrefl _ (h.entry_lt e hentry)

omit [DecidableEq ι] in
/-- Only the rollover callbacks change. -/
theorem Inv.start (h : Inv s) {name : String} {n callback : ℕ}
    (hroom : name = "L3 Cache" ∧ n = 1 → s.db.rollover_index < MRAPI_MAX_CALLBACKS) :
    Inv { s with db := (mrapi_impl_dynamic_attribute_start s.db name n callback).1 } := by
  have hmax : MRAPI_MAX_CALLBACKS = 10 := rfl
  unfold mrapi_impl_dynamic_attribute_start
  split
  · rename_i hname
    have hlt := hroom hname
    have hnext : u16 (s.db.rollover_index + 1) ≤ MRAPI_MAX_CALLBACKS := by
      rw [u16_of_lt (by omega)]
      exact hlt
    simp only [if_pos hlt]
    exact ⟨h.inside, h.index, h.room, hnext, h.holds, h.event, h.calls, h.fresh, h.accounts⟩
  · exact h

/-! ## Events -/

/-- The event that moves is where it may be, the others stay. -/
theorem event_update {registered : List Registration} {pc : ι → EventPc} {counted : ι → Bool}
    (h : ∀ e, (pc e).Ok registered (counted e)) (hp : p.Ok registered (counted e)) (e' : ι) :
    (Function.update pc e p e').Ok registered (counted e') := by
  by_cases he : e' = e
  · subst he
    rw [Function.update_self]
    exact hp
  · rw [Function.update_of_ne he]
    exact h e'

theorem Inv.cause (h : Inv s) (hpc : s.pc e = .idle) : Inv (s.goto e (.search node)) := by
  refine ⟨h.inside, h.index, h.room, h.rollover, h.holds, event_update h.event trivial, h.calls,
    h.fresh, ?_⟩
  exact h.accounts.away (e := e) rfl rfl (by rw [hpc]; rfl) rfl (fun _ => rfl) rfl rfl

omit [DecidableEq ι] in
/-- What the search finds is the first callback of the node, unless another node has registered
under the number before. -/
theorem Inv.search_some (h : Inv s) {index : ℕ}
    (hown : ∀ r ∈ s.registered.find? (fun r => r.node.node_id = node.node_id), r.node = node)
    (hsearch : Lib.search (min s.db.callback_index MRAPI_MAX_CALLBACKS)
      (fun i => (s.db.callbacks_array i).node_id = node.node_id) = some index) :
    ∃ r, IsFirst s.registered node index r := by
  rw [Nat.min_eq_left h.room, h.index, search_eq_some] at hsearch
  obtain ⟨hlt, hid, hbefore⟩ := hsearch
  have hentry (j : ℕ) (hj : j < s.registered.length) :
      (s.db.callbacks_array j).node_id = (s.registered[j]).node.node_id :=
    (h.holds j _ (List.getElem?_eq_getElem hj)).node_id
  have hother (j : ℕ) (hj : j < index) (hjl : j < s.registered.length) :
      (s.registered[j]).node.node_id ≠ node.node_id := by
    have hne := of_decide_eq_false (hbefore j hj)
    rwa [hentry j hjl] at hne
  have hmatch : (s.registered[index]).node.node_id = node.node_id := by
    rw [← hentry index hlt]
    exact of_decide_eq_true hid
  have hfind : s.registered.find? (fun r => r.node.node_id = node.node_id) =
      some s.registered[index] := by
    rw [List.find?_eq_some_iff_getElem]
    refine ⟨decide_eq_true hmatch, index, hlt, rfl, fun j hj => ?_⟩
    rw [decide_eq_false (hother j hj (hj.trans hlt))]
    rfl
  refine ⟨s.registered[index], List.getElem?_eq_getElem hlt, hown _ hfind, ?_⟩
  intro j hj r' hr' hnode
  obtain ⟨hjl, rfl⟩ := List.getElem?_eq_some_iff.mp hr'
  exact hother j hj hjl (by rw [hnode])

omit [DecidableEq ι] in
/-- A search that finds nothing has found that the node has not registered. -/
theorem Inv.search_none (h : Inv s)
    (hsearch : Lib.search (min s.db.callback_index MRAPI_MAX_CALLBACKS)
      (fun i => (s.db.callbacks_array i).node_id = node.node_id) = none) :
    (s.registered.any fun r => r.node = node) = false := by
  rw [Nat.min_eq_left h.room, h.index, search_eq_none] at hsearch
  rw [List.any_eq_false]
  intro r hr hnode
  obtain ⟨j, hj, rfl⟩ := List.mem_iff_getElem.mp hr
  have hne := of_decide_eq_false (hsearch j hj)
  rw [(h.holds j _ (List.getElem?_eq_getElem hj)).node_id, of_decide_eq_true hnode] at hne
  exact hne rfl

theorem Inv.search (h : Inv s) (hpc : s.pc e = .search node)
    (hown : ∀ r ∈ s.registered.find? (fun r => r.node.node_id = node.node_id), r.node = node)
    (hstep : mrapi_impl_cause_event s e = some s') : Inv s' := by
  simp only [mrapi_impl_cause_event, hpc] at hstep
  split at hstep <;> rename_i hsearch <;> cases hstep
  · obtain ⟨r, hfirst⟩ := h.search_some hown hsearch
    rename_i index
    have hcounted : (s.registered.any fun r => r.node = node) = true := by
      rw [List.any_eq_true]
      exact ⟨r, List.mem_of_getElem? hfirst.at_index, decide_eq_true hfirst.node_eq⟩
    refine ⟨h.inside, h.index, h.room, h.rollover, h.holds, ?_, h.calls, h.fresh, ?_⟩
    · intro e'
      dsimp only [St.goto]
      by_cases he : e' = e
      · subst he
        rw [Function.update_self, Function.update_self, hcounted]
        exact ⟨rfl, r, hfirst⟩
      · rw [Function.update_of_ne he, Function.update_of_ne he]
        exact h.event e'
    · exact h.accounts.away (e := e) rfl rfl (by rw [hpc]; rfl) rfl (fun _ => rfl) rfl rfl
  · have hroom : decide (MRAPI_MAX_CALLBACKS < s.db.callback_index) = false :=
      decide_eq_false (Nat.not_lt.mpr h.room)
    rw [h.search_none hsearch, hroom, Bool.or_false]
    refine ⟨h.inside, h.index, h.room, h.rollover, h.holds, event_update h.event trivial, h.calls,
      h.fresh, ?_⟩
    exact h.accounts.away (e := e) rfl rfl (by rw [hpc]; rfl) rfl (fun _ => rfl) rfl rfl

omit [DecidableEq ι] in
/-- A count is written to an entry that is registered. -/
theorem Inv.setCount (h : Inv s) (hfirst : IsFirst s.registered node i r) (count : ℕ) :
    s.db.setCount i count = { s.db with
      callbacks_array := Function.update s.db.callbacks_array i
        { s.db.callbacks_array i with callback_count := count } } := by
  have hlt : i < MRAPI_MAX_CALLBACKS := by
    have hroom := h.room
    rw [h.index] at hroom
    exact lt_of_lt_of_le hfirst.lt hroom
  unfold mrapi_database.setCount mrapi_database.setCallback
  rw [if_pos hlt]

omit [DecidableEq ι] in
/-- The count is no part of what was registered. -/
theorem Inv.holds_setCount (h : Inv s) (count j : ℕ) (hj : s.registered[j]? = some r) :
    Holds (Function.update s.db.callbacks_array i
      { s.db.callbacks_array i with callback_count := count } j) r := by
  have hholds := h.holds j r hj
  by_cases hji : j = i
  · subst hji
    rw [Function.update_self]
    exact ⟨hholds.func, hholds.event, hholds.frequency, hholds.node_id, hholds.word⟩
  · rw [Function.update_of_ne hji]
    exact hholds

/-- **A step that writes a count**: the accounts of the entry decide. -/
theorem Inv.write (h : Inv s) (hfirst : IsFirst s.registered node i r) (count : ℕ)
    (hok : p.Ok s.registered (s.counted e)) (hold : ∀ j, j ≠ i → (s.pc e).entry ≠ some j)
    (hnew : ∀ j, j ≠ i → p.entry ≠ some j)
    (hown : 1 ≤ r.frequency →
      Accounts s.pc (s.count i) r.frequency (s.ended node) (s.called i) i →
      Accounts (Function.update s.pc e p) count r.frequency (s.ended node) (s.called i) i) :
    Inv ({ s with db := s.db.setCount i count }.goto e p) := by
  rw [h.setCount hfirst]
  refine ⟨h.inside, h.index, h.room, h.rollover, fun j r' hj => h.holds_setCount count j hj,
    event_update h.event hok, h.calls, h.fresh, ?_⟩
  refine h.accounts.move (e := e) (p := p) rfl rfl hfirst hold hnew ?_ (fun _ _ => rfl)
    (fun _ _ => rfl) ?_
  · intro j hj
    dsimp only [St.count, St.goto]
    rw [Function.update_of_ne hj]
  · intro hf haccounts
    have hcount : St.count ({ s with db := { s.db with
        callbacks_array := Function.update s.db.callbacks_array i
          { s.db.callbacks_array i with callback_count := count } } }.goto e p) i = count := by
      dsimp only [St.count, St.goto]
      rw [Function.update_self]
    rw [hcount]
    exact hown hf haccounts

/-- **A step with which an event ends**, perhaps with a call. -/
theorem Inv.finish (h : Inv s) (hfirst : IsFirst s.registered node i r) (calls : List Invocation)
    (hcalls : ∀ x ∈ calls, ∃ r, s.registered[x.index]? = some r ∧ x = ⟨x.index, r.func, r.event⟩)
    (hcalled : ∀ j, j ≠ i → (calls.countP fun x => x.index = j) = s.called j)
    (hold : ∀ j, j ≠ i → (s.pc e).entry ≠ some j)
    (hown : 1 ≤ r.frequency →
      Accounts s.pc (s.count i) r.frequency (s.ended node) (s.called i) i →
      Accounts (Function.update s.pc e .idle) (s.count i) r.frequency (s.ended node + 1)
        (calls.countP fun x => x.index = i) i) :
    Inv ({ s with calls := calls }.finish e node true) := by
  have hended (node' : Node) (hne : node' ≠ node) :
      Function.update s.ended node (s.ended node + 1) node' = s.ended node' :=
    Function.update_of_ne hne _ _
  refine ⟨h.inside, h.index, h.room, h.rollover, h.holds, event_update h.event trivial, hcalls,
    ?_, ?_⟩
  · intro node' hnone
    dsimp only [St.finish, St.goto]
    rw [if_pos rfl, hended node']
    · exact h.fresh node' hnone
    · rintro rfl
      exact hnone r (List.mem_of_getElem? hfirst.at_index) hfirst.node_eq
  · refine h.accounts.move (e := e) (p := .idle) rfl rfl hfirst hold nofun (fun _ _ => rfl) ?_
      hcalled ?_
    · intro node' hne
      dsimp only [St.finish, St.goto]
      rw [if_pos rfl, hended node' hne]
    · intro hf haccounts
      have hone : St.ended ({ s with calls := calls }.finish e node true) node =
          s.ended node + 1 := by
        dsimp only [St.finish, St.goto]
        rw [if_pos rfl, Function.update_self]
      rw [hone]
      exact hown hf haccounts

/-- **A step of an event.** One case for each program point. -/
theorem Inv.cause_event (h : Inv s) (hadmitted : Admitted s (.step e))
    (hstep : mrapi_impl_cause_event s e = some s') : Inv s' := by
  have hok := h.event e
  replace hadmitted : (s.pc e).Admitted s e := hadmitted
  cases hpc : s.pc e with
  | idle =>
    simp only [mrapi_impl_cause_event, hpc] at hstep
    cases hstep
  | search node =>
    rw [hpc] at hadmitted
    exact h.search hpc hadmitted hstep
  | increment node index =>
    rw [hpc] at hok hadmitted
    obtain ⟨hcounted, r, hfirst⟩ := hok
    simp only [mrapi_impl_cause_event, hpc] at hstep
    cases hstep
    have hholds := h.holds index r hfirst.at_index
    refine h.write (p := .test node index) hfirst _ ⟨hcounted, r, hfirst⟩ ?_ ?_ ?_
    · rw [hpc]
      nofun
    · intro j hj hentry
      exact hj (Option.some.inj hentry).symm
    · intro hf haccounts
      simp only [EventPc.Admitted] at hadmitted
      rw [hholds.frequency] at hadmitted
      obtain ⟨hlt, halone⟩ := hadmitted hf
      have hword := hholds.word
      rw [u32_of_lt (by omega)]
      exact haccounts.increment hpc hlt halone
  | test node index =>
    rw [hpc] at hok
    obtain ⟨hcounted, r, hfirst⟩ := hok
    have hold : ∀ j, j ≠ index → (s.pc e).entry ≠ some j := by
      intro j hj hentry
      rw [hpc] at hentry
      exact hj (Option.some.inj hentry).symm
    have hholds := h.holds index r hfirst.at_index
    simp only [mrapi_impl_cause_event, hpc, hholds.frequency] at hstep
    split at hstep <;> rename_i hc <;> cases hstep
    · refine ⟨h.inside, h.index, h.room, h.rollover, h.holds,
        event_update h.event ⟨hcounted, r, hfirst⟩, h.calls, h.fresh, ?_⟩
      refine h.accounts.move (e := e) (p := .reset node index) rfl rfl hfirst hold ?_
        (fun _ _ => rfl) (fun _ _ => rfl) (fun _ _ => rfl) ?_
      · intro j hj hentry
        exact hj (Option.some.inj hentry).symm
      · intro _ haccounts
        exact haccounts.reached hpc hc
    · rw [hcounted]
      refine h.finish hfirst s.calls h.calls (fun _ _ => rfl) hold ?_
      intro _ haccounts
      exact haccounts.pass hpc (Nat.lt_of_not_le hc)
  | reset node index =>
    rw [hpc] at hok
    obtain ⟨hcounted, r, hfirst⟩ := hok
    simp only [mrapi_impl_cause_event, hpc] at hstep
    cases hstep
    have hholds := h.holds index r hfirst.at_index
    refine h.write hfirst 0 ⟨hcounted, r, hfirst, hholds.event⟩ ?_ ?_ ?_
    · intro j hj hentry
      rw [hpc] at hentry
      exact hj (Option.some.inj hentry).symm
    · intro j hj hentry
      exact hj (Option.some.inj hentry).symm
    · intro hf haccounts
      exact haccounts.reset hpc _ hf
  | call node index ev =>
    rw [hpc] at hok
    obtain ⟨hcounted, r, hfirst, hev⟩ := hok
    simp only [mrapi_impl_cause_event, hpc] at hstep
    cases hstep
    have hholds := h.holds index r hfirst.at_index
    rw [hcounted]
    refine h.finish hfirst _ ?_ ?_ ?_ ?_
    · intro x hx
      rcases List.mem_append.mp hx with hx | hx
      · exact h.calls x hx
      · rw [List.mem_singleton.mp hx]
        exact ⟨r, hfirst.at_index, by rw [hholds.func, hev]⟩
    · intro j hj
      rw [List.countP_append, List.countP_singleton, if_neg, Nat.add_zero, St.called]
      rw [decide_eq_true_iff]
      exact fun heq => hj heq.symm
    · intro j hj hentry
      rw [hpc] at hentry
      exact hj (Option.some.inj hentry).symm
    · intro _ haccounts
      rw [List.countP_append, List.countP_singleton, if_pos (decide_eq_true rfl)]
      exact haccounts.call hpc

/-- **Every admitted step** keeps the invariant. -/
theorem Inv.step (h : Inv s) {l : Label ι} (hadmitted : Admitted s l)
    (hstep : Callbacks.step s l = some s') : Inv s' := by
  cases l with
  | register whoami event frequency func =>
    cases whoami with
    | none =>
      simp only [Callbacks.step, mrapi_impl_resource_register_callback] at hstep
      split at hstep <;> cases hstep <;> exact h
    | some node =>
      by_cases hevent : event = 0
      · simp only [Callbacks.step, mrapi_impl_resource_register_callback, if_pos hevent] at hstep
        cases hstep
        exact h
      · have hregister := h.register node frequency func hevent (hadmitted rfl hevent)
        simp only [Callbacks.step, mrapi_impl_resource_register_callback, if_neg hevent, if_true]
          at hstep hregister
        cases hstep
        exact hregister
  | start name n callback =>
    cases hstep
    exact h.start hadmitted
  | cause e whoami =>
    simp only [Callbacks.step] at hstep
    split at hstep <;> cases hstep
    · exact h.cause ‹_›
    · exact h
  | step e => exact h.cause_event hadmitted hstep

end Invariant

/-- **In every run whose steps are admitted**, no entry outside the arrays is touched, and the
first callback of each node is called once for every `f` of its events, with its own event. -/
theorem callbacks_right {ι : Type} [DecidableEq ι] {s : St ι}
    (h : Run step (fun s l _ => Admitted s l) (init ι) s) : CallbacksRight s := by
  have hinv : Inv s := by
    refine Run.invariant (I := fun s : St ι => Inv s) ?_ h Inv.init
    intro _ _ _ hs hstep hadmitted
    exact hs.step hadmitted hstep
  exact hinv.callbacksRight

/-- A node registers a callback on every second event. -/
def everySecond {ι : Type} : Label ι := Label.register (some ⟨1, 1⟩) 5 2 7

example : (step (init Unit) everySecond).isSome := by decide +kernel

/-- Two events one after the other call it once. -/
theorem events_call_once :
    ∃ s : St Unit, CallbacksRight s ∧ s.ended ⟨1, 1⟩ = 2 ∧ s.calls = [⟨0, 7, 5⟩] := by
  have hexec : (exec step (fun s l _ => decide (Admitted s l)) (init Unit)
      [everySecond, Label.cause () (some ⟨1, 1⟩), Label.step (), Label.step (), Label.step (),
        Label.cause () (some ⟨1, 1⟩), Label.step (), Label.step (), Label.step (), Label.step (),
        Label.step ()]).any
      (fun s => s.ended ⟨1, 1⟩ = 2 ∧ s.calls = [⟨0, 7, 5⟩]) = true := by
    decide +kernel
  obtain ⟨s, hrun, hs⟩ := exec_run_of_any hexec
  have hright := callbacks_right (hrun.mono fun _ _ _ => of_decide_eq_true)
  exact ⟨s, hright, of_decide_eq_true hs⟩

/-! ## Other runs -/

section Runs

variable {ι : Type} [DecidableEq ι]

/-- All runs. -/
def Reached (s : St ι) : Prop := Run step (fun _ _ _ => True) (init ι) s

theorem exec_reached (labels : List (Label ι)) {p : St ι → Bool}
    (h : (exec step (fun _ _ _ => true) (init ι) labels).any p = true) :
    ∃ s : St ι, Reached s ∧ p s = true := by
  obtain ⟨s, hrun, hp⟩ := exec_run_of_any h
  exact ⟨s, hrun.mono fun _ _ _ _ => trivial, hp⟩

/-- **The eleventh registration** writes behind the array. -/
theorem registrations_overrun : ¬ ∀ s : St Unit, Reached s → CallbacksRight s := by
  intro hall
  obtain ⟨s, hreached, hs⟩ := exec_reached (List.replicate 11 everySecond)
    (p := fun s : St Unit => s.db.overrun) (by decide +kernel)
  rw [(hall s hreached).inside] at hs
  cases hs

/-- **Two events that meet** between the increment and the reset both call the callback. -/
theorem concurrent_events_call_twice :
    ∃ s : St Bool, Reached s ∧ s.ended ⟨1, 1⟩ = 2 ∧ s.calls = [⟨0, 7, 5⟩, ⟨0, 7, 5⟩] := by
  obtain ⟨s, hreached, hs⟩ := exec_reached ([everySecond, Label.cause false (some ⟨1, 1⟩),
      Label.cause true (some ⟨1, 1⟩)] ++ List.flatten (List.replicate 5
        [Label.step false, Label.step true]))
    (p := fun s : St Bool => s.ended ⟨1, 1⟩ = 2 ∧ s.calls = [⟨0, 7, 5⟩, ⟨0, 7, 5⟩])
    (by decide +kernel)
  exact ⟨s, hreached, of_decide_eq_true hs⟩

/-- **A node of another domain** with the same number counts for the callback of the first. -/
theorem namesake_events_call :
    ∃ s : St Unit, Reached s ∧ s.ended ⟨1, 1⟩ = 0 ∧ s.calls = [⟨0, 7, 5⟩] := by
  obtain ⟨s, hreached, hs⟩ := exec_reached ([everySecond] ++ List.flatten (List.replicate 2
      ([Label.cause () (some ⟨2, 1⟩)] ++ List.replicate 3 (Label.step ()))) ++
      List.replicate 2 (Label.step ()))
    (p := fun s : St Unit => s.ended ⟨1, 1⟩ = 0 ∧ s.calls = [⟨0, 7, 5⟩]) (by decide +kernel)
  exact ⟨s, hreached, of_decide_eq_true hs⟩

end Runs

end MxApi.Callbacks
