/-
Forwarded operations are neither lost nor duplicated where every claim finds the
slot free.

Two things are followed along a run. Whose turn the slot is: a client's that has
claimed it, the pending signal's, or that of the thread that handles it
([`Tokens`]). And where the operations are: each one that has been put into the
slot is still there, or in the local copy of one thread, or executed, and never in
two of these ([`Accounts`]).

A claim that finds the slot in use goes on all the same, and overwrites what is
there: the operation overwritten is never executed ([`forward_loses`]).
-/
import Mathlib.Data.List.Nodup
import MxApi.Lib.Places
import MxApi.Mrapi.Forward

set_option autoImplicit false

namespace MxApi.Forward

open Lib

variable {τ S η : Type}

/-! ## Program points -/

/-- The client has claimed the slot and not yet sent the signal. -/
def ClientPc.busy : ClientPc τ S → Bool
  | .write _ | .kill _ => true
  | _ => false

/-- The operation of a client that has not yet put it into the slot. -/
def ClientPc.early : ClientPc τ S → Option (Op τ S)
  | .claim op | .write op => some op
  | _ => none

/-- The operation of a client that has put it into the slot. -/
def ClientPc.late : ClientPc τ S → Option (Op τ S)
  | .kill op | .wait op => some op
  | _ => none

/-- The thread has taken a signal and not yet marked the slot as available. -/
def HandlerPc.busy : HandlerPc τ S → Bool
  | .spin | .copy | .release _ => true
  | _ => false

/-- The thread's local copy. -/
def HandlerPc.copied : HandlerPc τ S → Option (Op τ S)
  | .release op | .exec op => op
  | _ => none

/-! ## Whose turn it is -/

/-- Who has the slot. -/
inductive Phase (τ η : Type)
  | free
  | client (t : τ)
  | signal
  | handler (h : η)
  deriving DecidableEq

/-- A client that has the slot has filled it. -/
def ClientPc.filled : ClientPc τ S → Bool
  | .kill _ => true
  | _ => false

/-- A thread that has the slot has not copied it yet. -/
def HandlerPc.filled : HandlerPc τ S → Bool
  | .spin | .copy => true
  | _ => false

/-- The slot holds an operation that has not been copied, going by who has it. -/
def uncopied (s : St τ S η) : Phase τ η → Bool
  | .free => false
  | .client t => (s.client t).filled
  | .signal => true
  | .handler h => (s.handler h).filled

/-- One party has the slot, and the others know. -/
structure Tokens (s : St τ S η) (ph : Phase τ η) : Prop where
  client : ∀ t, (s.client t).busy = true ↔ ph = .client t
  signal : s.signal = true ↔ ph = .signal
  handler : ∀ h, (s.handler h).busy = true ↔ ph = .handler h
  valid : s.valid = true ↔ ph ≠ .free
  full : s.full = uncopied s ph

/-! ## Where the operations are -/

/-- The places of an operation that has been put into the slot. -/
inductive Place (η : Type)
  | slot
  | copy (h : η)
  | executed

/-- The operation is in the place. -/
def At (s : St τ S η) (x : Op τ S) : Place η → Prop
  | .slot => s.full = true ∧ s.slot = some x
  | .copy h => (s.handler h).copied = some x
  | .executed => x ∈ s.executed

/-- The accounts of the operations: every operation put into the slot is in one
place; the clients' operations are their own, put into the slot once and by the
client that is waiting for it; and a result is that of an executed operation. -/
structure Accounts (s : St τ S η) : Prop where
  placed : Placed (· ∈ s.posted) (At s)
  nodup : s.executed.Nodup
  slotted : s.full = true → s.slot ≠ none
  seq : ∀ x ∈ s.posted, x.seq < s.started x.spindex
  mine : ∀ t op, (s.client t).early = some op ∨ (s.client t).late = some op →
    op.spindex = t ∧ op.seq < s.started t
  early : ∀ t op, (s.client t).early = some op → op ∉ s.posted
  late : ∀ t op, (s.client t).late = some op → op ∈ s.posted
  waiting : ∀ x ∈ s.posted, x ∉ s.executed → (s.client x.spindex).late = some x
  result : ∀ t m y, s.id t m = some y → y ∈ s.executed ∧ y.spindex = t ∧ y.s = m
  own : ∀ t op y, (s.client t).early = some op ∨ (s.client t).late = some op →
    s.id t op.s = some y → y = op

variable [DecidableEq τ] [DecidableEq S] [DecidableEq η]

omit [DecidableEq S] [DecidableEq η] in
/-- A client goes on with its operation, or has its result. -/
theorem Accounts.goto {s : St τ S η} (h : Accounts s) (valid signal : Bool) (t : τ)
    {pc : ClientPc τ S} (hearly : pc.early = (s.client t).early)
    (hlate : pc.late = (s.client t).late ∨
      (pc.late = none ∧ ∀ op, (s.client t).late = some op → op ∈ s.executed)) :
    Accounts { s with
      valid := valid, signal := signal, client := Function.update s.client t pc } := by
  have hlate' : ∀ op, pc.late = some op → (s.client t).late = some op := by
    intro op hop
    rcases hlate with hsame | ⟨hnone, -⟩
    · rw [← hsame, hop]
    · rw [hnone] at hop
      cases hop
  -- what each client carries, it carried before
  have hall : ∀ u op, (Function.update s.client t pc u).early = some op →
      (s.client u).early = some op := by
    intro u op hop
    by_cases hu : u = t
    · subst hu
      rw [Function.update_self, hearly] at hop
      exact hop
    · rwa [Function.update_of_ne hu] at hop
  have hall' : ∀ u op, (Function.update s.client t pc u).late = some op →
      (s.client u).late = some op := by
    intro u op hop
    by_cases hu : u = t
    · subst hu
      rw [Function.update_self] at hop
      exact hlate' op hop
    · rwa [Function.update_of_ne hu] at hop
  constructor
  · exact h.placed
  · exact h.nodup
  · exact h.slotted
  · exact h.seq
  · exact fun u op hop => h.mine u op (hop.imp (hall u op) (hall' u op))
  · exact fun u op hop => h.early u op (hall u op hop)
  · exact fun u op hop => h.late u op (hall' u op hop)
  · intro x hx hnot
    have hw := h.waiting x hx hnot
    change (Function.update s.client t pc x.spindex).late = some x
    by_cases hu : x.spindex = t
    · rw [hu] at hw ⊢
      rw [Function.update_self]
      rcases hlate with hsame | ⟨-, hexec⟩
      · rw [hsame, hw]
      · exact absurd (hexec x hw) hnot
    · rwa [Function.update_of_ne hu]
  · exact h.result
  · exact fun u op y hop => h.own u op y (hop.imp (hall u op) (hall' u op))

omit [DecidableEq τ] [DecidableEq S] in
/-- A thread goes on with its local copy. -/
theorem Accounts.handle {s : St τ S η} (h : Accounts s) (valid signal : Bool) (k : η)
    {pc : HandlerPc τ S} (hcopied : pc.copied = (s.handler k).copied) :
    Accounts { s with
      valid := valid, signal := signal, handler := Function.update s.handler k pc } := by
  refine ⟨h.placed.congr ?_, h.nodup, h.slotted, h.seq, h.mine, h.early, h.late, h.waiting,
    h.result, h.own⟩
  intro x p
  cases p with
  | slot => exact Iff.rfl
  | executed => exact Iff.rfl
  | copy k' =>
    change (Function.update s.handler k pc k').copied = some x ↔ (s.handler k').copied = some x
    by_cases hk : k' = k
    · rw [hk, Function.update_self, hcopied]
    · rw [Function.update_of_ne hk]

omit [DecidableEq S] [DecidableEq η] in
/-- A client starts to forward, with a fresh number. -/
theorem Accounts.forward {s : St τ S η} (h : Accounts s) {t : τ} {m : S}
    (hpc : s.client t = .idle) (hid : s.id t m = none) :
    Accounts { s with
      client := Function.update s.client t (.claim ⟨t, m, s.started t⟩)
      started := Function.update s.started t (s.started t + 1) } := by
  have hle : ∀ u, s.started u ≤ Function.update s.started t (s.started t + 1) u := by
    intro u
    by_cases hu : u = t
    · rw [hu, Function.update_self]
      exact Nat.le_succ _
    · exact Nat.le_of_eq (Function.update_of_ne hu _ _).symm
  have hcases : ∀ u op,
      (Function.update s.client t (.claim ⟨t, m, s.started t⟩) u).early = some op →
        (u = t ∧ op = ⟨t, m, s.started t⟩) ∨ (s.client u).early = some op := by
    intro u op hop
    by_cases hu : u = t
    · rw [hu, Function.update_self] at hop
      exact .inl ⟨hu, (Option.some.inj hop).symm⟩
    · rw [Function.update_of_ne hu] at hop
      exact .inr hop
  have hlate : ∀ u op,
      (Function.update s.client t (.claim ⟨t, m, s.started t⟩) u).late = some op →
        (s.client u).late = some op := by
    intro u op hop
    by_cases hu : u = t
    · rw [hu, Function.update_self] at hop
      cases hop
    · rwa [Function.update_of_ne hu] at hop
  constructor
  · exact h.placed
  · exact h.nodup
  · exact h.slotted
  · exact fun x hx => Nat.lt_of_lt_of_le (h.seq x hx) (hle _)
  · intro u op hop
    rcases hop with hop | hop
    · rcases hcases u op hop with ⟨rfl, rfl⟩ | hold
      · refine ⟨rfl, ?_⟩
        change s.started u < Function.update s.started u (s.started u + 1) u
        rw [Function.update_self]
        exact Nat.lt_succ_self _
      · have hmine := h.mine u op (.inl hold)
        exact ⟨hmine.1, Nat.lt_of_lt_of_le hmine.2 (hle u)⟩
    · have hold := h.mine u op (.inr (hlate u op hop))
      exact ⟨hold.1, Nat.lt_of_lt_of_le hold.2 (hle u)⟩
  · intro u op hop
    rcases hcases u op hop with ⟨rfl, rfl⟩ | hold
    · intro hx
      exact Nat.lt_irrefl _ (h.seq _ hx)
    · exact h.early u op hold
  · exact fun u op hop => h.late u op (hlate u op hop)
  · intro x hx hnot
    have hw := h.waiting x hx hnot
    change (Function.update s.client t (.claim ⟨t, m, s.started t⟩) x.spindex).late = some x
    by_cases hu : x.spindex = t
    · rw [hu, hpc] at hw
      cases hw
    · rwa [Function.update_of_ne hu]
  · exact h.result
  · intro u op y hop hy
    rcases hop with hop | hop
    · rcases hcases u op hop with ⟨rfl, rfl⟩ | hold
      · rw [hid] at hy
        cases hy
      · exact h.own u op y (.inl hold) hy
    · exact h.own u op y (.inr (hlate u op hop)) hy

omit [DecidableEq S] [DecidableEq η] in
/-- A client puts its operation into a slot that holds nothing. -/
theorem Accounts.write {s : St τ S η} (h : Accounts s) {t : τ} {op : Op τ S}
    (hpc : s.client t = .write op) (hfull : s.full = false) :
    Accounts { s with
      valid := true, slot := some op, full := true, posted := s.posted ++ [op]
      client := Function.update s.client t (.kill op) } := by
  have hearly : (s.client t).early = some op := by rw [hpc]; rfl
  have hnew : op ∉ s.posted := h.early t op hearly
  have hmine := h.mine t op (.inl hearly)
  have hcarried : ∀ u o, (Function.update s.client t (.kill op) u).early = some o ∨
      (Function.update s.client t (.kill op) u).late = some o →
      (s.client u).early = some o ∨ (s.client u).late = some o := by
    intro u o hop
    by_cases hu : u = t
    · rw [hu, Function.update_self] at hop
      rcases hop with hop | hop
      · cases hop
      · rw [hu]
        cases hop
        exact .inl hearly
    · rwa [Function.update_of_ne hu] at hop
  constructor
  · refine h.placed.move op .slot ?_ ?_ ?_
    · intro y hy p
      cases p with
      | slot =>
        constructor
        · rintro ⟨-, hslot⟩
          exact absurd (Option.some.inj hslot).symm hy
        · rintro ⟨hf, -⟩
          rw [hfull] at hf
          cases hf
      | copy k => exact Iff.rfl
      | executed => exact Iff.rfl
    · intro p
      have hnowhere : ∀ q, ¬ At s op q := fun q hq => hnew (h.placed.item_of hq)
      cases p with
      | slot => exact ⟨fun _ => rfl, fun _ => ⟨rfl, rfl⟩⟩
      | copy k => exact ⟨fun hq => absurd hq (hnowhere (.copy k)), (fun hq => by cases hq)⟩
      | executed => exact ⟨fun hq => absurd hq (hnowhere .executed), (fun hq => by cases hq)⟩
    · intro y
      rw [List.mem_append, List.mem_singleton]
  · exact h.nodup
  · intro _ hnone
    cases hnone
  · intro x hx
    rcases List.mem_append.mp hx with hold | hx
    · exact h.seq x hold
    · rw [List.mem_singleton.mp hx, hmine.1]
      exact hmine.2
  · exact fun u o hop => h.mine u o (hcarried u o hop)
  · intro u o hop hin
    change (Function.update s.client t (.kill op) u).early = some o at hop
    by_cases hu : u = t
    · rw [hu, Function.update_self] at hop
      cases hop
    · rw [Function.update_of_ne hu] at hop
      rcases List.mem_append.mp hin with hold | hx
      · exact h.early u o hop hold
      · -- another client's operation is not this one
        rw [List.mem_singleton.mp hx] at hop
        exact hu ((h.mine u op (.inl hop)).1.symm.trans hmine.1)
  · intro u o hop
    change (Function.update s.client t (.kill op) u).late = some o at hop
    by_cases hu : u = t
    · rw [hu, Function.update_self] at hop
      cases hop
      exact List.mem_append_right _ (List.mem_singleton_self _)
    · rw [Function.update_of_ne hu] at hop
      exact List.mem_append_left _ (h.late u o hop)
  · intro x hx hnot
    change (Function.update s.client t (.kill op) x.spindex).late = some x
    rcases List.mem_append.mp hx with hold | hx
    · have hw := h.waiting x hold hnot
      have hu : x.spindex ≠ t := by
        intro hu
        rw [hu, hpc] at hw
        cases hw
      rwa [Function.update_of_ne hu]
    · rw [List.mem_singleton.mp hx, hmine.1, Function.update_self]
      rfl
  · exact h.result
  · exact fun u o y hop => h.own u o y (hcarried u o hop)

omit [DecidableEq τ] [DecidableEq S] in
/-- A thread copies the operation in the slot. -/
theorem Accounts.copy {s : St τ S η} (h : Accounts s) {k : η} (hpc : s.handler k = .copy)
    (hfull : s.full = true) :
    Accounts { s with
      full := false, handler := Function.update s.handler k (.release s.slot) } := by
  obtain ⟨x, hx⟩ := Option.ne_none_iff_exists'.mp (h.slotted hfull)
  have hslot : At s x .slot := ⟨hfull, hx⟩
  refine ⟨?_, h.nodup, (fun hf => by cases hf), h.seq, h.mine, h.early, h.late, h.waiting,
    h.result, h.own⟩
  refine h.placed.move x (.copy k) ?_ ?_ ?_
  · intro y hy p
    cases p with
    | slot =>
      constructor
      · rintro ⟨hf, -⟩
        cases hf
      · rintro ⟨-, hslot'⟩
        rw [hx] at hslot'
        exact absurd (Option.some.inj hslot').symm hy
    | copy k' =>
      change (Function.update s.handler k (.release s.slot) k').copied = some y ↔
        (s.handler k').copied = some y
      by_cases hk : k' = k
      · rw [hk, Function.update_self, hpc]
        constructor
        · intro hcopy
          exact absurd (Option.some.inj (hx.symm.trans hcopy)).symm hy
        · intro hcopy
          cases hcopy
      · rw [Function.update_of_ne hk]
    | executed => exact Iff.rfl
  · intro p
    cases p with
    | slot => exact ⟨(fun hq => by cases hq.1), (fun hq => by cases hq)⟩
    | copy k' =>
      change (Function.update s.handler k (.release s.slot) k').copied = some x ↔ _
      by_cases hk : k' = k
      · rw [hk, Function.update_self]
        exact ⟨fun _ => rfl, fun _ => hx⟩
      · rw [Function.update_of_ne hk]
        constructor
        · intro hcopy
          cases h.placed.once x .slot (.copy k') hslot hcopy
        · intro heq
          cases heq
          exact absurd rfl hk
    | executed =>
      constructor
      · intro hexec
        cases h.placed.once x .slot .executed hslot hexec
      · intro heq
        cases heq
  · intro y
    constructor
    · exact .inl
    · rintro (hy | rfl)
      · exact hy
      · exact h.placed.item_of hslot

omit [DecidableEq η] in
/-- What the table of results holds after an entry has been stored. -/
theorem update_id_eq_some {id : τ → S → Option (Op τ S)} {x : Op τ S} {t : τ} {m : S}
    {y : Op τ S}
    (hy : Function.update id x.spindex (Function.update (id x.spindex) x.s (some x)) t m =
      some y) :
    (y = x ∧ x.spindex = t ∧ x.s = m) ∨ id t m = some y := by
  by_cases ht : t = x.spindex
  · subst ht
    rw [Function.update_self] at hy
    by_cases hm : m = x.s
    · subst hm
      rw [Function.update_self] at hy
      exact .inl ⟨(Option.some.inj hy).symm, rfl, rfl⟩
    · rw [Function.update_of_ne hm] at hy
      exact .inr hy
  · rw [Function.update_of_ne ht] at hy
    exact .inr hy

/-- A thread executes its local copy. -/
theorem Accounts.exec {s : St τ S η} (h : Accounts s) {k : η} {x : Op τ S}
    (hpc : s.handler k = .exec (some x)) :
    Accounts { s with
      id := Function.update s.id x.spindex (Function.update (s.id x.spindex) x.s (some x))
      executed := s.executed ++ [x]
      handler := Function.update s.handler k .idle } := by
  have hcopy : At s x (.copy k) := by
    change (s.handler k).copied = some x
    rw [hpc]
    rfl
  have hposted := h.placed.item_of hcopy
  have hnot : x ∉ s.executed := by
    intro hexec
    cases h.placed.once x (.copy k) .executed hcopy hexec
  constructor
  · refine h.placed.move x .executed ?_ ?_ ?_
    · intro y hy p
      cases p with
      | slot => exact Iff.rfl
      | copy k' =>
        change (Function.update s.handler k .idle k').copied = some y ↔
          (s.handler k').copied = some y
        by_cases hk : k' = k
        · rw [hk, Function.update_self, hpc]
          constructor
          · intro hq
            cases hq
          · intro hq
            exact absurd (Option.some.inj hq).symm hy
        · rw [Function.update_of_ne hk]
      | executed =>
        change y ∈ s.executed ++ [x] ↔ y ∈ s.executed
        rw [List.mem_append, List.mem_singleton]
        exact ⟨fun hq => hq.resolve_right hy, .inl⟩
    · intro p
      cases p with
      | slot =>
        constructor
        · intro hq
          cases h.placed.once x (.copy k) .slot hcopy hq
        · intro hq
          cases hq
      | copy k' =>
        change (Function.update s.handler k .idle k').copied = some x ↔ _
        by_cases hk : k' = k
        · rw [hk, Function.update_self]
          exact ⟨(fun hq => by cases hq), (fun hq => by cases hq)⟩
        · rw [Function.update_of_ne hk]
          constructor
          · intro hq
            cases h.placed.once x (.copy k) (.copy k') hcopy hq
            exact absurd rfl hk
          · intro hq
            cases hq
      | executed =>
        exact ⟨fun _ => rfl, fun _ => List.mem_append_right _ (List.mem_singleton_self _)⟩
    · intro y
      constructor
      · exact .inl
      · rintro (hy | rfl)
        · exact hy
        · exact hposted
  · refine List.nodup_append.mpr ⟨h.nodup, List.nodup_singleton x, ?_⟩
    intro y hy z hz
    rw [List.mem_singleton.mp hz]
    rintro rfl
    exact hnot hy
  · exact h.slotted
  · exact h.seq
  · exact h.mine
  · exact h.early
  · exact h.late
  · intro y hy hnot'
    exact h.waiting y hy fun hexec => hnot' (List.mem_append_left _ hexec)
  · intro t m y hy
    rcases update_id_eq_some hy with ⟨rfl, ht, hm⟩ | hold
    · exact ⟨List.mem_append_right _ (List.mem_singleton_self _), ht, hm⟩
    · obtain ⟨hexec, ht, hm⟩ := h.result t m y hold
      exact ⟨List.mem_append_left _ hexec, ht, hm⟩
  · intro t op y hop hy
    rcases update_id_eq_some hy with ⟨rfl, ht, -⟩ | hold
    · -- the client whose operation has been executed is waiting for it
      have hw := h.waiting y hposted hnot
      rw [ht] at hw
      rcases hop with hop | hop
      · have hboth : ∀ pc : ClientPc τ S, pc.late = some y → pc.early = none := by
          intro pc hpc
          cases pc <;> first | rfl | cases hpc
        change (s.client t).early = some op at hop
        rw [hboth _ hw] at hop
        cases hop
      · exact Option.some.inj (hw.symm.trans hop)
    · exact h.own t op y hop hold

omit [DecidableEq η] in
/-- An idle client forgets a shared memory. -/
theorem Accounts.forget {s : St τ S η} (h : Accounts s) {t : τ} {m : S} :
    Accounts { s with id := Function.update s.id t (Function.update (s.id t) m none) } := by
  have hold : ∀ u m' y,
      Function.update s.id t (Function.update (s.id t) m none) u m' = some y →
        s.id u m' = some y := by
    intro u m' y hy
    by_cases hu : u = t
    · subst hu
      rw [Function.update_self] at hy
      by_cases hm : m' = m
      · rw [hm, Function.update_self] at hy
        cases hy
      · rwa [Function.update_of_ne hm] at hy
    · rwa [Function.update_of_ne hu] at hy
  exact ⟨h.placed, h.nodup, h.slotted, h.seq, h.mine, h.early, h.late, h.waiting,
    fun u m' y hy => h.result u m' y (hold u m' y hy),
    fun u op y hop hy => h.own u op y hop (hold u op.s y hy)⟩

/-! ## The slot changes hands -/

omit [DecidableEq τ] [DecidableEq S] [DecidableEq η] in
/-- Whether the slot is uncopied depends on the party that has it. -/
theorem uncopied_congr {s s' : St τ S η} {ph : Phase τ η}
    (hclient : ∀ t, ph = .client t → s'.client t = s.client t)
    (hhandler : ∀ k, ph = .handler k → s'.handler k = s.handler k) :
    uncopied s' ph = uncopied s ph := by
  cases ph with
  | free => rfl
  | signal => rfl
  | client t => exact congrArg ClientPc.filled (hclient t rfl)
  | handler k => exact congrArg HandlerPc.filled (hhandler k rfl)

/-- A property of one party changes. -/
theorem update_iff {α β : Type} [DecidableEq α] {f : α → β} {p : β → Bool} {Q Q' : α → Prop}
    {a : α} {b : β} (h : ∀ x, p (f x) = true ↔ Q x) (hself : p b = true ↔ Q' a)
    (hothers : ∀ x, x ≠ a → (Q' x ↔ Q x)) (x : α) :
    p (Function.update f a b x) = true ↔ Q' x := by
  by_cases hx : x = a
  · rw [hx, Function.update_self]
    exact hself
  · rw [Function.update_of_ne hx, h x, hothers x hx]

omit [DecidableEq S] [DecidableEq η] in
/-- A client that does not have the slot moves without taking it. -/
theorem Tokens.client_outside {s : St τ S η} {ph : Phase τ η} (h : Tokens s ph) {t : τ}
    {pc : ClientPc τ S} (hout : (s.client t).busy = false) (hout' : pc.busy = false)
    (started : τ → ℕ) :
    Tokens { s with client := Function.update s.client t pc, started := started } ph := by
  have hne : ph ≠ .client t := by
    intro heq
    rw [(h.client t).mpr heq] at hout
    cases hout
  refine ⟨?_, h.signal, h.handler, h.valid, ?_⟩
  · refine update_iff h.client ?_ (fun _ _ => Iff.rfl)
    rw [hout']
    exact ⟨(fun hf => by cases hf), fun heq => absurd heq hne⟩
  · refine h.full.trans (Eq.symm (uncopied_congr ?_ fun _ _ => rfl))
    intro u hu
    have hut : u ≠ t := by
      rintro rfl
      exact hne hu
    exact Function.update_of_ne hut _ _

omit [DecidableEq S] [DecidableEq η] in
theorem Tokens.claim {s : St τ S η} {ph : Phase τ η} (h : Tokens s ph) {t : τ} {op : Op τ S}
    (hfree : s.valid = false) :
    Tokens { s with valid := true, client := Function.update s.client t (.write op) }
      (.client t) := by
  have hph : ph = .free := by
    by_contra hne
    rw [h.valid.mpr hne] at hfree
    cases hfree
  subst hph
  refine ⟨?_, ?_, ?_, (by simp), ?_⟩
  · refine update_iff h.client (by simp [ClientPc.busy]) ?_
    intro u hu
    simp only [Phase.client.injEq, reduceCtorEq, iff_false]
    exact fun heq => hu heq.symm
  · exact h.signal.trans (by simp)
  · exact fun k => (h.handler k).trans (by simp)
  · rw [h.full]
    simp [uncopied, ClientPc.filled]

omit [DecidableEq S] [DecidableEq η] in
theorem Tokens.write {s : St τ S η} {ph : Phase τ η} (h : Tokens s ph) {t : τ} {op : Op τ S}
    (hpc : s.client t = .write op) :
    ph = .client t ∧ s.full = false ∧
    Tokens { s with
      valid := true, slot := some op, full := true, posted := s.posted ++ [op]
      client := Function.update s.client t (.kill op) } (.client t) := by
  have hph : ph = .client t := (h.client t).mp (by rw [hpc]; rfl)
  subst hph
  refine ⟨rfl, ?_, ?_, h.signal, h.handler, (by simp), ?_⟩
  · rw [h.full, uncopied, hpc]
    rfl
  · exact update_iff h.client (by simp [ClientPc.busy]) (fun _ _ => Iff.rfl)
  · simp [uncopied, ClientPc.filled]

omit [DecidableEq S] [DecidableEq η] in
theorem Tokens.kill {s : St τ S η} {ph : Phase τ η} (h : Tokens s ph) {t : τ} {op : Op τ S}
    (hpc : s.client t = .kill op) :
    Tokens { s with signal := true, client := Function.update s.client t (.wait op) }
      .signal := by
  have hph : ph = .client t := (h.client t).mp (by rw [hpc]; rfl)
  subst hph
  refine ⟨?_, (by simp), ?_, ?_, ?_⟩
  · refine update_iff h.client (by simp [ClientPc.busy]) ?_
    intro u hu
    simp only [Phase.client.injEq, reduceCtorEq, false_iff]
    exact fun heq => hu heq.symm
  · exact fun k => (h.handler k).trans (by simp)
  · exact h.valid.trans (by simp)
  · rw [h.full, uncopied, hpc]
    rfl

omit [DecidableEq τ] [DecidableEq S] in
theorem Tokens.deliver {s : St τ S η} {ph : Phase τ η} (h : Tokens s ph) {k : η}
    (hsignal : s.signal = true) :
    Tokens { s with signal := false, handler := Function.update s.handler k .spin }
      (.handler k) := by
  have hph : ph = .signal := h.signal.mp hsignal
  subst hph
  refine ⟨?_, (by simp), ?_, ?_, ?_⟩
  · exact fun t => (h.client t).trans (by simp)
  · refine update_iff h.handler (by simp [HandlerPc.busy]) ?_
    intro k' hk
    simp only [Phase.handler.injEq, reduceCtorEq, iff_false]
    exact fun heq => hk heq.symm
  · exact h.valid.trans (by simp)
  · rw [h.full]
    simp [uncopied, HandlerPc.filled]

omit [DecidableEq τ] [DecidableEq S] in
/-- A thread that has the slot goes on without giving it up. -/
theorem Tokens.handler_inside {s : St τ S η} {ph : Phase τ η} (h : Tokens s ph) {k : η}
    (pc : HandlerPc τ S) (hin : (s.handler k).busy = true) (hin' : pc.busy = true)
    (full : Bool) (hfull : full = pc.filled) :
    ph = .handler k ∧
    Tokens { s with full := full, handler := Function.update s.handler k pc } ph := by
  have hph : ph = .handler k := (h.handler k).mp hin
  subst hph
  refine ⟨rfl, h.client, h.signal, ?_, h.valid, ?_⟩
  · exact update_iff h.handler (by simp [hin']) (fun _ _ => Iff.rfl)
  · rw [hfull, uncopied]
    simp

omit [DecidableEq τ] [DecidableEq S] in
theorem Tokens.release {s : St τ S η} {ph : Phase τ η} (h : Tokens s ph) {k : η}
    {op : Option (Op τ S)} (hpc : s.handler k = .release op) :
    Tokens { s with valid := false, handler := Function.update s.handler k (.exec op) }
      .free := by
  have hph : ph = .handler k := (h.handler k).mp (by rw [hpc]; rfl)
  subst hph
  refine ⟨?_, ?_, ?_, (by simp), ?_⟩
  · exact fun t => (h.client t).trans (by simp)
  · exact h.signal.trans (by simp)
  · refine update_iff h.handler (by simp [HandlerPc.busy]) ?_
    intro k' hk
    simp only [Phase.handler.injEq, reduceCtorEq, false_iff]
    exact fun heq => hk heq.symm
  · refine h.full.trans ?_
    change (s.handler k).filled = false
    rw [hpc]
    rfl

omit [DecidableEq τ] [DecidableEq S] in
/-- A thread that has given the slot up finishes. -/
theorem Tokens.handler_outside {s : St τ S η} {ph : Phase τ η} (h : Tokens s ph) {k : η}
    {op : Option (Op τ S)} (hpc : s.handler k = .exec op)
    (id : τ → S → Option (Op τ S)) (executed : List (Op τ S)) :
    Tokens { s with
      id := id, executed := executed, handler := Function.update s.handler k .idle } ph := by
  have hne : ph ≠ .handler k := by
    intro heq
    have hbusy := (h.handler k).mpr heq
    rw [hpc] at hbusy
    cases hbusy
  refine ⟨h.client, h.signal, ?_, h.valid, ?_⟩
  · refine update_iff h.handler ?_ (fun _ _ => Iff.rfl)
    exact ⟨(fun hf => by cases hf), fun heq => absurd heq hne⟩
  · refine h.full.trans (Eq.symm (uncopied_congr (fun _ _ => rfl) ?_))
    intro k' hk
    have hkk : k' ≠ k := by
      rintro rfl
      exact hne hk
    exact Function.update_of_ne hkk _ _

/-! ## Runs -/

/-- The claim that the label is about to perform, if any, finds the slot free. -/
def FreeClaim (s : St τ S η) (a : Label τ S η) : Prop :=
  match a with
  | .client t =>
    match s.client t with
    | .claim _ => s.valid = false
    | _ => True
  | _ => True

omit [DecidableEq τ] [DecidableEq S] [DecidableEq η] in
instance (s : St τ S η) (a : Label τ S η) : Decidable (FreeClaim s a) := by
  unfold FreeClaim
  split
  · split <;> infer_instance
  · infer_instance

/-- The invariant. -/
structure Forwarding (s : St τ S η) : Prop where
  tokens : ∃ ph, Tokens s ph
  accounts : Accounts s

omit [DecidableEq S] [DecidableEq η] in
theorem Forwarding.client {s s' : St τ S η} {t : τ} (h : Forwarding s)
    (hstep : clientStep s t = some s') (hguard : FreeClaim s (.client t)) : Forwarding s' := by
  obtain ⟨ph, htok⟩ := h.tokens
  unfold clientStep at hstep
  cases hpc : s.client t with
  | idle =>
    rw [hpc] at hstep
    cases hstep
  | claim op =>
    rw [hpc] at hstep
    simp only [FreeClaim, hpc] at hguard
    simp only [claimLoop_eq, Bool.false_eq_true, if_false, Option.some.injEq] at hstep
    subst hstep
    refine ⟨⟨_, htok.claim hguard⟩, ?_⟩
    exact h.accounts.goto true s.signal t (by rw [hpc]; rfl) (.inl (by rw [hpc]; rfl))
  | write op =>
    rw [hpc] at hstep
    cases hstep
    obtain ⟨-, hfull, htok'⟩ := htok.write hpc
    exact ⟨⟨_, htok'⟩, h.accounts.write hpc hfull⟩
  | kill op =>
    rw [hpc] at hstep
    cases hstep
    refine ⟨⟨_, htok.kill hpc⟩, ?_⟩
    exact h.accounts.goto s.valid true t (by rw [hpc]; rfl) (.inl (by rw [hpc]; rfl))
  | wait op =>
    rw [hpc] at hstep
    dsimp only at hstep
    split at hstep
    · rename_i hid
      cases hstep
      refine ⟨⟨ph, htok.client_outside (by rw [hpc]; rfl) rfl s.started⟩, ?_⟩
      refine h.accounts.goto s.valid s.signal t (by rw [hpc]; rfl) (.inr ⟨rfl, ?_⟩)
      -- the result that has arrived is that of this operation
      intro o ho
      rw [hpc] at ho
      cases ho
      obtain ⟨y, hy⟩ := Option.isSome_iff_exists.mp hid
      have hown := h.accounts.own t op y (.inr (by rw [hpc]; rfl)) hy
      rw [← hown]
      exact (h.accounts.result t op.s y hy).1
    · cases hstep
      exact h

theorem Forwarding.handler {s s' : St τ S η} {k : η} (h : Forwarding s)
    (hstep : handlerStep s k = some s') : Forwarding s' := by
  obtain ⟨ph, htok⟩ := h.tokens
  unfold handlerStep at hstep
  cases hpc : s.handler k with
  | idle =>
    rw [hpc] at hstep
    cases hstep
  | spin =>
    rw [hpc] at hstep
    have hph : ph = .handler k := (htok.handler k).mp (by rw [hpc]; rfl)
    have hvalid : s.valid = true := htok.valid.mpr (by rw [hph]; simp)
    have hfull : s.full = true := by
      rw [htok.full, hph, uncopied, hpc]
      rfl
    rw [if_pos hvalid] at hstep
    cases hstep
    refine ⟨⟨ph, ?_⟩, h.accounts.handle s.valid s.signal k (by rw [hpc]; rfl)⟩
    exact (htok.handler_inside .copy (by rw [hpc]; rfl) rfl s.full hfull).2
  | copy =>
    rw [hpc] at hstep
    cases hstep
    have hph : ph = .handler k := (htok.handler k).mp (by rw [hpc]; rfl)
    have hfull : s.full = true := by
      rw [htok.full, hph, uncopied, hpc]
      rfl
    refine ⟨⟨ph, ?_⟩, h.accounts.copy hpc hfull⟩
    exact (htok.handler_inside (.release s.slot) (by rw [hpc]; rfl) rfl false rfl).2
  | release op =>
    rw [hpc] at hstep
    cases hstep
    refine ⟨⟨_, htok.release hpc⟩, ?_⟩
    exact h.accounts.handle false s.signal k (by rw [hpc]; rfl)
  | exec op =>
    rw [hpc] at hstep
    cases op with
    | none =>
      cases hstep
      refine ⟨⟨ph, htok.handler_outside hpc s.id s.executed⟩, ?_⟩
      exact h.accounts.handle s.valid s.signal k (by rw [hpc]; rfl)
    | some x =>
      cases hstep
      exact ⟨⟨ph, htok.handler_outside hpc _ _⟩, h.accounts.exec hpc⟩

/-- **One step.** -/
theorem Forwarding.step {s s' : St τ S η} {a : Label τ S η} (h : Forwarding s)
    (hstep : step s a = some s') (hguard : FreeClaim s a) : Forwarding s' := by
  obtain ⟨ph, htok⟩ := h.tokens
  cases a with
  | client t => exact h.client hstep hguard
  | handler k => exact h.handler hstep
  | forward t m =>
    simp only [Forward.step] at hstep
    split at hstep
    · rename_i hpc hid
      cases hstep
      exact ⟨⟨ph, htok.client_outside (by rw [hpc]; rfl) rfl _⟩, h.accounts.forward hpc hid⟩
    · cases hstep
  | forget t m =>
    simp only [Forward.step] at hstep
    split at hstep
    · cases hstep
      exact ⟨⟨ph, htok.client, htok.signal, htok.handler, htok.valid, htok.full⟩,
        h.accounts.forget⟩
    · cases hstep
  | deliver k =>
    simp only [Forward.step] at hstep
    split at hstep
    · rename_i hsignal hpc
      cases hstep
      refine ⟨⟨_, htok.deliver hsignal⟩, ?_⟩
      exact h.accounts.handle s.valid false k (by rw [hpc]; rfl)
    · cases hstep

omit [DecidableEq τ] [DecidableEq S] [DecidableEq η] in
theorem Forwarding.init : Forwarding (init : St τ S η) where
  tokens := ⟨.free, fun _ => by simp [Forward.init, ClientPc.busy], by simp [Forward.init],
    fun _ => by simp [Forward.init, HandlerPc.busy], by simp [Forward.init], rfl⟩
  accounts := by
    constructor
    · constructor
      · intro x
        constructor
        · intro hx
          cases hx
        · rintro ⟨p, hp⟩
          cases p with
          | slot => cases hp.1
          | copy k => cases hp
          | executed => cases hp
      · intro x p p' hp
        cases p with
        | slot => cases hp.1
        | copy k => cases hp
        | executed => cases hp
    · exact List.nodup_nil
    · intro hf
      cases hf
    · intro x hx
      cases hx
    · rintro t op (hop | hop) <;> cases hop
    · intro t op hop
      cases hop
    · intro t op hop
      cases hop
    · intro x hx
      cases hx
    · intro t m y hy
      cases hy
    · intro t op y _ hy
      cases hy

/-! ## Neither lost nor duplicated -/

/-- What forwarding promises. A client that has claimed the slot is alone with it,
and the slot it writes to holds nothing that is still to be copied; an operation
that has been put there is there, or in a local copy, or executed; while it is
there the signal for it is still to come, pending, or taken; no operation is
executed twice, and one that its client is not waiting for any more has been
executed once; and a result that a client finds is that of its own operation. -/
structure ForwardOk (s : St τ S η) : Prop where
  alone : ∀ t, (s.client t).busy = true → s.valid = true ∧ s.signal = false ∧
    (∀ k, (s.handler k).busy = false) ∧ ∀ t', (s.client t').busy = true → t' = t
  kept : ∀ t op, s.client t = .write op → s.full = false
  somewhere : ∀ x ∈ s.posted, (s.full = true ∧ s.slot = some x) ∨
    (∃ k, (s.handler k).copied = some x) ∨ x ∈ s.executed
  reached : s.full = true → (∃ t op, s.client t = .kill op) ∨ s.signal = true ∨
    ∃ k, s.handler k = .spin ∨ s.handler k = .copy
  once : ∀ x, s.executed.count x ≤ 1
  done : ∀ x ∈ s.posted, (s.client x.spindex).late ≠ some x → s.executed.count x = 1
  own : ∀ t op y, s.client t = .wait op → s.id t op.s = some y → y = op ∧ op ∈ s.executed

omit [DecidableEq η] in
/-- The invariant promises it. -/
theorem Forwarding.ok {s : St τ S η} (h : Forwarding s) : ForwardOk s := by
  obtain ⟨⟨ph, htok⟩, hacc⟩ := h
  refine ⟨?_, ?_, ?_, ?_, ?_, ?_, ?_⟩
  · intro t ht
    have hph := (htok.client t).mp ht
    subst hph
    refine ⟨htok.valid.mpr (by simp), ?_, ?_, ?_⟩
    · cases hsignal : s.signal with
      | false => rfl
      | true => cases htok.signal.mp hsignal
    · intro k
      cases hk : (s.handler k).busy with
      | false => rfl
      | true => cases (htok.handler k).mp hk
    · intro t' ht'
      cases (htok.client t').mp ht'
      rfl
  · intro t op hpc
    have hph : ph = .client t := (htok.client t).mp (by rw [hpc]; rfl)
    subst hph
    refine htok.full.trans ?_
    change (s.client t).filled = false
    rw [hpc]
    rfl
  · intro x hx
    obtain ⟨p, hp⟩ := (hacc.placed.somewhere x).mp hx
    cases p with
    | slot => exact .inl hp
    | copy k => exact .inr (.inl ⟨k, hp⟩)
    | executed => exact .inr (.inr hp)
  · intro hfull
    rw [htok.full] at hfull
    cases ph with
    | free => cases hfull
    | signal => exact .inr (.inl (htok.signal.mpr rfl))
    | client t =>
      change (s.client t).filled = true at hfull
      cases hpc : s.client t with
      | kill op => exact .inl ⟨t, op, hpc⟩
      | _ =>
        rw [hpc] at hfull
        cases hfull
    | handler k =>
      change (s.handler k).filled = true at hfull
      cases hpc : s.handler k with
      | spin => exact .inr (.inr ⟨k, .inl hpc⟩)
      | copy => exact .inr (.inr ⟨k, .inr hpc⟩)
      | _ =>
        rw [hpc] at hfull
        cases hfull
  · exact List.nodup_iff_count_le_one.mp hacc.nodup
  · intro x hx hlate
    apply List.count_eq_one_of_mem hacc.nodup
    by_contra hnot
    exact hlate (hacc.waiting x hx hnot)
  · intro t op y hpc hy
    have hown := hacc.own t op y (.inr (by rw [hpc]; rfl)) hy
    refine ⟨hown, ?_⟩
    rw [← hown]
    exact (hacc.result t op.s y hy).1

/-- **Forwarded operations are neither lost nor duplicated**, in every run in which
every claim finds the slot free. -/
theorem forward_ok {s : St τ S η} (h : Run step (fun s a _ => FreeClaim s a) init s) :
    ForwardOk s :=
  (Run.invariant (fun _ _ _ hI hstep hguard => hI.step hstep hguard) h Forwarding.init).ok

/-- Two clients forward one after the other; the second claims the slot while the
operation of the first is being executed. -/
theorem forward_ok_two :
    ∃ s : St Bool Unit Unit, Run step (fun s a _ => FreeClaim s a) init s ∧
      s.executed.length = 2 ∧ ForwardOk s := by
  have hexec : (exec step (fun s a _ => decide (FreeClaim s a)) init
      [.forward false (), .forward true (), .client false, .client false, .client false,
        .deliver (), .handler (), .handler (), .handler (), .client true, .client true,
        .handler (), .client true, .client false, .deliver (), .handler (), .handler (),
        .handler (), .handler ()]).any
      (fun s : St Bool Unit Unit => s.executed.length == 2) = true := by
    decide +kernel
  obtain ⟨s, hrun, hs⟩ := exec_run_of_any hexec
  have hrun' : Run step (fun s a _ => FreeClaim s a) init s :=
    hrun.mono fun _ _ _ hg => of_decide_eq_true hg
  exact ⟨s, hrun', by simpa using hs, forward_ok hrun'⟩

/-- **An operation is lost.** The second client's claim fails and it goes on all the
same: its operation overwrites that of the first, which is still waiting when the
slot is free, no signal is pending and the target is idle. -/
theorem forward_loses :
    ∃ (s : St Bool Unit Unit) (op : Op Bool Unit), Run step (fun _ _ _ => True) init s ∧
      s.client false = .wait op ∧ op ∈ s.posted ∧ op ∉ s.executed ∧
      s.client true = .idle ∧ s.valid = false ∧ s.signal = false ∧ s.handler () = .idle ∧
      ¬ ForwardOk s := by
  have hexec : (exec step (fun _ _ _ => true) init
      [.forward false (), .forward true (), .client false, .client true, .client false,
        .client true, .client false, .client true, .deliver (), .handler (), .handler (),
        .handler (), .handler (), .client true]).any
      (fun s : St Bool Unit Unit => decide (s.client false = .wait ⟨false, (), 0⟩ ∧
        s.client true = .idle ∧ s.valid = false ∧ s.signal = false ∧ s.handler () = .idle ∧
        s.full = false ∧ s.posted = [⟨false, (), 0⟩, ⟨true, (), 0⟩] ∧
        s.executed = [⟨true, (), 0⟩])) = true := by
    decide +kernel
  obtain ⟨s, hrun, hs⟩ := exec_run_of_any hexec
  obtain ⟨hfirst, hsecond, hvalid, hsignal, hhandler, hfull, hposted, hexecuted⟩ :=
    of_decide_eq_true hs
  have hin : (⟨false, (), 0⟩ : Op Bool Unit) ∈ s.posted := by
    rw [hposted]
    simp
  have hnot : (⟨false, (), 0⟩ : Op Bool Unit) ∉ s.executed := by
    rw [hexecuted]
    decide
  refine ⟨s, ⟨false, (), 0⟩, hrun.mono fun _ _ _ _ => trivial, hfirst, hin, hnot, hsecond,
    hvalid, hsignal, hhandler, ?_⟩
  intro hok
  rcases hok.somewhere _ hin with ⟨hf, -⟩ | ⟨⟨⟩, hcopy⟩ | hdone
  · rw [hfull] at hf
    cases hf
  · rw [hhandler] at hcopy
    cases hcopy
  · exact hnot hdone

end MxApi.Forward
