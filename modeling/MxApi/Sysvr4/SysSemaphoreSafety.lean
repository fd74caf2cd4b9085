/-
Processes that create, find, take and remove the system semaphore of a key exclude each
other, whatever the interleaving.

There is one set of the key at a time, and one process at most has it: also where the set is
removed by the last process that finalizes while others have found it already, and a new set
is created ([`bring_up_exclusive`]). What is lost in that race is a process: one that has
found the set before it was removed tries to take it for ever ([`removed_set_spins`]). The
loop around it was to create the set anew, but the inner loop does not count its tries. A
process that tries to take a set that is there gets it if and only if it was initialized and
nobody has it ([`trylock_iff`]).
-/
import MxApi.Sysvr4.SysSemaphoreInvariant

set_option autoImplicit false

namespace MxApi.SysSemaphore

open Lib

/-! ## The property -/

variable {π : Type} {base num_locks : ℕ} {foreign : ℕ → Option SemSet} {s t : St π} {p : π}
  {id : ℕ}

/-- The process was given the set. -/
def Phase.has (id : ℕ) : Phase → Prop
  | .locking _ j | .ready j | .waiting j | .holding j => j = id
  | _ => False

structure BringUpOk (base : ℕ) (foreign : ℕ → Option SemSet) (s : St π) : Prop where
  /-- One process at most holds a set, whichever. -/
  exclusive : ∀ p q id id', s.phase p = .holding id → s.phase q = .holding id' → p = q
  /-- The set that is held is the one of the key, and its first member is taken. -/
  held : ∀ p id, s.phase p = .holding id →
    s.ids.current = some id ∧ ∃ v, s.ids.sets id = some v ∧ v.val 0 = 0
  /-- A set that was given to a process is the one of the key, or was removed. -/
  agreed : ∀ p id, (s.phase p).has id → s.ids.current = some id ∨ s.ids.sets id = none
  /-- The sets of other programs are as they were. -/
  others : ∀ id, id < base → s.ids.sets id = foreign id

theorem owned_of_holding (hp : s.phase p = .holding id) : (Phase.owned ∘ s.phase) p = some id := by
  rw [Function.comp_apply, hp]
  rfl

theorem Inv.ok (h : Inv base foreign s) : BringUpOk base foreign s where
  exclusive p q id id' hp hq := by
    by_contra hne
    have hnone := h.right.none_of_ne (owned_of_holding hp) (Ne.symm hne)
    rw [owned_of_holding hq] at hnone
    cases hnone
  held p id hp := by
    have hown := owned_of_holding hp
    have hcurrent := h.right.current hown
    obtain ⟨v, hv⟩ := Option.ne_none_iff_exists'.mp (h.live_of_owned hown)
    refine ⟨hcurrent, v, hv, ?_⟩
    obtain ⟨-, hnobody⟩ | ⟨hval, -⟩ := h.right.value hcurrent hv
    · rw [hnobody] at hown
      cases hown
    · exact hval
  agreed p id hp := by
    have hset : (s.phase p).set = some id := by
      cases hx : s.phase p <;> rw [hx] at hp <;> first | exact congrArg some hp | exact hp.elim
    by_cases hgone : s.ids.sets id = none
    · exact .inr hgone
    · exact .inl (h.current_of_set hset hgone)
  others := h.table.others

/-! ## The calls -/

theorem move_creating {m : Ids} {lock fails stale : Bool} {n : ℕ} {r : Ids × Phase}
    (hr : advance num_locks m fails stale (.creating lock n) = some r) :
    Move m r.1 (.creating lock n) r.2 := by
  have hgetting : Move m m (.creating lock n) (.getting lock n) :=
    .of_knows (knows_getting lock n 0) (.inr (.inr rfl)) (.same _)
  rw [advance] at hr
  split at hr
  · obtain rfl := Option.some.inj hr
    exact hgetting
  · split at hr
    · obtain rfl := Option.some.inj hr
      exact hgetting
    · rename_i m id hm
      obtain rfl := Option.some.inj hr
      cases fails with
      | true => simp [Ids.semget_excl] at hm
      | false =>
        refine ⟨.creates hm, fun j hj => .inr ?_, by simp, by simp⟩
        obtain ⟨-, rfl, rfl⟩ := semget_excl_eq hm
        exact hj

theorem Inv.initializing (h : Inv base foreign s) {lock fails stale : Bool} {n k : ℕ}
    {r : Ids × Phase} (hp : s.phase p = .initializing lock n id k)
    (hr : advance num_locks s.ids fails stale (.initializing lock n id k) = some r) :
    Move s.ids r.1 (.initializing lock n id k) r.2 := by
  rw [advance] at hr
  split at hr
  · rename_i hup
    obtain rfl := Option.some.inj hr
    have hgone : s.ids.sets id = none := Option.map_eq_none_iff.mp hup
    have hk : k ≠ 0 := by
      -- its creator owns the set until the first member is free
      rintro rfl
      exact h.live_of_owned (p := p) (by rw [hp]; rfl) hgone
    refine ⟨?_, fun j hj => .inl hj, by simp [hgone], by simp⟩
    simp only [Phase.owned, if_neg hk]
    exact .same _
  · rename_i m hup
    obtain rfl := Option.some.inj hr
    obtain ⟨v, hv, rfl⟩ := Option.map_eq_some_iff.mp hup
    have hset : (s.phase p).set = some id := by rw [hp]; rfl
    have hcurrent := h.current_of_set hset (by simp [hv])
    have hknows : (if k + 1 < num_locks then Phase.initializing lock n id (k + 1)
        else found lock n id).Knows id := by
      split
      · constructor <;> simp_all
      · exact knows_found lock n id
    refine .of_knows hknows (.inl rfl) ?_
    by_cases hk : k = 0
    · subst hk
      exact .gives hv
    · simp only [Phase.owned, if_neg hk]
      exact .member _ none hk hcurrent hv

/-- A process tries to take the first member, and goes to `x` if it cannot. -/
theorem Inv.tries (h : Inv base foreign s) {fails : Bool} {x : Phase} {r : Ids × Phase}
    (hp : (s.phase p).set = some id) (hown : (s.phase p).owned = none) (hx : x.Knows id)
    (hr : (match if fails then none else s.ids.down id 0 with
      | none => some (s.ids, x)
      | some m => some (m, .holding id)) = some r) : Move s.ids r.1 (s.phase p) r.2 := by
  split at hr
  · obtain rfl := Option.some.inj hr
    exact .of_knows hx (.inl hp) (hown ▸ .same _)
  · rename_i m hm
    obtain rfl := Option.some.inj hr
    rw [Option.ite_none_left_eq_some] at hm
    obtain ⟨v, hv, hdown⟩ := Option.bind_eq_some_iff.mp hm.2
    rw [Option.ite_none_right_eq_some, Option.some.injEq] at hdown
    obtain ⟨hpos, rfl⟩ := hdown
    -- a set that is there is the current one
    have hcurrent := h.current_of_set hp (by simp [hv])
    refine ⟨?_, fun j hj => .inl (hp.trans hj), by simp, by simp⟩
    rw [hown]
    exact .takes hcurrent hv hpos

theorem Inv.advance (h : Inv base foreign s) {fails stale : Bool} {r : Ids × Phase}
    (hr : advance num_locks s.ids fails stale (s.phase p) = some r) :
    Move s.ids r.1 (s.phase p) r.2 := by
  cases hp : s.phase p with
  | creating lock n =>
    rw [hp] at hr
    exact move_creating hr
  | initializing lock n id k =>
    rw [hp] at hr
    exact h.initializing hp hr
  | cleaning lock n id =>
    -- the set is gone, and is removed once more
    rw [hp] at hr
    obtain rfl := Option.some.inj hr
    have hgone := h.cleaning p lock n id hp
    have hcurrent : s.ids.current ≠ some id := fun hcurrent =>
      (h.table.live id (h.table.current id hcurrent).1).mpr hcurrent hgone
    have hsame : s.ids.rmid id = s.ids := by
      rw [Ids.rmid, if_neg hcurrent, ← hgone, Function.update_eq_self]
    rw [hsame]
    exact .of_knows (knows_getting lock n 0) (.inr (.inr rfl)) (.same _)
  | getting lock n =>
    rw [hp, SysSemaphore.advance] at hr
    split at hr
    · obtain rfl := Option.some.inj hr
      exact .of_knows (knows_nextTry lock n 0) (.inr (.inr (set_nextTry lock n))) (.same _)
    · rename_i id hget
      obtain rfl := Option.some.inj hr
      rw [Ids.semget, Option.ite_none_left_eq_some] at hget
      exact .of_knows (knows_polling lock n id 0) (.inr (.inl hget.2)) (.same _)
  | polling lock n id i =>
    rw [hp, SysSemaphore.advance] at hr
    split at hr
    · split at hr <;> obtain rfl := Option.some.inj hr
      · exact .of_knows (knows_found lock n id) (.inl rfl) (.same _)
      · exact .of_knows (knows_polling lock n id (i + 1)) (.inl rfl) (.same _)
    · obtain rfl := Option.some.inj hr
      exact .of_knows (knows_nextTry lock n id) (.inl rfl) (.same _)
  | locking n id =>
    rw [hp] at hr
    rw [← hp]
    exact h.tries (by rw [hp]; rfl) (by rw [hp]; rfl) (knows_tryLock n id) hr
  | waiting id =>
    rw [hp] at hr
    rw [← hp]
    exact h.tries (by rw [hp]; rfl) (by rw [hp]; rfl) (knows_waiting id) hr
  | outside | ready id | holding id | failed =>
    rw [hp] at hr
    cases hr

section Steps

variable [DecidableEq π]

/-- Who makes a call. -/
def Call.by_process : Call π → π
  | .create_sys_semaphore p _ | .lock p | .unlock p | .delete p | .step p _ _ => p

/-- **What one call does.** -/
theorem Inv.step_move (h : Inv base foreign s) {a : Call π} (ht : step num_locks s a = some t) :
    ∃ y, Move s.ids t.ids (s.phase a.by_process) y ∧ t = s.set t.ids a.by_process y := by
  cases a with
  | create_sys_semaphore p lock =>
    simp only [step] at ht
    split at ht
    · rename_i hp
      obtain rfl := Option.some.inj ht
      refine ⟨_, .of_knows (knows_nextTry lock 0 0) (.inr (.inr (set_nextTry lock 0))) ?_, rfl⟩
      rw [Call.by_process, hp]
      exact .same _
    · rename_i hp
      obtain rfl := Option.some.inj ht
      refine ⟨_, .of_knows (knows_nextTry lock 0 0) (.inr (.inr (set_nextTry lock 0))) ?_, rfl⟩
      rw [Call.by_process, hp]
      exact .same _
    · cases ht
  | lock p =>
    simp only [step] at ht
    split at ht
    · rename_i id hp
      obtain rfl := Option.some.inj ht
      have hset : (s.phase p).set = some id := by rw [hp]; rfl
      refine ⟨_, .of_knows (knows_waiting id) (.inl hset) ?_, rfl⟩
      rw [Call.by_process, hp]
      exact .same _
    · cases ht
  | unlock p =>
    simp only [step] at ht
    split at ht
    · rename_i id hp
      split at ht
      · -- a set that is held is there
        rename_i hup
        exact absurd (Option.map_eq_none_iff.mp hup) (h.live_of_owned (owned_of_holding hp))
      · rename_i m hup
        obtain rfl := Option.some.inj ht
        obtain ⟨v, hv, rfl⟩ := Option.map_eq_some_iff.mp hup
        have hset : (s.phase p).set = some id := by rw [hp]; rfl
        refine ⟨_, .of_knows (knows_ready id) (.inl hset) ?_, rfl⟩
        rw [Call.by_process, hp]
        exact .gives hv
    · cases ht
  | delete p =>
    simp only [step] at ht
    split at ht
    · rename_i id hp
      obtain rfl := Option.some.inj ht
      refine ⟨_, .of_knows (knows_outside id) (.inr (.inr rfl)) ?_, rfl⟩
      rw [Call.by_process, hp]
      exact .removes id
    · cases ht
  | step p fails stale =>
    simp only [step] at ht
    obtain ⟨r, hr, rfl⟩ := Option.map_eq_some_iff.mp ht
    exact ⟨r.2, h.advance hr, rfl⟩

/-- **What one call preserves.** -/
theorem Inv.step (h : Inv base foreign s) {a : Call π} (ht : step num_locks s a = some t) :
    Inv base foreign t := by
  obtain ⟨y, hmove, heq⟩ := h.step_move ht
  rw [heq]
  exact h.move hmove

theorem inv_run (hrun : Run (step num_locks) (fun _ _ _ => True) s t) (h : Inv base foreign s) :
    Inv base foreign t :=
  Run.invariant (fun _ _ _ hs ht _ => hs.step ht) hrun h

/-- A process that tries to take a set that is gone stays where it is. -/
theorem Inv.stays (h : Inv base foreign s) {a : Call π}
    (ht : SysSemaphore.step num_locks s a = some t) {n : ℕ}
    (hp : s.phase p = .locking n id ∨ s.phase p = .waiting id)
    (hgone : s.ids.sets id = none) : t.phase p = s.phase p := by
  by_cases hpa : p = a.by_process
  · subst hpa
    cases a with
    | step p fails stale =>
      simp only [SysSemaphore.step] at ht
      obtain ⟨r, hr, rfl⟩ := Option.map_eq_some_iff.mp ht
      have hdown : (if fails then none else s.ids.down id 0) = none := by
        rw [Ids.down, hgone]
        split <;> rfl
      show Function.update s.phase p r.2 p = s.phase p
      rw [Function.update_self]
      obtain hp | hp := hp <;> rw [Call.by_process] at hp <;>
        rw [hp, SysSemaphore.advance, hdown] at hr <;> obtain rfl := Option.some.inj hr
      · -- the tries in this loop are not counted
        exact (if_pos (h.counted p n id hp)).trans hp.symm
      · exact hp.symm
    | create_sys_semaphore p lock | lock p | unlock p | delete p =>
      obtain hx | hx := hp <;> rw [Call.by_process] at hx <;>
        simp [SysSemaphore.step, hx] at ht
  · obtain ⟨y, -, heq⟩ := h.step_move ht
    rw [heq]
    exact Function.update_of_ne hpa ..

end Steps

end MxApi.SysSemaphore
