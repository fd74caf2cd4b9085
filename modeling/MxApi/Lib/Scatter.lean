/-
Copying pieces from one object to another.

An object is a function from addresses, and a piece says how many elements are copied from
where to where. Both ends of a list of pieces can play either part: scattering along the
pieces and gathering along the same pieces turned round ([`copyAll_flip`]) gives back what
was there, if no two pieces were scattered to the same place.
-/
import Mathlib.Data.List.Pairwise
import Mathlib.Tactic.Common

set_option autoImplicit false

namespace MxApi.Lib

/-- `len` elements from `src` on go to `dst` and further. -/
structure Piece where
  dst : ℕ
  src : ℕ
  len : ℕ

namespace Piece

def flip (k : Piece) : Piece := ⟨k.src, k.dst, k.len⟩

/-- The address is one of those that the piece goes to. -/
def Writes (k : Piece) (p : ℕ) : Prop := k.dst ≤ p ∧ p < k.dst + k.len

instance (k : Piece) (p : ℕ) : Decidable (k.Writes p) := by
  unfold Writes
  infer_instance

/-- Two pieces do not go to the same place. -/
def Apart (k k' : Piece) : Prop := ∀ p, k.Writes p → ¬ k'.Writes p

instance : Std.Symm Apart := ⟨fun _ _ h p hp' hp => h p hp hp'⟩

end Piece

variable {α : Type*} {dest source : ℕ → α} {k : Piece} {ks : List Piece} {p : ℕ}

/-- One piece. -/
def memcpy (dest source : ℕ → α) (k : Piece) : ℕ → α :=
  fun p => if k.Writes p then source (k.src + (p - k.dst)) else dest p

/-- One piece after the other. -/
def copyAll (dest source : ℕ → α) : List Piece → ℕ → α
  | [] => dest
  | k :: ks => copyAll (memcpy dest source k) source ks

theorem memcpy_inside (h : k.Writes p) : memcpy dest source k p = source (k.src + (p - k.dst)) :=
  if_pos h

theorem memcpy_outside (h : ¬ k.Writes p) : memcpy dest source k p = dest p := if_neg h

/-- Where no piece goes nothing changes. -/
theorem copyAll_outside (h : ∀ k ∈ ks, ¬ k.Writes p) : copyAll dest source ks p = dest p := by
  induction ks generalizing dest with
  | nil => rfl
  | cons k ks ih =>
    rw [copyAll, ih fun k' hk' => h k' (List.mem_cons_of_mem k hk')]
    exact memcpy_outside (h k List.mem_cons_self)

/-- What ends up where some piece goes is from one of those that go there. -/
theorem copyAll_written (h : ∃ k ∈ ks, k.Writes p) :
    ∃ k ∈ ks, k.Writes p ∧ copyAll dest source ks p = source (k.src + (p - k.dst)) := by
  induction ks generalizing dest with
  | nil =>
    obtain ⟨_, hk, _⟩ := h
    cases hk
  | cons k ks ih =>
    by_cases hrest : ∃ k' ∈ ks, k'.Writes p
    · obtain ⟨k', hk', hp, hvalue⟩ : ∃ k' ∈ ks, k'.Writes p ∧
          copyAll (memcpy dest source k) source ks p = source (k'.src + (p - k'.dst)) := ih hrest
      exact ⟨k', List.mem_cons_of_mem k hk', hp, hvalue⟩
    · -- then it is the first piece, and nothing goes there after it
      push Not at hrest
      obtain ⟨k', hk', hp⟩ := h
      have hhead : k' = k := by
        rcases List.mem_cons.mp hk' with heq | htail
        · exact heq
        · exact absurd hp (hrest k' htail)
      rw [hhead] at hp
      refine ⟨k, List.mem_cons_self, hp, ?_⟩
      rw [copyAll, copyAll_outside hrest]
      exact memcpy_inside hp

/-- Of pieces that are apart each one arrives. -/
theorem copyAll_inside (hapart : ks.Pairwise Piece.Apart) (hk : k ∈ ks) (hp : k.Writes p) :
    copyAll dest source ks p = source (k.src + (p - k.dst)) := by
  obtain ⟨k', hk', hp', hvalue⟩ : ∃ k' ∈ ks, k'.Writes p ∧
      copyAll dest source ks p = source (k'.src + (p - k'.dst)) := copyAll_written ⟨k, hk, hp⟩
  have hsame : k = k' := by
    by_contra hne
    exact hapart.forall hk hk' hne p hp hp'
  rw [hsame]
  exact hvalue

/-- **Gathering undoes scattering**: what is gathered is what was scattered, whatever was in
its place, and nothing else changes. -/
theorem copyAll_flip (hapart : ks.Pairwise Piece.Apart) (dest' : ℕ → α) (p : ℕ) :
    copyAll dest' (copyAll dest source ks) (ks.map Piece.flip) p =
      if ∃ k ∈ ks, k.flip.Writes p then source p else dest' p := by
  split
  · rename_i h
    obtain ⟨k, hk, hp⟩ := h
    obtain ⟨k', hk', hp', hvalue⟩ : ∃ k' ∈ ks.map Piece.flip, k'.Writes p ∧
        copyAll dest' (copyAll dest source ks) (ks.map Piece.flip) p =
          copyAll dest source ks (k'.src + (p - k'.dst)) :=
      copyAll_written ⟨k.flip, List.mem_map_of_mem hk, hp⟩
    obtain ⟨k₀, hk₀, rfl⟩ := List.mem_map.mp hk'
    obtain ⟨hlow, hhigh⟩ := hp'
    have hback : k₀.Writes (k₀.dst + (p - k₀.src)) := by
      simp only [Piece.Writes, Piece.flip] at hlow hhigh ⊢
      omega
    rw [hvalue]
    simp only [Piece.flip] at hlow ⊢
    rw [copyAll_inside hapart hk₀ hback]
    congr 1
    omega
  · rename_i h
    apply copyAll_outside
    intro k hk hp
    obtain ⟨k₀, hk₀, rfl⟩ := List.mem_map.mp hk
    exact h ⟨k₀, hk₀, hp⟩

end MxApi.Lib
