/-
Whether a filtered resource tree is as large as what is written into it.

The second recursion visits the nodes in preorder and writes those of the type, inner nodes
and leaves, one index after the other ([`create_some`]). The first one adds up leaves only
([`count_some`]), modulo `2^16`. They agree exactly on the trees whose nodes of the type are
leaves, as long as nothing outgrows a 16-bit counter ([`filter_right_iff`]).
-/
import Mathlib.Data.List.Basic
import MxApi.Mrapi.ResourceTree

set_option autoImplicit false

namespace MxApi.Resources

open Lib
open mrapi_resource_type mrapi_rsrc_filter_t mrapi_status_t
open mrapi_resource_t (nodesAll)

variable {rsrc_type : mrapi_resource_type} {t child : mrapi_resource_t}
  {ts us : List mrapi_resource_t} {fuel i m n : ℕ} {w : Filled}

/-! ## Nodes -/

theorem nodesAll_eq : nodesAll ts = ts.flatMap mrapi_resource_t.nodes := by
  induction ts with
  | nil => rfl
  | cons t ts ih => rw [nodesAll, List.flatMap_cons, ih]

/-- A node comes before its children, and these one after the other. -/
theorem nodes_eq : t.nodes = t :: t.children.flatMap mrapi_resource_t.nodes := by
  cases t with
  | mk name resource_type attributes children =>
    rw [mrapi_resource_t.nodes, nodesAll_eq]
    rfl

/-- The nodes of the type: the node itself, if it is one, and those of its children. -/
theorem found_eq : t.found rsrc_type =
    (if rsrc_type = t.resource_type then [t] else []) ++
      t.children.flatMap fun c => c.found rsrc_type := by
  unfold mrapi_resource_t.found
  rw [nodes_eq, List.filter_cons, List.filter_flatMap]
  by_cases htype : rsrc_type = t.resource_type
  · rw [if_pos htype, if_pos (by simpa using htype.symm)]
    rfl
  · rw [if_neg htype, if_neg (by simpa using fun h => htype h.symm)]
    rfl

/-- One child more. -/
theorem flatMap_take {β : Type*} (f : mrapi_resource_t → List β) (hget : ts[i]? = some t) :
    (ts.take (i + 1)).flatMap f = (ts.take i).flatMap f ++ f t := by
  rw [List.take_add_one, hget, List.flatMap_append]
  simp

/-! ## Copies -/

theorem Attribute.copy_eq (x : Attribute) : x.copy = x := by
  obtain ⟨value, static, started⟩ := x
  cases value <;> rfl

/-- A copy that is finished is one. -/
theorem copyNode_some {new_child : mrapi_resource_t} (h : copyNode fuel t = some new_child) :
    t.attributes.length < 2 ^ 16 ∧ new_child = t.copy := by
  obtain ⟨copied, hloop, rfl⟩ := Option.map_eq_some_iff.mp h
  obtain ⟨hcount, hcopied⟩ := each16_inv (fun i copied => copied = t.attributes.take i)
    (by
      rintro i x _ _ _ hget rfl hvisit
      rw [Option.some.injEq, Attribute.copy_eq] at hvisit
      rw [← hvisit, List.take_add_one, hget]
      rfl)
    rfl hloop
  rw [List.take_length] at hcopied
  rw [hcopied]
  exact ⟨hcount, rfl⟩

/-- A copy is finished if the counter can reach the number of attributes. -/
theorem copyNode_ends (hcount : t.attributes.length < 2 ^ 16) (hfuel : t.attributes.length < fuel) :
    ∃ new_child, copyNode fuel t = some new_child := by
  obtain ⟨copied, hloop, _⟩ := each16_ends (fun _ _ => True) hcount (Nat.le_refl _)
    (fun _ x copied _ _ _ => ⟨copied ++ [x.copy], rfl, trivial⟩) hfuel trivial
  exact ⟨_, Option.map_eq_some_iff.mpr ⟨copied, hloop, rfl⟩⟩

/-! ## What is written -/

/-- Entries for some nodes, from an index on. -/
def enumerate : List mrapi_resource_t → ℕ → List (ℕ × mrapi_resource_t)
  | [], _ => []
  | t :: ts, m => (u16 m, t.copy) :: enumerate ts (m + 1)

/-- The result after these entries. -/
def filled (ts : List mrapi_resource_t) (m : ℕ) : Filled :=
  ⟨enumerate ts m, u16 (m + ts.length)⟩

theorem length_enumerate : (enumerate ts m).length = ts.length := by
  induction ts generalizing m with
  | nil => rfl
  | cons t ts ih => rw [enumerate, List.length_cons, ih, List.length_cons]

theorem enumerate_append :
    enumerate (ts ++ us) m = enumerate ts m ++ enumerate us (m + ts.length) := by
  induction ts generalizing m with
  | nil => rfl
  | cons t ts ih =>
    rw [List.cons_append, enumerate, ih, enumerate, List.cons_append, List.length_cons,
      Nat.add_assoc, Nat.add_comm 1]

theorem filled_append : filled (ts ++ us) m =
    ⟨(filled ts m).writes ++ (filled us (m + ts.length)).writes,
      (filled us (m + ts.length)).index_child⟩ := by
  unfold filled
  rw [enumerate_append, List.length_append, Nat.add_assoc]

/-- The nodes that the recursion can get past. -/
def Walkable (rsrc_type : mrapi_resource_type) (t : mrapi_resource_t) : Prop :=
  ∀ n ∈ t.nodes, n.children.length < 2 ^ 16 ∧
    (n.resource_type = rsrc_type → n.attributes.length < 2 ^ 16)

theorem walkable_iff : Walkable rsrc_type t ↔
    (t.children.length < 2 ^ 16 ∧
      (t.resource_type = rsrc_type → t.attributes.length < 2 ^ 16)) ∧
    ∀ c ∈ t.children, Walkable rsrc_type c := by
  unfold Walkable
  rw [nodes_eq]
  simp only [List.forall_mem_cons, List.forall_mem_flatMap]

/-- The node's own entry. -/
def ownEntry (rsrc_type : mrapi_resource_type) (fuel : ℕ) (t : mrapi_resource_t) (start : ℕ) :
    Option Filled :=
  if rsrc_type = t.resource_type then
    (copyNode fuel t).map fun new_child => ⟨[(start, new_child)], u16 (start + 1)⟩
  else some ⟨[], start⟩

theorem ownEntry_some (h : ownEntry rsrc_type fuel t (u16 m) = some w) :
    (t.resource_type = rsrc_type → t.attributes.length < 2 ^ 16) ∧
      w = filled (if rsrc_type = t.resource_type then [t] else []) m := by
  unfold ownEntry at h
  split at h
  · rename_i htype
    obtain ⟨new_child, hcopy, rfl⟩ := Option.map_eq_some_iff.mp h
    obtain ⟨hcount, rfl⟩ := copyNode_some hcopy
    rw [if_pos htype]
    refine ⟨fun _ => hcount, ?_⟩
    rw [u16_add]
    rfl
  · rename_i htype
    rw [Option.some.injEq] at h
    rw [if_neg htype, ← h]
    exact ⟨fun heq => absurd heq.symm htype, rfl⟩

/-- **What the second recursion writes** is an entry for each node of the type in preorder. -/
theorem create_some (h : mrapi_impl_create_rsrc_tree rsrc_type fuel t (u16 m) = some w) :
    Walkable rsrc_type t ∧ w = filled (t.found rsrc_type) m := by
  induction fuel generalizing t m w with
  | zero => cases h
  | succ fuel ih =>
    rw [mrapi_impl_create_rsrc_tree, Option.bind_eq_some_iff] at h
    obtain ⟨own, hown, hloop⟩ := h
    obtain ⟨hattributes, rfl⟩ := ownEntry_some hown
    rw [walkable_iff, found_eq]
    generalize (if rsrc_type = t.resource_type then [t] else []) = self at hloop ⊢
    -- after `i` children there are the entries of their nodes
    obtain ⟨hchildren, hwalk, hw⟩ := each16_inv
      (fun i w => (∀ c ∈ t.children.take i, Walkable rsrc_type c) ∧
        w = filled (self ++ (t.children.take i).flatMap fun c => c.found rsrc_type) m)
      (by
        rintro i c _ _ _ hget ⟨hwalk, rfl⟩ hvisit
        obtain ⟨r, hr, rfl⟩ := Option.map_eq_some_iff.mp hvisit
        obtain ⟨hc, rfl⟩ := ih hr
        constructor
        · intro c' hc'
          rw [List.take_add_one, hget, List.mem_append] at hc'
          rcases hc' with hbefore | hlast
          · exact hwalk c' hbefore
          · rw [Option.toList_some, List.mem_singleton] at hlast
            rw [hlast]
            exact hc
        · rw [flatMap_take _ hget, ← List.append_assoc]
          generalize self ++ (t.children.take i).flatMap (fun c => c.found rsrc_type) = before
          rw [filled_append])
      ⟨by simp, by simp⟩ hloop
    rw [List.take_length] at hwalk hw
    exact ⟨⟨⟨hchildren, hattributes⟩, hwalk⟩, hw⟩

/-- There is room for a list in the size of what holds it. -/
theorem length_lt_sizeOf {α : Type*} [SizeOf α] (xs : List α) : xs.length < sizeOf xs := by
  induction xs with
  | nil => simp
  | cons x xs ih =>
    simp only [List.length_cons, List.cons.sizeOf_spec]
    omega

theorem sizeOf_parts : t.attributes.length + 1 < sizeOf t ∧ t.children.length + 1 < sizeOf t ∧
    ∀ c ∈ t.children, sizeOf c < sizeOf t := by
  cases t with
  | mk name resource_type attributes children =>
    have hattributes := length_lt_sizeOf attributes
    have hchildren := length_lt_sizeOf children
    simp only [mrapi_resource_t.attributes, mrapi_resource_t.children,
      mrapi_resource_t.mk.sizeOf_spec]
    refine ⟨by omega, by omega, fun c hc => ?_⟩
    have hlt := List.sizeOf_lt_of_mem hc
    omega

/-- The second recursion comes to its end where the counters reach their bounds. -/
theorem create_ends (hwalk : Walkable rsrc_type t) (hfuel : sizeOf t ≤ fuel) :
    ∃ w, mrapi_impl_create_rsrc_tree rsrc_type fuel t m = some w := by
  induction fuel generalizing t m with
  | zero =>
    have hparts := (sizeOf_parts (t := t)).1
    omega
  | succ fuel ih =>
    obtain ⟨hattributes, hchildren, hsize⟩ := sizeOf_parts (t := t)
    obtain ⟨⟨hcount, hcopies⟩, hall⟩ := walkable_iff.mp hwalk
    obtain ⟨own, hown⟩ : ∃ own, ownEntry rsrc_type fuel t m = some own := by
      unfold ownEntry
      split
      · rename_i htype
        obtain ⟨new_child, hcopy⟩ := copyNode_ends (hcopies htype.symm) (by omega : _ < fuel)
        exact ⟨_, Option.map_eq_some_iff.mpr ⟨new_child, hcopy, rfl⟩⟩
      · exact ⟨_, rfl⟩
    rw [mrapi_impl_create_rsrc_tree]
    change ∃ w, (ownEntry rsrc_type fuel t m).bind _ = some w
    rw [hown, Option.bind_some]
    obtain ⟨w, hloop, _⟩ := each16_ends (s := own) (fun _ _ => True) hcount (Nat.le_refl _)
      (fun i c w _ hget _ => by
        have hmem := List.mem_of_getElem? hget
        have hlt := hsize c hmem
        obtain ⟨r, hr⟩ := ih (m := w.index_child) (hall c hmem) (by omega)
        exact ⟨⟨w.writes ++ r.writes, r.index_child⟩,
          Option.map_eq_some_iff.mpr ⟨r, hr, rfl⟩, trivial⟩)
      (by omega : _ < fuel) trivial
    exact ⟨w, hloop⟩

/-! ## What is counted -/

/-- The leaves of the type. -/
def leaves (rsrc_type : mrapi_resource_type) (ns : List mrapi_resource_t) :
    List mrapi_resource_t :=
  ns.filter fun n => n.resource_type = rsrc_type ∧ n.children.isEmpty

theorem leaves_append : leaves rsrc_type (ts ++ us) = leaves rsrc_type ts ++ leaves rsrc_type us :=
  List.filter_append ..

/-- **What the first recursion counts** is the leaves of the type, if no node has too many
children. -/
theorem count_some (hcount : ∀ n ∈ t.nodes, n.children.length < 2 ^ 16)
    (h : mrapi_impl_get_number_of_nodes rsrc_type fuel t = some n) :
    n = u16 (leaves rsrc_type t.nodes).length := by
  induction fuel generalizing t n with
  | zero => cases h
  | succ fuel ih =>
    rw [nodes_eq] at hcount ⊢
    obtain ⟨hself, hall⟩ := List.forall_mem_cons.mp hcount
    rw [mrapi_impl_get_number_of_nodes] at h
    simp only [u16_of_lt hself] at h
    split at h
    · -- a leaf is its only node
      rename_i hnone
      have hleaf := List.eq_nil_of_length_eq_zero hnone
      rw [Option.some.injEq] at h
      rw [← h, hleaf, List.flatMap_nil]
      by_cases htype : rsrc_type = t.resource_type
      · simp [leaves, hleaf, htype, u16]
      · simp [leaves, Ne.symm htype, htype, u16]
    · rename_i hsome
      have hinner : t.children.isEmpty = false := by
        rw [List.isEmpty_eq_false_iff]
        exact fun hnil => hsome (by rw [hnil, List.length_nil])
      obtain ⟨_, hn⟩ := each16_inv
        (fun i n => n = u16 (leaves rsrc_type ((t.children.take i).flatMap
          mrapi_resource_t.nodes)).length)
        (by
          rintro i c _ _ _ hget rfl hvisit
          obtain ⟨k, hk, rfl⟩ := Option.map_eq_some_iff.mp hvisit
          have hc : ∀ n ∈ c.nodes, n.children.length < 2 ^ 16 := fun n hn =>
            hall n (List.mem_flatMap.mpr ⟨c, List.mem_of_getElem? hget, hn⟩)
          rw [ih hc hk, flatMap_take _ hget, leaves_append, List.length_append]
          unfold u16
          omega)
        rfl h
      rw [List.take_length] at hn
      rw [hn, leaves, leaves, List.filter_cons_of_neg (by simp [hinner])]

/-- The first recursion always comes to its end. -/
theorem count_ends (hfuel : sizeOf t ≤ fuel) :
    ∃ n, mrapi_impl_get_number_of_nodes rsrc_type fuel t = some n := by
  induction fuel generalizing t with
  | zero =>
    have hparts := (sizeOf_parts (t := t)).1
    omega
  | succ fuel ih =>
    obtain ⟨_, hchildren, hsize⟩ := sizeOf_parts (t := t)
    rw [mrapi_impl_get_number_of_nodes]
    split
    · exact ⟨_, rfl⟩
    · have hle : u16 t.children.length ≤ t.children.length := Nat.mod_le _ _
      obtain ⟨n, hloop, _⟩ := each16_ends (s := 0) (fun _ _ => True) (u16_lt _) hle
        (fun i c k _ hget _ => by
          have hlt := hsize c (List.mem_of_getElem? hget)
          obtain ⟨r, hr⟩ := ih (t := c) (by omega)
          exact ⟨u16 (k + r), Option.map_eq_some_iff.mpr ⟨r, hr, rfl⟩, trivial⟩)
        (hle.trans_lt (by omega : _ < fuel)) trivial
      exact ⟨n, hloop⟩

/-! ## The array -/

theorem fill_number_of_children (f : Filtered) (writes : List (ℕ × mrapi_resource_t)) :
    (f.fill writes).number_of_children = f.number_of_children := by
  induction writes generalizing f with
  | nil => rfl
  | cons p ps ih => exact ih (f.write p)

/-- What a node's entry leaves at an index. -/
theorem fill_enumerate (f : Filtered) (hm : m + ts.length ≤ 2 ^ 16) :
    (f.fill (enumerate ts m)).children i =
      if m ≤ i ∧ i < m + ts.length then (ts[i - m]?).map mrapi_resource_t.copy
      else f.children i := by
  induction ts generalizing m f with
  | nil =>
    rw [List.length_nil, if_neg (by omega)]
    rfl
  | cons t ts ih =>
    rw [List.length_cons] at hm ⊢
    change ((f.write (u16 m, t.copy)).fill (enumerate ts (m + 1))).children i = _
    rw [ih _ (by omega), u16_of_lt (by omega)]
    by_cases hfirst : i = m
    · rw [if_neg (by omega), if_pos (by omega), hfirst, Nat.sub_self]
      exact Function.update_self _ _ _
    · by_cases hrest : m + 1 ≤ i ∧ i < m + 1 + ts.length
      · rw [if_pos hrest, if_pos (by omega)]
        obtain ⟨k, rfl⟩ : ∃ k, i = m + 1 + k := ⟨i - (m + 1), by omega⟩
        rw [Nat.add_sub_cancel_left, Nat.add_assoc, Nat.add_sub_cancel_left, Nat.add_comm 1,
          List.getElem?_cons_succ]
      · rw [if_neg hrest, if_neg (by omega)]
        exact Function.update_of_ne hfirst _ _

/-- All the entries together. -/
theorem fill_all (f : Filtered) (hlen : ts.length ≤ 2 ^ 16) :
    (List.range ts.length).map (f.fill (enumerate ts 0)).children =
      ts.map fun n => some n.copy := by
  apply List.ext_getElem
  · simp
  · intro i hi _
    rw [List.length_map, List.length_range] at hi
    rw [List.getElem_map, List.getElem_range, fill_enumerate f (by omega), if_pos (by omega)]
    simp [hi]

theorem enumerate_lt (hlen : m + ts.length ≤ 2 ^ 16) :
    ∀ p ∈ enumerate ts m, p.1 < m + ts.length := by
  induction ts generalizing m with
  | nil => simp [enumerate]
  | cons t ts ih =>
    rw [List.length_cons] at hlen ⊢
    intro p hp
    rcases List.mem_cons.mp hp with rfl | hrest
    · simp only [u16_of_lt (by omega : m < 2 ^ 16)]
      omega
    · have hlt := ih (by omega) p hrest
      omega

/-! ## The result -/

/-- Among the nodes of the type are its leaves. -/
theorem leaves_eq : leaves rsrc_type t.nodes =
    (t.found rsrc_type).filter fun n => n.children.isEmpty := by
  unfold leaves mrapi_resource_t.found
  rw [List.filter_filter]
  congr 1
  funext n
  rw [Bool.decide_and, Bool.decide_eq_true, Bool.and_comm]

/-- The count of the leaves is the number of nodes of the type exactly if these are leaves and
fewer than `2^16`. -/
theorem count_eq_iff :
    u16 (leaves rsrc_type t.nodes).length = (t.found rsrc_type).length ↔
      (∀ n ∈ t.nodes, n.resource_type = rsrc_type → n.children = []) ∧
        (t.found rsrc_type).length < 2 ^ 16 := by
  have hle : (leaves rsrc_type t.nodes).length ≤ (t.found rsrc_type).length := by
    rw [leaves_eq]
    exact List.length_filter_le _ _
  have hall : (leaves rsrc_type t.nodes).length = (t.found rsrc_type).length ↔
      ∀ n ∈ t.nodes, n.resource_type = rsrc_type → n.children = [] := by
    rw [leaves_eq, List.length_filter_eq_length_iff]
    simp [mrapi_resource_t.found]
  rw [← hall]
  unfold u16
  omega

/-- **The filtered tree is right exactly if** every node of the type is a leaf, there are
fewer than `2^16` of them with fewer than `2^16` attributes each, and no node of the tree
has `2^16` children. -/
theorem filter_right_iff : Right rsrc_type t ↔
    (∀ n ∈ t.nodes, n.resource_type = rsrc_type → n.children = []) ∧
      (t.found rsrc_type).length < 2 ^ 16 ∧
      ∀ n ∈ t.nodes, n.children.length < 2 ^ 16 ∧
        (n.resource_type = rsrc_type → n.attributes.length < 2 ^ 16) := by
  constructor
  · rintro ⟨fuel, number_of_nodes, w, hcount, hcreate, hlength, _, _⟩
    obtain ⟨hwalk, rfl⟩ := create_some (m := 0) hcreate
    have hchildren : ∀ n ∈ t.nodes, n.children.length < 2 ^ 16 := fun n hn => (hwalk n hn).1
    have hn := count_some hchildren hcount
    rw [filled, length_enumerate, hn] at hlength
    obtain ⟨hleaves, hfew⟩ := count_eq_iff.mp hlength.symm
    exact ⟨hleaves, hfew, hwalk⟩
  · rintro ⟨hleaves, hfew, hwalk⟩
    have hchildren : ∀ n ∈ t.nodes, n.children.length < 2 ^ 16 := fun n hn => (hwalk n hn).1
    obtain ⟨number_of_nodes, hcount⟩ : ∃ number_of_nodes,
        mrapi_impl_get_number_of_nodes rsrc_type (sizeOf t) t = some number_of_nodes :=
      count_ends (Nat.le_refl _)
    obtain ⟨w, hcreate⟩ := create_ends (m := 0) hwalk (Nat.le_refl (sizeOf t))
    obtain ⟨_, rfl⟩ := create_some (m := 0) hcreate
    have hn : number_of_nodes = (t.found rsrc_type).length :=
      (count_some hchildren hcount).trans (count_eq_iff.mpr ⟨hleaves, hfew⟩)
    refine ⟨sizeOf t, number_of_nodes, _, hcount, hcreate, ?_, ?_, ?_⟩
    · rw [hn]
      exact length_enumerate
    · intro p hp
      have hlt := enumerate_lt (m := 0) (by omega) p hp
      simp only [Filtered.empty]
      omega
    · rw [hn]
      exact fill_all _ (by omega)

/-- A core, which is a leaf, beside one with a cache of its own. -/
def twoCores : mrapi_resource_t :=
  .mk "Chip" MRAPI_SYSTEM [] [
    .mk "Core 0" MRAPI_CPU [⟨.RSRC_UINT16_T 32, .MRAPI_ATTR_STATIC, false⟩]
      [.mk "L1 Cache" MRAPI_CACHE [] []],
    .mk "Core 1" MRAPI_CPU [⟨.RSRC_UINT16_T 64, .MRAPI_ATTR_STATIC, false⟩] []]

/-- The caches of that chip are filtered rightly. -/
theorem caches_right : Right MRAPI_CACHE twoCores :=
  filter_right_iff.mpr ⟨by decide, by decide, by decide⟩

/-- One core is counted and two are written, the second one behind the end of the array. -/
theorem cores_wrong : ¬ Right MRAPI_CPU twoCores ∧
    (mrapi_impl_get_number_of_nodes MRAPI_CPU 4 twoCores = some 1) ∧
    ((mrapi_impl_create_rsrc_tree MRAPI_CPU 4 twoCores 0).map fun w => w.writes.map Prod.fst) =
      some [0, 1] := by
  refine ⟨?_, by decide, by decide⟩
  rintro ⟨fuel, number_of_nodes, w, hcount, hcreate, hlength, _, _⟩
  obtain ⟨_, rfl⟩ := create_some (m := 0) hcreate
  have hn := count_some (by decide) hcount
  rw [filled, length_enumerate, hn] at hlength
  revert hlength
  decide

/-- The call itself: it returns no tree if there are no nodes of the type, and else one whose
children are these nodes. -/
theorem resources_get_right {subsystem_filter : mrapi_rsrc_filter_t}
    (hfilter : subsystem_filter.rsrc_type = some rsrc_type) (h : Right rsrc_type t) :
    ∃ fuel tree, mrapi_impl_resources_get subsystem_filter t fuel = some (MRAPI_SUCCESS, tree) ∧
      (tree = none ↔ t.found rsrc_type = []) ∧
      ∀ f ∈ tree, (List.range f.number_of_children).map f.children =
        (t.found rsrc_type).map fun n => some n.copy := by
  obtain ⟨fuel, number_of_nodes, w, hcount, hcreate, _, _, hchildren⟩ := h
  have hlength : (t.found rsrc_type).length = number_of_nodes := by
    have hlengths := congrArg List.length hchildren
    rw [List.length_map, List.length_range, List.length_map] at hlengths
    exact hlengths.symm
  refine ⟨fuel, if number_of_nodes ≠ 0 then some ((Filtered.empty number_of_nodes).fill w.writes)
    else none, ?_, ?_, ?_⟩
  · unfold mrapi_impl_resources_get
    simp only [hfilter, hcount, hcreate, Option.bind_some, Option.map_some]
    split <;> rfl
  · rw [← List.length_eq_zero_iff, hlength]
    simp
  · intro f hf
    rw [Option.mem_def, Option.ite_none_right_eq_some, Option.some.injEq] at hf
    have hnumber : f.number_of_children = number_of_nodes := by
      rw [← hf.2]
      exact fill_number_of_children _ _
    rw [hnumber, ← hf.2]
    exact hchildren

end MxApi.Resources
