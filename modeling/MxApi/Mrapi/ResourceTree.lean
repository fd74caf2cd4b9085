/-
Filtered resource trees (`mrapi_impl_spec_resources_abb.c`).

A resource has an array of children and one of attributes; the fields that say how long
they are are 32-bit, and so are the bounds of the loops that fill the filtered tree, but
their counters are 16-bit ([`each16`]). The first argument of the two recursions is how deep
they may go and how often their loops may look at their tests. An entry that
`mrapi_impl_create_rsrc_tree` writes is kept with the index that it is written to, wherever
that is; the array of the filtered tree is what has been written last at each index.
-/
import Mathlib.Logic.Function.Basic
import MxApi.Lib.Loops

set_option autoImplicit false

namespace MxApi.Resources

open Lib

/-! ## Data -/

inductive mrapi_resource_type
  | MRAPI_CPU
  | MRAPI_CACHE
  | MRAPI_MEM
  | MRAPI_CORE_COMPLEX
  | MRAPI_CROSSBAR
  | MRAPI_SYSTEM
  deriving DecidableEq, Repr

/-- The values of `mrapi_rsrc_filter_t`, and any other one. -/
inductive mrapi_rsrc_filter_t
  | MRAPI_RSRC_MEM
  | MRAPI_RSRC_CPU
  | MRAPI_RSRC_CACHE
  | MRAPI_RSRC_DMA
  | MRAPI_RSRC_CROSSBAR
  | invalid
  deriving DecidableEq, Repr

inductive mrapi_attribute_static
  | MRAPI_ATTR_STATIC
  | MRAPI_ATTR_DYNAMIC
  deriving DecidableEq, Repr

/-- The value of an attribute, with its `rsrc_type_t`. -/
inductive AttributeValue
  | RSRC_UINT16_T (value : BitVec 16)
  | RSRC_UINT32_T (value : BitVec 32)
  deriving DecidableEq, Repr

/-- What `attribute_values`, `attribute_types`, `attribute_static` and `attribute_started`
have at an index. -/
structure Attribute where
  value : AttributeValue
  static : mrapi_attribute_static
  started : Bool
  deriving DecidableEq, Repr

inductive mrapi_resource_t
  | mk (name : String) (resource_type : mrapi_resource_type) (attributes : List Attribute)
      (children : List mrapi_resource_t)

namespace mrapi_resource_t

def name : mrapi_resource_t → String
  | mk name _ _ _ => name

def resource_type : mrapi_resource_t → mrapi_resource_type
  | mk _ resource_type _ _ => resource_type

def attributes : mrapi_resource_t → List Attribute
  | mk _ _ attributes _ => attributes

def children : mrapi_resource_t → List mrapi_resource_t
  | mk _ _ _ children => children

end mrapi_resource_t

inductive mrapi_status_t
  | MRAPI_SUCCESS
  | MRAPI_ERR_RSRC_INVALID_SUBSYSTEM
  deriving DecidableEq, Repr

open mrapi_resource_type mrapi_rsrc_filter_t mrapi_status_t

/-! ## The size -/

def mrapi_impl_get_number_of_nodes (rsrc_type : mrapi_resource_type) :
    ℕ → mrapi_resource_t → Option ℕ
  | 0, _ => none
  | fuel + 1, tree =>
    let number_of_children := u16 tree.children.length
    if number_of_children = 0 then some (if rsrc_type = tree.resource_type then 1 else 0)
    else
      each16 (fun child number_of_nodes =>
          (mrapi_impl_get_number_of_nodes rsrc_type fuel child).map fun n =>
            u16 (number_of_nodes + n))
        tree.children number_of_children fuel 0

/-! ## The entries -/

def Attribute.copy (x : Attribute) : Attribute where
  value := match x.value with
    | .RSRC_UINT16_T value => .RSRC_UINT16_T value
    | .RSRC_UINT32_T value => .RSRC_UINT32_T value
  static := x.static
  started := x.started

/-- A copy of the node, leaving out the pointers to the children. -/
def copyNode (fuel : ℕ) (src_tree : mrapi_resource_t) : Option mrapi_resource_t :=
  (each16 (fun x copied => some (copied ++ [x.copy])) src_tree.attributes
    src_tree.attributes.length fuel []).map fun attributes =>
      .mk src_tree.name src_tree.resource_type attributes []

/-- The entries that have been written so far, and the index of the next one. -/
structure Filled where
  writes : List (ℕ × mrapi_resource_t)
  index_child : ℕ

def mrapi_impl_create_rsrc_tree (rsrc_type : mrapi_resource_type) :
    ℕ → mrapi_resource_t → ℕ → Option Filled
  | 0, _, _ => none
  | fuel + 1, src_tree, start_index_child =>
    (if rsrc_type = src_tree.resource_type then
      (copyNode fuel src_tree).map fun new_child =>
        ⟨[(start_index_child, new_child)], u16 (start_index_child + 1)⟩
    else some ⟨[], start_index_child⟩).bind fun own =>
      each16 (fun the_child w =>
          (mrapi_impl_create_rsrc_tree rsrc_type fuel the_child w.index_child).map fun r =>
            ⟨w.writes ++ r.writes, r.index_child⟩)
        src_tree.children src_tree.children.length fuel own

/-! ## The filtered tree -/

/-- The filtered tree: a node without a parent, which has nothing but children. -/
structure Filtered where
  number_of_children : ℕ
  children : ℕ → Option mrapi_resource_t

/-- Before its entries are written. -/
def Filtered.empty (number_of_nodes : ℕ) : Filtered := ⟨number_of_nodes, fun _ => none⟩

/-- `filtered_tree->children[index_child] = new_child`. -/
def Filtered.write (t : Filtered) (p : ℕ × mrapi_resource_t) : Filtered :=
  { t with children := Function.update t.children p.1 (some p.2) }

def Filtered.fill (t : Filtered) (writes : List (ℕ × mrapi_resource_t)) : Filtered :=
  writes.foldl Filtered.write t

/-- The type that a filter stands for. There are no resources of the type
`MRAPI_RSRC_DMA`. -/
def mrapi_rsrc_filter_t.rsrc_type : mrapi_rsrc_filter_t → Option mrapi_resource_type
  | MRAPI_RSRC_MEM => some MRAPI_MEM
  | MRAPI_RSRC_CPU => some MRAPI_CPU
  | MRAPI_RSRC_CACHE => some MRAPI_CACHE
  | MRAPI_RSRC_CROSSBAR => some MRAPI_CROSSBAR
  | MRAPI_RSRC_DMA | .invalid => none

def mrapi_impl_resources_get (subsystem_filter : mrapi_rsrc_filter_t)
    (resource_root : mrapi_resource_t) (fuel : ℕ) :
    Option (mrapi_status_t × Option Filtered) :=
  match subsystem_filter.rsrc_type with
  | none =>
    if subsystem_filter = MRAPI_RSRC_DMA then some (MRAPI_SUCCESS, none)
    else some (MRAPI_ERR_RSRC_INVALID_SUBSYSTEM, none)
  | some rsrc_type =>
    (mrapi_impl_get_number_of_nodes rsrc_type fuel resource_root).bind fun number_of_nodes =>
      if number_of_nodes ≠ 0 then
        (mrapi_impl_create_rsrc_tree rsrc_type fuel resource_root 0).map fun w =>
          (MRAPI_SUCCESS, some ((Filtered.empty number_of_nodes).fill w.writes))
      else some (MRAPI_SUCCESS, none)

/-! ## The contract -/

namespace mrapi_resource_t

mutual

/-- The nodes of a tree in preorder. -/
def nodes : mrapi_resource_t → List mrapi_resource_t
  | mk name resource_type attributes children =>
    mk name resource_type attributes children :: nodesAll children

def nodesAll : List mrapi_resource_t → List mrapi_resource_t
  | [] => []
  | t :: ts => t.nodes ++ nodesAll ts

end

/-- The nodes of a type. -/
def found (t : mrapi_resource_t) (rsrc_type : mrapi_resource_type) : List mrapi_resource_t :=
  t.nodes.filter fun n => n.resource_type = rsrc_type

/-- A node by itself. -/
def copy (t : mrapi_resource_t) : mrapi_resource_t :=
  mk t.name t.resource_type t.attributes []

end mrapi_resource_t

/-- The size is the number of entries, every entry goes to an index below it, and the
children of the filtered tree are the nodes of the type in preorder. -/
def Right (rsrc_type : mrapi_resource_type) (t : mrapi_resource_t) : Prop :=
  ∃ fuel number_of_nodes w, mrapi_impl_get_number_of_nodes rsrc_type fuel t = some number_of_nodes ∧
    mrapi_impl_create_rsrc_tree rsrc_type fuel t 0 = some w ∧
    w.writes.length = number_of_nodes ∧
    (∀ p ∈ w.writes, p.1 < (Filtered.empty number_of_nodes).number_of_children) ∧
    (List.range number_of_nodes).map ((Filtered.empty number_of_nodes).fill w.writes).children =
      (t.found rsrc_type).map fun n => some n.copy

end MxApi.Resources
