import Lininoio.CircularLinks
import Mathlib.Algebra.GroupWithZero.Nat
import Mathlib.Data.Fintype.Sum
import Mathlib.Tactic.DeriveFintype

/-! The lists `nodes` and `free_nodes` of `struct ether_data`. The daemon is
written over an interface of the five list operations it uses. One instance
is the pointers themselves; the other reads the two lists as the sequences of
slots they are meant to be. -/

namespace Lininoio

open CircularLinks

abbrev numNodes : Nat := 7

instance : NeZero numNodes := ⟨Nat.succ_ne_zero 6⟩

/-- One of the preallocated `struct lininoio_ether_node`. -/
abbrev Slot := Fin numNodes

/-- How a walk along a list of nodes ends: `wild` when it takes the head of
the other list for a node. -/
inductive NodeSearch
  | found (n : Slot)
  | none
  | wild
  | endless
deriving DecidableEq

class NodeLists (L : Type) where
  /-- The lists after `lininoio_ether_init`. -/
  init : L
  /-- `list_empty` and `list_first_entry` of `free_nodes`. -/
  firstFree : L → NodeSearch
  /-- `list_for_each_entry` over `nodes`, left at the first match. -/
  search : (Slot → Bool) → L → NodeSearch
  /-- `list_move(&n->list, &data->nodes)` -/
  moveToNodes : Slot → L → L
  /-- `list_add_tail(&n->list, &data->nodes)` -/
  addTailNodes : Slot → L → L
  /-- `list_move(&n->list, &data->free_nodes)` -/
  moveToFree : Slot → L → L

inductive Cell
  | nodes
  | free
  | node (n : Slot)
deriving DecidableEq, Fintype

/-- A walk that is left at the other head has run into foreign memory. -/
def stopsAt (p : Slot → Bool) : Cell → Bool
  | .nodes => true
  | .free => true
  | .node n => p n

def NodeSearch.ofSearch : Search Cell → NodeSearch
  | .found (.node n) => .found n
  | .found _ => .wild
  | .finished => .none
  | .endless => .endless

def etherInitLinks : Links Cell :=
  (List.finRange numNodes).foldl (fun l n => listAddTail (.node n) .free l)
    (initListHead .free (initListHead .nodes ⟨id, id⟩))

instance : NodeLists (Links Cell) where
  init := etherInitLinks
  firstFree l :=
    if listEmpty .free l then .none
    else match l.next .free with
      | .node n => .found n
      | _ => .wild
  search p l := .ofSearch (listSearch l .nodes (stopsAt p))
  moveToNodes n l := listMove (.node n) .nodes l
  addTailNodes n l := listAddTail (.node n) .nodes l
  moveToFree n l := listMove (.node n) .free l

/-- The two lists as sequences of slots. -/
structure SlotLists where
  nodes : List Slot
  free : List Slot

instance : NodeLists SlotLists where
  init := ⟨[], List.finRange numNodes⟩
  firstFree l := match l.free with
    | [] => .none
    | n :: _ => .found n
  search p l := match l.nodes.find? p with
    | some n => .found n
    | none => .none
  moveToNodes n l := ⟨n :: l.nodes.erase n, l.free.erase n⟩
  addTailNodes n l := ⟨l.nodes.erase n ++ [n], l.free.erase n⟩
  moveToFree n l := ⟨l.nodes.erase n, n :: l.free.erase n⟩

end Lininoio
