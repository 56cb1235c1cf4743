import Lininoio.NodeLists

/-! The pointers of the node lists against the sequences of slots they stand
for: `list_move` agrees with the sequences, `list_add_tail` of a node that is in
the list already does not. -/

namespace Lininoio

open CircularLinks

/-- The pointers are well formed and hold the two sequences, which share out all slots. -/
structure Represents (l : Links Cell) (m : SlotLists) : Prop where
  nodes : Ring l .nodes (m.nodes.map .node)
  free : Ring l .free (m.free.map .node)
  slots : (m.nodes ++ m.free).Perm (List.finRange numNodes)

section Cells

variable {l : Links Cell} {a b : Cell} {xs zs : List Slot} {n : Slot}

theorem find?_stopsAt (p : Slot → Bool) (xs : List Slot) :
    (xs.map Cell.node).find? (stopsAt p) = (xs.find? p).map Cell.node := by
  induction xs with
  | nil => rfl
  | cons n xs ih => cases hp : p n <;> simp [stopsAt, hp, ih]

theorem ring_moveSlot (ha : Ring l a (xs.map .node)) (hb : Ring l b (zs.map .node)) (hab : a ≠ b)
    (hna : ∀ k, a ≠ .node k) (hnb : ∀ k, b ≠ .node k) (hd : List.Disjoint xs zs) (hn : n ∈ xs) :
    Ring (listMove (.node n) b l) a ((xs.erase n).map .node) ∧
      Ring (listMove (.node n) b l) b ((n :: zs).map .node) := by
  have hnd : xs.Nodup :=
    (List.nodup_map_iff (fun _ _ h => by simpa using h)).mp (List.nodup_cons.mp ha.nodup).2
  have hdisj : List.Disjoint (a :: xs.map .node) (b :: zs.map .node) := by
    intro x hx hx'
    simp only [List.mem_cons, List.mem_map] at hx hx'
    rcases hx with rfl | ⟨k, hk, rfl⟩ <;> rcases hx' with h | ⟨k', hk', h⟩
    · exact hab h
    · exact hna k' h.symm
    · exact hnb k h.symm
    · exact hd hk ((Cell.node.inj h) ▸ hk')
  obtain ⟨us, vs, rfl⟩ := List.append_of_mem hn
  have hus : n ∉ us := fun hm => List.disjoint_of_nodup_append hnd hm (by simp)
  rw [List.map_append, List.map_cons] at ha hdisj
  have hmove := ring_listMove ha hb hdisj
  rw [List.erase_append_right _ hus, List.erase_cons_head, List.map_append]
  exact hmove

end Cells

namespace Represents

variable {l : Links Cell} {m : SlotLists} {n : Slot}

theorem nodup (h : Represents l m) : (m.nodes ++ m.free).Nodup :=
  h.slots.nodup_iff.mpr (List.nodup_finRange _)

theorem search (h : Represents l m) (p : Slot → Bool) :
    NodeLists.search p l = NodeLists.search p m := by
  have hs := h.nodes.listSearch_eq (p := stopsAt p)
  rw [find?_stopsAt] at hs
  simp only [NodeLists.search, hs]
  cases m.nodes.find? p <;> rfl

theorem firstFree (h : Represents l m) : NodeLists.firstFree l = NodeLists.firstFree m := by
  have he := h.free.listEmpty_iff
  have hn := h.free.segment.next_eq
  cases hm : m.free with
  | nil =>
    rw [hm] at he
    simp [NodeLists.firstFree, he.mpr, hm]
  | cons k ks =>
    rw [hm] at he hn
    have hne : listEmpty Cell.free l = false := by
      rw [Bool.eq_false_iff]
      simp [he]
    simp only [List.map_cons, List.cons_append, List.head_cons] at hn
    simp [NodeLists.firstFree, hne, hn, hm]

theorem disjoint (h : Represents l m) : List.Disjoint m.nodes m.free :=
  List.disjoint_of_nodup_append h.nodup

theorem moveToNodes (h : Represents l m) (hn : n ∈ m.free) :
    Represents (NodeLists.moveToNodes n l) (NodeLists.moveToNodes n m) := by
  have hnot : n ∉ m.nodes := fun hm => h.disjoint hm hn
  have hmove := ring_moveSlot h.free h.nodes (by simp) (by simp) (by simp) h.disjoint.symm hn
  refine ⟨?_, hmove.1, ?_⟩
  · simpa [NodeLists.moveToNodes, List.erase_of_not_mem hnot] using hmove.2
  · have hp : (n :: (m.nodes ++ m.free.erase n)).Perm (m.nodes ++ m.free) :=
      List.perm_middle.symm.trans ((List.perm_cons_erase hn).symm.append_left m.nodes)
    simpa [NodeLists.moveToNodes, List.erase_of_not_mem hnot] using hp.trans h.slots

theorem moveToFree (h : Represents l m) (hn : n ∈ m.nodes) :
    Represents (NodeLists.moveToFree n l) (NodeLists.moveToFree n m) := by
  have hnot : n ∉ m.free := fun hm => h.disjoint hn hm
  have hmove := ring_moveSlot h.nodes h.free (by simp) (by simp) (by simp) h.disjoint hn
  refine ⟨hmove.1, ?_, ?_⟩
  · simpa [NodeLists.moveToFree, List.erase_of_not_mem hnot] using hmove.2
  · have hp : (m.nodes.erase n ++ n :: m.free).Perm (m.nodes ++ m.free) :=
      List.perm_middle.trans ((List.perm_cons_erase hn).symm.append_right m.free)
    simpa [NodeLists.moveToFree, List.erase_of_not_mem hnot] using hp.trans h.slots

end Represents

theorem rings_addTail (ns : List Slot) {l : Links Cell} {fs : List Slot} (hnodes : Ring l .nodes [])
    (hfree : Ring l .free (fs.map .node)) (hnd : (fs ++ ns).Nodup) :
    Ring (ns.foldl (fun l n => listAddTail (.node n) .free l) l) .nodes [] ∧
      Ring (ns.foldl (fun l n => listAddTail (.node n) .free l) l) .free ((fs ++ ns).map .node) := by
  induction ns generalizing l fs with
  | nil => exact ⟨hnodes, by simpa using hfree⟩
  | cons n ns ih =>
    have hn : n ∉ fs := fun hm => List.disjoint_of_nodup_append hnd hm (by simp)
    have hadd := ring_listAddTail hfree (by simpa using hn : Cell.node n ∉ Cell.free :: fs.map .node)
    have hprev := hfree.prev_mem (x := .free) (by simp)
    have hframe : Ring (listAddTail (.node n) .free l) .nodes [] := by
      apply ring_listAddTail_frame hnodes (by simp) (by simp)
      intro hm
      rw [List.mem_singleton.mp hm] at hprev
      simp at hprev
    have hadd' : Ring (listAddTail (.node n) .free l) .free
      ((fs ++ [n]).map .node) := by simpa using hadd
    have hh := ih hframe hadd' (by simpa using hnd)
    simpa using hh

theorem represents_init : Represents NodeLists.init NodeLists.init := by
  have hnodes := ring_initListHead Cell.nodes ⟨id, id⟩
  have hframe : Ring (initListHead Cell.free (initListHead .nodes ⟨id, id⟩)) .nodes [] :=
    hnodes.congr (by simp [initListHead]) (by simp [initListHead])
  have hfree : Ring (initListHead Cell.free (initListHead .nodes ⟨id, id⟩)) .free
    (([] : List Slot).map .node) :=
    ring_initListHead _ _
  have hh := rings_addTail (List.finRange numNodes) hframe hfree (List.nodup_finRange _)
  exact ⟨hh.1, hh.2, List.Perm.refl _⟩

/-- `ether_rx_arequest` adds the node that `get_node` has moved to `nodes` once more, which leaves
it with links to itself. -/
def linksAssociated : Links Cell := NodeLists.addTailNodes 0 (NodeLists.moveToNodes 0 etherInitLinks)

def linksKilled : Links Cell := NodeLists.moveToFree 0 linksAssociated

theorem firstFree_init : NodeLists.firstFree etherInitLinks = .found 0 := represents_init.firstFree

theorem search_init (p : Slot → Bool) : NodeLists.search p etherInitLinks = .none :=
  represents_init.search p

theorem search_linksAssociated (p : Slot → Bool) :
    NodeLists.search p linksAssociated = if p 0 then .found 0 else .endless := by
  have hhead : linksAssociated.next .nodes = .node 0 := by decide
  have hself : linksAssociated.next (.node 0) = .node 0 := by decide
  have hloop : ∀ k, searchFrom linksAssociated .nodes (stopsAt p) (k + 1) (.node 0) =
      if p 0 then .found (.node 0) else .endless := by
    intro k
    induction k with
    | zero => cases hp : p 0 <;> simp [searchFrom, stopsAt, hp]
    | succ k ih =>
      rw [searchFrom, hself, ih]
      cases hp : p 0 <;> simp [stopsAt, hp]
  have hcard : Fintype.card Cell = 8 + 1 := rfl
  simp only [NodeLists.search, listSearch, hhead, hcard, hloop]
  cases hp : p 0 <;> simp [NodeSearch.ofSearch]

theorem search_linksKilled (p : Slot → Bool) : NodeLists.search p linksKilled =
    match (List.finRange numNodes).find? p with
    | some n => .found n
    | none => .wild := by
  have hseg : Segment linksKilled .free ((List.finRange numNodes).map .node) .free := by
    simp only [numNodes, List.finRange_succ, List.finRange_zero, List.map_cons, List.map_nil, Segment]
    decide
  have hhead : Cell.nodes ∉ Cell.free :: (List.finRange numNodes).map Cell.node := by simp
  have hstray := searchFrom_stray (n := Fintype.card Cell) (p := stopsAt p) hseg hhead rfl (by decide)
  have hnext : linksKilled.next .nodes = linksKilled.next .free := by decide
  rw [← hnext, find?_stopsAt] at hstray
  simp only [NodeLists.search, listSearch, hstray]
  cases (List.finRange numNodes).find? p <;> rfl

class LawfulNodeLists (L : Type) [NodeLists L] where
  Holds : L → (Slot → Bool) → Prop
  init : Holds NodeLists.init fun _ => false
  free_of_handOut {l : L} {A : Slot → Bool} {p : Slot → Bool} {n : Slot} : Holds l A →
    NodeLists.search p l = .none → NodeLists.firstFree l = .found n → A n = false
  handOut {l : L} {A : Slot → Bool} {p : Slot → Bool} {n : Slot} : Holds l A →
    NodeLists.search p l = .none → NodeLists.firstFree l = .found n →
    Holds (NodeLists.addTailNodes n (NodeLists.moveToNodes n l)) (Function.update A n true)
  giveBack {l : L} {A : Slot → Bool} {n : Slot} : Holds l A → A n = true →
    Holds (NodeLists.moveToFree n l) (Function.update A n false)

/-- The pointers are as they are after no association, one, or one and its end. -/
inductive LinksReached : Links Cell → (Slot → Bool) → Prop
  | init : LinksReached etherInitLinks fun _ => false
  | associated : LinksReached linksAssociated (Function.update (fun _ => false) 0 true)
  | killed : LinksReached linksKilled fun _ => false

theorem LinksReached.eq_init {l : Links Cell} {A : Slot → Bool} (h : LinksReached l A) {p : Slot → Bool}
    (hs : NodeLists.search p l = .none) : l = etherInitLinks ∧ A = fun _ => false := by
  cases h with
  | init => exact ⟨rfl, rfl⟩
  | associated =>
    rw [search_linksAssociated] at hs
    cases hp : p 0 <;> simp [hp] at hs
  | killed =>
    rw [search_linksKilled] at hs
    cases hp : (List.finRange numNodes).find? p <;> simp [hp] at hs

theorem LinksReached.at_most_one {l : Links Cell} {A : Slot → Bool} (h : LinksReached l A) {n m : Slot}
    (hn : A n = true) (hm : A m = true) : n = m := by
  cases h with
  | init => simp at hn
  | killed => simp at hn
  | associated =>
    have hzero : ∀ k, Function.update (fun _ => false) (0 : Slot) true k = true → k = 0 := by
      intro k hk
      by_contra hne
      simp [hne] at hk
    rw [hzero n hn, hzero m hm]

instance : LawfulNodeLists (Links Cell) where
  Holds := LinksReached
  init := .init
  free_of_handOut h hs _ := by rw [(h.eq_init hs).2]
  handOut h hs hf := by
    obtain ⟨rfl, rfl⟩ := h.eq_init hs
    obtain rfl := NodeSearch.found.inj (firstFree_init.symm.trans hf)
    exact .associated
  giveBack {l A n} h hn := by
    cases h with
    | init => simp at hn
    | killed => simp at hn
    | associated =>
      obtain rfl : n = 0 := LinksReached.associated.at_most_one hn (Function.update_self ..)
      rw [Function.update_idem, Function.update_eq_self_iff.mpr rfl]
      exact .killed

/-- All slots are in one of the two sequences, the associated ones in `nodes`. -/
structure SlotLists.Holds (m : SlotLists) (associated : Slot → Bool) : Prop where
  slots : (m.nodes ++ m.free).Perm (List.finRange numNodes)
  mem_iff : ∀ n, associated n = true ↔ n ∈ m.nodes

theorem SlotLists.Holds.disjoint {m : SlotLists} {A : Slot → Bool} (h : m.Holds A) :
    List.Disjoint m.nodes m.free :=
  List.disjoint_of_nodup_append (h.slots.nodup_iff.mpr (List.nodup_finRange _))

theorem SlotLists.firstFree_found {m : SlotLists} {n : Slot} (h : NodeLists.firstFree m = .found n) :
    ∃ ks, m.free = n :: ks := by
  cases hm : m.free with
  | nil => simp [NodeLists.firstFree, hm] at h
  | cons k ks =>
    simp only [NodeLists.firstFree, hm, NodeSearch.found.injEq] at h
    exact ⟨ks, by rw [h]⟩

instance : LawfulNodeLists SlotLists where
  Holds := SlotLists.Holds
  init := ⟨List.Perm.refl _, by simp [NodeLists.init]⟩
  free_of_handOut {m A p n} h _ hf := by
    obtain ⟨ks, hks⟩ := SlotLists.firstFree_found hf
    have hn : n ∉ m.nodes := fun hm => h.disjoint hm (by simp [hks])
    simpa using (h.mem_iff n).not.mpr hn
  handOut {m A p n} h _ hf := by
    obtain ⟨ks, hks⟩ := SlotLists.firstFree_found hf
    have hn : n ∉ m.nodes := fun hm => h.disjoint hm (by simp [hks])
    refine ⟨?_, fun k => ?_⟩
    · have hp : (m.nodes ++ n :: ks).Perm (List.finRange numNodes) := hks ▸ h.slots
      have hnd := (List.nodup_append.mp (hp.nodup_iff.mpr (List.nodup_finRange _))).2.1
      have hn' : n ∉ ks := (List.nodup_cons.mp hnd).1
      simpa [NodeLists.moveToNodes, NodeLists.addTailNodes, hks, List.erase_of_not_mem hn,
        List.erase_of_not_mem hn'] using hp
    · by_cases hk : k = n
      · simp [hk, NodeLists.moveToNodes, NodeLists.addTailNodes]
      · simp [hk, NodeLists.moveToNodes, NodeLists.addTailNodes, List.erase_of_not_mem hn, h.mem_iff]
  giveBack {m A n} h hn := by
    have hmem := (h.mem_iff n).mp hn
    have hfree : n ∉ m.free := fun hm => h.disjoint hmem hm
    have hnd : m.nodes.Nodup := (List.nodup_append.mp (h.slots.nodup_iff.mpr (List.nodup_finRange _))).1
    refine ⟨?_, fun k => ?_⟩
    · have hp : (m.nodes.erase n ++ n :: m.free).Perm (m.nodes ++ m.free) :=
        List.perm_middle.trans ((List.perm_cons_erase hmem).symm.append_right m.free)
      simpa [NodeLists.moveToFree, List.erase_of_not_mem hfree] using hp.trans h.slots
    · by_cases hk : k = n
      · simp [hk, NodeLists.moveToFree, hnd.mem_erase_iff]
      · simp [hk, NodeLists.moveToFree, hnd.mem_erase_iff, h.mem_iff]

end Lininoio
