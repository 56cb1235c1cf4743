import Mathlib.Data.List.Nodup
import Mathlib.Data.List.Perm.Subperm
import Mathlib.Data.List.Range

/-! What two parties exchange over a queue: the one offers requests, the other takes them in
order and finishes them in any order, with an answer, and the first collects the answers. Requests
are named by their places in the order of the offers. -/

structure Exchange (ρ μ : Type*) where
  offered : List ρ
  taken : Nat
  finished : List (Nat × μ)
  collected : Nat

namespace Exchange

variable {ρ μ : Type*}

def start : Exchange ρ μ := ⟨[], 0, [], 0⟩

def offer (r : ρ) (e : Exchange ρ μ) : Exchange ρ μ := { e with offered := e.offered ++ [r] }

def take (e : Exchange ρ μ) : Exchange ρ μ := { e with taken := e.taken + 1 }

def finish (p : Nat) (m : μ) (e : Exchange ρ μ) : Exchange ρ μ :=
  { e with finished := e.finished ++ [(p, m)] }

def collect (e : Exchange ρ μ) : Exchange ρ μ := { e with collected := e.collected + 1 }

def returned (e : Exchange ρ μ) : List Nat := (e.finished.take e.collected).map Prod.fst

def live (e : Exchange ρ μ) : List Nat :=
  (List.range e.offered.length).filter fun p => decide (p ∉ e.returned)

def outstanding (e : Exchange ρ μ) : List ρ := e.live.filterMap fun p => e.offered[p]?

/-- Only what has been taken is finished, and only once. -/
structure Valid (e : Exchange ρ μ) : Prop where
  taken_le : e.taken ≤ e.offered.length
  collected_le : e.collected ≤ e.finished.length
  nodup : (e.finished.map Prod.fst).Nodup
  finished_lt : ∀ f ∈ e.finished, f.1 < e.taken

variable {e : Exchange ρ μ} {p : Nat} {r : ρ} {m : μ}

@[simp] theorem offered_offer : (e.offer r).offered = e.offered ++ [r] := rfl

@[simp] theorem taken_offer : (e.offer r).taken = e.taken := rfl

@[simp] theorem finished_offer : (e.offer r).finished = e.finished := rfl

@[simp] theorem collected_offer : (e.offer r).collected = e.collected := rfl

@[simp] theorem returned_offer : (e.offer r).returned = e.returned := rfl

@[simp] theorem offered_take : e.take.offered = e.offered := rfl

@[simp] theorem taken_take : e.take.taken = e.taken + 1 := rfl

@[simp] theorem finished_take : e.take.finished = e.finished := rfl

@[simp] theorem collected_take : e.take.collected = e.collected := rfl

@[simp] theorem offered_finish : (e.finish p m).offered = e.offered := rfl

@[simp] theorem taken_finish : (e.finish p m).taken = e.taken := rfl

@[simp] theorem finished_finish : (e.finish p m).finished = e.finished ++ [(p, m)] := rfl

@[simp] theorem collected_finish : (e.finish p m).collected = e.collected := rfl

@[simp] theorem offered_collect : e.collect.offered = e.offered := rfl

@[simp] theorem taken_collect : e.collect.taken = e.taken := rfl

@[simp] theorem finished_collect : e.collect.finished = e.finished := rfl

@[simp] theorem collected_collect : e.collect.collected = e.collected + 1 := rfl

theorem returned_collect (hlt : e.collected < e.finished.length) :
    e.collect.returned = e.returned ++ [e.finished[e.collected].1] := by
  rw [returned, collect, List.take_add_one, List.getElem?_eq_getElem hlt, List.map_append]
  rfl

theorem valid_start : (start : Exchange ρ μ).Valid :=
  ⟨le_rfl, le_rfl, List.nodup_nil, fun _ h => absurd h List.not_mem_nil⟩

theorem Valid.offer (h : e.Valid) : (e.offer r).Valid :=
  ⟨h.taken_le.trans (by simp [Exchange.offer]), h.collected_le, h.nodup, h.finished_lt⟩

theorem Valid.take (h : e.Valid) (hlt : e.taken < e.offered.length) : e.take.Valid :=
  ⟨hlt, h.collected_le, h.nodup, fun f hf => (h.finished_lt f hf).trans (Nat.lt_succ_self _)⟩

theorem Valid.finish (h : e.Valid) (hlt : p < e.taken) (hp : p ∉ e.finished.map Prod.fst) :
    (e.finish p m).Valid := by
  refine ⟨h.taken_le, h.collected_le.trans (by simp [Exchange.finish]), ?_, fun f hf => ?_⟩
  · simp only [Exchange.finish, List.map_append, List.map_cons, List.map_nil]
    exact List.nodup_append.mpr ⟨h.nodup, List.nodup_singleton _, by
      intro a ha b hb
      rw [List.mem_singleton.mp hb]
      exact ne_of_mem_of_not_mem ha hp⟩
  · rcases List.mem_append.mp hf with hf | hf
    · exact h.finished_lt f hf
    · rw [List.mem_singleton.mp hf]
      exact hlt

theorem Valid.collect (h : e.Valid) (hlt : e.collected < e.finished.length) : e.collect.Valid :=
  ⟨h.taken_le, hlt, h.nodup, h.finished_lt⟩

inductive Act : Exchange ρ μ → Exchange ρ μ → Prop
  | none (e : Exchange ρ μ) : Act e e
  | offer (e : Exchange ρ μ) (r : ρ) : Act e (e.offer r)
  | take (e : Exchange ρ μ) (h : e.taken < e.offered.length) : Act e e.take
  | finish (e : Exchange ρ μ) (p : Nat) (m : μ) (h : p < e.taken) (h' : p ∉ e.finished.map Prod.fst) :
      Act e (e.finish p m)
  | collect (e : Exchange ρ μ) (h : e.collected < e.finished.length) : Act e e.collect

theorem mem_live_iff : p ∈ e.live ↔ p < e.offered.length ∧ p ∉ e.returned := by
  simp [live]

theorem nodup_live (e : Exchange ρ μ) : e.live.Nodup := List.nodup_range.filter _

theorem mem_outstanding (h : p ∈ e.live) (hr : e.offered[p]? = some r) : r ∈ e.outstanding :=
  List.mem_filterMap.mpr ⟨p, h, hr⟩

theorem length_outstanding (e : Exchange ρ μ) : e.outstanding.length = e.live.length := by
  have hall : ∀ p ∈ e.live, (e.offered[p]?).isSome := fun p hp => by
    simp [(mem_live_iff.mp hp).1]
  rw [outstanding, List.length_filterMap_eq_countP]
  exact List.countP_eq_length.mpr hall

theorem Valid.lt_length (h : e.Valid) {q : Nat × μ} (hq : q ∈ e.finished) : q.1 < e.offered.length :=
  (h.finished_lt q hq).trans_le h.taken_le

theorem mem_returned (hp : p ∈ e.returned) : p ∈ e.finished.map Prod.fst :=
  ((List.take_sublist _ _).map _).subset hp

@[simp] theorem live_start : (start : Exchange ρ μ).live = [] := rfl

@[simp] theorem outstanding_start : (start : Exchange ρ μ).outstanding = [] := rfl

theorem Valid.live_offer (h : e.Valid) : (e.offer r).live = e.live ++ [e.offered.length] := by
  have hnew : e.offered.length ∉ e.returned := by
    intro hmem
    obtain ⟨q, hq, heq⟩ := List.mem_map.mp (mem_returned hmem)
    have hlt := h.lt_length hq
    omega
  change (List.range (e.offered ++ [r]).length).filter (fun p => decide (p ∉ e.returned)) = _
  have hlast : [e.offered.length].filter (fun p => decide (p ∉ e.returned)) =
      [e.offered.length] := List.filter_eq_self.mpr (by simpa using hnew)
  rw [List.length_append, List.length_singleton, List.range_succ, List.filter_append, hlast]
  rfl

theorem Valid.outstanding_offer (h : e.Valid) :
    (e.offer r).outstanding = e.outstanding ++ [r] := by
  rw [outstanding, h.live_offer, List.filterMap_append, outstanding]
  congr 1
  · refine List.filterMap_congr fun p hp => ?_
    exact List.getElem?_append_left (mem_live_iff.mp hp).1
  · simp

@[simp] theorem live_take : e.take.live = e.live := rfl

@[simp] theorem outstanding_take : e.take.outstanding = e.outstanding := rfl

theorem Valid.returned_finish (h : e.Valid) : (e.finish p m).returned = e.returned := by
  simp only [returned, Exchange.finish, List.take_append_of_le_length h.collected_le]

theorem Valid.outstanding_finish (h : e.Valid) : (e.finish p m).outstanding = e.outstanding := by
  simp only [outstanding, live, h.returned_finish]
  rfl

theorem Valid.next_live (h : e.Valid) (hlt : e.collected < e.finished.length) :
    e.finished[e.collected].1 ∈ e.live := by
  refine mem_live_iff.mpr ⟨h.lt_length (List.getElem_mem _), fun hmem => ?_⟩
  obtain ⟨i, hi, heq⟩ := List.getElem_of_mem hmem
  simp only [returned, List.length_map, List.length_take, Nat.lt_min] at hi
  have hi' : i < (e.finished.map Prod.fst).length := by simpa using hi.2
  have hlt' : e.collected < (e.finished.map Prod.fst).length := by simpa using hlt
  have hinj : (e.finished.map Prod.fst)[i] = (e.finished.map Prod.fst)[e.collected] ↔
      i = e.collected := h.nodup.getElem_inj_iff
  simp only [returned, List.getElem_map, List.getElem_take] at heq hinj
  have hh := hinj.mp heq
  omega

theorem Valid.live_collect (h : e.Valid) (hlt : e.collected < e.finished.length) :
    e.live.Perm (e.finished[e.collected].1 :: e.collect.live) := by
  have hmem := h.next_live hlt
  refine (List.perm_ext_iff_of_nodup e.nodup_live ?_).mpr fun q => ?_
  · refine List.nodup_cons.mpr ⟨?_, nodup_live _⟩
    simp [mem_live_iff, returned_collect hlt]
  · have hcases : q ∈ e.collect.returned ↔ q ∈ e.returned ∨ q = e.finished[e.collected].1 := by
      simp [returned_collect hlt]
    rw [List.mem_cons, mem_live_iff, mem_live_iff, hcases, not_or]
    constructor
    · intro hq
      by_cases heq : q = e.finished[e.collected].1
      · exact .inl heq
      · exact .inr ⟨hq.1, hq.2, heq⟩
    · intro hq
      rcases hq with rfl | hq
      · exact mem_live_iff.mp hmem
      · exact ⟨hq.1, hq.2.1⟩

theorem Valid.outstanding_collect (h : e.Valid) (hlt : e.collected < e.finished.length)
    (hr : e.offered[e.finished[e.collected].1]? = some r) :
    e.outstanding.Perm (r :: e.collect.outstanding) := by
  have hperm := (h.live_collect hlt).filterMap fun p => e.offered[p]?
  rwa [List.filterMap_cons, hr] at hperm

theorem Valid.pending_le (h : e.Valid) : e.offered.length - e.taken ≤ e.live.length := by
  have hsub : (List.range' e.taken (e.offered.length - e.taken)).Subset e.live := by
    intro p hp
    rw [List.mem_range'_1] at hp
    refine mem_live_iff.mpr ⟨by omega, fun hmem => ?_⟩
    obtain ⟨q, hq, rfl⟩ := List.mem_map.mp (mem_returned hmem)
    have hlt := h.finished_lt q hq
    omega
  have hlen := List.subperm_of_subset (List.nodup_range' ..) hsub
  simpa using hlen.length_le

theorem Valid.uncollected_live (h : e.Valid) :
    ((e.finished.drop e.collected).map Prod.fst).Subset e.live := by
  intro p hp
  obtain ⟨q, hq, rfl⟩ := List.mem_map.mp hp
  refine mem_live_iff.mpr ⟨h.lt_length (List.mem_of_mem_drop hq), fun hmem => ?_⟩
  have hnodup := h.nodup
  rw [← List.take_append_drop e.collected e.finished, List.map_append] at hnodup
  exact (List.nodup_append.mp hnodup).2.2 _ hmem _ hp rfl

theorem Valid.uncollected_le (h : e.Valid) : e.finished.length - e.collected ≤ e.live.length := by
  have hnodup := h.nodup.sublist ((List.drop_sublist e.collected e.finished).map Prod.fst)
  simpa using (List.subperm_of_subset hnodup h.uncollected_live).length_le

theorem Valid.uncollected_lt (h : e.Valid) (hlt : p < e.taken) (hp : p ∉ e.finished.map Prod.fst) :
    e.finished.length - e.collected < e.live.length := by
  have hnodup := h.nodup.sublist ((List.drop_sublist e.collected e.finished).map Prod.fst)
  have hnot : p ∉ (e.finished.drop e.collected).map Prod.fst := fun hmem =>
    hp (((List.drop_sublist _ _).map _).subset hmem)
  have hlive : p ∈ e.live :=
    mem_live_iff.mpr ⟨hlt.trans_le h.taken_le, fun hmem => hp (mem_returned hmem)⟩
  have hsub : (p :: (e.finished.drop e.collected).map Prod.fst).Subset e.live := by
    intro q hq
    rcases List.mem_cons.mp hq with rfl | hq
    · exact hlive
    · exact h.uncollected_live hq
  have hlen := (List.subperm_of_subset (List.nodup_cons.mpr ⟨hnot, hnodup⟩) hsub).length_le
  simp only [List.length_cons, List.length_map, List.length_drop] at hlen
  omega

end Exchange
