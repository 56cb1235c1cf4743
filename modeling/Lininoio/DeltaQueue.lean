import Mathlib.Algebra.Order.Sub.Basic
import Mathlib.Algebra.Order.Monoid.Canonical.Defs
import Mathlib.Data.List.Pairwise
import Mathlib.Data.List.TakeWhile

/-! Queues in which every entry stores its distance from the entry before it,
and the absolute due times they stand for. Time is any canonically ordered
additive monoid with subtraction. -/

namespace DeltaQueue

variable {M α : Type*}

section Distances

variable [AddCommMonoid M]

/-- The due times of a queue of distances, counted from `base`. -/
def dueTimes (base : M) : List (M × α) → List (M × α)
  | [] => []
  | (d, x) :: q => (base + d, x) :: dueTimes (base + d) q

@[simp] theorem map_snd_dueTimes (base : M) (q : List (M × α)) :
    (dueTimes base q).map Prod.snd = q.map Prod.snd := by
  induction q generalizing base with
  | nil => rfl
  | cons e q ih => simp [dueTimes, ih]

end Distances

variable [LinearOrder M]

/-- Insertion into a queue of distances: the distance left to the new entry
shrinks along the way, and the entry it is put in front of is brought closer. -/
def insertDelta [Sub M] (d : M) (x : α) : List (M × α) → List (M × α)
  | [] => [(d, x)]
  | (e, y) :: q =>
    if d < e then (d, x) :: (e - d, y) :: q else (e, y) :: insertDelta (d - e) x q

/-- Insertion into a list of due times, behind everything due no later. -/
def insertDue (t : M) (x : α) (q : List (M × α)) : List (M × α) :=
  q.takeWhile (fun e => decide (e.1 ≤ t)) ++ (t, x) :: q.dropWhile (fun e => decide (e.1 ≤ t))

def DueSorted (q : List (M × α)) : Prop := q.Pairwise (fun a b => a.1 ≤ b.1)

section Ordered

variable [AddCommMonoid M] [CanonicallyOrderedAdd M]

theorem base_le_of_mem_dueTimes {base : M} {q : List (M × α)} {e : M × α}
    (he : e ∈ dueTimes base q) : base ≤ e.1 := by
  induction q generalizing base with
  | nil => simp [dueTimes] at he
  | cons a q ih =>
    rcases List.mem_cons.mp he with rfl | he
    · exact le_self_add
    · exact le_self_add.trans (ih he)

theorem dueSorted_dueTimes (base : M) (q : List (M × α)) : DueSorted (dueTimes base q) := by
  induction q generalizing base with
  | nil => exact List.Pairwise.nil
  | cons e q ih => exact List.pairwise_cons.mpr ⟨fun _ he => base_le_of_mem_dueTimes he, ih _⟩

variable [Sub M] [OrderedSub M] [IsOrderedCancelAddMonoid M]

theorem dueTimes_insertDelta (base d : M) (x : α) (q : List (M × α)) :
    dueTimes base (insertDelta d x q) = insertDue (base + d) x (dueTimes base q) := by
  -- the base moves along to the due time of each entry passed, the distance left shrinks as much
  induction q generalizing base d with
  | nil => rfl
  | cons e q ih =>
    obtain ⟨e, y⟩ := e
    by_cases hlt : d < e
    · have hnot : ¬ base + e ≤ base + d := not_le.mpr (by gcongr)
      have hback : base + d + (e - d) = base + e := by rw [add_assoc, add_tsub_cancel_of_le hlt.le]
      simp [insertDelta, insertDue, dueTimes, hlt, hnot, hback]
    · have hle : e ≤ d := not_lt.mp hlt
      have hin : base + e ≤ base + d := by gcongr
      have hback : base + e + (d - e) = base + d := by rw [add_assoc, add_tsub_cancel_of_le hle]
      simp [insertDelta, dueTimes, hlt, ih, hback, insertDue, hin]

theorem dueTimes_wait (base : M) {d w : M} (hw : w ≤ d) (x : α) (q : List (M × α)) :
    dueTimes (base + w) ((d - w, x) :: q) = dueTimes base ((d, x) :: q) := by
  have hback : base + w + (d - w) = base + d := by rw [add_assoc, add_tsub_cancel_of_le hw]
  simp [dueTimes, hback]

end Ordered

section Insertion

variable {t : M} {x : α} {q : List (M × α)}

theorem insertDue_perm : (insertDue t x q).Perm ((t, x) :: q) := by
  have hh : (insertDue t x q).Perm ((t, x) :: (q.takeWhile (fun e => decide (e.1 ≤ t)) ++
      q.dropWhile (fun e => decide (e.1 ≤ t)))) := List.perm_middle
  rwa [List.takeWhile_append_dropWhile] at hh

theorem mem_insertDue {e : M × α} : e ∈ insertDue t x q ↔ e = (t, x) ∨ e ∈ q := by
  rw [insertDue_perm.mem_iff, List.mem_cons]

theorem insertDue_split (hs : DueSorted q) : ∃ pre post, q = pre ++ post ∧
    insertDue t x q = pre ++ (t, x) :: post ∧
    (∀ e ∈ pre, e.1 ≤ t) ∧ (∀ e ∈ post, t < e.1) := by
  refine ⟨_, _, List.takeWhile_append_dropWhile.symm, rfl,
    fun e he => by simpa using List.mem_takeWhile_imp he, ?_⟩
  induction q with
  | nil => simp
  | cons a q ih =>
    have hq := List.pairwise_cons.mp hs
    by_cases ha : a.1 ≤ t
    · simpa [ha] using ih hq.2
    · intro e he
      rw [List.dropWhile_cons_of_neg (by simpa using ha)] at he
      rcases List.mem_cons.mp he with rfl | he
      · exact not_le.mp ha
      · exact (not_le.mp ha).trans_le (hq.1 e he)

theorem DueSorted.insertDue (hs : DueSorted q) : DueSorted (insertDue t x q) := by
  obtain ⟨pre, post, rfl, hins, hpre, hpost⟩ := insertDue_split (t := t) (x := x) hs
  obtain ⟨hl, hr, hcross⟩ := List.pairwise_append.mp hs
  rw [hins, DueSorted, List.pairwise_append, List.pairwise_cons]
  refine ⟨hl, ⟨fun e he => (hpost e he).le, hr⟩, fun a ha e he => ?_⟩
  rcases List.mem_cons.mp he with rfl | he
  · exact hpre a ha
  · exact hcross a ha e he

theorem sublist_insertDue (hs : DueSorted q) {e : M × α} (he : e ∈ q) (hlt : t < e.1) :
    [(t, x), e].Sublist (insertDue t x q) := by
  obtain ⟨pre, post, rfl, hins, hpre, -⟩ := insertDue_split (t := t) (x := x) hs
  have hpost : e ∈ post :=
    (List.mem_append.mp he).resolve_left fun hh => (hpre e hh).not_gt hlt
  rw [hins]
  have hh : [(t, x), e].Sublist ((t, x) :: post) :=
    List.cons_sublist_cons.mpr (List.singleton_sublist.mpr hpost)
  exact hh.trans (List.sublist_append_right pre _)

end Insertion

end DeltaQueue
