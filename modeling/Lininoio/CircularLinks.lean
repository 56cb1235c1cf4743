import Mathlib.Data.Fintype.Card
import Mathlib.Data.Fintype.Pigeonhole
import Mathlib.Data.List.Nodup
import Mathlib.Logic.Function.Iterate

/-! Intrusive circular doubly linked lists over an arbitrary type of cells: the
pointer operations of the kernel's list.h and the sequences of cells that a
well-formed list stands for. -/

namespace CircularLinks

structure Links (α : Type*) where
  next : α → α
  prev : α → α

variable {α : Type*}

/-- The cells `xs` lead from `a` to `b` along `next`, and back along `prev`. -/
def Segment (l : Links α) : α → List α → α → Prop
  | a, [], b => l.next a = b ∧ l.prev b = a
  | a, x :: xs, b => (l.next a = x ∧ l.prev x = a) ∧ Segment l x xs b

/-- The list headed by `head` is well formed and holds `xs` in this order. -/
structure Ring (l : Links α) (head : α) (xs : List α) : Prop where
  nodup : (head :: xs).Nodup
  segment : Segment l head xs head

section Rings

variable {l l' : Links α} {a b head : α} {xs ys : List α}

theorem segment_append : Segment l a (xs ++ b :: ys) head ↔
    Segment l a xs b ∧ Segment l b ys head := by
  induction xs generalizing a with
  | nil => rfl
  | cons x xs ih => simp only [List.cons_append, Segment, ih, and_assoc]

theorem Segment.congr (h : Segment l a xs b) (hn : ∀ x ∈ a :: xs, l'.next x = l.next x)
    (hp : ∀ x ∈ b :: xs, l'.prev x = l.prev x) : Segment l' a xs b := by
  induction xs generalizing a with
  | nil => exact ⟨(hn a (by simp)).trans h.1, (hp b (by simp)).trans h.2⟩
  | cons x xs ih =>
    refine ⟨⟨(hn a (by simp)).trans h.1.1, (hp x (by simp)).trans h.1.2⟩, ?_⟩
    refine ih h.2 (fun y hy => hn y (List.mem_cons_of_mem _ hy)) (fun y hy => hp y ?_)
    rcases List.mem_cons.mp hy with rfl | hy
    · simp
    · simp [hy]

theorem Segment.next_eq (h : Segment l a xs b) : l.next a = (xs ++ [b]).head (by simp) := by
  cases xs with
  | nil => exact h.1
  | cons x xs => exact h.1.1

theorem Segment.prev_eq (h : Segment l a xs b) :
    l.prev b = (a :: xs).getLast (List.cons_ne_nil a xs) := by
  induction xs generalizing a with
  | nil => exact h.2
  | cons x xs ih => simpa using ih h.2

theorem Ring.congr (h : Ring l head xs) (hn : ∀ x ∈ head :: xs, l'.next x = l.next x)
    (hp : ∀ x ∈ head :: xs, l'.prev x = l.prev x) : Ring l' head xs :=
  ⟨h.nodup, h.segment.congr hn hp⟩

theorem Ring.rotate (h : Ring l head (xs ++ a :: ys)) : Ring l a (ys ++ head :: xs) := by
  have hp : (a :: (ys ++ head :: xs)).Perm (head :: (xs ++ a :: ys)) := by
    have hh : (a :: ys ++ head :: xs).Perm (head :: xs ++ a :: ys) := List.perm_append_comm
    simpa using hh
  have hs := segment_append.mp h.segment
  exact ⟨hp.nodup_iff.mpr h.nodup, segment_append.mpr ⟨hs.2, hs.1⟩⟩

theorem Ring.next_mem (h : Ring l head xs) {x : α} (hx : x ∈ head :: xs) :
    l.next x ∈ head :: xs := by
  rcases List.mem_cons.mp hx with rfl | hx
  · have hh := h.segment.next_eq
    cases xs <;> simp_all
  · obtain ⟨us, vs, rfl⟩ := List.append_of_mem hx
    have hh := (segment_append.mp h.segment).2.next_eq
    cases vs <;> simp_all

theorem Ring.prev_mem (h : Ring l head xs) {x : α} (hx : x ∈ head :: xs) :
    l.prev x ∈ head :: xs := by
  rcases List.mem_cons.mp hx with rfl | hx
  · rw [h.segment.prev_eq]
    exact List.getLast_mem _
  · obtain ⟨us, vs, rfl⟩ := List.append_of_mem hx
    rw [(segment_append.mp h.segment).1.prev_eq]
    have hh := List.getLast_mem (List.cons_ne_nil head us)
    rcases List.mem_cons.mp hh with he | he
    · simp [he]
    · exact List.mem_cons_of_mem _ (List.mem_append_left _ he)

end Rings

variable [DecidableEq α]

def initListHead (head : α) (l : Links α) : Links α where
  next := Function.update l.next head head
  prev := Function.update l.prev head head

/-- `__list_add` -/
def listAddBetween (new prev next : α) (l : Links α) : Links α where
  next := Function.update (Function.update l.next new next) prev new
  prev := Function.update (Function.update l.prev next new) new prev

def listAdd (new head : α) (l : Links α) : Links α :=
  listAddBetween new head (l.next head) l

def listAddTail (new head : α) (l : Links α) : Links α :=
  listAddBetween new (l.prev head) head l

/-- `__list_del` -/
def listDelBetween (prev next : α) (l : Links α) : Links α where
  next := Function.update l.next prev next
  prev := Function.update l.prev next prev

/-- `__list_del_entry` -/
def listDelEntry (entry : α) (l : Links α) : Links α :=
  listDelBetween (l.prev entry) (l.next entry) l

def listMove (entry head : α) (l : Links α) : Links α :=
  listAdd entry head (listDelEntry entry l)

def listEmpty (head : α) (l : Links α) : Bool := l.next head = head

section Operations

variable {l : Links α} {a new head : α} {xs ys : List α}

theorem ring_initListHead (head : α) (l : Links α) : Ring (initListHead head l) head [] :=
  ⟨by simp, by simp [Segment, initListHead]⟩

theorem Ring.listEmpty_iff (h : Ring l head xs) : listEmpty head l = true ↔ xs = [] := by
  cases xs with
  | nil => simp [listEmpty, h.segment.1]
  | cons x xs =>
    have hx : x ≠ head := fun he => (List.nodup_cons.mp h.nodup).1 (by simp [he])
    simp [listEmpty, h.segment.1.1, hx]

theorem ring_listAdd (h : Ring l head xs) (hnew : new ∉ head :: xs) :
    Ring (listAdd new head l) head (new :: xs) := by
  have hne : new ≠ head := fun he => hnew (by simp [he])
  have hnd : (head :: new :: xs).Nodup := by
    have hh := h.nodup
    simp only [List.nodup_cons, List.mem_cons, not_or] at hh hnew ⊢
    tauto
  refine ⟨hnd, ?_⟩
  cases xs with
  | nil => simp [Segment, listAdd, listAddBetween, h.segment.1, hne, hne.symm]
  | cons x xs =>
    have hx : l.next head = x := h.segment.1.1
    have hxh : x ≠ head := fun he => (List.nodup_cons.mp h.nodup).1 (by simp [he])
    have hnx : new ≠ x := fun he => hnew (by simp [he])
    have hxs : x ∉ xs := (List.nodup_cons.mp (List.nodup_cons.mp h.nodup).2).1
    refine ⟨?_, ?_, h.segment.2.congr ?_ ?_⟩
    · simp [listAdd, listAddBetween]
    · simp [listAdd, listAddBetween, hx, hne, hnx.symm]
    · intro y hy
      have hyh : y ≠ head := fun he => (List.nodup_cons.mp h.nodup).1 (he ▸ hy)
      have hyn : y ≠ new := fun he => hnew (List.mem_cons_of_mem _ (he ▸ hy))
      simp [listAdd, listAddBetween, hyh, hyn]
    · intro y hy
      have hyx : y ≠ x := by
        rcases List.mem_cons.mp hy with rfl | hy
        · exact hxh.symm
        · exact fun he => hxs (he ▸ hy)
      have hyn : y ≠ new := by
        rintro rfl
        apply hnew
        simp only [List.mem_cons] at hy ⊢
        tauto
      simp [listAdd, listAddBetween, hx, hyx, hyn]

theorem ring_listAddTail (h : Ring l head xs) (hnew : new ∉ head :: xs) :
    Ring (listAddTail new head l) head (xs ++ [new]) := by
  cases xs using List.reverseRecOn with
  | nil =>
    have he : listAddTail new head l = listAdd new head l := by
      simp [listAddTail, listAdd, h.segment.1, h.segment.2]
    simpa [he] using ring_listAdd h hnew
  | append_singleton xs z =>
    have hz := (segment_append.mp h.segment).2
    have he : listAddTail new head l = listAdd new z l := by
      simp [listAddTail, listAdd, hz.1, hz.2]
    have hr : Ring l z ([] ++ head :: xs) := h.rotate
    have hr' : Ring (listAdd new z l) z ([new] ++ head :: xs) :=
      ring_listAdd hr (by simp at hnew ⊢; tauto)
    simpa [he] using hr'.rotate

theorem ring_listDelEntry_head {z : α} {zs : List α} (h : Ring l a (z :: zs)) :
    Ring (listDelEntry a l) z zs := by
  have hn : l.next a = z := h.segment.1.1
  have hnd := (List.nodup_cons.mp h.nodup).2
  refine ⟨hnd, ?_⟩
  cases zs using List.reverseRecOn with
  | nil => simp [Segment, listDelEntry, listDelBetween, h.segment.2.2, hn]
  | append_singleton us w =>
    have hs := segment_append.mp h.segment.2
    have hp : l.prev a = w := hs.2.2
    refine segment_append.mpr ⟨hs.1.congr ?_ ?_, ?_⟩
    · intro y hy
      have hyw : y ≠ w := by
        rintro rfl
        have hsplit : (z :: us ++ [y]).Nodup := by simpa using hnd
        exact List.disjoint_of_nodup_append hsplit hy (by simp)
      simp [listDelEntry, listDelBetween, hp, hyw]
    · intro y hy
      have hyz : y ≠ z := by
        rintro rfl
        exact (List.nodup_cons.mp hnd).1 (by simp only [List.mem_cons, List.mem_append] at hy ⊢; tauto)
      simp [listDelEntry, listDelBetween, hn, hyz]
    · simp [Segment, listDelEntry, listDelBetween, hn, hp]

theorem ring_listDelEntry (h : Ring l head (xs ++ a :: ys)) :
    Ring (listDelEntry a l) head (xs ++ ys) := by
  have hr := h.rotate
  cases ys with
  | nil => simpa using ring_listDelEntry_head hr
  | cons y ys => exact (ring_listDelEntry_head hr).rotate

theorem ring_listDelEntry_frame (h : Ring l head xs) (hp : l.prev a ∉ head :: xs)
    (hn : l.next a ∉ head :: xs) : Ring (listDelEntry a l) head xs := by
  refine h.congr (fun x hx => ?_) (fun x hx => ?_)
  · have hxp : x ≠ l.prev a := fun he => hp (he ▸ hx)
    simp [listDelEntry, listDelBetween, hxp]
  · have hxn : x ≠ l.next a := fun he => hn (he ▸ hx)
    simp [listDelEntry, listDelBetween, hxn]

theorem ring_listAdd_frame {other : α} (h : Ring l head xs) (hnew : new ∉ head :: xs)
    (ho : other ∉ head :: xs) (hn : l.next other ∉ head :: xs) :
    Ring (listAdd new other l) head xs := by
  refine h.congr (fun x hx => ?_) (fun x hx => ?_)
  · have hxo : x ≠ other := fun he => ho (he ▸ hx)
    have hxn : x ≠ new := fun he => hnew (he ▸ hx)
    simp [listAdd, listAddBetween, hxo, hxn]
  · have hxo : x ≠ l.next other := fun he => hn (he ▸ hx)
    have hxn : x ≠ new := fun he => hnew (he ▸ hx)
    simp [listAdd, listAddBetween, hxo, hxn]

theorem ring_listAddTail_frame {other : α} (h : Ring l head xs) (hnew : new ∉ head :: xs)
    (ho : other ∉ head :: xs) (hp : l.prev other ∉ head :: xs) :
    Ring (listAddTail new other l) head xs := by
  refine h.congr (fun x hx => ?_) (fun x hx => ?_)
  · have hxp : x ≠ l.prev other := fun he => hp (he ▸ hx)
    have hxn : x ≠ new := fun he => hnew (he ▸ hx)
    simp [listAddTail, listAddBetween, hxp, hxn]
  · have hxo : x ≠ other := fun he => ho (he ▸ hx)
    have hxn : x ≠ new := fun he => hnew (he ▸ hx)
    simp [listAddTail, listAddBetween, hxo, hxn]

theorem ring_listMove {other : α} {zs : List α} (h : Ring l head (xs ++ a :: ys))
    (h' : Ring l other zs) (hd : List.Disjoint (head :: (xs ++ a :: ys)) (other :: zs)) :
    Ring (listMove a other l) head (xs ++ ys) ∧
      Ring (listMove a other l) other (a :: zs) := by
  have ha : a ∈ head :: (xs ++ a :: ys) := by simp
  have hsub : ∀ {x}, x ∈ head :: (xs ++ ys) → x ∈ head :: (xs ++ a :: ys) := by
    intro x hx
    simp only [List.mem_cons, List.mem_append] at hx ⊢
    tauto
  have hdel : Ring (listDelEntry a l) other zs :=
    ring_listDelEntry_frame h' (fun hx => hd (h.prev_mem ha) hx) (fun hx => hd (h.next_mem ha) hx)
  have hhome := ring_listDelEntry h
  have hnew : a ∉ head :: (xs ++ ys) := by
    have hnd := h.nodup
    have hperm : (head :: xs ++ a :: ys).Perm (a :: (head :: xs ++ ys)) := List.perm_middle
    exact (List.nodup_cons.mp (hperm.nodup_iff.mp hnd)).1
  refine ⟨ring_listAdd_frame hhome hnew (fun hx => hd (hsub hx) (by simp)) (fun hx => ?_),
    ring_listAdd hdel (fun hx => hd ha hx)⟩
  exact hd (hsub hx) (hdel.next_mem (by simp))

end Operations

section Traversals

/-- How a traversal that is left at the first matching cell ends. -/
inductive Search (α : Type*)
  | found (x : α)
  | finished
  | endless
deriving DecidableEq

/-- The loop of `list_for_each_entry`, left at the first cell that matches. -/
def searchFrom (l : Links α) (head : α) (p : α → Bool) : Nat → α → Search α
  | 0, _ => .endless
  | n + 1, pos =>
    if pos = head then .finished
    else if p pos then .found pos
    else searchFrom l head p n (l.next pos)

/-- A traversal bounded by the number of cells; `listSearch_endless_iff` says
that the bound never cuts a traversal short. -/
def listSearch [Fintype α] (l : Links α) (head : α) (p : α → Bool) : Search α :=
  searchFrom l head p (Fintype.card α) (l.next head)

variable {l : Links α} {head : α} {p : α → Bool} {xs : List α}

theorem searchFrom_endless_iff {n : Nat} {pos : α} : searchFrom l head p n pos = .endless ↔
    ∀ i < n, l.next^[i] pos ≠ head ∧ p (l.next^[i] pos) = false := by
  induction n generalizing pos with
  | zero => simp [searchFrom]
  | succ n ih =>
    rw [searchFrom, Nat.forall_lt_succ_left]
    simp only [Function.iterate_zero, id, Function.iterate_succ, Function.comp_apply, ← ih]
    by_cases hh : pos = head
    · simp [hh]
    · cases hp : p pos <;> simp [hh]

theorem iterate_avoids_of_card [Fintype α] {f : α → α} {P : α → Prop} {pos : α}
    (h : ∀ i < Fintype.card α, f^[i] pos ≠ head ∧ P (f^[i] pos)) (n : Nat) :
    f^[n] pos ≠ head ∧ P (f^[n] pos) := by
  induction n using Nat.strong_induction_on with
  | _ n ih =>
    by_cases hn : n < Fintype.card α
    · exact h n hn
    -- the cells other than the head are one fewer than the steps, so that two steps meet
    · obtain ⟨i, j, hij, he⟩ : ∃ i j : Fin (Fintype.card α), i < j ∧ f^[i] pos = f^[j] pos := by
        have hcard : Fintype.card {x // x ≠ head} < Fintype.card (Fin (Fintype.card α)) := by
          have hpos : 0 < Fintype.card α := Fintype.card_pos_iff.mpr ⟨head⟩
          simp only [Fintype.card_fin, ne_eq, Fintype.card_subtype_compl, Fintype.card_unique]
          omega
        obtain ⟨i, j, hne, he⟩ := Fintype.exists_ne_map_eq_of_card_lt
          (fun i : Fin (Fintype.card α) => (⟨f^[i] pos, (h i i.2).1⟩ : {x // x ≠ head})) hcard
        have he' : f^[i] pos = f^[j] pos := congrArg Subtype.val he
        rcases lt_or_gt_of_ne hne with hlt | hlt
        · exact ⟨i, j, hlt, he'⟩
        · exact ⟨j, i, hlt, he'.symm⟩
      have hback : f^[n] pos = f^[n - j + i] pos := by
        have hsplit : n = (n - j) + j := by omega
        calc f^[n] pos = f^[n - j] (f^[j] pos) := by
              rw [← Function.iterate_add_apply, ← hsplit]
          _ = f^[n - j + i] pos := by rw [← he, ← Function.iterate_add_apply]
      have hij' : (i : Nat) < j := hij
      rw [hback]
      exact ih _ (by omega)

theorem listSearch_endless_iff [Fintype α] : listSearch l head p = .endless ↔
    ∀ n, l.next^[n] (l.next head) ≠ head ∧ p (l.next^[n] (l.next head)) = false := by
  rw [listSearch, searchFrom_endless_iff]
  exact ⟨fun h => iterate_avoids_of_card (P := fun x => p x = false) h, fun h i _ => h i⟩

theorem searchFrom_segment {a : α} {n : Nat} (h : Segment l a xs head) (hh : head ∉ xs)
    (hn : xs.length < n) : searchFrom l head p n (l.next a) =
      match xs.find? p with
      | some x => .found x
      | none => .finished := by
  induction xs generalizing a n with
  | nil =>
    obtain ⟨n, rfl⟩ : ∃ m, n = m + 1 := ⟨n - 1, by omega⟩
    simp [searchFrom, h.1]
  | cons x xs ih =>
    obtain ⟨n, rfl⟩ : ∃ m, n = m + 1 := ⟨n - 1, by omega⟩
    have hx : x ≠ head := fun he => hh (by simp [he])
    rw [h.1.1, searchFrom, if_neg hx, List.find?_cons]
    cases hp : p x with
    | true => simp
    | false =>
      simpa using ih h.2 (fun hm => hh (List.mem_cons_of_mem _ hm))
        (by simpa using hn)

theorem searchFrom_stray {a b : α} {n : Nat} (h : Segment l a xs b) (hh : head ∉ b :: xs)
    (hb : p b = true) (hn : xs.length < n) :
    searchFrom l head p n (l.next a) = .found ((xs.find? p).getD b) := by
  induction xs generalizing a n with
  | nil =>
    obtain ⟨n, rfl⟩ : ∃ m, n = m + 1 := ⟨n - 1, by omega⟩
    have hne : b ≠ head := fun he => hh (by simp [he])
    simp [searchFrom, h.1, hne, hb]
  | cons x xs ih =>
    obtain ⟨n, rfl⟩ : ∃ m, n = m + 1 := ⟨n - 1, by omega⟩
    have hx : x ≠ head := fun he => hh (by simp [he])
    rw [h.1.1, searchFrom, if_neg hx, List.find?_cons]
    cases hp : p x with
    | true => simp
    | false =>
      have hh' : head ∉ b :: xs := by
        simp only [List.mem_cons, not_or] at hh ⊢
        exact ⟨hh.1, hh.2.2⟩
      simpa using ih h.2 hh' (by simpa using hn)

theorem Ring.listSearch_eq [Fintype α] (h : Ring l head xs) : listSearch l head p =
    match xs.find? p with
    | some x => .found x
    | none => .finished := by
  have hlen : (head :: xs).length ≤ Fintype.card α := h.nodup.length_le_card
  rw [List.length_cons] at hlen
  exact searchFrom_segment h.segment (List.nodup_cons.mp h.nodup).1 (Nat.lt_of_succ_le hlen)

end Traversals

end CircularLinks
