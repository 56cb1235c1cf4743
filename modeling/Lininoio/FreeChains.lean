import Mathlib.Data.List.Nodup
import Mathlib.Logic.Function.Basic

/-! Singly linked chains: a table of `next` links, and the sequences of entries that chains in it
stand for. -/

namespace FreeChains

variable {ι : Type*}

/-- The links lead from `a` through the entries `xs` to `b`. -/
def Chain (next : ι → ι) : ι → List ι → ι → Prop
  | a, [], b => a = b
  | a, x :: xs, b => a = x ∧ Chain next (next x) xs b

variable {next next' : ι → ι} {a b c x : ι} {xs ys : List ι}

theorem chain_append : Chain next a (xs ++ ys) b ↔ ∃ c, Chain next a xs c ∧ Chain next c ys b := by
  induction xs generalizing a with
  | nil => simp [Chain]
  | cons x xs ih => simp only [List.cons_append, Chain, ih, and_assoc, exists_and_left]

theorem Chain.congr (h : Chain next a xs b) (hnext : ∀ x ∈ xs, next' x = next x) :
    Chain next' a xs b := by
  induction xs generalizing a with
  | nil => exact h
  | cons x xs ih =>
    refine ⟨h.1, ?_⟩
    rw [hnext x List.mem_cons_self]
    exact ih h.2 fun y hy => hnext y (List.mem_cons_of_mem _ hy)

theorem Chain.eq (h : Chain next a xs b) (h' : Chain next a xs c) : b = c := by
  induction xs generalizing a with
  | nil => exact h.symm.trans h'
  | cons x xs ih => exact ih h.2 h'.2

theorem Chain.head (h : Chain next a (x :: xs) b) : a = x := h.1

theorem Chain.relink [DecidableEq ι] (h : Chain next a (xs ++ [x]) b) (hx : x ∉ xs) (c : ι) :
    Chain (Function.update next x c) a (xs ++ [x]) c := by
  obtain ⟨d, hxs, rfl, -⟩ := chain_append.mp h
  refine chain_append.mpr ⟨d, hxs.congr fun y hy => ?_, rfl, ?_⟩
  · exact Function.update_of_ne (ne_of_mem_of_not_mem hy hx) _ _
  · exact Function.update_self ..

end FreeChains
