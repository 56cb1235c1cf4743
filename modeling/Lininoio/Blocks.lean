import Mathlib.Tactic.Common
import Mathlib.Algebra.GroupWithZero.Nat
import Mathlib.Algebra.Order.BigOperators.Group.List

/-! Consecutive blocks in a buffer: where each of them starts, what a write of
a block leaves alone, and what is read back. -/

namespace Blocks

variable {α : Type}

def slice (p : Nat → α) (off len : Nat) : List α := (List.range len).map (fun i => p (off + i))

@[simp] theorem length_slice (p : Nat → α) (off len : Nat) : (slice p off len).length = len := by
  simp [slice]

theorem slice_congr {p q : Nat → α} {off len : Nat} (h : ∀ i, off ≤ i → i < off + len → p i = q i) :
    slice p off len = slice q off len := by
  apply List.map_congr_left
  intro i hi
  have hlt := List.mem_range.mp hi
  exact h _ (by omega) (by omega)

theorem slice_slice {p : Nat → α} {off len total : Nat} (h : off + len ≤ total) :
    ((slice p 0 total).drop off).take len = slice p off len := by
  apply List.ext_getElem
  · simp only [List.length_take, List.length_drop, length_slice]
    omega
  · intro i hi hi'
    simp [slice]

/-- `q` is `p` with a block written at `off`. -/
structure Written (p : Nat → α) (off : Nat) (b : List α) (q : Nat → α) : Prop where
  slice_eq : slice q off b.length = b
  frame : ∀ i, i < off ∨ off + b.length ≤ i → q i = p i

def start (blocks : List (List α)) (i : Nat) : Nat := ((blocks.take i).map List.length).sum

def total (blocks : List (List α)) : Nat := (blocks.map List.length).sum

@[simp] theorem start_zero (blocks : List (List α)) : start blocks 0 = 0 := by simp [start]

@[simp] theorem start_cons_succ (b : List α) (blocks : List (List α)) (i : Nat) :
    start (b :: blocks) (i + 1) = b.length + start blocks i := by
  simp [start]

@[simp] theorem total_nil : total ([] : List (List α)) = 0 := rfl

@[simp] theorem total_cons (b : List α) (blocks : List (List α)) :
    total (b :: blocks) = b.length + total blocks := by
  simp [total]

theorem start_add_length_le_start {blocks : List (List α)} {i j : Nat} (hi : i < blocks.length)
    (hij : i < j) : start blocks i + blocks[i].length ≤ start blocks j := by
  induction blocks generalizing i j with
  | nil => exact absurd hi (Nat.not_lt_zero _)
  | cons b blocks ih =>
    obtain ⟨j, rfl⟩ : ∃ k, j = k + 1 := ⟨j - 1, by omega⟩
    cases i with
    | zero => simp
    | succ i =>
      have hh := ih (i := i) (j := j) (Nat.lt_of_succ_lt_succ hi) (by omega)
      simp only [start_cons_succ, List.getElem_cons_succ]
      omega

theorem start_add_length_le_total {blocks : List (List α)} {i : Nat} (hi : i < blocks.length) :
    start blocks i + blocks[i].length ≤ total blocks := by
  have hh := start_add_length_le_start hi hi
  simpa [start, total] using hh

end Blocks
