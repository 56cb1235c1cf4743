import Mathlib.Data.List.Nodup
import Mathlib.Data.Nat.ModEq
import Mathlib.Logic.Function.Basic

/-! Circular buffers with counters that run freely: entry `i` of the history is kept in slot
`i % n`, as long as it is among the last `n`. The counters may wrap. -/

namespace CircularBuffers

variable {α : Type*} {f f' : Nat → α} {n lo hi : Nat} {xs : List α} {x : α}

theorem slot_ne {i j : Nat} (hij : i < j) (hjn : j < i + n) : i % n ≠ j % n := by
  intro h
  have hdvd : n ∣ j - i := (Nat.modEq_iff_dvd' hij.le).mp h
  have hle := Nat.le_of_dvd (by omega) hdvd
  omega

/-- The slots hold the entries of the history from `lo` on. -/
def Window (f : Nat → α) (n lo : Nat) (xs : List α) : Prop :=
  ∀ i (h : i < xs.length), lo ≤ i → f (i % n) = xs[i]

theorem window_nil : Window f n lo ([] : List α) := fun _ h => absurd h (Nat.not_lt_zero _)

theorem Window.advance (h : Window f n lo xs) (hle : lo ≤ hi) : Window f n hi xs :=
  fun i hi' hlo => h i hi' (hle.trans hlo)

theorem Window.frame (h : Window f n lo xs) (hroom : xs.length < lo + n)
    (hother : ∀ j < n, j ≠ xs.length % n → f' j = f j) : Window f' n lo xs := by
  intro i hi hlo
  rw [hother _ (Nat.mod_lt _ (by omega)) (slot_ne hi (by omega))]
  exact h i hi hlo

theorem Window.push (h : Window f n lo xs) (hroom : xs.length < lo + n)
    (hother : ∀ j < n, j ≠ xs.length % n → f' j = f j) (hnew : f' (xs.length % n) = x) :
    Window f' n lo (xs ++ [x]) := by
  intro i hi hlo
  rcases Nat.lt_or_eq_of_le (Nat.lt_succ_iff.mp (by simpa using hi)) with hold | rfl
  · rw [List.getElem_append_left hold]
    exact h.frame hroom hother i hold hlo
  · simpa using hnew

theorem wrapped_eq_iff {a b m : Nat} (hab : a ≤ b) (hroom : b < a + m) : a % m = b % m ↔ a = b := by
  refine ⟨fun h => ?_, fun h => by rw [h]⟩
  by_contra hne
  exact slot_ne (lt_of_le_of_ne hab hne) hroom h

theorem crossed_iff {a b e m : Nat} (hab : a ≤ b) (he : e < m) :
    (∃ j, a ≤ j ∧ j < b ∧ j % m = e) ↔ (b % m + (m - e) + (m - 1)) % m < b - a := by
  have hm : 0 < m := by omega
  -- the last counter below `b` that reads `e` lies `r + 1` steps back
  obtain ⟨r, hr⟩ : ∃ r, r = (b % m + (m - e) + (m - 1)) % m := ⟨_, rfl⟩
  have hrm : r < m := hr ▸ Nat.mod_lt _ hm
  have hback : (r + e + 1) % m = b % m := by
    have hmod : (r + e + 1) % m = (b % m + (m - e) + (m - 1) + e + 1) % m := by
      rw [hr, Nat.add_assoc, Nat.mod_add_mod, ← Nat.add_assoc]
    have heq : b % m + (m - e) + (m - 1) + e + 1 = b % m + m * 2 := by omega
    rw [hmod, heq, Nat.add_mul_mod_self_left, Nat.mod_mod]
  rw [← hr]
  constructor
  · intro hh
    obtain ⟨j, hja, hjb, rfl⟩ := hh
    by_contra hlt
    have hmod : (r + j + 1) % m = b % m := by
      have hdiv := Nat.mod_add_div j m
      have heq : r + j + 1 = r + j % m + 1 + m * (j / m) := by omega
      rw [heq, Nat.add_mul_mod_self_left, hback]
    have hsmall : b < r + j + 1 := by omega
    have hlarge : r + j + 1 < b + m := by omega
    exact absurd hmod.symm (slot_ne hsmall hlarge)
  · intro hlt
    refine ⟨b - (r + 1), by omega, by omega, ?_⟩
    have hsum : (b - (r + 1) + (r + 1)) % m = (e + (r + 1)) % m := by
      rw [Nat.sub_add_cancel (by omega), ← hback]
      congr 1
      omega
    have hh := Nat.ModEq.add_right_cancel' (r + 1) hsum
    rwa [Nat.ModEq, Nat.mod_eq_of_lt he] at hh

end CircularBuffers
