import Mathlib.Tactic.Common
import Mathlib.Algebra.Order.Group.Nat

/-! The two-field times of sys/time.h and the number of microseconds they stand for. -/

namespace Lininoio

structure Timeval where
  tvSec : Int
  tvUsec : Int
deriving DecidableEq

namespace Timeval

def zerot : Timeval := ⟨0, 0⟩

@[simp] theorem tvSec_zerot : zerot.tvSec = 0 := rfl

@[simp] theorem tvUsec_zerot : zerot.tvUsec = 0 := rfl

/-- `timercmp(a, b, <)` -/
def timercmpLt (a b : Timeval) : Bool :=
  if a.tvSec = b.tvSec then decide (a.tvUsec < b.tvUsec) else decide (a.tvSec < b.tvSec)

/-- `timercmp(a, b, ==)` -/
def timercmpEq (a b : Timeval) : Bool :=
  if a.tvSec = b.tvSec then decide (a.tvUsec = b.tvUsec) else decide (a.tvSec = b.tvSec)

def timersub (a b : Timeval) : Timeval :=
  let sec := a.tvSec - b.tvSec
  let usec := a.tvUsec - b.tvUsec
  if usec < 0 then ⟨sec - 1, usec + 1000000⟩ else ⟨sec, usec⟩

/-- The conversion of `schedule_timeout`; the product is taken in an
`unsigned long` of `ulongBits` bits. -/
def ofMillis (ulongBits ms : Nat) : Timeval where
  tvSec := (ms / 1000 : Nat)
  tvUsec := (ms * 1000 % 2 ^ ulongBits % 1000000 : Nat)

def ofMicros (n : Nat) : Timeval where
  tvSec := (n / 1000000 : Nat)
  tvUsec := (n % 1000000 : Nat)

structure Normal (a : Timeval) : Prop where
  sec : 0 ≤ a.tvSec
  usec : 0 ≤ a.tvUsec
  usec_lt : a.tvUsec < 1000000

def micros (a : Timeval) : Nat := (a.tvSec * 1000000 + a.tvUsec).toNat

section Normal

variable {a b : Timeval}

theorem Normal.timercmpLt_iff (ha : a.Normal) (hb : b.Normal) :
    timercmpLt a b = true ↔ a.micros < b.micros := by
  obtain ⟨ha, ha', ha''⟩ := ha
  obtain ⟨hb, hb', hb''⟩ := hb
  by_cases he : a.tvSec = b.tvSec <;> simp only [timercmpLt, he, micros, if_true, if_false,
    decide_eq_true_eq] <;> omega

theorem Normal.timercmpEq_zerot_iff (ha : a.Normal) :
    timercmpEq a zerot = true ↔ a.micros = 0 := by
  obtain ⟨ha, ha', ha''⟩ := ha
  have hu : micros a = 0 ↔ a.tvSec = 0 ∧ a.tvUsec = 0 := by simp only [micros]; omega
  rw [hu]
  by_cases he : a.tvSec = zerot.tvSec
  · rw [timercmpEq, if_pos he, decide_eq_true_iff]
    simp [he]
  · rw [timercmpEq, if_neg he, decide_eq_true_iff]
    simp_all

theorem Normal.timersub (ha : a.Normal) (hb : b.Normal) (hle : b.micros ≤ a.micros) :
    (timersub a b).Normal ∧ (timersub a b).micros = a.micros - b.micros := by
  obtain ⟨ha, ha', ha''⟩ := ha
  obtain ⟨hb, hb', hb''⟩ := hb
  unfold micros at hle ⊢
  by_cases hu : a.tvUsec - b.tvUsec < 0
  · simp only [Timeval.timersub, hu, if_true]
    exact ⟨⟨by simp only; omega, by simp only; omega, by simp only; omega⟩, by omega⟩
  · simp only [Timeval.timersub, hu, if_false]
    exact ⟨⟨by simp only; omega, by simp only; omega, by simp only; omega⟩, by omega⟩

theorem normal_ofMicros (n : Nat) : (ofMicros n).Normal :=
  ⟨by simp only [ofMicros]; omega, by simp only [ofMicros]; omega, by simp only [ofMicros]; omega⟩

@[simp] theorem micros_ofMicros (n : Nat) : (ofMicros n).micros = n := by
  simp only [micros, ofMicros]
  omega

theorem normal_ofMillis (ulongBits ms : Nat) : (ofMillis ulongBits ms).Normal :=
  ⟨by simp only [ofMillis]; omega, by simp only [ofMillis]; omega, by simp only [ofMillis]; omega⟩

theorem micros_ofMillis {ulongBits ms : Nat} (h : ms * 1000 < 2 ^ ulongBits) :
    (ofMillis ulongBits ms).micros = ms * 1000 := by
  simp only [micros, ofMillis, Nat.mod_eq_of_lt h]
  omega

end Normal

end Timeval

end Lininoio
