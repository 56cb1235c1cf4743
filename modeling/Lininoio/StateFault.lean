import Mathlib.Tactic.Common

/-! Weakest preconditions for programs that carry a state and may stop with a
fault. The state at the fault is kept, so a postcondition can be asked of the
run up to that point as well. -/

namespace StateFault

variable {ε S α β : Type}

/-- Run from `s`, the program ends in `Q` when it returns and in `E` when it faults. -/
def wp (x : EStateM ε S α) (Q : α → S → Prop) (E : ε → S → Prop) (s : S) : Prop :=
  match x s with
  | .ok a t => Q a t
  | .error e t => E e t

theorem wp_ok {x : EStateM ε S α} {Q : α → S → Prop} {E : ε → S → Prop} {s t : S} {a : α}
    (h : wp x Q E s) (hx : x s = .ok a t) : Q a t := by
  simpa only [wp, hx] using h

theorem wp_of_ok {x : EStateM ε S α} {Q : α → S → Prop} {s : S} (h : ∀ a t, x s = .ok a t → Q a t) :
    wp x Q (fun _ _ => True) s := by
  unfold wp
  cases hx : x s with
  | ok a t => exact h a t hx
  | error e t => trivial

theorem exists_ok_of_wp {x : EStateM ε S α} {Q : α → S →
    Prop} {s : S} (h : wp x Q (fun _ _ => False) s) :
    ∃ a t, x s = .ok a t ∧ Q a t := by
  unfold wp at h
  cases hx : x s with
  | ok a t => exact ⟨a, t, rfl, by simpa only [hx] using h⟩
  | error e t => simp only [hx] at h

theorem wp_mono {x : EStateM ε S α} {Q Q' : α → S → Prop} {E E' : ε → S → Prop} {s : S}
    (h : wp x Q E s) (hQ : ∀ a t, Q a t → Q' a t) (hE : ∀ e t, E e t → E' e t) :
    wp x Q' E' s := by
  unfold wp at h ⊢
  cases hx : x s with
  | ok a t => simp only [hx] at h ⊢; exact hQ a t h
  | error e t => simp only [hx] at h ⊢; exact hE e t h

theorem wp_of_state {x : EStateM ε S α} {Q : α → S → Prop} {E : ε → S → Prop} {s : S}
    (P : S → Prop) (hP : P s) (h : ∀ t, P t → wp x Q E t) : wp x Q E s := h s hP

theorem wp_and {x : EStateM ε S α} {Q Q' : α → S → Prop} {E E' : ε → S → Prop} {s : S}
    (h : wp x Q E s) (h' : wp x Q' E' s) :
    wp x (fun a t => Q a t ∧ Q' a t) (fun e t => E e t ∧ E' e t) s := by
  unfold wp at h h' ⊢
  cases hx : x s with
  | ok a t => simp only [hx] at h h' ⊢; exact ⟨h, h'⟩
  | error e t => simp only [hx] at h h' ⊢; exact ⟨h, h'⟩

theorem wp_iff {x : EStateM ε S α} {Q : α → S → Prop} {E : ε → S → Prop} {s : S} {P : Prop}
    (h : wp x (fun a t => Q a t ↔ P) (fun e t => E e t ↔ P) s) : wp x Q E s ↔ P := by
  unfold wp at h ⊢
  cases hx : x s with
  | ok a t => simpa only [hx] using h
  | error e t => simpa only [hx] using h

def returnsIn (x : EStateM ε S α) (p : S → Bool) (s : S) : Bool :=
  match x s with
  | .ok _ t => p t
  | .error _ _ => false

theorem exists_of_returnsIn {x : EStateM ε S α} {p : S → Bool} {s : S} (h : returnsIn x p s = true) :
    ∃ a t, x s = .ok a t ∧ p t = true := by
  unfold returnsIn at h
  cases hx : x s with
  | ok a t => exact ⟨a, t, rfl, by simpa only [hx] using h⟩
  | error e t => simp [hx] at h

section Rules

variable (Q : β → S → Prop) (E : ε → S → Prop) (s : S)

@[simp] theorem wp_pure (b : β) : wp (pure b : EStateM ε S β) Q E s ↔ Q b s := Iff.rfl

@[simp] theorem wp_bind (x : EStateM ε S α) (f : α → EStateM ε S β) :
    wp (x >>= f) Q E s ↔ wp x (fun a t => wp (f a) Q E t) E s := by
  simp only [wp, bind, EStateM.bind]
  cases x s <;> rfl

@[simp] theorem wp_map (g : α → β) (x : EStateM ε S α) :
    wp (g <$> x) Q E s ↔ wp x (fun a t => Q (g a) t) E s := by
  simp only [wp, Functor.map, EStateM.map]
  cases x s <;> rfl

@[simp] theorem wp_throw (e : ε) : wp (throw e : EStateM ε S β) Q E s ↔ E e s := Iff.rfl

@[simp] theorem wp_ite (c : Prop) [Decidable c] (x y : EStateM ε S β) :
    wp (if c then x else y) Q E s ↔ (c → wp x Q E s) ∧ (¬ c → wp y Q E s) := by
  by_cases hc : c <;> simp [hc]

@[simp] theorem wp_dite (c : Prop) [Decidable c] (x : c → EStateM ε S β) (y : ¬ c → EStateM ε S β) :
    wp (if h : c then x h else y h) Q E s ↔
      (∀ h : c, wp (x h) Q E s) ∧ (∀ h : ¬ c, wp (y h) Q E s) := by
  by_cases hc : c <;> simp [hc]

end Rules

@[simp] theorem wp_get (Q : S → S → Prop) (E : ε → S → Prop) (s : S) :
    wp (get : EStateM ε S S) Q E s ↔ Q s s := Iff.rfl

@[simp] theorem wp_set (t : S) (Q : PUnit → S → Prop) (E : ε → S → Prop) (s : S) :
    wp (set t : EStateM ε S PUnit) Q E s ↔ Q ⟨⟩ t := Iff.rfl

@[simp] theorem wp_modify (f : S → S) (Q : PUnit → S → Prop) (E : ε → S → Prop) (s : S) :
    wp (modify f : EStateM ε S PUnit) Q E s ↔ Q ⟨⟩ (f s) := Iff.rfl

theorem get_apply (s : S) : (get : EStateM ε S S) s = .ok s s := rfl

theorem set_apply (t s : S) : (set t : EStateM ε S PUnit) s = .ok ⟨⟩ t := rfl

theorem modify_apply (f : S → S) (s : S) : (modify f : EStateM ε S PUnit) s = .ok ⟨⟩ (f s) := rfl

def Preserves (P : S → Prop) (x : EStateM ε S α) : Prop :=
  ∀ s, P s → wp x (fun _ t => P t) (fun _ t => P t) s

namespace Preserves

variable {P : S → Prop}

theorem pure (a : α) : Preserves P (Pure.pure a : EStateM ε S α) := fun _ hs => hs

theorem throw (e : ε) : Preserves P (MonadExcept.throw e : EStateM ε S α) := fun _ hs => hs

theorem get : Preserves P (MonadState.get : EStateM ε S S) := fun _ hs => hs

theorem modify {f : S → S} (h : ∀ s, P s → P (f s)) :
    Preserves P (modifyGet (fun s => (⟨⟩, f s)) : EStateM ε S PUnit) := h

theorem bind {x : EStateM ε S α} {f : α → EStateM ε S β} (hx : Preserves P x)
    (hf : ∀ a, Preserves P (f a)) : Preserves P (x >>= f) := by
  intro s hs
  rw [wp_bind]
  exact wp_mono (hx s hs) (fun a t ht => hf a t ht) fun _ _ ht => ht

theorem ite {c : Prop} [Decidable c] {x y : EStateM ε S α} (hx : Preserves P x) (hy : Preserves P y) :
    Preserves P (if c then x else y) := by
  by_cases hc : c
  · rwa [if_pos hc]
  · rwa [if_neg hc]

end Preserves

end StateFault
