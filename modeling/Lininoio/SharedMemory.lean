import Mathlib.Logic.Relation

/-! Programs that share a memory with others and access it one read or write at a time, the
rely-guarantee rules for them with ghost state, and two parties that run any sequence of calls
side by side. -/

namespace SharedMemory

/-- A program over a memory in `σ`; `fail` is where it cannot go on. -/
inductive Prog (ε σ α : Type) : Type
  | ret (a : α)
  | fail (e : ε)
  | read (k : σ → Prog ε σ α)
  | write (f : σ → σ) (p : Prog ε σ α)

variable {ε σ γ α β : Type}

namespace Prog

def bind : Prog ε σ α → (α → Prog ε σ β) → Prog ε σ β
  | ret a, f => f a
  | fail e, _ => fail e
  | read k, f => read fun s => (k s).bind f
  | write g p, f => write g (p.bind f)

instance : Monad (Prog ε σ) where
  pure := ret
  bind := bind

def load (g : σ → α) : Prog ε σ α := read fun s => ret (g s)

def store (f : σ → σ) : Prog ε σ Unit := write f (ret ())

/-- Nobody else touches the memory. -/
def run : Prog ε σ α → σ → Except ε (α × σ)
  | ret a, s => .ok (a, s)
  | fail e, _ => .error e
  | read k, s => (k s).run s
  | write f p, s => p.run (f s)

inductive Step : σ → Prog ε σ α → σ → Prog ε σ α → Prop
  | read {s k} : Step s (read k) s (k s)
  | write {s f p} : Step s (write f p) (f s) p

@[simp] theorem pure_bind (a : α) (f : α → Prog ε σ β) : (pure a : Prog ε σ α) >>= f = f a := rfl

@[simp] theorem fail_bind (e : ε) (f : α → Prog ε σ β) : fail e >>= f = fail e := rfl

theorem bind_assoc {δ : Type} (p : Prog ε σ α) (f : α → Prog ε σ β) (g : β → Prog ε σ δ) :
    p >>= f >>= g = p >>= fun a => f a >>= g := by
  induction p with
  | ret a => rfl
  | fail e => rfl
  | read k ih => exact congrArg read (funext ih)
  | write h p ih => exact congrArg (write h) ih

@[simp] theorem run_load_bind (g : σ → α) (f : α → Prog ε σ β) (s : σ) :
    (load g >>= f).run s = (f (g s)).run s := rfl

@[simp] theorem run_store_bind (w : σ → σ) (f : Unit → Prog ε σ β) (s : σ) :
    (store w >>= f).run s = (f ()).run (w s) := rfl

theorem run_bind {p : Prog ε σ α} {f : α → Prog ε σ β} {a : α} {s t : σ}
    (h : p.run s = .ok (a, t)) : (p >>= f).run s = (f a).run t := by
  induction p generalizing s with
  | ret b =>
    obtain ⟨rfl, rfl⟩ : b = a ∧ s = t := by simpa [run] using h
    rfl
  | fail e => simp [run] at h
  | read k ih => exact ih s h
  | write w p ih => exact ih h

theorem run_bind_error {p : Prog ε σ α} (f : α → Prog ε σ β) {e : ε} {s : σ}
    (h : p.run s = .error e) : (p >>= f).run s = .error e := by
  induction p generalizing s with
  | ret b => simp [run] at h
  | fail e' => exact congrArg Except.error (Except.error.inj h)
  | read k ih => exact ih s h
  | write w p ih => exact ih h

end Prog

/-- The steps of the others, and those of the program itself. They see a ghost state beside the
memory, which every step may change. -/
structure Contract (σ γ : Type) where
  rely : σ × γ → σ × γ → Prop
  guar : σ × γ → σ × γ → Prop
  refl : ∀ s, rely s s
  trans : ∀ s t u, rely s t → rely t u → rely s u

/-- Every step of the program itself leads to a state with `E`, too. -/
def Contract.keeping (C : Contract σ γ) (E : σ × γ → Prop) : Contract σ γ :=
  { C with guar := fun s t => C.guar s t ∧ E t }

/-- Started in `s` and interrupted by steps in `rely` at any time, the program takes only steps
in `guar`, does not fail, and ends in `Q`. -/
def wp (C : Contract σ γ) (Q : α → σ × γ → Prop) : Prog ε σ α → σ × γ → Prop
  | .ret a, s => ∀ t, C.rely s t → Q a t
  | .fail _, _ => False
  | .read k, s => ∀ t, C.rely s t → ∃ g, C.guar t (t.1, g) ∧ wp C Q (k t.1) (t.1, g)
  | .write f p, s => ∀ t, C.rely s t → ∃ g, C.guar t (f t.1, g) ∧ wp C Q p (f t.1, g)

section Rules

variable {C : Contract σ γ} {Q : α → σ × γ → Prop} {p : Prog ε σ α} {s t : σ × γ}

theorem wp_rely (hst : C.rely s t) (h : wp C Q p s) : wp C Q p t := by
  cases p with
  | ret a => exact fun u hu => h u (C.trans _ _ _ hst hu)
  | fail e => exact h
  | read k => exact fun u hu => h u (C.trans _ _ _ hst hu)
  | write f p => exact fun u hu => h u (C.trans _ _ _ hst hu)

theorem wp_mono {Q' : α → σ × γ → Prop} (hQ : ∀ a t, Q a t → Q' a t) (h : wp C Q p s) :
    wp C Q' p s := by
  induction p generalizing s with
  | ret a => exact fun t ht => hQ a t (h t ht)
  | fail e => exact h
  | read k ih =>
    intro t ht
    obtain ⟨g, hg, hk⟩ := h t ht
    exact ⟨g, hg, ih t.1 hk⟩
  | write f p ih =>
    intro t ht
    obtain ⟨g, hg, hp⟩ := h t ht
    exact ⟨g, hg, ih hp⟩

def Stable (C : Contract σ γ) (P : σ × γ → Prop) : Prop := ∀ s t, C.rely s t → P s → P t

variable {P P' : σ × γ → Prop}

theorem wp_pure {a : α} (hP : Stable C P) (h : P s) (hQ : ∀ t, P t → Q a t) :
    wp C Q (pure a : Prog ε σ α) s := fun t ht => hQ t (hP s t ht h)

theorem wp_load {g : σ → α} {f : α → Prog ε σ β} {Q : β → σ × γ → Prop} (hP : Stable C P) (h : P s)
    (hguar : ∀ t, P t → C.guar t t) (hnext : ∀ t, P t → wp C Q (f (g t.1)) t) :
    wp C Q (Prog.load g >>= f) s :=
  fun t ht => ⟨t.2, hguar t (hP s t ht h), hnext t (hP s t ht h)⟩

theorem wp_load_ghost {g : σ → α} {f : α → Prog ε σ β} {Q : β → σ × γ → Prop} {u : γ → γ}
    (hP : Stable C P) (h : P s) (hguar : ∀ t, P t → C.guar t (t.1, u t.2))
    (hnext : ∀ t, P t → wp C Q (f (g t.1)) (t.1, u t.2)) : wp C Q (Prog.load g >>= f) s :=
  fun t ht => ⟨u t.2, hguar t (hP s t ht h), hnext t (hP s t ht h)⟩

theorem wp_store {w : σ → σ} {f : Unit → Prog ε σ β} {Q : β → σ × γ → Prop} (hP : Stable C P)
    (h : P s) (hguar : ∀ t, P t → C.guar t (w t.1, t.2))
    (hnext : ∀ t, P t → wp C Q (f ()) (w t.1, t.2)) : wp C Q (Prog.store w >>= f) s :=
  fun t ht => ⟨t.2, hguar t (hP s t ht h), hnext t (hP s t ht h)⟩

theorem wp_store_ghost {w : σ → σ} {f : Unit → Prog ε σ β} {Q : β → σ × γ → Prop} {u : γ → γ}
    (hP : Stable C P) (h : P s) (hguar : ∀ t, P t → C.guar t (w t.1, u t.2))
    (hnext : ∀ t, P t → wp C Q (f ()) (w t.1, u t.2)) : wp C Q (Prog.store w >>= f) s :=
  fun t ht => ⟨u t.2, hguar t (hP s t ht h), hnext t (hP s t ht h)⟩

theorem run_of_wp (h : wp C Q p s) : ∃ a t, p.run s.1 = .ok (a, t.1) ∧ Q a t := by
  induction p generalizing s with
  | ret a => exact ⟨a, s, rfl, h s (C.refl s)⟩
  | fail e => exact h.elim
  | read k ih =>
    obtain ⟨g, -, hk⟩ := h s (C.refl s)
    have hh := ih s.1 hk
    exact hh
  | write f p ih =>
    obtain ⟨g, -, hp⟩ := h s (C.refl s)
    have hh := ih hp
    exact hh

theorem wp_step {p' : Prog ε σ α} {m : σ} (hstep : Prog.Step s.1 p m p') (h : wp C Q p s) :
    ∃ g, C.guar s (m, g) ∧ wp C Q p' (m, g) := by
  cases hstep with
  | read => exact h s (C.refl s)
  | write => exact h s (C.refl s)

end Rules

/-- What a party can call: `started` is what it holds while the call runs, and the program
returns what it holds afterwards. -/
structure Party (ε σ : Type) where
  Local : Type
  Call : Type
  Legal : Local → Call → Prop
  started : Local → Call → Local
  body : Local → Call → Prog ε σ Local

inductive Thread (ε σ : Type) (L : Type) : Type
  | idle (l : L)
  | busy (l : L) (p : Prog ε σ L)

def Thread.holds {L : Type} : Thread ε σ L → L
  | .idle l => l
  | .busy l _ => l

inductive Party.Step (A : Party ε σ) : σ → Thread ε σ A.Local → σ → Thread ε σ A.Local → Prop
  | call {s l} (c : A.Call) (h : A.Legal l c) :
      Step A s (.idle l) s (.busy (A.started l c) (A.body l c))
  | act {s t l p p'} (h : p.Step s t p') : Step A s (.busy l p) t (.busy l p')
  | back {s l l'} : Step A s (.busy l (.ret l')) s (.idle l')

structure Spec (A : Party ε σ) (C : Contract σ γ) where
  Idle : A.Local → σ × γ → Prop
  Ever : A.Local → σ × γ → Prop
  stable : ∀ l, Stable C (Ever l)
  ever : ∀ l s, Idle l s → Ever l s
  stable_idle : ∀ l, Stable C (Idle l)
  called : ∀ l c s, Idle l s → A.Legal l c → Ever (A.started l c) s
  body : ∀ l c s, Idle l s → A.Legal l c →
    wp (C.keeping (Ever (A.started l c))) (fun l' t => Idle l' t) (A.body l c) s

section Parties

variable {A : Party ε σ} {C : Contract σ γ}

def Spec.Sound (S : Spec A C) : Thread ε σ A.Local → σ × γ → Prop
  | .idle l, s => S.Idle l s
  | .busy l p, s => S.Ever l s ∧ wp (C.keeping (S.Ever l)) (fun l' t => S.Idle l' t) p s

theorem Spec.Sound.ever {S : Spec A C} {x : Thread ε σ A.Local} {s : σ × γ} (h : S.Sound x s) :
    S.Ever x.holds s := by
  cases x with
  | idle l => exact S.ever l s h
  | busy l p => exact h.1

theorem Spec.Sound.rely {S : Spec A C} {x : Thread ε σ A.Local} {s t : σ × γ} (hst : C.rely s t)
    (h : S.Sound x s) : S.Sound x t := by
  cases x with
  | idle l => exact S.stable_idle l s t hst h
  | busy l p => exact ⟨S.stable l s t hst h.1, wp_rely hst h.2⟩

theorem Spec.Sound.step {S : Spec A C} {x x' : Thread ε σ A.Local} {s : σ × γ} {m : σ}
    (hself : ∀ u, C.guar u u) (hstep : A.Step s.1 x m x') (h : S.Sound x s) :
    ∃ g, C.guar s (m, g) ∧ S.Sound x' (m, g) := by
  cases hstep with
  | call c hlegal => exact ⟨s.2, hself s, S.called _ c s h hlegal, S.body _ c s h hlegal⟩
  | act hact =>
    obtain ⟨g, hguar, hp⟩ := wp_step hact h.2
    exact ⟨g, hguar.1, hguar.2, hp⟩
  | back => exact ⟨s.2, hself s, h.2 s (C.refl s)⟩

end Parties

structure Pair {ε σ : Type} (A B : Party ε σ) where
  memory : σ
  first : Thread ε σ A.Local
  second : Thread ε σ B.Local

inductive Pair.Step {A B : Party ε σ} : Pair A B → Pair A B → Prop
  | first {m m' x x' y} (h : A.Step m x m' x') : Step ⟨m, x, y⟩ ⟨m', x', y⟩
  | second {m m' x y y'} (h : B.Step m y m' y') : Step ⟨m, x, y⟩ ⟨m', x, y'⟩

section Sound

variable {A B : Party ε σ} {C D : Contract σ γ} {S : Spec A C} {T : Spec B D} {u v : Pair A B}

/-- Both parties keep to their contracts when each of them only does what the other relies on. -/
theorem sound_of_step (hAB : ∀ s t, C.guar s t → D.rely s t) (hBA : ∀ s t, D.guar s t → C.rely s t)
    (hA : ∀ s, C.guar s s) (hB : ∀ s, D.guar s s) {g : γ} (hstep : Pair.Step u v)
    (hfirst : S.Sound u.first (u.memory, g)) (hsecond : T.Sound u.second (u.memory, g)) :
    ∃ g', (C.guar (u.memory, g) (v.memory, g') ∨ D.guar (u.memory, g) (v.memory, g')) ∧
      S.Sound v.first (v.memory, g') ∧ T.Sound v.second (v.memory, g') := by
  cases hstep with
  | first hact =>
    obtain ⟨g', hguar, hnext⟩ := hfirst.step hA hact
    exact ⟨g', .inl hguar, hnext, hsecond.rely (hAB _ _ hguar)⟩
  | second hact =>
    obtain ⟨g', hguar, hnext⟩ := hsecond.step hB hact
    exact ⟨g', .inr hguar, hfirst.rely (hBA _ _ hguar), hnext⟩

theorem sound_of_reached (hAB : ∀ s t, C.guar s t → D.rely s t)
    (hBA : ∀ s t, D.guar s t → C.rely s t) (hA : ∀ s, C.guar s s) (hB : ∀ s, D.guar s s)
    (h : Relation.ReflTransGen Pair.Step u v)
    (hu : ∃ g, S.Sound u.first (u.memory, g) ∧ T.Sound u.second (u.memory, g)) :
    ∃ g, S.Sound v.first (v.memory, g) ∧ T.Sound v.second (v.memory, g) := by
  induction h with
  | refl => exact hu
  | tail _ hstep ih =>
    obtain ⟨g, hfirst, hsecond⟩ := ih
    obtain ⟨g', -, hsound⟩ := sound_of_step hAB hBA hA hB hstep hfirst hsecond
    exact ⟨g', hsound⟩

end Sound

theorem simulated_run {τ υ : Type*} {step : τ → τ → Prop} {act : υ → υ → Prop} {R : τ → υ → Prop}
    (h : ∀ s t u, R s u → step s t → ∃ v, R t v ∧ act u v) {s t : τ} {u : υ} (hs : R s u)
    (hrun : Relation.ReflTransGen step s t) : ∃ v, R t v ∧ Relation.ReflTransGen act u v := by
  induction hrun with
  | refl => exact ⟨u, hs, .refl⟩
  | tail _ hstep ih =>
    obtain ⟨v, hv, hacts⟩ := ih
    obtain ⟨v', hv', hact⟩ := h _ _ _ hv hstep
    exact ⟨v', hv', hacts.tail hact⟩

section Calls

variable {A B : Party ε σ} {m m' : σ} {l l' : A.Local} {k k' : B.Local} {x : Thread ε σ A.Local}
  {y : Thread ε σ B.Local}

theorem reached_first {p : Prog ε σ A.Local} (h : p.run m = .ok (l', m')) :
    Relation.ReflTransGen Pair.Step (⟨m, .busy l p, y⟩ : Pair A B) ⟨m', .idle l', y⟩ := by
  induction p generalizing m with
  | ret a =>
    obtain ⟨rfl, rfl⟩ : a = l' ∧ m = m' := by simpa [Prog.run] using h
    exact .single (.first .back)
  | fail e => simp [Prog.run] at h
  | read c ih => exact .head (.first (.act .read)) (ih m h)
  | write f p ih => exact .head (.first (.act .write)) (ih h)

theorem reached_second {p : Prog ε σ B.Local} (h : p.run m = .ok (k', m')) :
    Relation.ReflTransGen Pair.Step (⟨m, x, .busy k p⟩ : Pair A B) ⟨m', x, .idle k'⟩ := by
  induction p generalizing m with
  | ret a =>
    obtain ⟨rfl, rfl⟩ : a = k' ∧ m = m' := by simpa [Prog.run] using h
    exact .single (.second .back)
  | fail e => simp [Prog.run] at h
  | read c ih => exact .head (.second (.act .read)) (ih m h)
  | write f p ih => exact .head (.second (.act .write)) (ih h)

theorem called_first {c : A.Call} (hlegal : A.Legal l c) (h : (A.body l c).run m = .ok (l', m')) :
    Relation.ReflTransGen Pair.Step (⟨m, .idle l, y⟩ : Pair A B) ⟨m', .idle l', y⟩ :=
  .head (.first (.call c hlegal)) (reached_first h)

theorem called_second {c : B.Call} (hlegal : B.Legal k c) (h : (B.body k c).run m = .ok (k', m')) :
    Relation.ReflTransGen Pair.Step (⟨m, x, .idle k⟩ : Pair A B) ⟨m', x, .idle k'⟩ :=
  .head (.second (.call c hlegal)) (reached_second h)

end Calls

end SharedMemory
