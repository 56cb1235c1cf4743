import Lininoio.Daemon

/-! What the primitive steps of the daemon do to its state, and what the effects
of a run say about the association of the nodes. -/

namespace Lininoio

open StateFault

section Rules

variable {L σ α : Type} (Q : α → Daemon L σ → Prop) (E : Fault → Daemon L σ → Prop) (s : Daemon L σ)

@[simp] theorem wp_emit (e : Effect) (Q : Unit → Daemon L σ → Prop) :
    wp (emit e) Q E s ↔ Q () { s with trace := s.trace ++ [e] } := Iff.rfl

theorem wp_sys (env : Env σ) (call : SysCall) (Q : Int → Daemon L σ → Prop) :
    wp (sys env call) Q E s ↔ Q (env.sys call s.world).1 { s with
      world := (env.sys call s.world).2
      trace := s.trace ++ [.sys call (env.sys call s.world).1] } := Iff.rfl

@[simp] theorem wp_readNode (n : Slot) (Q : Node → Daemon L σ → Prop) :
    wp (readNode n) Q E s ↔ Q (s.node n) s := Iff.rfl

@[simp] theorem wp_modifyNode (n : Slot) (f : Node → Node) (Q : Unit → Daemon L σ → Prop) :
    wp (modifyNode n f) Q E s ↔
      Q () { s with node := Function.update s.node n (f (s.node n)) } := Iff.rfl

@[simp] theorem wp_readCore (c : CorePtr) (Q : Core → Daemon L σ → Prop) :
    wp (readCore c) Q E s ↔ Q (s.core c) s := Iff.rfl

@[simp] theorem wp_modifyCore (c : CorePtr) (f : Core → Core) (Q : Unit → Daemon L σ → Prop) :
    wp (modifyCore c f) Q E s ↔
      Q () { s with core := Function.update s.core c (f (s.core c)) } := Iff.rfl

theorem wp_readChannel {c : ChanPtr} {ch : Channel} (h : s.chan c = some ch)
    (Q : Channel → Daemon L σ → Prop) : wp (readChannel c) Q E s ↔ Q ch s := by
  simp [readChannel, h]

@[simp] theorem wp_writeChannel (c : ChanPtr) (ch : Channel) (Q : Unit → Daemon L σ → Prop) :
    wp (writeChannel c ch) Q E s ↔
      Q () { s with chan := Function.update s.chan c (some ch) } := Iff.rfl

@[simp] theorem wp_modifyLists (f : L → L) (Q : Unit → Daemon L σ → Prop) :
    wp (modifyLists f) Q E s ↔ Q () { s with lists := f s.lists } := Iff.rfl

@[simp] theorem wp_setTimeouts (t : Timeouts ToHandler Slot) (Q : Unit → Daemon L σ → Prop) :
    wp (setTimeouts t) Q E s ↔ Q () { s with timeouts := t } := Iff.rfl

theorem wp_ofNodeSearch (r : NodeSearch) (Q : Option Slot → Daemon L σ → Prop) :
    wp (ofNodeSearch r) Q E s ↔ (∀ n, r = .found n → Q (some n) s) ∧ (r = .none → Q none s) ∧
      (r = .wild → E .wildRead s) ∧ (r = .endless → E .endless s) := by
  cases r <;> simp [ofNodeSearch]

end Rules

/-- The nodes that are associated after some effects: those `get_node` has
handed out and `kill_node` has not been run on since. -/
def associatedAfter (before : Slot → Bool) : List Effect → Slot → Bool
  | [] => before
  | .getNode n :: rest => associatedAfter (Function.update before n true) rest
  | .killNode n :: rest => associatedAfter (Function.update before n false) rest
  | _ :: rest => associatedAfter before rest

def Effect.Quiet : Effect → Prop
  | .getNode _ => False
  | .killNode _ => False
  | _ => True

theorem associatedAfter_append (A : Slot → Bool) (E F : List Effect) :
    associatedAfter A (E ++ F) = associatedAfter (associatedAfter A E) F := by
  induction E generalizing A with
  | nil => rfl
  | cons e E ih => cases e <;> exact ih _

theorem associatedAfter_quiet {A : Slot → Bool} {E : List Effect} (h : ∀ e ∈ E, e.Quiet) :
    associatedAfter A E = A := by
  induction E with
  | nil => rfl
  | cons e E ih =>
    have hE := ih fun x hx => h x (List.mem_cons_of_mem _ hx)
    have he := h e (by simp)
    cases e <;> first | exact hE | exact he.elim

def KillsAssociated (before : Slot → Bool) : List Effect → Prop
  | [] => True
  | .getNode n :: rest => KillsAssociated (Function.update before n true) rest
  | .killNode n :: rest => before n = true ∧ KillsAssociated (Function.update before n false) rest
  | _ :: rest => KillsAssociated before rest

theorem killsAssociated_append (A : Slot → Bool) (E F : List Effect) :
    KillsAssociated A (E ++ F) ↔ KillsAssociated A E ∧ KillsAssociated (associatedAfter A E) F := by
  induction E generalizing A with
  | nil => simp [KillsAssociated, associatedAfter]
  | cons e E ih => cases e <;> simp [KillsAssociated, associatedAfter, ih, and_assoc]

theorem killsAssociated_quiet {A : Slot → Bool} {E : List Effect} (h : ∀ e ∈ E, e.Quiet) :
    KillsAssociated A E := by
  induction E with
  | nil => trivial
  | cons e E ih =>
    have hE := ih fun x hx => h x (List.mem_cons_of_mem _ hx)
    have he := h e (by simp)
    cases e <;> first | exact hE | exact he.elim

structure Registries where
  fdEvents : List FdEvent
  udevEvents : List UdevEvent
  backends : List VirtioBackend

def Registries.add (r : Registries) : Effect → Registries
  | .addFdEvent evt => { r with fdEvents := r.fdEvents ++ [evt] }
  | .scheduleUdevEvent evt => { r with udevEvents := r.udevEvents ++ [evt] }
  | .newBackend vbe => { r with backends := r.backends ++ [vbe] }
  | _ => r

/-- Nothing is ever taken out of the registries. -/
def Registries.after (r : Registries) (E : List Effect) : Registries := E.foldl Registries.add r

@[simp] theorem registries_after_nil (r : Registries) : r.after [] = r := rfl

@[simp] theorem registries_after_append (r : Registries) (E F : List Effect) :
    r.after (E ++ F) = (r.after E).after F := List.foldl_append

def newFdEvents : List Effect → List FdEvent := List.filterMap fun
  | .addFdEvent evt => some evt
  | _ => none

def newUdevEvents : List Effect → List UdevEvent := List.filterMap fun
  | .scheduleUdevEvent evt => some evt
  | _ => none

def newBackends : List Effect → List VirtioBackend := List.filterMap fun
  | .newBackend vbe => some vbe
  | _ => none

@[simp] theorem newFdEvents_nil : newFdEvents [] = [] := rfl

@[simp] theorem newUdevEvents_nil : newUdevEvents [] = [] := rfl

@[simp] theorem newBackends_nil : newBackends [] = [] := rfl

@[simp] theorem newFdEvents_append (E F : List Effect) :
    newFdEvents (E ++ F) = newFdEvents E ++ newFdEvents F := List.filterMap_append

@[simp] theorem newUdevEvents_append (E F : List Effect) :
    newUdevEvents (E ++ F) = newUdevEvents E ++ newUdevEvents F := List.filterMap_append

@[simp] theorem newBackends_append (E F : List Effect) :
    newBackends (E ++ F) = newBackends E ++ newBackends F := List.filterMap_append

theorem registries_after (r : Registries) (E : List Effect) : r.after E =
    ⟨r.fdEvents ++ newFdEvents E, r.udevEvents ++ newUdevEvents E, r.backends ++ newBackends E⟩ := by
  induction E generalizing r with
  | nil => simp [Registries.after]
  | cons e E ih =>
    change (r.add e).after E = _
    rw [ih]
    cases e <;> simp [Registries.add, newFdEvents, newUdevEvents, newBackends]

theorem registries_after_eq_iff {r : Registries} {E : List Effect} :
    r.after E = r ↔ newFdEvents E = [] ∧ newUdevEvents E = [] ∧ newBackends E = [] := by
  rw [registries_after]
  cases r
  simp

theorem registries_after_eq {r : Registries} {E : List Effect} (h : ∀ e ∈ E, ∀ r,
    Registries.add r e = r) :
    r.after E = r := by
  induction E generalizing r with
  | nil => rfl
  | cons e E ih =>
    change (r.add e).after E = r
    rw [h e (by simp)]
    exact ih fun x hx => h x (List.mem_cons_of_mem _ hx)

def Daemon.registries {L σ : Type} (s : Daemon L σ) : Registries :=
  ⟨s.fdEvents, s.udevEvents, s.backends⟩

def Daemon.associated {L σ : Type} (s : Daemon L σ) : Slot → Bool :=
  associatedAfter (fun _ => false) s.trace

abbrev Daemon.Associated {L σ : Type} (s : Daemon L σ) (n : Slot) : Prop := s.associated n = true

def Daemon.effectsSince {L σ : Type} (s t : Daemon L σ) : List Effect := t.trace.drop s.trace.length

theorem effectsSince_eq {L σ : Type} {s t : Daemon L σ} {E : List Effect} (h : t.trace = s.trace ++ E) :
    s.effectsSince t = E := by
  rw [Daemon.effectsSince, h, List.drop_left]

end Lininoio
