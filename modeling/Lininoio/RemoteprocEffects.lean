import Lininoio.Effects
import Lininoio.Remoteproc

/-! What the steps of setting up a remote processor may do: the state that they keep, and the
effects that they have. -/

namespace Lininoio

open StateFault

def SysCall.setupStep : SysCall → Bool
  | .openMiscDev => true
  | .malloc .firmwareName => true
  | .openFirmware _ => true
  | .malloc .firmwarePage => true
  | .malloc .udevEvent => true
  | .addProc _ _ => true
  | _ => false

def StepsSucceed (E : List Effect) : Prop :=
  ∀ call r, .sys call r ∈ E → call.setupStep = true → 0 ≤ r

def ProcessorAdded (c : CorePtr) (E : List Effect) : Prop :=
  ∃ pd r, .sys (.addProc c pd) r ∈ E ∧ 0 ≤ r

def Effect.addsProc : Effect → Bool
  | .sys (.addProc _ _) _ => true
  | _ => false

theorem not_processorAdded_of_addsProc {c : CorePtr} {E : List Effect}
    (h : ∀ e ∈ E, e.addsProc = false) :
    ¬ ProcessorAdded c E := by
  intro hh
  obtain ⟨pd, r, hm, -⟩ := hh
  exact absurd (h _ hm) (by simp [Effect.addsProc])

def Effect.succeeds : Effect → Bool
  | .sys call r => !call.setupStep || decide (0 ≤ r)
  | _ => true

theorem stepsSucceed_of_succeeds {E : List Effect} (h : ∀ e ∈ E, e.succeeds = true) :
    StepsSucceed E := by
  intro call r hm hstep
  simpa [Effect.succeeds, hstep] using h _ hm

def firmwarePath {σ : Type} (env : Env σ) (rprocName : List UInt8) : List UInt8 :=
  snprintf (pathMax - 1) (asciiBytes "/lib/firmware/" ++
    snprintf (pathMax - 1) (env.firmwarePrefix ++ rprocName ++ asciiBytes "-fw"))

/-- The firmware file of the core is opened, and there is a page for its contents. -/
def ReachesCopy {L σ : Type} (env : Env σ) (s : Daemon L σ) (c : CorePtr) : Prop :=
  let fd := env.sys (.openFirmware (firmwarePath env (s.core c).rprocName)) s.world
  0 ≤ fd.1 ∧ 0 ≤ (env.sys (.malloc .firmwarePage) fd.2).1

/-- What is done for a core besides adding its processor: calls into the system that
send nothing and open no other file, reads of unset memory, and registrations. -/
def Effect.Preparation (path : List UInt8) (c : CorePtr) : Effect → Prop
  | .sys (.addProc _ _) _ => False
  | .sys (.sendmsg _ _) _ => False
  | .sys (.openFirmware p) _ => p = path
  | .sys _ _ => True
  | .readUnset _ => True
  | .addFdEvent evt => evt.cb = .start c ∨ evt.cb = .stop c
  | .scheduleUdevEvent evt => evt = ⟨.newVirtioBackend, c⟩
  | _ => False

def Effect.SetupOf (path : List UInt8) (c : CorePtr) : Effect → Prop
  | .sys (.addProc c' _) _ => c' = c
  | e => e.Preparation path c

section Steps

variable {path : List UInt8} {c : CorePtr} {E F : List Effect}

@[simp] theorem stepsSucceed_nil : StepsSucceed [] := by simp [StepsSucceed]

@[simp] theorem stepsSucceed_sys {call : SysCall} {r : Int} :
    StepsSucceed (.sys call r :: E) ↔ (call.setupStep = true → 0 ≤ r) ∧ StepsSucceed E := by
  simp only [StepsSucceed, List.mem_cons, or_imp, forall_and, Effect.sys.injEq, and_imp]
  exact and_congr_left' ⟨fun h => h call r rfl rfl, by rintro h _ _ rfl rfl; exact h⟩

@[simp] theorem stepsSucceed_readUnset {x : ChanPtr} :
    StepsSucceed (.readUnset x :: E) ↔ StepsSucceed E := by
  simp [StepsSucceed]

@[simp] theorem stepsSucceed_getNode {n : Slot} : StepsSucceed (.getNode n :: E) ↔ StepsSucceed E := by
  simp [StepsSucceed]

@[simp] theorem stepsSucceed_killNode {n : Slot} : StepsSucceed (.killNode n :: E) ↔
    StepsSucceed E := by
  simp [StepsSucceed]

@[simp] theorem stepsSucceed_setupRemoteproc :
    StepsSucceed (.setupRemoteproc c :: E) ↔ StepsSucceed E := by
  simp [StepsSucceed]

@[simp] theorem stepsSucceed_addFdEvent {evt : FdEvent} :
    StepsSucceed (.addFdEvent evt :: E) ↔ StepsSucceed E := by
  simp [StepsSucceed]

@[simp] theorem stepsSucceed_scheduleUdevEvent {evt : UdevEvent} :
    StepsSucceed (.scheduleUdevEvent evt :: E) ↔ StepsSucceed E := by
  simp [StepsSucceed]

@[simp] theorem stepsSucceed_append : StepsSucceed (E ++ F) ↔ StepsSucceed E ∧ StepsSucceed F := by
  simp only [StepsSucceed, List.mem_append, or_imp, forall_and]

@[simp] theorem processorAdded_nil : ¬ ProcessorAdded c [] := by simp [ProcessorAdded]

@[simp] theorem processorAdded_sys {call : SysCall} {r : Int} : ProcessorAdded c (.sys call r :: E) ↔
    (∃ pd, call = .addProc c pd) ∧ 0 ≤ r ∨ ProcessorAdded c E := by
  simp only [ProcessorAdded, List.mem_cons, or_and_right, exists_or, Effect.sys.injEq]
  refine or_congr_left ⟨?_, ?_⟩
  · intro hh
    obtain ⟨pd, _, ⟨rfl, rfl⟩, h⟩ := hh
    exact ⟨⟨pd, rfl⟩, h⟩
  · intro hh
    obtain ⟨⟨pd, rfl⟩, h⟩ := hh
    exact ⟨pd, r, ⟨rfl, rfl⟩, h⟩

@[simp] theorem processorAdded_getNode {n : Slot} :
    ProcessorAdded c (.getNode n :: E) ↔ ProcessorAdded c E := by
  simp [ProcessorAdded]

@[simp] theorem processorAdded_killNode {n : Slot} :
    ProcessorAdded c (.killNode n :: E) ↔ ProcessorAdded c E := by
  simp [ProcessorAdded]

@[simp] theorem processorAdded_setupRemoteproc {d : CorePtr} :
    ProcessorAdded c (.setupRemoteproc d :: E) ↔ ProcessorAdded c E := by
  simp [ProcessorAdded]

@[simp] theorem processorAdded_scheduleUdevEvent {evt : UdevEvent} :
    ProcessorAdded c (.scheduleUdevEvent evt :: E) ↔ ProcessorAdded c E := by
  simp [ProcessorAdded]

@[simp] theorem processorAdded_append :
    ProcessorAdded c (E ++ F) ↔ ProcessorAdded c E ∨ ProcessorAdded c F := by
  simp only [ProcessorAdded, List.mem_append, or_and_right, exists_or]

theorem not_processorAdded (h : ∀ e ∈ E, e.Preparation path c) : ¬ ProcessorAdded c E := by
  intro hh
  obtain ⟨pd, r, hm, -⟩ := hh
  exact h _ hm

theorem SetupOf.of_preparation {e : Effect} (h : e.Preparation path c) : e.SetupOf path c := by
  cases e with
  | sys call r => cases call <;> simp_all [Effect.Preparation, Effect.SetupOf]
  | _ => simp_all [Effect.Preparation, Effect.SetupOf]

end Steps

structure SetupFrame {L σ : Type} (s t : Daemon L σ) : Prop where
  lists : t.lists = s.lists
  node : t.node = s.node
  timeouts : t.timeouts = s.timeouts
  chan : t.chan = s.chan
  freshCore : t.freshCore = s.freshCore
  freshChan : t.freshChan = s.freshChan
  core : ∀ c, ∃ pd, t.core c = { s.core c with pd := pd }

structure SetupRun {L σ : Type} (P : Effect → Prop) (s t : Daemon L σ) (E : List Effect) : Prop
    extends SetupFrame s t where
  trace : t.trace = s.trace ++ E
  registries : t.registries = s.registries.after E
  effects : ∀ e ∈ E, P e

namespace SetupFrame

variable {L σ : Type} {s t : Daemon L σ}

theorem rprocName (h : SetupFrame s t) (c : CorePtr) : (t.core c).rprocName = (s.core c).rprocName := by
  obtain ⟨pd, hc⟩ := h.core c
  rw [hc]

theorem channels (h : SetupFrame s t) (c : CorePtr) : (t.core c).channels = (s.core c).channels := by
  obtain ⟨pd, hc⟩ := h.core c
  rw [hc]

end SetupFrame

namespace SetupRun

variable {L σ : Type} {P P' : Effect → Prop} {s t u : Daemon L σ} {E F : List Effect}

theorem refl (s : Daemon L σ) : SetupRun P s s [] :=
  ⟨⟨rfl, rfl, rfl, rfl, rfl, rfl, fun _ => ⟨_, rfl⟩⟩, by simp, rfl, by simp⟩

theorem trans (h : SetupRun P s t E) (h' : SetupRun P t u F) : SetupRun P s u (E ++ F) where
  lists := h'.lists.trans h.lists
  node := h'.node.trans h.node
  timeouts := h'.timeouts.trans h.timeouts
  chan := h'.chan.trans h.chan
  freshCore := h'.freshCore.trans h.freshCore
  freshChan := h'.freshChan.trans h.freshChan
  core c := by
    obtain ⟨pd, hc⟩ := h.core c
    obtain ⟨pd', hc'⟩ := h'.core c
    exact ⟨pd', by rw [hc', hc]⟩
  trace := by rw [h'.trace, h.trace, List.append_assoc]
  registries := by rw [h'.registries, h.registries, registries_after_append]
  effects e he := (List.mem_append.mp he).elim (h.effects e) (h'.effects e)

theorem mono (h : SetupRun P s t E) (hP : ∀ e ∈ E, P e → P' e) : SetupRun P' s t E :=
  { h with effects := fun e he => hP e he (h.effects e he) }

theorem associated (h : SetupRun Effect.Quiet s t E) : t.associated = s.associated := by
  rw [Daemon.associated, h.trace, associatedAfter_append, associatedAfter_quiet h.effects,
    Daemon.associated]

theorem emit {e : Effect} (hP : P e) (hreg : ∀ r, Registries.add r e = r) :
    SetupRun P s { s with trace := s.trace ++ [e] } [e] :=
  ⟨⟨rfl, rfl, rfl, rfl, rfl, rfl, fun _ => ⟨_, rfl⟩⟩, rfl, (hreg _).symm, by simpa using hP⟩

end SetupRun

section

variable {L σ : Type} (env : Env σ) (s : Daemon L σ) {path : List UInt8} {c : CorePtr}

theorem wp_sys_run {call : SysCall} {Q : Int → Daemon L σ → Prop} {E : Fault → Daemon L σ → Prop}
    (P : Effect → Prop) (hP : ∀ r, P (.sys call r))
    (h : ∀ r t, SetupRun P s t [.sys call r] → Q r t) : wp (sys env call) Q E s :=
  h _ _ ⟨⟨rfl, rfl, rfl, rfl, rfl, rfl, fun _ => ⟨_, rfl⟩⟩, rfl, rfl, by simpa using hP _⟩

theorem wp_sys_world {call : SysCall} {Q : Int → Daemon L σ → Prop} {E : Fault → Daemon L σ → Prop}
    (P : Effect → Prop) (hP : ∀ r, P (.sys call r))
    (h : ∀ t, t.world = (env.sys call s.world).2 → t.registries = s.registries →
      SetupRun P s t [.sys call (env.sys call s.world).1] → Q (env.sys call s.world).1 t) :
    wp (sys env call) Q E s :=
  h _ rfl rfl ⟨⟨rfl, rfl, rfl, rfl, rfl, rfl, fun _ => ⟨_, rfl⟩⟩, rfl, rfl, by simpa using hP _⟩

theorem wp_modifyCore_run {f : Core → Core} {Q : Unit → Daemon L σ → Prop}
    {E : Fault → Daemon L σ → Prop} (P : Effect → Prop)
    (hf : ∀ co, ∃ pd, f co = { co with pd := pd })
    (h : ∀ t, SetupRun P s t [] → Q () t) : wp (modifyCore c f) Q E s := by
  refine h _ ⟨⟨rfl, rfl, rfl, rfl, rfl, rfl, fun d => ?_⟩, by simp, rfl, by simp⟩
  by_cases hd : d = c
  · subst hd
    simpa using hf (s.core d)
  · exact ⟨_, by simp [hd]; rfl⟩

theorem wp_addFdEvent_run (P : Effect → Prop) (fd : Int) {cb : FdCallback}
    (hmem : ∀ r, P (.sys (.malloc .fdEvent) r)) (hadd : P (.addFdEvent ⟨fd, cb⟩)) :
    wp (addFdEvent env fd cb) (fun ok t => t.backends = s.backends ∧
      ok = decide (0 ≤ (env.sys (.malloc .fdEvent) s.world).1) ∧
      SetupRun P s t (.sys (.malloc .fdEvent) (env.sys (.malloc .fdEvent) s.world).1 ::
        if ok = true then [.addFdEvent ⟨fd, cb⟩] else [])) (fun _ _ => False) s := by
  simp only [addFdEvent, wp_bind, wp_sys]
  generalize env.sys (.malloc .fdEvent) s.world = r
  by_cases hr : r.1 < 0
  · simp only [hr, if_true, wp_pure]
    refine ⟨trivial, by simp [hr], ⟨⟨rfl, rfl, rfl, rfl, rfl, rfl, fun _ => ⟨_, rfl⟩⟩, rfl, rfl, ?_⟩⟩
    simpa using hmem r.1
  · simp only [hr, if_false, wp_bind, wp_emit, wp_modify, wp_pure]
    refine ⟨trivial, by simpa using hr,
      ⟨⟨rfl, rfl, rfl, rfl, rfl, rfl, fun _ => ⟨_, rfl⟩⟩, by simp, rfl, ?_⟩⟩
    simpa using ⟨hmem r.1, hadd⟩

end

end Lininoio
