import Lininoio.EventLoop
import Lininoio.MainLoopSteps

/-! What one iteration of the whole main loop can do, and the invariant of all its runs. -/

namespace Lininoio

open StateFault Timeval

def Effect.Servicing (cs : List CorePtr) : Effect → Prop
  | .sys (.addProc _ _) _ => False
  | .sys (.sendmsg _ _) _ => False
  | .sys (.openFirmware _) _ => False
  | .sys _ _ => True
  | .virtioBackendAdd c _ => c ∈ cs
  | .addFdEvent evt => cs ≠ [] ∧ ∃ vbe, evt.cb = .virtioBackend vbe
  | .newBackend vbe => vbe.core ∈ cs
  | _ => False

theorem Effect.Servicing.quiet {cs : List CorePtr} {e : Effect} (h : e.Servicing cs) : e.Quiet := by
  cases e <;> trivial

theorem Effect.Servicing.mono {cs ds : List CorePtr} {e : Effect} (h : e.Servicing cs)
    (hsub : cs ⊆ ds) :
    e.Servicing ds := by
  cases e with
  | virtioBackendAdd => exact hsub h
  | addFdEvent => exact ⟨fun hds => h.1 (List.subset_nil.mp (hds ▸ hsub)), h.2⟩
  | newBackend => exact hsub h
  | sys call r => cases call <;> exact h
  | _ => exact h

def Daemon.registered {L σ : Type} (s : Daemon L σ) (id : UdevEventId) : List CorePtr :=
  (s.udevEvents.filter (fun evt => evt.id = id)).map UdevEvent.cbData

def backendCalls : List Effect → List (CorePtr × List UInt8) := List.filterMap fun
  | .virtioBackendAdd c path => some (c, path)
  | _ => none

def backendEvents : List Effect → List (Int × Nat) := List.filterMap fun
  | .addFdEvent ⟨fd, .virtioBackend vbe⟩ => some (fd, vbe)
  | _ => none

@[simp] theorem backendCalls_append (E F : List Effect) :
    backendCalls (E ++ F) = backendCalls E ++ backendCalls F := List.filterMap_append

@[simp] theorem backendEvents_append (E F : List Effect) :
    backendEvents (E ++ F) = backendEvents E ++ backendEvents F := List.filterMap_append

section Backends

variable {L σ : Type} (env : Env σ) (s : Daemon L σ)

def BackendAddSucceeds (dev : UdevDevice) (w : σ) : Prop :=
  ∃ name, basename dev.syspath = some name ∧ dev.phyOffset.isSome ∧
    let mem := env.sys (.malloc .backend) w
    let fd := env.sys (.openBackend (backendPath name)) mem.2
    0 ≤ mem.1 ∧ 0 ≤ fd.1 ∧ 0 ≤ (env.sys (.malloc .fdEvent) fd.2).1

theorem backendAddSucceeds_iff {dev : UdevDevice} {w : σ} {name : List UInt8} {mem fd : Int × σ}
    (hname : basename dev.syspath = some name) (hmem : mem = env.sys (.malloc .backend) w)
    (hfd : fd = env.sys (.openBackend (backendPath name)) mem.2) :
    BackendAddSucceeds env dev w ↔ dev.phyOffset.isSome ∧ 0 ≤ mem.1 ∧ 0 ≤ fd.1 ∧
      0 ≤ (env.sys (.malloc .fdEvent) fd.2).1 := by
  subst hmem hfd
  constructor
  · intro hh
    obtain ⟨name', hname', hsteps⟩ := hh
    rwa [← Option.some.inj (hname.symm.trans hname')] at hsteps
  · exact fun hsteps => ⟨name, hname, hsteps⟩

def BindsBackend (dev : UdevDevice) (c : CorePtr) (vbe : Nat) (E : List Effect) : Prop :=
  ∃ new, newBackends E = [new] ∧ new.core = c ∧ (basename dev.syspath).map backendPath =
    some new.devname ∧
    backendEvents E = [(new.fd, vbe)]

/-- The effects of a call that adds no backend, for each of the steps at which it may fail. -/
inductive BackendRefused (dev : UdevDevice) : List Effect → Prop
  | noMemory {r} : r < 0 → BackendRefused dev [.sys (.malloc .backend) r]
  | noOffset {r x} : 0 ≤ r → dev.phyOffset = none →
      BackendRefused dev [.sys (.malloc .backend) r, .sys (.free .backend) x]
  | noFile {r name fd x} : 0 ≤ r → fd < 0 → BackendRefused dev [.sys (.malloc .backend) r,
      .sys (.openBackend name) fd, .sys (.free .backend) x]
  | noEvent {r name fd m x y} : 0 ≤ r → 0 ≤ fd → m < 0 → BackendRefused dev
      [.sys (.malloc .backend) r, .sys (.openBackend name) fd, .sys (.malloc .fdEvent) m,
        .sys (.close fd) x, .sys (.free .backend) y]

/-- The effects up to the mmap, whose result is not looked at. -/
inductive BackendMapped (dev : UdevDevice) (vbe : Nat) (name : List UInt8) (fd : Int) :
    List Effect → Prop
  | mapped {r m q} : 0 ≤ r → dev.phyOffset.isSome → 0 ≤ fd → 0 ≤ m → BackendMapped dev vbe name fd
      [.sys (.malloc .backend) r, .sys (.openBackend name) fd, .sys (.malloc .fdEvent) m,
        .addFdEvent ⟨fd, .virtioBackend vbe⟩, .sys (.mmapBackend fd) q]

/-- What is left of `virtio_backend_add` when the file of the device is open. -/
def bindBackend (dev : UdevDevice) (core : CorePtr) (devname : List UInt8) (fd : Int)
    (phyOffset : Nat) : EtherM L σ Unit := do
  let vbe := (← get).backends.length
  if (← addFdEvent env fd (.virtioBackend vbe)) then
    let mem ← sys env (.mmapBackend fd)
    let (vringIndex, channel) ← matchBackend core dev.minor
    let new : VirtioBackend :=
      ⟨devname, fd, decide (0 ≤ mem), phyOffset, dev.minor, vringIndex, core, channel⟩
    emit (.newBackend new)
    modify (fun s => { s with backends := s.backends ++ [new] })
  else
    let _ ← sys env (.close fd)
    let _ ← sys env (.free .backend)

theorem wp_bindBackend (dev : UdevDevice) (c : CorePtr) (devname : List UInt8) (fd : Int)
    (phyOffset : Nat) {m : Int} (hm : m = (env.sys (.malloc .fdEvent) s.world).1) :
    wp (bindBackend env dev c devname fd phyOffset) (fun _ t => ∃ x,
      m < 0 ∧ (∃ y, SetupRun (Effect.Servicing [c]) s t
        [.sys (.malloc .fdEvent) m, .sys (.close fd) x, .sys (.free .backend) y]) ∨
      0 ≤ m ∧ ∃ new, new.core = c ∧ new.devname = devname ∧ new.fd = fd ∧
        SetupRun (Effect.Servicing [c]) s t ([.sys (.malloc .fdEvent) m,
          .addFdEvent ⟨fd, .virtioBackend s.backends.length⟩, .sys (.mmapBackend fd) x] ++
          [.newBackend new]))
      (fun _ t => 0 ≤ m ∧ ∃ x, SetupRun (Effect.Servicing [c]) s t [.sys (.malloc .fdEvent) m,
        .addFdEvent ⟨fd, .virtioBackend s.backends.length⟩, .sys (.mmapBackend fd) x]) s := by
  simp only [bindBackend, wp_bind, wp_get]
  refine wp_mono (wp_addFdEvent_run env s (Effect.Servicing [c]) fd (fun _ => trivial)
    ⟨List.cons_ne_nil _ _, _, rfl⟩) ?_ (fun _ _ hf => hf.elim)
  intro ok t ht
  obtain ⟨-, hok, hevt⟩ := ht
  rw [← hm] at hok hevt
  cases ok with
  | false =>
    simp only [Bool.false_eq_true, if_false, wp_bind]
    refine wp_sys_run env t (Effect.Servicing [c]) (fun _ => trivial) fun x u hclose => ?_
    refine wp_sys_run env u (Effect.Servicing [c]) (fun _ => trivial) fun y v hfree => ?_
    exact ⟨x, .inl ⟨not_le.mp (of_decide_eq_false hok.symm), y, hevt.trans (hclose.trans hfree)⟩⟩
  | true =>
    have hm0 := of_decide_eq_true hok.symm
    simp only [if_true, wp_bind]
    refine wp_sys_run env t (Effect.Servicing [c]) (fun _ => trivial) fun q u hmap => ?_
    simp only [matchBackend, wp_bind, wp_readCore, wp_readNode, wp_dite, wp_pure, wp_emit, wp_modify]
    refine ⟨fun hminor => ⟨q, .inr ⟨hm0, ⟨devname, fd, decide (0 ≤ q), phyOffset, dev.minor,
      dev.minor % 2, c, (u.node (u.core c).node).channels ⟨dev.minor / 2, hminor⟩⟩, rfl, rfl, rfl,
      (hevt.trans hmap).trans ?_⟩⟩, fun _ => ⟨hm0, q, hevt.trans hmap⟩⟩
    exact ⟨⟨rfl, rfl, rfl, rfl, rfl, rfl, fun _ => ⟨_, rfl⟩⟩, rfl, rfl, by simp [Effect.Servicing]⟩

theorem wp_virtioBackendAdd_trace (dev : UdevDevice) (c : CorePtr) :
    wp (virtioBackendAdd env dev c) (fun _ t => ∃ E,
      BackendRefused dev E ∧ ¬ BackendAddSucceeds env dev s.world ∧
        SetupRun (Effect.Servicing [c]) s t ([.virtioBackendAdd c dev.syspath] ++ E) ∨
      ∃ new, new.core = c ∧ (basename dev.syspath).map backendPath = some new.devname ∧
        BackendMapped dev s.backends.length new.devname new.fd E ∧
        BackendAddSucceeds env dev s.world ∧ SetupRun (Effect.Servicing [c]) s t
          ([.virtioBackendAdd c dev.syspath] ++ (E ++ [.newBackend new])))
      (fun _ t => ∃ E, SetupRun (Effect.Servicing [c]) s t ([.virtioBackendAdd c dev.syspath] ++ E) ∧
        (E = [] ∨ ∃ name fd, BackendMapped dev s.backends.length name fd E)) s := by
  simp only [virtioBackendAdd, wp_bind, wp_emit]
  obtain ⟨s₀, hs₀⟩ : ∃ s₀ : Daemon L σ,
    s₀ = { s with trace := s.trace ++ [.virtioBackendAdd c dev.syspath] } := ⟨_, rfl⟩
  have hcall : SetupRun (Effect.Servicing [c]) s s₀ [.virtioBackendAdd c dev.syspath] := by
    rw [hs₀]
    exact .emit (by simp [Effect.Servicing]) fun _ => rfl
  have hsame : s₀.world = s.world ∧ s₀.registries = s.registries := by
    rw [hs₀]
    exact ⟨rfl, rfl⟩
  rw [← hs₀, ← hsame.1]
  clear hs₀
  cases hname : basename dev.syspath with
  | none => exact ⟨[], by simpa using hcall, .inl rfl⟩
  | some name =>
    obtain ⟨mem, hmem⟩ : ∃ mem, mem = env.sys (.malloc .backend) s₀.world := ⟨_, rfl⟩
    obtain ⟨fd, hfd⟩ : ∃ fd, fd = env.sys (.openBackend (backendPath name)) mem.2 := ⟨_, rfl⟩
    have hsteps := backendAddSucceeds_iff env hname hmem hfd
    simp only [wp_bind]
    refine wp_sys_world env _ (Effect.Servicing [c]) (fun _ => trivial) fun t ht hregt hmalloc => ?_
    rw [← hmem] at ht hmalloc ⊢
    by_cases hmem0 : mem.1 < 0
    · simp only [hmem0, if_true, wp_pure]
      exact ⟨_, .inl ⟨.noMemory hmem0, fun hh => absurd hmem0 (hsteps.mp hh).2.1.not_gt,
        hcall.trans hmalloc⟩⟩
    simp only [hmem0, if_false]
    cases hphy : dev.phyOffset with
    | none =>
      simp only [wp_bind]
      refine wp_sys_world env _ (Effect.Servicing [c]) (fun _ => trivial) fun u _ _ hfree => ?_
      exact ⟨_, .inl ⟨.noOffset (not_lt.mp hmem0) hphy,
        fun hh => absurd (hsteps.mp hh).1 (by simp [hphy]), hcall.trans (hmalloc.trans hfree)⟩⟩
    | some phyOffset =>
      simp only [wp_bind]
      refine wp_sys_world env _ (Effect.Servicing [c]) (fun _ => trivial) fun u hu hregu hopen => ?_
      rw [ht, ← hfd] at hu hopen
      rw [ht, ← hfd]
      have hopened := hmalloc.trans hopen
      by_cases hfd0 : fd.1 < 0
      · simp only [hfd0, if_true, wp_bind, wp_pure]
        refine wp_sys_world env _ (Effect.Servicing [c]) (fun _ => trivial) fun v _ _ hfree => ?_
        exact ⟨_, .inl ⟨.noFile (not_lt.mp hmem0) hfd0,
          fun hh => absurd hfd0 (hsteps.mp hh).2.2.1.not_gt, hcall.trans (hopened.trans hfree)⟩⟩
      simp only [hfd0, if_false]
      have hbind := wp_bindBackend env u dev c (backendPath name) fd.1 phyOffset rfl
      have hlen : u.backends = s.backends :=
        congrArg Registries.backends (hregu.trans (hregt.trans hsame.2))
      rw [hu, hlen] at hbind
      have hphy' : dev.phyOffset.isSome := by simp [hphy]
      refine wp_mono hbind ?_ ?_
      · intro _ v hv
        obtain ⟨x, ⟨hm, y, hrun⟩ | ⟨hm, new, hcore, hdevname, hnewfd, hrun⟩⟩ := hv
        · exact ⟨_, .inl ⟨.noEvent (not_lt.mp hmem0) (not_lt.mp hfd0) hm,
            fun hh => absurd hm (hsteps.mp hh).2.2.2.not_gt, hcall.trans (hopened.trans hrun)⟩⟩
        · have hall := hopened.trans hrun
          rw [← List.append_assoc] at hall
          refine ⟨_, .inr ⟨new, hcore, congrArg some hdevname.symm, ?_,
            hsteps.mpr ⟨hphy', not_lt.mp hmem0, not_lt.mp hfd0, hm⟩, hcall.trans hall⟩⟩
          rw [hdevname, hnewfd]
          exact .mapped (not_lt.mp hmem0) hphy' (not_lt.mp hfd0) hm
      · intro _ v hv
        obtain ⟨hm, x, hrun⟩ := hv
        exact ⟨_, hcall.trans (hopened.trans hrun), .inr ⟨_, _,
          .mapped (not_lt.mp hmem0) hphy' (not_lt.mp hfd0) hm⟩⟩

theorem wp_virtioBackendAdd (dev : UdevDevice) (c : CorePtr) : wp (virtioBackendAdd env dev c)
    (fun _ t => ∃ E, SetupRun (Effect.Servicing [c]) s t E ∧ backendCalls E = [(c, dev.syspath)] ∧
      ((BackendAddSucceeds env dev s.world ∧ BindsBackend dev c s.backends.length E) ∨
        (¬ BackendAddSucceeds env dev s.world ∧ newBackends E = [])))
    (fun _ _ => True) s := by
  refine wp_mono (wp_virtioBackendAdd_trace env s dev c) ?_ (fun _ _ _ => trivial)
  intro _ t ht
  obtain ⟨E, ⟨hrefused, hfails, hrun⟩ | ⟨new, hcore, hname, hmapped, hsucceeds, hrun⟩⟩ := ht
  · refine ⟨_, hrun, ?_, .inr ⟨hfails, ?_⟩⟩
    · cases hrefused <;> rfl
    · cases hrefused <;> rfl
  · refine ⟨_, hrun, ?_, .inl ⟨hsucceeds, new, ?_, hcore, hname, ?_⟩⟩
    all_goals
      cases hmapped
      rfl

theorem wp_callUdevEvents (dev : UdevDevice) (id : UdevEventId) (evts : List UdevEvent) :
    wp (callUdevEvents env dev id evts) (fun _ t => ∃ E, SetupRun
      (Effect.Servicing ((evts.filter (fun evt => evt.id = id)).map UdevEvent.cbData)) s t E ∧
      backendCalls E = (evts.filter (fun evt => evt.id = id)).map (fun evt =>
        (evt.cbData, dev.syspath)))
      (fun _ _ => True) s := by
  induction evts generalizing s with
  | nil => exact ⟨[], .refl s, rfl⟩
  | cons evt rest ih =>
    by_cases hid : evt.id = id
    · simp only [callUdevEvents, hid, if_true, wp_bind]
      refine wp_mono (wp_virtioBackendAdd env s dev evt.cbData) ?_ (fun _ _ hf => hf)
      intro _ t ht
      obtain ⟨E, hrun, hcalls, -⟩ := ht
      refine wp_mono (ih t) ?_ (fun _ _ hf => hf)
      intro _ u hu
      obtain ⟨F, hrest, hcalls'⟩ := hu
      refine ⟨E ++ F, (hrun.mono fun e _ he => he.mono ?_).trans (hrest.mono fun e _ he =>
        he.mono ?_), ?_⟩
      · simp [hid]
      · simp [hid]
      · simp [hcalls, hcalls', hid]
    · simp only [callUdevEvents, hid, if_false]
      have hfilter : (evt :: rest).filter (fun evt => evt.id = id) =
          rest.filter (fun evt => evt.id = id) := by
        simp [hid]
      rw [hfilter]
      exact ih s

theorem wp_callUdevEvents_iff (dev : UdevDevice) (id : UdevEventId) {evts : List UdevEvent}
    {Q : Unit → Daemon L σ → Prop} {E : Fault → Daemon L σ → Prop} :
    ((evts.filter (fun evt => evt.id = id)).map UdevEvent.cbData = [] →
      (wp (callUdevEvents env dev id evts) Q E s ↔ Q () s)) ∧
    ∀ c, (evts.filter (fun evt => evt.id = id)).map UdevEvent.cbData = [c] →
      (wp (callUdevEvents env dev id evts) Q E s ↔ wp (virtioBackendAdd env dev c) Q E s) := by
  induction evts generalizing s with
  | nil => exact ⟨fun _ => Iff.rfl, by simp⟩
  | cons evt rest ih =>
    by_cases hid : evt.id = id
    · simp only [hid, decide_true, List.filter_cons_of_pos, List.map_cons, callUdevEvents,
        if_true, wp_bind]
      refine ⟨by simp, fun c hc => ?_⟩
      obtain ⟨rfl, hrest⟩ := List.cons.inj hc
      have hnone : ∀ t : Daemon L σ, wp (callUdevEvents env dev id rest) Q E t ↔ Q () t :=
        fun t => (ih (s := t)).1 hrest
      simp only [hnone]
    · simp only [hid, decide_false, Bool.false_eq_true, not_false_eq_true, List.filter_cons_of_neg,
        callUdevEvents,
        if_false]
      exact ih s

theorem wp_doUdevEvent (dev : Option UdevDevice) : wp (doUdevEvent env dev)
    (fun _ t => ∃ id E, SetupRun (Effect.Servicing (s.registered id)) s t E) (fun _ _ => True) s := by
  have hself : ∃ id E, SetupRun (Effect.Servicing (s.registered id)) s s E :=
    ⟨.newVirtioBackend, [], .refl s⟩
  cases dev with
  | none => exact hself
  | some dev =>
    cases hid : actionToId dev.action with
    | none =>
      simp only [doUdevEvent, hid, wp_pure]
      exact hself
    | some id =>
      simp only [doUdevEvent, hid, wp_bind, wp_get]
      refine wp_mono (wp_callUdevEvents env s dev id s.udevEvents) ?_ (fun _ _ hf => hf)
      intro _ t ht
      obtain ⟨E, hrun, -⟩ := ht
      exact ⟨id, E, hrun⟩

theorem wp_startCb (c : CorePtr) : wp (startCb env c)
    (fun _ t => ∃ E, SetupRun (Effect.Servicing []) s t E) (fun _ _ => True) s := by
  simp only [startCb, wp_bind, wp_readCore]
  exact wp_sys_run env s (Effect.Servicing []) (fun _ => trivial) fun _ t hrun => ⟨_, hrun⟩

theorem wp_stopCb (c : CorePtr) : wp (stopCb env c)
    (fun _ t => ∃ E, SetupRun (Effect.Servicing []) s t E) (fun _ _ => True) s := by
  simp only [stopCb, wp_bind, wp_readCore]
  exact wp_sys_run env s (Effect.Servicing []) (fun _ => trivial) fun _ t hrun => ⟨_, hrun⟩

omit env in
theorem wp_virtioBackendReadable (vbe : Nat) : wp (virtioBackendReadable vbe)
    (fun _ t => t = s) (fun _ _ => True) s := by
  simp only [virtioBackendReadable, wp_bind, wp_get]
  cases s.backends[vbe]? with
  | none => trivial
  | some backend => by_cases hb : backend.mapped = true <;> simp [hb]

end Backends

section Callbacks

variable {L σ : Type} [NodeLists L] (env : Env σ)

inductive FdEventStep (env : Env σ) (cs : List CorePtr) (s t : Daemon L σ) : Prop
  | frame {sender : SockaddrLl} (h : CallbackStep env sender s t)
  | service {E : List Effect} (h : SetupRun (Effect.Servicing cs) s t E)

theorem FdEventStep.mono {env : Env σ} {cs ds : List CorePtr} {s t : Daemon L σ}
    (h : FdEventStep env cs s t)
    (hsub : cs ⊆ ds) : FdEventStep env ds s t := by
  cases h with
  | frame h => exact .frame h
  | service h => exact .service (h.mono fun e _ he => he.mono hsub)

def Daemon.registeredCores (s : Daemon L σ) : List CorePtr := s.udevEvents.map UdevEvent.cbData

omit [NodeLists L] in
theorem registered_subset (s : Daemon L σ) (id : UdevEventId) : s.registered id ⊆ s.registeredCores :=
  List.map_subset _ (List.filter_subset_self _)

theorem wp_callFdEvent_processor {s : Etherd L σ} (arrivals : Arrivals) {cb : FdCallback}
    (hudev : cb ≠ .udevMonitor) (hrx : cb ≠ .etherRx) :
    wp (callFdEvent env arrivals cb) (fun _ t =>
      (∃ E, SetupRun (Effect.Servicing []) s.daemon t.daemon E) ∧ t.now = s.now)
      (fun _ _ => True) s := by
  cases cb with
  | udevMonitor => exact absurd rfl hudev
  | etherRx => exact absurd rfl hrx
  | start c =>
    simp only [callFdEvent, wp_onDaemon]
    exact wp_mono (wp_startCb env s.daemon c) (fun _ d hd => ⟨hd, trivial⟩) fun _ _ _ => trivial
  | stop c =>
    simp only [callFdEvent, wp_onDaemon]
    exact wp_mono (wp_stopCb env s.daemon c) (fun _ d hd => ⟨hd, trivial⟩) fun _ _ _ => trivial
  | virtioBackend vbe =>
    simp only [callFdEvent, wp_onDaemon]
    refine wp_mono (wp_virtioBackendReadable s.daemon vbe) (fun _ d hd => ?_) fun _ _ _ => trivial
    subst hd
    exact ⟨⟨[], .refl _⟩, trivial⟩

theorem wp_callFdEvent {s : Etherd L σ} (h : ∀ n j, (s.daemon.node n).channels j = none)
    (arrivals : Arrivals)
    {cb : FdCallback} (hcb : cb ≠ .udevMonitor) : wp (callFdEvent env arrivals cb)
      (fun _ t => FdEventStep env [] s.daemon t.daemon ∧ t.now = s.now) (fun _ _ => True) s := by
  by_cases hrx : cb = .etherRx
  · subst hrx
    simp only [callFdEvent]
    cases arrivals.frame with
    | none => exact ⟨.service (.refl _), rfl⟩
    | some frame =>
      obtain ⟨sender, payload⟩ := frame
      simp only [etherRx, wp_bind, wp_modify, wp_get, wp_onDaemon]
      exact wp_mono (wp_etherRxCb env h _ _ _) (fun _ d hd => ⟨.frame hd, trivial⟩) fun _ _ _ => trivial
  · refine wp_mono (wp_callFdEvent_processor env arrivals hcb hrx) (fun _ t ht => ?_)
      fun _ _ _ => trivial
    obtain ⟨⟨E, hrun⟩, hnow⟩ := ht
    exact ⟨.service hrun, hnow⟩

theorem wp_callFdEvent_service {s : Etherd L σ} (arrivals : Arrivals) {cb : FdCallback}
    (hrx : cb ≠ .etherRx) : wp (callFdEvent env arrivals cb) (fun _ t =>
      (∃ E, SetupRun (Effect.Servicing s.daemon.registeredCores) s.daemon t.daemon E) ∧ t.now = s.now)
      (fun _ _ => True) s := by
  by_cases hcb : cb = .udevMonitor
  · subst hcb
    simp only [callFdEvent, wp_onDaemon]
    refine wp_mono (wp_doUdevEvent env s.daemon arrivals.device) ?_ fun _ _ _ => trivial
    intro _ d hd
    obtain ⟨id, E, hrun⟩ := hd
    exact ⟨⟨E, hrun.mono fun e _ he => he.mono (registered_subset _ id)⟩, trivial⟩
  · refine wp_mono (wp_callFdEvent_processor env arrivals hcb hrx) (fun _ t ht => ?_)
      fun _ _ _ => trivial
    obtain ⟨⟨E, hrun⟩, hnow⟩ := ht
    exact ⟨⟨E, hrun.mono fun e _ he => he.mono (List.nil_subset _)⟩, hnow⟩

theorem wp_callFdEvent_any {s : Etherd L σ} (h : ∀ n j, (s.daemon.node n).channels j = none)
    (arrivals : Arrivals) (cb : FdCallback) : wp (callFdEvent env arrivals cb)
      (fun _ t => FdEventStep env s.daemon.registeredCores s.daemon t.daemon ∧ t.now = s.now)
      (fun _ _ => True) s := by
  by_cases hrx : cb = .etherRx
  · subst hrx
    exact wp_mono (wp_callFdEvent env h arrivals (by simp))
      (fun _ t ht => ⟨ht.1.mono (List.nil_subset _), ht.2⟩) fun _ _ _ => trivial
  · refine wp_mono (wp_callFdEvent_service env arrivals hrx) (fun _ t ht => ?_) fun _ _ _ => trivial
    obtain ⟨⟨E, hrun⟩, hnow⟩ := ht
    exact ⟨.service hrun, hnow⟩

theorem AliveOk.fdEvent [LawfulNodeLists L] {cs : List CorePtr} {s t : Daemon L σ} (h : AliveOk s)
    (hstep : FdEventStep env cs s t) : AliveOk t := by
  cases hstep with
  | frame hcb => exact h.callback env hcb
  | service hrun => exact h.quiet (hrun.mono fun e _ he => he.quiet)

inductive FdEventSteps (env : Env σ) : Daemon L σ → Daemon L σ → Prop
  | refl (s : Daemon L σ) : FdEventSteps env s s
  | step {s t u : Daemon L σ} (h : FdEventStep env s.registeredCores s t)
    (hrest : FdEventSteps env t u) :
      FdEventSteps env s u

theorem AliveOk.fdEvents [LawfulNodeLists L] {s t : Daemon L σ} (h : AliveOk s)
    (hsteps : FdEventSteps env s t) : AliveOk t := by
  induction hsteps with
  | refl => exact h
  | step hstep _ ih => exact ih (h.fdEvent env hstep)

theorem wp_handleFdEvents [LawfulNodeLists L] {s : Etherd L σ} (h : AliveOk s.daemon)
    (arrivals : Arrivals)
    (fds : List Int) (evts : List FdEvent) : wp (handleFdEvents env arrivals fds evts)
      (fun _ t => FdEventSteps env s.daemon t.daemon ∧ t.now = s.now) (fun _ _ => True) s := by
  induction evts generalizing s with
  | nil => exact ⟨.refl _, rfl⟩
  | cons evt rest ih =>
    by_cases hfd : evt.fd ∈ fds
    · simp only [handleFdEvents, hfd, if_true, wp_bind]
      refine wp_mono (wp_callFdEvent_any env h.table arrivals evt.cb) ?_ fun _ _ _ => trivial
      intro _ t ht
      obtain ⟨hstep, hnow⟩ := ht
      refine wp_mono (ih (h.fdEvent env hstep)) ?_ fun _ _ _ => trivial
      intro _ u hu
      obtain ⟨hsteps, hnow'⟩ := hu
      exact ⟨.step hstep hsteps, hnow'.trans hnow⟩
    · simp only [handleFdEvents, hfd, if_false]
      exact ih h

inductive EventStep (env : Env σ) : Wakeup → Etherd L σ → Etherd L σ → Prop
  | timeout {s t : Etherd L σ} (h : IterationStep env .timeout s t) : EventStep env .timeout s t
  | error {s : Etherd L σ} (us : Nat) : EventStep env (.error us) s (s.waited us)
  | ready {s t : Etherd L σ} (us : Nat) (fds : List Int) (arrivals : Arrivals)
      (h : FdEventSteps env (s.waited us).daemon t.daemon) (hnow : t.now = (s.waited us).now) :
      EventStep env (.ready us fds arrivals) s t

theorem wp_eventIteration [LawfulNodeLists L] {s : Etherd L σ} (h : AliveOk s.daemon) (e : Wakeup) :
    wp (eventIteration env e) (fun _ t => EventStep env e s t) (fun _ _ => True) s := by
  cases e with
  | timeout =>
    apply wp_mono (wp_iteration env h .timeout)
    · exact fun _ t ht => .timeout ht
    · exact fun _ _ _ => trivial
  | error us => exact .error us
  | ready us fds arrivals =>
    simp only [eventIteration, wp_bind, wp_waitInSelect, wp_get]
    refine wp_mono (wp_handleFdEvents env (s := s.waited us) (h.waited us) arrivals fds _) ?_
      fun _ _ _ => trivial
    intro _ t hh
    obtain ⟨hsteps, hnow⟩ := hh
    exact .ready us fds arrivals hsteps hnow

theorem AliveOk.eventStep [LawfulNodeLists L] {s t : Etherd L σ} {e : Wakeup} (h : AliveOk s.daemon)
    (hstep : EventStep env e s t) : AliveOk t.daemon := by
  cases hstep with
  | timeout h' => exact h.iterate env h'
  | error us => exact h.waited us
  | ready us fds arrivals hsteps => exact (h.waited us).fdEvents env hsteps

variable [LawfulNodeLists L]

theorem eventLoop_aliveOk (env : Env σ) {w : σ} {udevFd netifFd : Int} {es : List Wakeup}
    {s : Etherd L σ}
    (h : eventLoop env es (etherdInit w udevFd netifFd) = .ok () s) : AliveOk s.daemon :=
  eventLoop_keeps (I := fun s => AliveOk s.daemon) (fun e _ hs => wp_mono (wp_eventIteration env hs e)
    (fun _ _ hstep => hs.eventStep env hstep) fun _ _ _ => trivial) (aliveOk_init w udevFd netifFd) h

/-- What is kept by the timeouts and the socket, and by the other callbacks too. -/
structure KeptByAll (env : Env σ) (P : Daemon L σ → Prop) : Prop extends Kept env Set.univ P where
  service : ∀ cs d d' E, P d → SetupRun (Effect.Servicing cs) d d' E → P d'

theorem KeptByAll.fdEvent {env : Env σ} {P : Daemon L σ → Prop} (hP : KeptByAll env P)
    {cs : List CorePtr}
    {s t : Daemon L σ} (h : AliveOk s) (hs : P s) (hstep : FdEventStep env cs s t) : P t := by
  cases hstep with
  | frame hcb => exact hP.callback _ (Set.mem_univ _) _ _ h hs hcb
  | service hrun => exact hP.service _ _ _ _ hs hrun

theorem KeptByAll.fdEvents {env : Env σ} {P : Daemon L σ → Prop} (hP : KeptByAll env P)
    {s t : Daemon L σ} (h : AliveOk s) (hs : P s) (hsteps : FdEventSteps env s t) : P t := by
  induction hsteps with
  | refl => exact hs
  | step hstep _ ih => exact ih (h.fdEvent env hstep) (hP.fdEvent h hs hstep)

theorem KeptByAll.eventStep {env : Env σ} {P : Daemon L σ → Prop} (hP : KeptByAll env P)
    {s t : Etherd L σ} {e : Wakeup} (h : AliveOk s.daemon) (hs : P s.daemon)
    (hstep : EventStep env e s t) :
    P t.daemon := by
  cases hstep with
  | timeout h' => exact hP.iterate env h hs (MainEvent.from_univ _) h'
  | error us => exact hP.wait _ us hs
  | ready us fds arrivals hsteps => exact hP.fdEvents (h.waited us) (hP.wait _ us hs) hsteps

theorem KeptByAll.of_run {env : Env σ} {P : Daemon L σ → Prop} (hP : KeptByAll env P) {w : σ}
    {udevFd netifFd : Int} (hinit : P (daemonInit w udevFd netifFd)) {es : List Wakeup} {s : Etherd L σ}
    (h : eventLoop env es (etherdInit w udevFd netifFd) = .ok () s) : AliveOk s.daemon ∧
      P s.daemon := by
  refine eventLoop_keeps (I := fun s => AliveOk s.daemon ∧ P s.daemon) (fun e s hs => ?_)
    ⟨aliveOk_init w udevFd netifFd, hinit⟩ h
  refine wp_mono (wp_eventIteration env hs.1 e) (fun _ t hstep => ?_) fun _ _ _ => trivial
  exact ⟨hs.1.eventStep env hstep, hP.eventStep hs.1 hs.2 hstep⟩

end Callbacks

end Lininoio
