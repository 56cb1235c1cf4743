import Lininoio.CoreReferences

/-! Which cores a new backend device is bound to. `do_udev_event` calls every core that
is registered, as it takes no event out of its list. -/

namespace Lininoio

open StateFault CircularLinks

theorem mem_newFdEvents {E : List Effect} {evt : FdEvent} (h : evt ∈ newFdEvents E) :
    .addFdEvent evt ∈ E := by
  obtain ⟨e, he, hevt⟩ := List.mem_filterMap.mp h
  cases e with
  | addFdEvent evt' => exact Option.some.inj hevt ▸ he
  | _ => simp at hevt

theorem mem_newUdevEvents {E : List Effect} {evt : UdevEvent} (h : evt ∈ newUdevEvents E) :
    .scheduleUdevEvent evt ∈ E := by
  obtain ⟨e, he, hevt⟩ := List.mem_filterMap.mp h
  cases e with
  | scheduleUdevEvent evt' => exact Option.some.inj hevt ▸ he
  | _ => simp at hevt

section Registered

variable {L σ : Type} {s t : Daemon L σ} {udevFd : Int}

/-- The monitor has the first event and no other, and all udev events wait for new backends. -/
structure MonitorFirst (udevFd : Int) (s : Daemon L σ) : Prop where
  fdEvents : ∃ rest, s.fdEvents = ⟨udevFd, .udevMonitor⟩ :: rest ∧ ∀ evt ∈ rest, evt.cb ≠ .udevMonitor
  udevEvents : ∀ evt ∈ s.udevEvents, evt.id = .newVirtioBackend

theorem MonitorFirst.after (h : MonitorFirst udevFd s) {E : List Effect}
    (hreg : t.registries = s.registries.after E)
    (hfd : ∀ evt, .addFdEvent evt ∈ E → evt.cb ≠ .udevMonitor)
    (hudev : ∀ evt, .scheduleUdevEvent evt ∈ E → evt.id = .newVirtioBackend) :
    MonitorFirst udevFd t := by
  rw [registries_after] at hreg
  have hfds : t.fdEvents = s.fdEvents ++ newFdEvents E := congrArg Registries.fdEvents hreg
  have hudevs : t.udevEvents = s.udevEvents ++ newUdevEvents E :=
    congrArg Registries.udevEvents hreg
  constructor
  · obtain ⟨rest, hs, hrest⟩ := h.fdEvents
    refine ⟨rest ++ newFdEvents E, by rw [hfds, hs, List.cons_append], fun evt hevt => ?_⟩
    exact (List.mem_append.mp hevt).elim (hrest evt) fun hm => hfd evt (mem_newFdEvents hm)
  · intro evt hevt
    rw [hudevs] at hevt
    exact (List.mem_append.mp hevt).elim (h.udevEvents evt) fun hm =>
      hudev evt (mem_newUdevEvents hm)

structure Unbound (s t : Daemon L σ) : Prop where
  backends : t.backends = s.backends
  effects : ∃ E, t.trace = s.trace ++ E ∧ backendCalls E = [] ∧ backendEvents E = []

theorem Unbound.refl (s : Daemon L σ) : Unbound s s := ⟨rfl, [], by simp, rfl, rfl⟩

theorem Unbound.trans {u : Daemon L σ} (h : Unbound s t) (h' : Unbound t u) : Unbound s u := by
  obtain ⟨E, hE, hcalls, hevents⟩ := h.effects
  obtain ⟨F, hF, hcalls', hevents'⟩ := h'.effects
  exact ⟨h'.backends.trans h.backends,
    E ++ F, by rw [hF, hE, List.append_assoc], by simp [hcalls, hcalls'],
    by simp [hevents, hevents']⟩

def Effect.OfSocket : Effect → Prop
  | .addFdEvent evt => ∃ c, evt.cb = .start c ∨ evt.cb = .stop c
  | .scheduleUdevEvent evt => evt.id = .newVirtioBackend
  | .virtioBackendAdd _ _ => False
  | .newBackend _ => False
  | .disconnect _ => False
  | _ => True

theorem Effect.SetupAll.ofSocket {path : CorePtr → List UInt8} {cs : List CorePtr} {e : Effect}
    (h : e.SetupAll path cs) : e.OfSocket := by
  cases e with
  | addFdEvent evt =>
    obtain ⟨c, -, hcb⟩ := h
    exact ⟨c, hcb⟩
  | scheduleUdevEvent evt =>
    obtain ⟨c, -, hevt⟩ := h
    exact congrArg UdevEvent.id hevt
  | virtioBackendAdd c path =>
    obtain ⟨d, -, hd⟩ := h
    exact hd
  | newBackend vbe =>
    obtain ⟨d, -, hd⟩ := h
    exact hd
  | disconnect c =>
    obtain ⟨d, -, hd⟩ := h
    exact hd
  | _ => trivial

theorem ofSocket_unbound {E : List Effect} (h : ∀ e ∈ E, e.OfSocket) :
    backendCalls E = [] ∧ newBackends E = [] ∧ backendEvents E = [] := by
  refine ⟨List.filterMap_eq_nil_iff.mpr fun e he => ?_, List.filterMap_eq_nil_iff.mpr fun e he => ?_,
    List.filterMap_eq_nil_iff.mpr fun e he => ?_⟩
  all_goals have hh := h e he
  · cases e <;> first | rfl | exact absurd hh id
  · cases e <;> first | rfl | exact absurd hh id
  · cases e with
    | addFdEvent evt =>
      obtain ⟨fd, cb⟩ := evt
      obtain ⟨c, rfl | rfl⟩ := hh <;> rfl
    | _ => rfl

variable [NodeLists L] {env : Env σ}

theorem Expired.unbound (h : Expired s t) : Unbound s t := by
  induction h with
  | done => exact .refl _
  | @round s t e rest _ _ _ ih =>
    have hround : Unbound s (expire e rest s) := by
      refine ⟨rfl, ?_⟩
      by_cases he : e.armed = true
      · exact ⟨[.killNode e.priv], by simp [expire, he], rfl, rfl⟩
      · exact ⟨[], by simp [expire, he], rfl, rfl⟩
    exact hround.trans ih

theorem CallbackStep.effects {sender : SockaddrLl} (hstep : CallbackStep env sender s t) : ∃ E,
    t.trace = s.trace ++ E ∧ t.registries = s.registries.after E ∧ ∀ e ∈ E, e.OfSocket := by
  cases hstep with
  | @quiet E hrun hreply =>
    refine ⟨E, hrun.trace, hrun.registries, fun e he => ?_⟩
    have hh := hreply e he
    cases e <;> trivial
  | @request packet n s₁ s₂ u mem stat C S R q hacc hrun hcancel ht =>
    subst ht
    have hquiet : ∀ (E : List Effect) (r : Registries), (∀ e ∈ E, e.Connecting ∨ e.Replying) →
      r.after E = r :=
      fun E r hE => registries_after_eq fun e he r' => by
        rcases hE e he with hh | hh <;> cases e <;> first | rfl | exact absurd hh id
    have hC : ∀ r : Registries, r.after C = r := fun r => hquiet C r fun e he =>
      .inl (hrun.loop.effects e he)
    have hR : ∀ r : Registries, r.after R = r :=
      fun r => hquiet R r fun e he => .inr (hrun.conclusion.replying e he)
    refine ⟨_, hrun.trace env, ?_, fun e he => ?_⟩
    · have hclosing : ∀ r : Registries, r.after (if stat = 0 then [] else [.killNode n]) = r := by
        intro r
        by_cases hstat : stat = 0 <;> simp [hstat, Registries.after, Registries.add]
      rw [hrun.registries env]
      simp only [registries_after_append, hclosing, hR, hC]
      rfl
    · simp only [List.mem_append, List.mem_cons, List.not_mem_nil, or_false] at he
      rcases he with ((rfl | rfl) | he | he | he) | he
      · trivial
      · trivial
      · have hh := hrun.loop.effects e he
        cases e <;> trivial
      · exact (hrun.conclusion.setup e he).ofSocket
      · have hh := hrun.conclusion.replying e he
        cases e <;> trivial
      · by_cases hstat : stat = 0
        · simp [hstat] at he
        · rw [if_neg hstat, List.mem_singleton] at he
          exact he ▸ trivial

theorem FdEventStep.unbound (hstep : FdEventStep env [] s t) : Unbound s t := by
  have hcase : ∃ E, t.trace = s.trace ++ E ∧ t.registries = s.registries.after E ∧ backendCalls E = [] ∧
      newBackends E = [] ∧ backendEvents E = [] := by
    cases hstep with
    | frame hcb =>
      obtain ⟨E, htrace, hreg, hE⟩ := hcb.effects
      exact ⟨E, htrace, hreg, ofSocket_unbound hE⟩
    | @service E hrun =>
      refine ⟨E, hrun.trace, hrun.registries, List.filterMap_eq_nil_iff.mpr fun e he => ?_,
        List.filterMap_eq_nil_iff.mpr fun e he => ?_, List.filterMap_eq_nil_iff.mpr fun e he => ?_⟩
      all_goals have hh := hrun.effects e he
      · cases e <;> first | rfl | exact absurd hh List.not_mem_nil
      · cases e <;> first | rfl | exact absurd hh List.not_mem_nil
      · cases e <;> first | rfl | exact absurd rfl hh.1
  obtain ⟨E, htrace, hreg, hcalls, hnew, hevents⟩ := hcase
  refine ⟨?_, E, htrace, hcalls, hevents⟩
  have hbackends := congrArg Registries.backends (hreg.trans (registries_after _ E))
  rwa [hnew, List.append_nil] at hbackends

theorem MonitorFirst.fdEvent {cs : List CorePtr} (h : MonitorFirst udevFd s)
    (hstep : FdEventStep env cs s t) :
    MonitorFirst udevFd t := by
  cases hstep with
  | frame hcb =>
    obtain ⟨E, -, hreg, hE⟩ := hcb.effects
    refine h.after hreg (fun evt he => ?_) fun evt he => hE _ he
    obtain ⟨c, hc | hc⟩ := hE _ he <;> simp [hc]
  | service hrun =>
    refine h.after hrun.registries (fun evt he => ?_) fun evt he => absurd (hrun.effects _ he) id
    obtain ⟨-, vbe, hvbe⟩ := hrun.effects _ he
    simp [hvbe]

end Registered

section Iterations

variable {L σ : Type} [NodeLists L] [LawfulNodeLists L] (env : Env σ) {s t : Etherd L σ} {udevFd : Int}
  (creator : List UInt8 → CorePtr)

/-- The device whose creation is announced in an iteration. -/
def announced (udevFd : Int) : Wakeup → Option UdevDevice
  | .ready _ fds arrivals =>
    if udevFd ∈ fds then
      arrivals.device.filter (fun dev => actionToId dev.action = some .newVirtioBackend)
    else none
  | _ => none

/-- A device is bound once, to the core that created it, and no other core is called for it. -/
structure BoundToCreator (dev : UdevDevice) (s t : Daemon L σ) : Prop where
  calls : backendCalls (s.effectsSince t) = [(creator dev.syspath, dev.syspath)]
  backend : ∃ vbe, t.backends = s.backends ++ [vbe] ∧ vbe.core = creator dev.syspath ∧
    (basename dev.syspath).map backendPath = some vbe.devname ∧
    backendEvents (s.effectsSince t) = [(vbe.fd, s.backends.length)]

/-- Nothing is bound but the device that is announced. -/
def BindsAnnounced (udevFd : Int) (e : Wakeup) (s t : Daemon L σ) : Prop :=
  match announced udevFd e with
  | some dev => BoundToCreator creator dev s t
  | none => backendCalls (s.effectsSince t) = [] ∧ t.backends = s.backends ∧
    backendEvents (s.effectsSince t) = []

def CreatorAlone (udevFd : Int) (e : Wakeup) (s : Daemon L σ) : Prop :=
  ∀ dev, announced udevFd e = some dev → s.registered .newVirtioBackend = [creator dev.syspath] ∧
    BackendAddSucceeds env dev s.world

omit [NodeLists L] [LawfulNodeLists L] in
theorem boundToCreator_iff {dev : UdevDevice} {s t : Daemon L σ} {E : List Effect}
    (htrace : t.trace = s.trace ++ E) (hbackends : t.backends = s.backends ++ newBackends E) :
    BoundToCreator creator dev s t ↔ backendCalls E = [(creator dev.syspath, dev.syspath)] ∧
      BindsBackend dev (creator dev.syspath) s.backends.length E := by
  have hE := effectsSince_eq htrace
  constructor
  · intro hh
    obtain ⟨hcalls, vbe, hvbe, hcore, hname, hevents⟩ := hh
    rw [hE] at hcalls hevents
    exact ⟨hcalls, vbe, List.append_cancel_left (hbackends.symm.trans hvbe), hcore, hname, hevents⟩
  · intro hh
    obtain ⟨hcalls, vbe, hvbe, hcore, hname, hevents⟩ := hh
    refine ⟨by rw [hE]; exact hcalls, vbe, by rw [hbackends, hvbe], hcore, hname, ?_⟩
    rw [hE]
    exact hevents

omit [NodeLists L] [LawfulNodeLists L] in
theorem wp_doUdevEvent_announced (s : Daemon L σ) {dev : UdevDevice}
    (hdev : actionToId dev.action = some .newVirtioBackend) : wp (doUdevEvent env (some dev))
      (fun _ t => ∃ E, SetupRun (Effect.Servicing s.registeredCores) s t E ∧
        (backendCalls E = [(creator dev.syspath, dev.syspath)] ∧
          BindsBackend dev (creator dev.syspath) s.backends.length E ↔
        s.registered .newVirtioBackend = [creator dev.syspath] ∧ BackendAddSucceeds env dev s.world))
      (fun _ _ => True) s := by
  simp only [doUdevEvent, hdev, wp_bind, wp_get]
  by_cases hone : ∃ c, s.registered .newVirtioBackend = [c]
  · obtain ⟨c, hc⟩ := hone
    rw [(wp_callUdevEvents_iff env s dev .newVirtioBackend).2 c hc]
    refine wp_mono (wp_virtioBackendAdd env s dev c) ?_ fun _ _ _ => trivial
    intro _ t ht
    obtain ⟨E, hrun, hcalls, hcase⟩ := ht
    have hsub : [c] ⊆ s.registeredCores := hc ▸ registered_subset s .newVirtioBackend
    refine ⟨E, hrun.mono fun e _ he => he.mono hsub, ?_⟩
    rw [hcalls, hc]
    rcases hcase with ⟨hsucc, hbinds⟩ | ⟨hfail, hnone⟩
    · constructor
      · intro hpost
        obtain ⟨hcreator, -⟩ := hpost
        have hcc : c = creator dev.syspath := congrArg Prod.fst (List.singleton_inj.mp hcreator)
        exact ⟨by rw [hcc], hsucc⟩
      · intro hpost
        obtain ⟨hcreator, -⟩ := hpost
        have hcc : c = creator dev.syspath := List.singleton_inj.mp hcreator
        exact ⟨by rw [hcc], hcc ▸ hbinds⟩
    · refine iff_of_false ?_ fun hh => hfail hh.2
      intro hpost
      obtain ⟨-, new, hnew, -⟩ := hpost
      rw [hnone] at hnew
      exact absurd hnew (by simp)
  · refine wp_mono (wp_callUdevEvents env s dev .newVirtioBackend s.udevEvents) ?_ fun _ _ _ => trivial
    intro _ t ht
    obtain ⟨E, hrun, hcalls⟩ := ht
    refine ⟨E, hrun.mono fun e _ he => he.mono (registered_subset s .newVirtioBackend), ?_⟩
    refine iff_of_false ?_ fun hh => hone ⟨_, hh.1⟩
    intro hpost
    obtain ⟨hcreator, -⟩ := hpost
    have hmap := congrArg (List.map Prod.fst) (hcalls.symm.trans hcreator)
    exact hone ⟨creator dev.syspath, by simpa [Daemon.registered, Function.comp_def] using hmap⟩

theorem wp_handleFdEvents_unbound (hok : AliveOk s.daemon) (arrivals : Arrivals) (fds : List Int)
    {evts : List FdEvent} (hevts : ∀ evt ∈ evts, evt.cb ≠ .udevMonitor) :
    wp (handleFdEvents env arrivals fds evts) (fun _ t => Unbound s.daemon t.daemon)
      (fun _ _ => True) s := by
  induction evts generalizing s with
  | nil => exact .refl _
  | cons evt rest ih =>
    have hrest : ∀ evt ∈ rest, evt.cb ≠ .udevMonitor :=
      fun evt hevt => hevts evt (List.mem_cons_of_mem _ hevt)
    by_cases hfd : evt.fd ∈ fds
    · simp only [handleFdEvents, hfd, if_true, wp_bind]
      refine wp_mono (wp_callFdEvent env hok.table arrivals (hevts evt List.mem_cons_self)) ?_
        fun _ _ _ => trivial
      intro _ t ht
      obtain ⟨hstep, -⟩ := ht
      exact wp_mono (ih (hok.fdEvent env hstep) hrest)
        (fun _ u hu => hstep.unbound.trans hu) fun _ _ _ => trivial
    · simp only [handleFdEvents, hfd, if_false]
      exact ih hok hrest

omit [NodeLists L] [LawfulNodeLists L] in
theorem Unbound.bindsAnnounced_iff {s t : Daemon L σ} {e : Wakeup} (h : Unbound s t)
    (hnone : announced udevFd e = none) :
    BindsAnnounced creator udevFd e s t ↔ CreatorAlone env creator udevFd e s := by
  obtain ⟨E, hE, hcalls, hevents⟩ := h.effects
  refine iff_of_true ?_ fun dev hdev => ?_
  · simp only [BindsAnnounced, hnone, effectsSince_eq hE]
    exact ⟨hcalls, h.backends, hevents⟩
  · rw [hnone] at hdev
    exact absurd hdev (by simp)

omit [NodeLists L] [LawfulNodeLists L] in
theorem Unbound.boundToCreator_iff {dev : UdevDevice} {s t u : Daemon L σ} {E : List Effect}
    (h : Unbound t u) (htrace : t.trace = s.trace ++ E) :
    BoundToCreator creator dev s u ↔ BoundToCreator creator dev s t := by
  obtain ⟨F, hF, hcalls, hevents⟩ := h.effects
  have hu : u.trace = s.trace ++ (E ++ F) := by rw [hF, htrace, List.append_assoc]
  have hsamecalls : backendCalls (s.effectsSince u) = backendCalls (s.effectsSince t) := by
    rw [effectsSince_eq hu, effectsSince_eq htrace, backendCalls_append, hcalls, List.append_nil]
  have hsameevents : backendEvents (s.effectsSince u) = backendEvents (s.effectsSince t) := by
    rw [effectsSince_eq hu, effectsSince_eq htrace, backendEvents_append, hevents, List.append_nil]
  constructor
  · intro hh
    obtain ⟨hc, vbe, hvbe, hcore, hname, hev⟩ := hh
    exact ⟨hsamecalls ▸ hc, vbe, h.backends ▸ hvbe, hcore, hname, hsameevents ▸ hev⟩
  · intro hh
    obtain ⟨hc, vbe, hvbe, hcore, hname, hev⟩ := hh
    exact ⟨hsamecalls ▸ hc, vbe, h.backends.trans hvbe, hcore, hname, hsameevents ▸ hev⟩

theorem wp_udevMonitor_binds (hok : AliveOk s.daemon)
    (hmonitor : MonitorFirst udevFd s.daemon) (us : Nat)
    {fds : List Int} (hfd : udevFd ∈ fds) (arrivals : Arrivals) {rest : List FdEvent}
    (hrest : ∀ evt ∈ rest, evt.cb ≠ .udevMonitor) :
    wp (onDaemon (doUdevEvent env arrivals.device) : EtherdM L σ Unit)
      (fun _ t => wp (handleFdEvents env arrivals fds rest) (fun _ u =>
        BindsAnnounced creator udevFd (.ready us fds arrivals) s.daemon u.daemon ↔
          CreatorAlone env creator udevFd (.ready us fds arrivals) s.daemon) (fun _ _ => True) t)
      (fun _ _ => True) s := by
  have hquiet : announced udevFd (.ready us fds arrivals) = none →
      wp (handleFdEvents env arrivals fds rest) (fun _ u =>
        BindsAnnounced creator udevFd (.ready us fds arrivals) s.daemon u.daemon ↔
          CreatorAlone env creator udevFd (.ready us fds arrivals) s.daemon) (fun _ _ => True) s :=
            fun hnone =>
    wp_mono (wp_handleFdEvents_unbound env hok arrivals fds hrest)
      (fun _ u hu => hu.bindsAnnounced_iff env creator hnone) fun _ _ _ => trivial
  cases hdevice : arrivals.device with
  | none => exact hquiet (by simp [announced, hfd, hdevice])
  | some dev =>
    cases haction : actionToId dev.action with
    | none =>
      simp only [doUdevEvent, haction, wp_onDaemon, wp_pure]
      exact hquiet (by simp [announced, hfd, hdevice, haction])
    | some id =>
      cases id with
      | delVirtioBackend =>
        have hdel : s.daemon.registered .delVirtioBackend = [] := by
          refine List.map_eq_nil_iff.mpr (List.filter_eq_nil_iff.mpr fun evt hevt => ?_)
          simp [hmonitor.udevEvents evt hevt]
        simp only [doUdevEvent, haction, wp_onDaemon, wp_bind, wp_get]
        rw [(wp_callUdevEvents_iff env s.daemon dev .delVirtioBackend).1 hdel]
        exact hquiet (by simp [announced, hfd, hdevice, haction])
      | newVirtioBackend =>
        have hannounced : announced udevFd (.ready us fds arrivals) = some dev := by
          simp [announced, hfd, hdevice, haction]
        simp only [wp_onDaemon]
        refine wp_mono (wp_doUdevEvent_announced env creator s.daemon haction) ?_ fun _ _ _ => trivial
        intro _ d hd
        obtain ⟨E, hrun, hiff⟩ := hd
        refine wp_mono (wp_handleFdEvents_unbound env (s := { s with daemon := d })
          (hok.quiet (hrun.mono fun e _ he => he.quiet)) arrivals fds hrest) ?_ fun _ _ _ => trivial
        intro _ u hunbound
        simp only [BindsAnnounced, CreatorAlone, hannounced, Option.some.injEq, forall_eq', ← hiff]
        rw [hunbound.boundToCreator_iff creator (show d.trace = s.daemon.trace ++ E from hrun.trace)]
        apply boundToCreator_iff creator hrun.trace
        exact congrArg Registries.backends (hrun.registries.trans (registries_after _ E))

omit [NodeLists L] [LawfulNodeLists L] in
theorem bindsAnnounced_waited (s : Etherd L σ) (us : Nat) (t : Daemon L σ) (e : Wakeup) :
    BindsAnnounced creator udevFd e (s.waited us).daemon t ↔
      BindsAnnounced creator udevFd e s.daemon t := by
  unfold BindsAnnounced
  cases announced udevFd e with
  | none => exact Iff.rfl
  | some dev => exact ⟨fun h => ⟨h.calls, h.backend⟩, fun h => ⟨h.calls, h.backend⟩⟩

theorem wp_eventIteration_binds (hok : AliveOk s.daemon) (hmonitor : MonitorFirst udevFd s.daemon)
    (e : Wakeup) :
    wp (eventIteration env e) (fun _ t => BindsAnnounced creator udevFd e s.daemon t.daemon ↔
      CreatorAlone env creator udevFd e s.daemon) (fun _ _ => True) s := by
  cases e with
  | error us =>
    have hunbound : Unbound s.daemon (s.waited us).daemon :=
      ⟨rfl, [], (List.append_nil _).symm, rfl, rfl⟩
    exact hunbound.bindsAnnounced_iff env creator rfl
  | timeout =>
    refine wp_mono (wp_iteration env hok .timeout) (fun _ t hstep => ?_) fun _ _ _ => trivial
    have hunbound : Unbound s.daemon t.daemon := by
      cases hstep with
      | nothingScheduled => exact .refl _
      | timeout _ hexp => exact ⟨hexp.unbound.backends, hexp.unbound.effects⟩
    exact hunbound.bindsAnnounced_iff env creator rfl
  | ready us fds arrivals =>
    simp only [eventIteration, wp_bind, wp_waitInSelect, wp_get]
    have hmonitor' : MonitorFirst udevFd (s.waited us).daemon :=
      ⟨hmonitor.fdEvents, hmonitor.udevEvents⟩
    obtain ⟨rest, hfds, hrest⟩ := hmonitor'.fdEvents
    rw [hfds]
    by_cases hfd : udevFd ∈ fds
    · simp only [handleFdEvents, hfd, if_true, wp_bind, callFdEvent]
      have hbinds := wp_udevMonitor_binds env creator (s := s.waited us)
        (hok.waited us) hmonitor' us hfd arrivals
        hrest
      simp only [bindsAnnounced_waited] at hbinds
      exact hbinds
    · simp only [handleFdEvents, hfd, if_false]
      refine wp_mono (wp_handleFdEvents_unbound env (s := s.waited us)
        (hok.waited us) arrivals fds hrest) ?_
        fun _ _ _ => trivial
      rintro _ t hunbound
      have hunbound' : Unbound s.daemon t.daemon := ⟨hunbound.backends, hunbound.effects⟩
      exact hunbound'.bindsAnnounced_iff env creator (by simp [announced, hfd])

theorem keptByAll_monitorFirst (udevFd : Int) :
    KeptByAll env (MonitorFirst udevFd : Daemon L σ → Prop) where
  wait _ _ h := ⟨h.fdEvents, h.udevEvents⟩
  expired s t _ h hexp := h.after (E := []) hexp.registries (by simp) (by simp)
  callback _ _ _ _ _ h hstep := h.fdEvent (.frame hstep : FdEventStep env [] _ _)
  service _ _ _ _ h hrun := h.fdEvent (FdEventStep.service hrun : FdEventStep env _ _ _)

/-- In a run each new device is bound once and to its creator only, exactly when no core
but the creator is registered as it is announced, and nothing fails. -/
theorem backends_bound_iff (w : σ) (udevFd netifFd : Int) (es : List Wakeup) :
    EachIteration env (fun e s t => BindsAnnounced creator udevFd e s.daemon t.daemon) es
        (etherdInit w udevFd netifFd : Etherd L σ) ↔
      EachIteration env (fun e s _ => CreatorAlone env creator udevFd e s.daemon) es
        (etherdInit w udevFd netifFd : Etherd L σ) := by
  have hinit : MonitorFirst udevFd (daemonInit w udevFd netifFd : Daemon L σ) :=
    ⟨⟨[⟨netifFd, .etherRx⟩], rfl, by simp⟩, by simp [daemonInit]⟩
  refine eachIteration_iff (I := fun s => AliveOk s.daemon ∧ MonitorFirst udevFd s.daemon)
    (fun e s hs => ?_) es
    ⟨aliveOk_init w udevFd netifFd, hinit⟩
  refine wp_mono (wp_and (wp_eventIteration env hs.1 e)
    (wp_eventIteration_binds env creator hs.1 hs.2 e))
    (fun _ t ht => ?_) fun _ _ _ => trivial
  exact ⟨ht.2, fun _ =>
    ⟨hs.1.eventStep env ht.1, (keptByAll_monitorFirst env udevFd).eventStep hs.1 hs.2 ht.1⟩⟩

omit [LawfulNodeLists L] in
theorem not_bindsAnnounced_of_returnsIn {e₁ e₂ : Wakeup} {dev : UdevDevice}
    (h₁ : announced udevFd e₁ = none)
    (h₂ : announced udevFd e₂ = some dev) (h : returnsIn (eventLoop env [e₁, e₂])
      (fun t => t.daemon.backends.length = s.daemon.backends.length + 2) s = true) :
    ¬ EachIteration env (fun e s t => BindsAnnounced creator udevFd e s.daemon t.daemon)
      [e₁, e₂] s := by
  intro heach
  have hwp : wp (eventLoop env [e₁, e₂])
      (fun _ t => t.daemon.backends.length = s.daemon.backends.length + 1) (fun _ _ => True) s := by
    simp only [wp_eventLoop_cons, wp_eventLoop_nil]
    refine wp_mono heach (fun _ t ht => ?_) fun _ _ _ => trivial
    refine wp_mono ht.2 (fun _ u hu => ?_) fun _ _ _ => trivial
    have hfirst := ht.1
    have hsecond := hu.1
    simp only [BindsAnnounced, h₁] at hfirst
    simp only [BindsAnnounced, h₂] at hsecond
    obtain ⟨vbe, hvbe, -⟩ := hsecond.backend
    rw [hvbe, hfirst.2.1, List.length_append, List.length_singleton]
  obtain ⟨_, t, hrun, ht⟩ := exists_of_returnsIn h
  have hone := wp_ok hwp hrun
  have htwo := of_decide_eq_true ht
  omega

def boardDevice : UdevDevice := ⟨asciiBytes "add", asciiBytes "/sys/r2p0", some 0, 0⟩

theorem boardDevice_bound_twice : ¬ EachIteration driverHost
    (fun e s t => BindsAnnounced (fun _ => 0) 3 e s.daemon t.daemon)
    [.ready 0 [4] ⟨some (boardAddr, requestFrame 2 [1, 0, 1, 0x20]), none⟩,
      .ready 0 [3] ⟨none, some boardDevice⟩]
    (etherdInit () 3 4 : Etherd (Links Cell) Unit) := by
  have hreturns : returnsIn (eventLoop driverHost
      [.ready 0 [4] ⟨some (boardAddr, requestFrame 2 [1, 0, 1, 0x20]), none⟩,
        .ready 0 [3] ⟨none, some boardDevice⟩])
      (fun t : Etherd (Links Cell) Unit => t.daemon.backends.length = 0 + 2)
      (etherdInit () 3 4) = true := by
    decide +kernel
  exact not_bindsAnnounced_of_returnsIn driverHost _ (by decide)
    (by decide : announced 3 (.ready 0 [3] ⟨none, some boardDevice⟩) = some boardDevice) hreturns

end Iterations

end Lininoio
