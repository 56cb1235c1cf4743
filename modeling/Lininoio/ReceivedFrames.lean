import Lininoio.EventSteps

/-! Runs in which the frames that are received meet a condition, and what the daemon
keeps in them. -/

namespace Lininoio

open StateFault

section Frames

variable {L σ : Type} [NodeLists L] (env : Env σ)

/-- If the callback receives a frame, its sender, the packet and the daemon that
receives it meet the condition. -/
def FrameMeets (C : SockaddrLl → Memory → Daemon L σ → Prop) (arrivals : Arrivals) (cb : FdCallback)
    (s : Etherd L σ) : Prop :=
  cb = .etherRx → ∀ sender payload, arrivals.frame = some (sender, payload) →
    C sender (received s.buf payload) s.daemon

/-- Each callback of `do_handle_fd_events` meets the condition when its turn comes. -/
def CallbacksMeet (C : SockaddrLl → Memory → Daemon L σ → Prop) (arrivals : Arrivals)
    (fds : List Int) : List FdEvent → Etherd L σ → Prop
  | [], _ => True
  | evt :: rest, s =>
    if evt.fd ∈ fds then
      FrameMeets C arrivals evt.cb s ∧ wp (callFdEvent env arrivals evt.cb)
        (fun _ t => CallbacksMeet C arrivals fds rest t) (fun _ _ => True) s
    else CallbacksMeet C arrivals fds rest s

def Wakeup.Meets (C : SockaddrLl → Memory → Daemon L σ → Prop) : Wakeup → Etherd L σ → Prop
  | .ready us fds arrivals, s => CallbacksMeet env C arrivals fds s.daemon.fdEvents (s.waited us)
  | _, _ => True

/-- What is kept when all frames meet the condition. -/
structure KeptIf [LawfulNodeLists L] (env : Env σ) (C : SockaddrLl → Memory → Daemon L σ → Prop)
    (P : Daemon L σ → Prop) : Prop where
  wait : ∀ d us, P d → P { d with timeouts := (selectWait us d.timeouts).2 }
  expired : ∀ d d', AliveOk d → P d → Expired d d' → P d'
  frame : ∀ sender packet d d', AliveOk d → P d → C sender packet d →
    PacketStep env sender packet d d' → P d'
  service : ∀ cs d d' E, P d → SetupRun (Effect.Servicing cs) d d' E → P d'

variable {env} [LawfulNodeLists L] {C : SockaddrLl → Memory → Daemon L σ → Prop}
  {P : Daemon L σ → Prop} {s : Etherd L σ}

omit [LawfulNodeLists L] in
theorem eachIteration_meets {es : List Wakeup}
    (h : ∀ us fds arrivals, Wakeup.ready us fds arrivals ∈ es → ∀ sender payload,
      arrivals.frame = some (sender, payload) → ∀ buf d, C sender (received buf payload) d) :
    EachIteration env (fun e s _ => e.Meets env C s) es s := by
  have hcallbacks : ∀ {fds : List Int} {arrivals : Arrivals} (evts : List FdEvent) (t : Etherd L σ),
      (∀ sender payload, arrivals.frame = some (sender, payload) →
        ∀ buf d, C sender (received buf payload) d) → CallbacksMeet env C arrivals fds evts t := by
    intro fds arrivals evts t hframe
    induction evts generalizing t with
    | nil => trivial
    | cons evt rest ih =>
      by_cases hfd : evt.fd ∈ fds
      · simp only [CallbacksMeet, hfd, if_true]
        exact ⟨fun _ sender payload hp => hframe sender payload hp _ _, wp_of_ok fun _ u _ => ih u⟩
      · simp only [CallbacksMeet, hfd, if_false]
        exact ih t
  induction es generalizing s with
  | nil => trivial
  | cons e es ih =>
    apply wp_of_ok
    intro _ t _
    refine ⟨?_, ih fun us fds arrivals he => h us fds arrivals (List.mem_cons_of_mem _ he)⟩
    cases e with
    | timeout => trivial
    | error => trivial
    | ready us fds arrivals => exact hcallbacks _ _ (h us fds arrivals List.mem_cons_self)

namespace KeptIf

theorem callFdEvent (hP : KeptIf env C P) (h : AliveOk s.daemon) (hs : P s.daemon)
    {arrivals : Arrivals} {cb : FdCallback} (hC : FrameMeets C arrivals cb s) :
    wp (callFdEvent env arrivals cb) (fun _ t => AliveOk t.daemon ∧ P t.daemon)
      (fun _ _ => True) s := by
  by_cases hrx : cb = .etherRx
  · subst hrx
    simp only [Lininoio.callFdEvent]
    cases hframe : arrivals.frame with
    | none => exact ⟨h, hs⟩
    | some frame =>
      obtain ⟨sender, payload⟩ := frame
      simp only [etherRx, wp_bind, wp_modify, wp_get, wp_onDaemon]
      refine wp_mono (wp_etherRxCb_packet env h.table _ _ _) (fun _ d hstep => ?_) fun _ _ _ => trivial
      exact ⟨h.callback env hstep.callback, hP.frame _ _ _ _ h hs (hC rfl _ _ hframe) hstep⟩
  · refine wp_mono (wp_callFdEvent_service env arrivals hrx) (fun _ t ht => ?_) fun _ _ _ => trivial
    obtain ⟨⟨E, hrun⟩, -⟩ := ht
    exact ⟨h.quiet (hrun.mono fun e _ he => he.quiet), hP.service _ _ _ _ hs hrun⟩

theorem handleFdEvents (hP : KeptIf env C P) {arrivals : Arrivals} {fds : List Int}
    {evts : List FdEvent} (h : AliveOk s.daemon) (hs : P s.daemon)
    (hC : CallbacksMeet env C arrivals fds evts s) :
    wp (handleFdEvents env arrivals fds evts) (fun _ t => AliveOk t.daemon ∧ P t.daemon)
      (fun _ _ => True) s := by
  induction evts generalizing s with
  | nil => exact ⟨h, hs⟩
  | cons evt rest ih =>
    by_cases hfd : evt.fd ∈ fds
    · simp only [CallbacksMeet, hfd, if_true] at hC
      simp only [Lininoio.handleFdEvents, hfd, if_true, wp_bind]
      refine wp_mono (wp_and (hP.callFdEvent h hs hC.1) hC.2) (fun _ t ht => ?_) fun _ _ _ => trivial
      exact ih ht.1.1 ht.1.2 ht.2
    · simp only [CallbacksMeet, hfd, if_false] at hC
      simp only [Lininoio.handleFdEvents, hfd, if_false]
      exact ih h hs hC

theorem eventIteration (hP : KeptIf env C P) {e : Wakeup} (h : AliveOk s.daemon) (hs : P s.daemon)
    (hC : e.Meets env C s) :
    wp (eventIteration env e) (fun _ t => AliveOk t.daemon ∧ P t.daemon) (fun _ _ => True) s := by
  cases e with
  | timeout =>
    refine wp_mono (wp_iteration_timeout env h) (fun _ t hstep => ?_) fun _ _ _ => trivial
    refine ⟨h.iterate env hstep, ?_⟩
    cases hstep with
    | nothingScheduled => exact hs
    | timeout _ hexp => exact hP.expired _ _ (h.waited _) (hP.wait _ _ hs) hexp
  | error us => exact ⟨h.waited us, hP.wait _ us hs⟩
  | ready us fds arrivals =>
    simp only [Lininoio.eventIteration, wp_bind, wp_waitInSelect, wp_get]
    exact hP.handleFdEvents (s := s.waited us) (h.waited us) (hP.wait _ us hs) hC

/-- In a run all of whose frames meet the condition, it holds in every state that is reached. -/
theorem eachIteration (hP : KeptIf env C P) {es : List Wakeup} (h : AliveOk s.daemon)
    (hs : P s.daemon) (hC : EachIteration env (fun e s _ => e.Meets env C s) es s) :
    EachIteration env (fun _ _ t => AliveOk t.daemon ∧ P t.daemon) es s := by
  induction es generalizing s with
  | nil => trivial
  | cons e es ih =>
    apply wp_of_ok
    intro _ t ht
    obtain ⟨hmeets, hrest⟩ := wp_ok hC ht
    have hkept := wp_ok (hP.eventIteration h hs hmeets) ht
    exact ⟨hkept, ih hkept.1 hkept.2 hrest⟩

end KeptIf

end Frames

end Lininoio
