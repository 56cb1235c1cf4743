import Lininoio.MainLoop

/-! The main loop with all of its descriptors: `do_handle_fd_events` of
util/fd_event.c, `do_udev_event` of util/udev-events.c, and the callbacks of the
remote processors and their backend devices in etherd/lininoio-ether.c. -/

namespace Lininoio

open StateFault Timeval

structure UdevDevice where
  action : List UInt8
  syspath : List UInt8
  /-- What strtoul makes of the attribute `phy_offset`. -/
  phyOffset : Option Nat
  minor : Nat
deriving DecidableEq

/-- `_action_to_id` -/
def actionToId (action : List UInt8) : Option UdevEventId :=
  if action = asciiBytes "add" then some .newVirtioBackend
  else if action = asciiBytes "remove" then some .delVirtioBackend
  else none

/-- `rindex(path, '/') + 1` -/
def basename (path : List UInt8) : Option (List UInt8) :=
  if 47 ∈ path then some (path.reverse.takeWhile (fun b => b ≠ 47)).reverse else none

def backendPath (name : List UInt8) : List UInt8 := snprintf (pathMax - 1) (asciiBytes "/dev/" ++ name)

section Backends

variable {L σ : Type} (env : Env σ)

def matchBackend (core : CorePtr) (minor : Nat) : EtherM L σ (Nat × Option ChanPtr) := do
  let node ← readNode (← readCore core).node
  if h : minor / 2 < lininoioMaxNchannels then
    return (minor % 2, node.channels ⟨minor / 2, h⟩)
  -- the channel is read from behind the table
  else throw .overrun

def virtioBackendAdd (dev : UdevDevice) (core : CorePtr) : EtherM L σ Unit := do
  emit (.virtioBackendAdd core dev.syspath)
  match basename dev.syspath with
  -- rindex returns NULL, and 1 is added to it
  | none => throw .wildRead
  | some name => do
    if (← sys env (.malloc .backend)) < 0 then
      return
    match dev.phyOffset with
    | none => do
      let _ ← sys env (.free .backend)
    | some phyOffset => do
      let devname := backendPath name
      let fd ← sys env (.openBackend devname)
      if fd < 0 then
        let _ ← sys env (.free .backend)
        return
      let vbe := (← get).backends.length
      if (← addFdEvent env fd (.virtioBackend vbe)) then
        let mem ← sys env (.mmapBackend fd)
        let (vringIndex, channel) ← matchBackend core dev.minor
        let new : VirtioBackend :=
          ⟨devname, fd, decide (0 ≤ mem), phyOffset, dev.minor, vringIndex, core, channel⟩
        emit (.newBackend new)
        modify (fun s => { s with backends := s.backends ++ [new] })
      else
        let _ ← sys env (.close fd)
        let _ ← sys env (.free .backend)

/-- The loop of `do_udev_event`; no event is taken out of the list. -/
def callUdevEvents (dev : UdevDevice) (id : UdevEventId) : List UdevEvent → EtherM L σ Unit
  | [] => return
  | evt :: rest => do
    if evt.id = id then
      virtioBackendAdd env dev evt.cbData
    callUdevEvents dev id rest

/-- `do_udev_event`, for the device `udev_monitor_receive_device` returns. -/
def doUdevEvent (dev : Option UdevDevice) : EtherM L σ Unit := do
  match dev with
  | none => return
  | some dev =>
    match actionToId dev.action with
    | none => return
    | some id => callUdevEvents env dev id (← get).udevEvents

def virtioBackendReadable (vbe : Nat) : EtherM L σ Unit := do
  match (← get).backends[vbe]? with
  | none => throw .useAfterFree
  | some backend =>
    if backend.mapped then return
    -- the first descriptor of the vring is read through `MAP_FAILED`
    throw .wildRead

def startCb (core : CorePtr) : EtherM L σ Unit := do
  let _ ← sys env (.read (← readCore core).pd.startFd)

def stopCb (core : CorePtr) : EtherM L σ Unit := do
  let _ ← sys env (.read (← readCore core).pd.stopFd)

end Backends

/-- What the callbacks read: a frame from the socket and a device from the udev
monitor, `none` standing for a failure. -/
structure Arrivals where
  frame : Option (SockaddrLl × List UInt8)
  device : Option UdevDevice

/-- How select returns: 0, -1, or with some descriptors ready. -/
inductive Wakeup
  | timeout
  | error (us : Nat)
  | ready (us : Nat) (fds : List Int) (arrivals : Arrivals)

section Loop

variable {L σ : Type} [NodeLists L] (env : Env σ)

def callFdEvent (arrivals : Arrivals) : FdCallback → EtherdM L σ Unit
  | .etherRx =>
    match arrivals.frame with
    | none => return
    | some (sender, payload) => etherRx env sender payload
  | .udevMonitor => onDaemon (doUdevEvent env arrivals.device)
  | .start c => onDaemon (startCb env c)
  | .stop c => onDaemon (stopCb env c)
  | .virtioBackend vbe => onDaemon (virtioBackendReadable vbe)

/-- `do_handle_fd_events`. A descriptor that a callback registers was not passed to
select, so the walk is one of the events registered before. -/
def handleFdEvents (arrivals : Arrivals) (fds : List Int) : List FdEvent → EtherdM L σ Unit
  | [] => return
  | evt :: rest => do
    if evt.fd ∈ fds then
      callFdEvent env arrivals evt.cb
    handleFdEvents arrivals fds rest

/-- One round of the loop of `main`. -/
def eventIteration : Wakeup → EtherdM L σ Unit
  | .timeout => iteration env .timeout
  | .error us => waitInSelect us
  | .ready us fds arrivals => do
    waitInSelect us
    handleFdEvents env arrivals fds (← get).daemon.fdEvents

def eventLoop : List Wakeup → EtherdM L σ Unit
  | [] => return
  | e :: rest => do
    eventIteration env e
    eventLoop rest

@[simp] theorem wp_eventLoop_nil (Q : Unit → Etherd L σ → Prop)
    (E : Fault → Etherd L σ → Prop) (s : Etherd L σ) : wp (eventLoop env []) Q E s ↔ Q () s := Iff.rfl

theorem wp_eventLoop_cons (e : Wakeup) (es : List Wakeup) (Q : Unit → Etherd L σ → Prop)
    (E : Fault → Etherd L σ → Prop) (s : Etherd L σ) : wp (eventLoop env (e :: es)) Q E s ↔
      wp (eventIteration env e) (fun _ t => wp (eventLoop env es) Q E t) E s := by
  rw [eventLoop, wp_bind]

/-- `P` relates the states before and after each iteration that ends. -/
def EachIteration (P : Wakeup → Etherd L σ → Etherd L σ → Prop) : List Wakeup → Etherd L σ → Prop
  | [], _ => True
  | e :: es, s =>
    wp (eventIteration env e) (fun _ t => P e s t ∧ EachIteration P es t) (fun _ _ => True) s

variable {env}

theorem EachIteration.mono {P P' : Wakeup → Etherd L σ → Etherd L σ → Prop} {es : List Wakeup}
    {s : Etherd L σ} (h : EachIteration env P es s) (hP : ∀ e s t, P e s t → P' e s t) :
    EachIteration env P' es s := by
  induction es generalizing s with
  | nil => trivial
  | cons e es ih => exact wp_mono h (fun _ t ht => ⟨hP e s t ht.1, ih ht.2⟩) fun _ _ ht => ht

theorem eachIteration_iff {P P' : Wakeup → Etherd L σ → Etherd L σ → Prop} {I : Etherd L σ → Prop}
    (h : ∀ e s, I s → wp (eventIteration env e)
      (fun _ t => (P e s t ↔ P' e s t) ∧ (P e s t → I t)) (fun _ _ => True) s)
    (es : List Wakeup) {s : Etherd L σ} (hs : I s) :
    EachIteration env P es s ↔ EachIteration env P' es s := by
  induction es generalizing s with
  | nil => exact Iff.rfl
  | cons e es ih =>
    have hstep := h e s hs
    constructor
    · intro hP
      refine wp_mono (wp_and hstep hP) (fun _ t ht => ?_) fun _ _ _ => trivial
      exact ⟨ht.1.1.mp ht.2.1, (ih (ht.1.2 ht.2.1)).mp ht.2.2⟩
    · intro hP'
      refine wp_mono (wp_and hstep hP') (fun _ t ht => ?_) fun _ _ _ => trivial
      have hP := ht.1.1.mpr ht.2.1
      exact ⟨hP, (ih (ht.1.2 hP)).mpr ht.2.2⟩

theorem EachIteration.last_of_run {P : Etherd L σ → Prop} {es : List Wakeup} {s t : Etherd L σ}
    (h : EachIteration env (fun _ _ t => P t) es s) (hne : es ≠ [])
    (hrun : eventLoop env es s = .ok () t) :
    P t := by
  induction es generalizing s t with
  | nil => exact absurd rfl hne
  | cons e es ih =>
    have hwp : wp (eventLoop env (e :: es)) (fun _ t => P t) (fun _ _ => True) s := by
      rw [wp_eventLoop_cons]
      refine wp_mono h (fun _ u hu => ?_) fun _ _ _ => trivial
      cases es with
      | nil => exact hu.1
      | cons e' es =>
        unfold wp
        cases hx : eventLoop env (e' :: es) u with
        | error f v => trivial
        | ok a v => exact ih hu.2 (List.cons_ne_nil _ _) hx
    exact wp_ok hwp hrun

theorem not_eachIteration_of_returnsIn {P : Etherd L σ → Prop} {p : Etherd L σ → Bool}
    {es : List Wakeup} {s : Etherd L σ} (h : returnsIn (eventLoop env es) p s = true) (hne : es ≠ [])
    (hp : ∀ t, p t = true → ¬ P t) : ¬ EachIteration env (fun _ _ t => P t) es s := by
  obtain ⟨_, t, hrun, ht⟩ := exists_of_returnsIn h
  intro heach
  exact hp t ht (heach.last_of_run hne hrun)

theorem eventLoop_keeps {I : Etherd L σ → Prop}
    (h : ∀ e s, I s → wp (eventIteration env e) (fun _ t => I t) (fun _ _ => True) s)
    {es : List Wakeup} {s t : Etherd L σ} (hs : I s) (hrun : eventLoop env es s = .ok () t) : I t := by
  have hwp : wp (eventLoop env es) (fun _ t => I t) (fun _ _ => True) s := by
    clear hrun
    induction es generalizing s with
    | nil => exact hs
    | cons e es ih =>
      rw [wp_eventLoop_cons]
      exact wp_mono (h e s hs) (fun _ t ht => ih ht) fun _ _ _ => trivial
  exact wp_ok hwp hrun

end Loop

end Lininoio
