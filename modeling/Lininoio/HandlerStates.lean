import Lininoio.EventSteps

/-! What the protocol handlers and the system keep about their own states, the daemon
keeps in all its runs, as it reaches these states through their functions only. -/

namespace Lininoio

open StateFault

/-- A property of the surroundings that is kept by all calls but those of disconnect and
inbound_packet methods, which the daemon does not make. -/
structure EnvKeeps {σ : Type} (env : Env σ) (I : σ → Prop) : Prop where
  sys : ∀ call w, I w → I (env.sys call w).2
  load : ∀ protoId w, I w → I (env.loadProtoHandler protoId w).2
  connect : ∀ ops f, (env.ops ops).connect = some f → ∀ ch n w, I w → I (f ch n w).2

section Daemon

variable {L σ : Type} {env : Env σ} {I : σ → Prop}

def WorldOk (I : σ → Prop) (s : Daemon L σ) : Prop :=
  I s.world ∧ ∀ n j, (s.node n).channels j = none

theorem preserves_emit (e : Effect) : Preserves (WorldOk I) (emit e : EtherM L σ Unit) := fun _ hs => hs

theorem preserves_sys (hI : EnvKeeps env I) (call : SysCall) :
    Preserves (WorldOk I) (sys env call : EtherM L σ Int) :=
  fun s hs => ⟨hI.sys call s.world hs.1, hs.2⟩

theorem preserves_modifyNode (n : Slot) {f : Node → Node}
    (hf : ∀ node, (∀ j, node.channels j = none) → ∀ j, (f node).channels j = none) :
    Preserves (WorldOk I) (modifyNode n f : EtherM L σ Unit) := by
  intro s hs
  refine ⟨hs.1, fun m j => ?_⟩
  by_cases hm : m = n
  · subst hm
    simpa using hf _ (hs.2 m) j
  · simpa [hm] using hs.2 m j

theorem preserves_readNode (n : Slot) : Preserves (WorldOk I) (readNode n : EtherM L σ Node) :=
  fun _ hs => hs

theorem preserves_readCore (c : CorePtr) : Preserves (WorldOk I) (readCore c : EtherM L σ Core) :=
  fun _ hs => hs

theorem preserves_modifyCore (c : CorePtr) (f : Core → Core) :
    Preserves (WorldOk I) (modifyCore c f : EtherM L σ Unit) := fun _ hs => hs

theorem preserves_readChannel (c : ChanPtr) :
    Preserves (WorldOk I) (readChannel c : EtherM L σ Channel) := by
  intro s hs
  simp only [readChannel, wp_bind, wp_get]
  cases s.chan c <;> exact hs

theorem preserves_writeChannel (c : ChanPtr) (ch : Channel) :
    Preserves (WorldOk I) (writeChannel c ch : EtherM L σ Unit) := fun _ hs => hs

theorem preserves_modifyLists (f : L → L) : Preserves (WorldOk I) (modifyLists f : EtherM L σ Unit) :=
  fun _ hs => hs

theorem preserves_setTimeouts (t : Timeouts ToHandler Slot) :
    Preserves (WorldOk I) (setTimeouts t : EtherM L σ Unit) := fun _ hs => hs

theorem preserves_ofNodeSearch (r : NodeSearch) :
    Preserves (WorldOk I) (ofNodeSearch r : EtherM L σ (Option Slot)) := by
  cases r <;> exact fun _ hs => hs

section Setup

variable (hI : EnvKeeps env I)
include hI

theorem preserves_addFdEvent (fd : Int) (cb : FdCallback) :
    Preserves (WorldOk I) (addFdEvent env fd cb : EtherM L σ Bool) :=
  .bind (preserves_sys hI _) fun _ => .ite (.pure _) (.bind (preserves_emit _) fun _ =>
    .bind (.modify fun _ hs => hs) fun _ => .pure _)

theorem preserves_assignFdEvt (fd : Int) (cb : FdCallback) :
    Preserves (WorldOk I) (assignFdEvt env fd cb : EtherM L σ Int) :=
  .ite (.pure _) (.bind (preserves_addFdEvent hI _ _) fun _ => .ite (.pure _) (.pure _))

theorem preserves_scheduleUdevEvent (id : UdevEventId) (c : CorePtr) :
    Preserves (WorldOk I) (scheduleUdevEvent env id c : EtherM L σ Int) :=
  .bind (preserves_sys hI _) fun _ => .ite (.pure _) (.bind (preserves_emit _) fun _ =>
    .bind (.modify fun _ hs => hs) fun _ => .pure _)

omit hI in
theorem preserves_channelResources (cs : List ChanPtr) :
    Preserves (WorldOk I) (channelResources env cs : EtherM L σ (List (List UInt8))) := by
  induction cs with
  | nil => exact .pure _
  | cons c rest ih =>
    refine .bind (preserves_readChannel c) fun ch => ?_
    have htail : ∀ res : List UInt8, Preserves (WorldOk I)
        (do return res :: (← channelResources env rest) : EtherM L σ (List (List UInt8))) :=
      fun _ => .bind ih fun _ => .pure _
    cases hres : ch.data.resources with
    | some res => simpa only [hres] using .bind (.pure _) htail
    | none => simpa only [hres] using .bind (preserves_emit _) fun _ => .bind (.pure _) htail

theorem preserves_setupRemoteprocFw (c : CorePtr) :
    Preserves (WorldOk I) (setupRemoteprocFw env c : EtherM L σ (Option (List UInt8))) := by
  refine .bind (preserves_readCore c) fun core => .ite (.pure _) (.bind (preserves_sys hI _) fun fd =>
    .ite (.pure _) (.bind (preserves_sys hI _) fun _ => .ite (.pure _) ?_))
  refine .bind (preserves_channelResources _) fun _ => ?_
  exact .bind (preserves_sys hI _) fun _ => .bind (preserves_sys hI _) fun _ => .pure _

theorem preserves_setupRemoteprocErr1 (fd : Int) :
    Preserves (WorldOk I) (setupRemoteprocErr1 env fd : EtherM L σ Unit) :=
  .bind (preserves_sys hI _) fun _ => .bind (preserves_sys hI _) fun _ => .pure _

theorem preserves_setupRemoteprocErr2 (name : List UInt8) (fd : Int) :
    Preserves (WorldOk I) (setupRemoteprocErr2 env name fd : EtherM L σ Unit) :=
  .bind (preserves_sys hI _) fun _ => preserves_setupRemoteprocErr1 hI fd

theorem preserves_setupRemoteproc (c : CorePtr) :
    Preserves (WorldOk I) (setupRemoteproc env c : EtherM L σ Unit) := by
  refine .bind (preserves_emit _) fun _ => .bind (preserves_sys hI _) fun fd => .ite (.pure _) ?_
  refine .bind (preserves_sys hI _) fun _ => .ite (.bind (preserves_sys hI _) fun _ => .pure _) ?_
  refine .bind (preserves_setupRemoteprocFw hI c) fun name => ?_
  cases name with
  | none => exact preserves_setupRemoteprocErr1 hI fd
  | some name =>
    refine .bind (preserves_modifyCore c _) fun _ => .bind (preserves_sys hI _) fun _ =>
      .bind (preserves_assignFdEvt hI _ _) fun _ => .bind (preserves_modifyCore c _) fun _ => ?_
    refine .bind (preserves_sys hI _) fun _ => .bind (preserves_assignFdEvt hI _ _) fun _ =>
      .bind (preserves_modifyCore c _) fun _ => .bind (preserves_scheduleUdevEvent hI _ _) fun _ => ?_
    refine .ite (.bind (preserves_setupRemoteprocErr2 hI _ _) fun _ => .pure _) ?_
    exact .bind (preserves_readCore c) fun _ => .bind (preserves_sys hI _) fun _ =>
      .ite (preserves_setupRemoteprocErr2 hI _ _) (.pure _)

theorem preserves_setupCores (cores : Fin lininoioMaxNcores → Option CorePtr)
    (is : List (Fin lininoioMaxNcores)) :
      Preserves (WorldOk I) (setupCores env cores is : EtherM L σ Unit) := by
  induction is with
  | nil => exact .pure _
  | cons i rest ih =>
    unfold setupCores
    cases cores i with
    | none => exact .pure _
    | some c => exact .bind (preserves_setupRemoteproc hI c) fun _ => ih

theorem preserves_setupRemoteprocs (n : Slot) :
    Preserves (WorldOk I) (setupRemoteprocs env n : EtherM L σ Int) :=
  .bind (preserves_readNode n) fun _ => .bind (preserves_setupCores hI _ _) fun _ => .pure _

end Setup

section Connecting

theorem preserves_cancelAliveTimeout (a : Option Nat) :
    Preserves (WorldOk I) (cancelAliveTimeout a : EtherM L σ Unit) := by
  cases a with
  | none => exact .throw _
  | some a =>
    refine .bind .get fun s => ?_
    cases cancelTimeout a s.timeouts with
    | none => exact .throw _
    | some t => exact preserves_setTimeouts t

theorem preserves_fillVecs (c : Option ChanPtr) (left i : Nat) (vecs : List (Option (List UInt8))) :
    Preserves (WorldOk I) (fillVecs env c left i vecs : EtherM L σ (List (Option (List UInt8)))) := by
  induction left using Nat.strong_induction_on generalizing i vecs with
  | _ left ih =>
    cases c with
    | none =>
      rw [fillVecs]
      exact .pure _
    | some c =>
      rcases left with _ | _ | left
      · exact .throw _
      · exact .bind (preserves_readChannel c) fun _ => .throw _
      · exact .bind (preserves_readChannel c) fun _ => ih left (by omega) _ _

variable (hI : EnvKeeps env I)
include hI

theorem preserves_scheduleAliveTimeout (n : Slot) :
    Preserves (WorldOk I) (scheduleAliveTimeout env n : EtherM L σ (Option Nat)) :=
  .bind (preserves_sys hI _) fun _ => .bind .get fun _ =>
    .bind (preserves_setTimeouts _) fun _ => .pure _

theorem preserves_lininoioFindProtoOps (protoId : UInt16) :
    Preserves (WorldOk I) (lininoioFindProtoOps env protoId : EtherM L σ (Option OpsPtr)) := by
  refine .bind .get fun s => ?_
  cases s.lininoioOps with
  | none => exact .pure _
  | some table =>
    refine .ite (.pure _) ?_
    cases table protoId with
    | some ops => exact .pure _
    | none =>
      intro s hs
      have hload := hI.load protoId s.world hs.1
      simp only [wp_bind, wp_get, wp_set]
      cases (env.loadProtoHandler protoId s.world).1 with
      | none => exact ⟨hload, hs.2⟩
      | some ops => exact ⟨hload, hs.2⟩

theorem preserves_getCore (n : Slot) (coreId : Fin lininoioMaxNcores) :
    Preserves (WorldOk I) (getCore env n coreId : EtherM L σ (Option CorePtr)) := by
  refine .bind (preserves_readNode n) fun node => ?_
  cases node.cores coreId with
  | some core => exact .pure _
  | none =>
    refine .bind (preserves_sys hI _) fun _ => .ite (.pure _)
      (.bind .get fun _ => .bind (.modify fun _ hs => hs) ?_)
    exact fun _ => .bind (preserves_modifyNode n fun _ h => h) fun _ => .pure _

theorem preserves_newChannel (n : Slot) (i : Nat) (cdescr : UInt16) :
    Preserves (WorldOk I) (newChannel env n i cdescr : EtherM L σ (Option ChanPtr)) := by
  refine .bind (preserves_getCore hI n _) fun core => ?_
  cases core with
  | none => exact .pure _
  | some core =>
    refine .bind (preserves_sys hI _) fun _ => .ite (.pure _)
      (.bind .get fun _ => .bind (.modify fun _ hs => hs) ?_)
    exact fun _ => .bind (preserves_modifyCore core _) fun _ => .pure _

theorem preserves_addChannel (n : Slot) (packet : Memory) (i : Nat) :
    Preserves (WorldOk I) (addChannel env n packet i : EtherM L σ Int) := by
  refine .bind (preserves_newChannel hI n i _) fun c => ?_
  cases c with
  | none => exact .throw _
  | some c =>
    refine .bind (preserves_lininoioFindProtoOps hI _) fun ops =>
      .bind (preserves_writeChannel c _) fun _ => ?_
    cases ops with
    | none => exact .pure _
    | some ops =>
      cases hconnect : (env.ops ops).connect with
      | none => simpa only [hconnect] using .pure _
      | some connect =>
        intro s hs
        simp only [hconnect, wp_bind, wp_get, wp_set, wp_writeChannel, wp_emit, wp_pure]
        exact ⟨hI.connect ops connect hconnect _ _ _ hs.1, hs.2⟩

theorem preserves_addChannels (n : Slot) (packet : Memory) (is : List Nat) :
    Preserves (WorldOk I) (addChannels env n packet is : EtherM L σ Int) := by
  induction is with
  | nil => exact .pure _
  | cons i rest ih => exact .bind (preserves_addChannel hI n packet i) fun _ => .ite (.pure _) ih

theorem preserves_etherSendAreply (n : Slot) (stat : Int) :
    Preserves (WorldOk I) (etherSendAreply env n stat : EtherM L σ Int) := by
  refine .bind (preserves_sys hI _) fun _ => .ite (.pure _) (.bind (preserves_readNode n) fun _ => ?_)
  exact .bind (preserves_fillVecs _ _ _ _) fun _ => preserves_sys hI _

end Connecting

section Ether

variable [NodeLists L]

theorem preserves_findNode (sender : SockaddrLl) :
    Preserves (WorldOk I) (findNode sender : EtherM L σ (Option Slot)) :=
  .bind .get fun _ => preserves_ofNodeSearch _

theorem preserves_getNode (sender : SockaddrLl) :
    Preserves (WorldOk I) (getNode sender : EtherM L σ (Option Slot)) := by
  refine .bind .get fun _ => .bind (preserves_ofNodeSearch _) fun out => ?_
  cases out with
  | none => exact .pure _
  | some out =>
    refine .bind (preserves_emit _) fun _ => .bind (preserves_modifyNode out fun _ _ _ => rfl) fun _ =>
      .bind (preserves_modifyLists _) fun _ => ?_
    exact .bind (preserves_modifyNode out fun _ h => h) fun _ => .pure _

theorem preserves_killNode (n : Slot) : Preserves (WorldOk I) (killNode env n : EtherM L σ Unit) := by
  intro s hs
  rw [wp_killNode env (hs.2 n 0)]
  exact hs

variable (hI : EnvKeeps env I)
include hI

theorem preserves_concludeArequest (n : Slot) (stat : Int) :
    Preserves (WorldOk I) (concludeArequest env n stat : EtherM L σ Unit) := by
  have hkill : ∀ stat : Int, Preserves (WorldOk I) (do
      let _ ← etherSendAreply env n stat
      if stat ≠ 0 then
        cancelAliveTimeout (← readNode n).aliveTo
        killNode env n : EtherM L σ Unit) :=
    fun stat => .bind (preserves_etherSendAreply hI n stat) fun _ =>
      .ite (.bind (preserves_readNode n) fun _ =>
      .bind (preserves_cancelAliveTimeout _) fun _ => preserves_killNode n) (.pure _)
  exact .ite (.bind (preserves_setupRemoteprocs hI n) hkill) (.bind (.pure _) hkill)

theorem preserves_associate (n : Slot) (packet : Memory) :
    Preserves (WorldOk I) (associate env n packet : EtherM L σ Unit) := by
  refine .bind (preserves_modifyNode n fun _ h => h) fun _ =>
    .bind (preserves_scheduleAliveTimeout hI n) fun _ => ?_
  refine .bind (preserves_modifyNode n fun _ h => h) fun _ =>
    .bind (preserves_modifyLists _) fun _ => ?_
  refine .bind (preserves_modifyNode n fun _ h => h) fun _ => ?_
  exact .bind (preserves_addChannels hI n packet _) fun _ => preserves_concludeArequest hI n _

theorem preserves_etherRxArequest (sender : SockaddrLl) (packet : Memory) (len : Nat) :
    Preserves (WorldOk I) (etherRxArequest env sender packet len : EtherM L σ Unit) := by
  refine .ite (.pure _) (.bind (preserves_findNode sender) fun known => ?_)
  cases known with
  | some n => exact .bind (preserves_etherSendAreply hI n 0) fun _ => .pure _
  | none =>
    refine .bind (preserves_getNode sender) fun out => ?_
    cases out with
    | none => exact .pure _
    | some n => exact preserves_associate hI n packet

theorem preserves_etherRxCb (sender : SockaddrLl) (p : Memory) (len : Nat) :
    Preserves (WorldOk I) (etherRxCb env sender p len : EtherM L σ Unit) := by
  unfold etherRxCb
  cases LininoioPacketType.ofByte (p 0) with
  | none => exact .pure _
  | some type =>
    cases type with
    | areply => exact .pure _
    | arequest => exact preserves_etherRxArequest hI sender p len
    | data =>
      intro s hs
      refine wp_mono (wp_etherDataPacket env hs.2 sender.sllAddr p) ?_ ?_
      · rintro _ t rfl
        exact hs
      · intro _ t ht
        obtain ⟨-, rfl⟩ := ht
        exact hs

end Ether

section Backends

variable (hI : EnvKeeps env I)
include hI

theorem preserves_virtioBackendAdd (dev : UdevDevice) (c : CorePtr) :
    Preserves (WorldOk I) (virtioBackendAdd env dev c : EtherM L σ Unit) := by
  refine .bind (preserves_emit _) fun _ => ?_
  cases basename dev.syspath with
  | none => exact .throw _
  | some name =>
    refine .bind (preserves_sys hI _) fun _ => .ite (.pure _) ?_
    cases dev.phyOffset with
    | none => exact .bind (preserves_sys hI _) fun _ => .pure _
    | some phyOffset =>
      refine .bind (preserves_sys hI _) fun fd => .ite (.bind (preserves_sys hI _) fun _ => .pure _) ?_
      refine .bind .get fun _ => .bind (preserves_addFdEvent hI _ _) fun _ => .ite ?_ ?_
      · refine .bind (preserves_sys hI _) fun _ => .bind ?_ fun _ => ?_
        · refine .bind (preserves_readCore c) fun core => .bind (preserves_readNode _) fun node => ?_
          by_cases hminor : dev.minor / 2 < lininoioMaxNchannels
          · simpa only [hminor, dite_true] using .pure _
          · simpa only [hminor, dite_false] using .throw _
        · exact .bind (preserves_emit _) fun _ => .modify fun _ hs => hs
      · exact .bind (preserves_sys hI _) fun _ => .bind (preserves_sys hI _) fun _ => .pure _

theorem preserves_callUdevEvents (dev : UdevDevice) (id : UdevEventId) (evts : List UdevEvent) :
    Preserves (WorldOk I) (callUdevEvents env dev id evts : EtherM L σ Unit) := by
  induction evts with
  | nil => exact .pure _
  | cons evt rest ih => exact .ite (.bind (preserves_virtioBackendAdd hI dev _) fun _ => ih) ih

theorem preserves_doUdevEvent (dev : Option UdevDevice) :
    Preserves (WorldOk I) (doUdevEvent env dev : EtherM L σ Unit) := by
  unfold doUdevEvent
  cases dev with
  | none => exact .pure _
  | some dev =>
    cases hid : actionToId dev.action with
    | none => simpa only [hid] using .pure _
    | some id => simpa only [hid] using .bind .get fun s => preserves_callUdevEvents hI dev id _

theorem preserves_startCb (c : CorePtr) : Preserves (WorldOk I) (startCb env c : EtherM L σ Unit) :=
  .bind (preserves_readCore c) fun _ => .bind (preserves_sys hI _) fun _ => .pure _

theorem preserves_stopCb (c : CorePtr) : Preserves (WorldOk I) (stopCb env c : EtherM L σ Unit) :=
  .bind (preserves_readCore c) fun _ => .bind (preserves_sys hI _) fun _ => .pure _

omit hI in
theorem preserves_virtioBackendReadable (vbe : Nat) :
    Preserves (WorldOk I) (virtioBackendReadable vbe : EtherM L σ Unit) := by
  refine .bind .get fun s => ?_
  cases s.backends[vbe]? with
  | none => exact .throw _
  | some backend => exact .ite (.pure _) (.throw _)

end Backends

section Loop

variable [NodeLists L] (hI : EnvKeeps env I)
include hI

theorem preserves_callFdEvent (arrivals : Arrivals) (cb : FdCallback) :
    Preserves (fun s => WorldOk I s.daemon) (callFdEvent env arrivals cb : EtherdM L σ Unit) := by
  have hdaemon : ∀ {x : EtherM L σ Unit}, Preserves (WorldOk I) x →
      Preserves (fun s => WorldOk I s.daemon) (onDaemon x : EtherdM L σ Unit) := by
    intro x hx s hs
    rw [wp_onDaemon]
    exact hx s.daemon hs
  cases cb with
  | etherRx =>
    unfold callFdEvent
    cases arrivals.frame with
    | none => exact .pure _
    | some frame =>
      refine .bind (.modify fun _ hs => hs) fun _ => .bind .get fun s => ?_
      exact hdaemon (preserves_etherRxCb hI _ _ _)
  | udevMonitor => exact hdaemon (preserves_doUdevEvent hI _)
  | start c => exact hdaemon (preserves_startCb hI c)
  | stop c => exact hdaemon (preserves_stopCb hI c)
  | virtioBackend vbe => exact hdaemon (preserves_virtioBackendReadable vbe)

theorem preserves_handleFdEvents (arrivals : Arrivals) (fds : List Int) (evts : List FdEvent) :
    Preserves (fun s => WorldOk I s.daemon)
      (handleFdEvents env arrivals fds evts : EtherdM L σ Unit) := by
  induction evts with
  | nil => exact .pure _
  | cons evt rest ih => exact .ite (.bind (preserves_callFdEvent hI arrivals _) fun _ => ih) ih

variable [LawfulNodeLists L]

omit [LawfulNodeLists L] hI in
theorem Expired.world {s t : Daemon L σ} (h : Expired s t) : t.world = s.world := by
  induction h with
  | done => rfl
  | round e rest _ _ _ ih => exact ih

theorem wp_eventIteration_world {s : Etherd L σ} (hok : AliveOk s.daemon) (hs : I s.daemon.world)
    (e : Wakeup) :
    wp (eventIteration env e) (fun _ t => I t.daemon.world) (fun _ _ => True) s := by
  cases e with
  | error us => exact hs
  | timeout =>
    refine wp_mono (wp_iteration_timeout env hok) ?_ fun _ _ hf => hf.elim
    rintro _ t hstep
    cases hstep with
    | nothingScheduled => exact hs
    | timeout htv hexp =>
      rw [hexp.world]
      exact hs
  | ready us fds arrivals =>
    simp only [eventIteration, wp_bind, wp_waitInSelect, wp_get]
    refine wp_mono (preserves_handleFdEvents hI arrivals fds _ _ ⟨hs, hok.table⟩)
      (fun _ t ht => ht.1) ?_
    exact fun _ _ _ => trivial

theorem eventLoop_world {w : σ} (hw : I w) {udevFd netifFd : Int} {es : List Wakeup} {s : Etherd L σ}
    (h : eventLoop env es (etherdInit w udevFd netifFd) = .ok () s) : AliveOk s.daemon ∧
      I s.daemon.world := by
  refine eventLoop_keeps (I := fun s => AliveOk s.daemon ∧ I s.daemon.world) (fun e s hs => ?_)
    ⟨aliveOk_init w udevFd netifFd, hw⟩ h
  refine wp_mono (wp_and (wp_eventIteration env hs.1 e) (wp_eventIteration_world hI hs.1 hs.2 e)) ?_
    fun _ _ _ => trivial
  exact fun _ t ht => ⟨hs.1.eventStep env ht.1, ht.2⟩

end Loop

end Daemon

end Lininoio
