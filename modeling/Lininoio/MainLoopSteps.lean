import Lininoio.AliveTimeouts

/-! What one iteration of the main loop can do to the daemon, and from it the
invariant of all runs: alive timeouts and associations match. -/

namespace Lininoio

open StateFault Timeval CircularLinks

section Callbacks

variable {L σ : Type} [NodeLists L] (env : Env σ) {s t : Daemon L σ}

inductive CallbackStep (env : Env σ) (sender : SockaddrLl) (s t : Daemon L σ) : Prop
  | quiet {E : List Effect} (h : SetupRun Effect.Quiet s t E) (hreply : ∀ e ∈ E, e.Replying)
  | request {packet : Memory} {n : Slot} {s₁ s₂ u : Daemon L σ} {mem stat : Int}
      {C S R : List Effect} {q : Timeouts ToHandler Slot} (hacc : Accepted sender packet n s)
      (hrun : AssociationRun env n packet (handOut n sender s) s₁ s₂ u mem stat C S R)
      (hcancel : stat ≠ 0 → ∃ a, (s₁.node n).aliveTo = some a ∧ cancelTimeout a s₁.timeouts = some q)
      (ht : t = closeArequest n stat q u)

/-- The same for the packet that is received. -/
inductive PacketStep (env : Env σ) (sender : SockaddrLl) (packet : Memory) (s t : Daemon L σ) : Prop
  | quiet {E : List Effect} (h : SetupRun Effect.Quiet s t E) (hreply : ∀ e ∈ E, e.Replying)
  | request {n : Slot} {s₁ s₂ u : Daemon L σ} {mem stat : Int} {C S R : List Effect}
      {q : Timeouts ToHandler Slot} (htype : packet 0 = 1) (hacc : Accepted sender packet n s)
      (hrun : AssociationRun env n packet (handOut n sender s) s₁ s₂ u mem stat C S R)
      (hcancel : stat ≠ 0 → ∃ a, (s₁.node n).aliveTo = some a ∧ cancelTimeout a s₁.timeouts = some q)
      (ht : t = closeArequest n stat q u)

theorem PacketStep.callback {env : Env σ} {sender : SockaddrLl} {packet : Memory}
    (h : PacketStep env sender packet s t) : CallbackStep env sender s t := by
  cases h with
  | quiet h hreply => exact .quiet h hreply
  | request _ hacc hrun hcancel ht => exact .request hacc hrun hcancel ht

/-- A walk of `nodes` that does not end as the program expects stops it on the spot. -/
def StoppedByWalk (f : Fault) (s t : Daemon L σ) : Prop := (f = .endless ∨ f = .wildRead) ∧ t = s

/-- Otherwise only an allocation that fails stops it, before any node is killed. -/
def StoppedBy (env : Env σ) (f : Fault) (s t : Daemon L σ) : Prop :=
  StoppedByWalk f s t ∨ (f = .nullDeref ∧ MallocFails env ∧
    ∃ E, t.trace = s.trace ++ E ∧ ∀ n, .killNode n ∉ E)

theorem wp_etherDataPacket (h : ∀ n j, (s.node n).channels j = none) (mac : Vector UInt8 8)
    (dp : Memory) :
    wp (etherDataPacket env mac dp) (fun _ t => t = s) (fun f t => StoppedByWalk f s t) s := by
  simp only [etherDataPacket, wp_bind, macToNode, wp_get, wp_ofNodeSearch]
  refine ⟨fun n _ => ?_, fun _ => rfl, fun _ => ⟨.inr rfl, rfl⟩, fun _ => ⟨.inl rfl, rfl⟩⟩
  simp only [wp_dite, wp_bind, wp_readNode, h, wp_pure, implies_true, and_self]

theorem wp_etherRxArequest (h : ∀ n j, (s.node n).channels j = none) (sender : SockaddrLl)
    {packet : Memory} (htype : packet 0 = 1) (len : Nat) :
    wp (etherRxArequest env sender packet len) (fun _ t => PacketStep env sender packet s t)
      (fun f t => StoppedBy env f s t) s := by
  have hself : PacketStep env sender packet s s := .quiet (.refl s) (by simp)
  have hwalk : ∀ {f : Fault}, f = .endless ∨ f = .wildRead → StoppedBy env f s s :=
    fun hf => .inl ⟨hf, rfl⟩
  by_cases hbig : lininoioMaxNchannels < (ArequestPacket.nchannels packet).toNat
  · simp only [etherRxArequest, hbig, if_true, wp_pure]
    exact hself
  simp only [etherRxArequest, if_neg hbig, wp_bind, findNode, wp_get, wp_pure,
    wp_ofNodeSearch, wp_getNode]
  refine ⟨fun n _ => ?_, fun hfind => ⟨fun n hfree => ?_, fun _ => hself, fun _ => hwalk (.inr rfl),
    fun _ => hwalk (.inl rfl)⟩, fun _ => hwalk (.inr rfl), fun _ => hwalk (.inl rfl)⟩
  · refine wp_mono (wp_etherSendAreply env (h n 0) 0) ?_ (fun _ _ hf => hf.elim)
    intro _ t ht
    obtain ⟨R, hrun, -⟩ := ht
    exact .quiet (hrun.mono fun e _ he => he.quiet) hrun.effects
  · refine wp_mono (wp_associate env (s := handOut n sender s) (by simp [handOut, Node.recycled])
      (by simp [handOut, Node.recycled])) ?_ ?_
    rotate_left
    · intro f t ht
      obtain ⟨hf, hmalloc, -, E, hE, hquiet⟩ := ht
      refine .inr ⟨hf, hmalloc, .getNode n :: E, by simp [hE, handOut], fun m hm => ?_⟩
      exact hquiet _ (by simpa using hm)
    intro _ t ht
    obtain ⟨s₁, s₂, u, mem, stat, C, S, R, q, hrun, hcancel, rfl⟩ := ht
    exact .request htype ⟨not_lt.mp hbig, hfind, hfree⟩ hrun hcancel rfl

theorem wp_etherRxCb_packet (h : ∀ n j, (s.node n).channels j = none) (sender : SockaddrLl)
    (p : Memory) (len : Nat) : wp (etherRxCb env sender p len)
      (fun _ t => PacketStep env sender p s t) (fun f t => StoppedBy env f s t) s := by
  have hself : PacketStep env sender p s s := .quiet (.refl s) (by simp)
  unfold etherRxCb
  cases htype : LininoioPacketType.ofByte (p 0) with
  | none => exact hself
  | some type =>
    cases type with
    | data =>
      refine wp_mono (wp_etherDataPacket env h _ _) ?_ (fun _ _ hf => .inl hf)
      rintro _ t rfl
      exact hself
    | arequest => exact wp_etherRxArequest env h _ (ofByte_eq_arequest.mp htype) _
    | areply => exact hself

theorem wp_etherRxCb (h : ∀ n j, (s.node n).channels j = none) (sender : SockaddrLl) (p : Memory)
    (len : Nat) : wp (etherRxCb env sender p len) (fun _ t => CallbackStep env sender s t)
      (fun f t => StoppedBy env f s t) s :=
  wp_mono (wp_etherRxCb_packet env h sender p len) (fun _ _ ht => ht.callback) fun _ _ hf => hf

theorem AliveOk.callback [LawfulNodeLists L] {sender : SockaddrLl} (h : AliveOk s)
    (hstep : CallbackStep env sender s t) : AliveOk t := by
  cases hstep with
  | quiet hrun => exact h.quiet hrun
  | request hacc hrun hcancel ht => exact ht ▸ h.request env hacc hrun hcancel

end Callbacks

section Iterations

variable {L σ : Type} {s t : Etherd L σ}

def Etherd.waited (us : Nat) (s : Etherd L σ) : Etherd L σ :=
  { s with
    daemon := { s.daemon with timeouts := (selectWait us s.daemon.timeouts).2 }
    now := s.now + (selectWait us s.daemon.timeouts).1 }

@[simp] theorem wp_waitInSelect (us : Nat) (Q : Unit → Etherd L σ → Prop)
    (E : Fault → Etherd L σ → Prop) :
    wp (waitInSelect us) Q E s ↔ Q () (s.waited us) := Iff.rfl

variable [NodeLists L] (env : Env σ)

inductive IterationStep (env : Env σ) : MainEvent → Etherd L σ → Etherd L σ → Prop
  | nothingScheduled {s : Etherd L σ} (h : getNextTimeout s.daemon.timeouts = none) :
      IterationStep env .timeout s s
  | timeout {s t : Etherd L σ} {tv : Timeval} (h : getNextTimeout s.daemon.timeouts = some tv)
      (hexp : Expired (s.waited tv.micros).daemon t.daemon) (hnow : t.now = (s.waited tv.micros).now) :
      IterationStep env .timeout s t
  | error {s : Etherd L σ} (us : Nat) : IterationStep env (.error us) s (s.waited us)
  | recvError {s : Etherd L σ} (us : Nat) : IterationStep env (.recvError us) s (s.waited us)
  | frame {s t : Etherd L σ} (us : Nat) (sender : SockaddrLl) (payload : List UInt8)
      (hstep : CallbackStep env sender (s.waited us).daemon t.daemon)
      (hnow : t.now = (s.waited us).now) :
      IterationStep env (.frame us sender payload) s t

variable [LawfulNodeLists L]

theorem AliveOk.waited (h : AliveOk s.daemon) (us : Nat) : AliveOk (s.waited us).daemon := h.wait us

theorem wp_iteration_timeout (h : AliveOk s.daemon) :
    wp (iteration env .timeout) (fun _ t => IterationStep env .timeout s t) (fun _ _ => False) s := by
  simp only [iteration, wp_bind, wp_get]
  cases htv : getNextTimeout s.daemon.timeouts with
  | none => exact .nothingScheduled htv
  | some tv =>
    have hne : (s.waited tv.micros).daemon.timeouts.queue ≠ [] := by
      cases hq : s.daemon.timeouts.queue with
      | nil => simp [getNextTimeout, hq] at htv
      | cons e rest => simp [Etherd.waited, selectWait, hq]
    simp only [wp_bind, wp_waitInSelect, wp_onDaemon]
    exact wp_mono (wp_handleTimeouts env (h.waited tv.micros) hne)
      (fun _ d hexp => .timeout htv hexp rfl) (fun _ _ hf => hf)

theorem wp_iteration (h : AliveOk s.daemon) (e : MainEvent) :
    wp (iteration env e) (fun _ t => IterationStep env e s t)
      (fun f t => ((f = .endless ∨ f = .wildRead) ∧ t.daemon.trace = s.daemon.trace) ∨
        (f = .nullDeref ∧ MallocFails env)) s := by
  cases e with
  | error us => exact .error us
  | recvError us => exact .recvError us
  | timeout => exact wp_mono (wp_iteration_timeout env h) (fun _ _ ht => ht) fun _ _ hf => hf.elim
  | frame us sender payload =>
    simp only [iteration, etherRx, wp_bind, wp_waitInSelect, wp_modify, wp_get, wp_onDaemon]
    exact wp_mono (wp_etherRxCb env (h.waited us).table _ _ _)
      (fun _ d hstep => .frame us sender payload hstep rfl)
      (fun f d hf => hf.imp (fun hwalk => ⟨hwalk.1, by rw [hwalk.2]; rfl⟩) fun hm => ⟨hm.1, hm.2.1⟩)

theorem AliveOk.iterate {e : MainEvent} (h : AliveOk s.daemon) (hstep : IterationStep env e s t) :
    AliveOk t.daemon := by
  cases hstep with
  | nothingScheduled => exact h
  | timeout htv hexp => exact (h.waited _).expired hexp
  | error us => exact h.waited us
  | recvError us => exact h.waited us
  | frame us sender payload hcb => exact (h.waited us).callback env hcb

def MainEvent.From (A : Set SockaddrLl) : MainEvent → Prop
  | .frame _ sender _ => sender ∈ A
  | _ => True

/-- What the daemon keeps as long as all frames come from the addresses. -/
structure Kept (env : Env σ) (A : Set SockaddrLl) (P : Daemon L σ → Prop) : Prop where
  wait : ∀ d us, P d → P { d with timeouts := (selectWait us d.timeouts).2 }
  expired : ∀ d d', AliveOk d → P d → Expired d d' → P d'
  callback : ∀ sender ∈ A, ∀ d d', AliveOk d → P d → CallbackStep env sender d d' → P d'

theorem Kept.iterate {A : Set SockaddrLl} {P : Daemon L σ → Prop} (hP : Kept env A P) {e : MainEvent}
    (h : AliveOk s.daemon) (hs : P s.daemon) (he : e.From A) (hstep : IterationStep env e s t) :
      P t.daemon := by
  cases hstep with
  | nothingScheduled => exact hs
  | timeout _ hexp => exact hP.expired _ _ (h.waited _) (hP.wait _ _ hs) hexp
  | error us => exact hP.wait _ us hs
  | recvError us => exact hP.wait _ us hs
  | frame us sender payload hcb => exact hP.callback sender he _ _ (h.waited us) (hP.wait _ us hs) hcb

variable {env}

theorem Kept.wp_mainLoop {A : Set SockaddrLl} {P : Daemon L σ → Prop} (hP : Kept env A P)
    (h : AliveOk s.daemon) (hs : P s.daemon) {es : List MainEvent} (hes : ∀ e ∈ es, e.From A) :
    wp (mainLoop env es) (fun _ t => AliveOk t.daemon ∧ P t.daemon)
      (fun f t => ((f = .endless ∨ f = .wildRead) ∧ KillsAssociated (fun _ => false) t.daemon.trace) ∨
        (f = .nullDeref ∧ MallocFails env)) s := by
  induction es generalizing s with
  | nil => exact ⟨h, hs⟩
  | cons e es ih =>
    rw [wp_mainLoop_cons]
    refine wp_mono (wp_iteration env h e) (fun _ t hstep => ?_) ?_
    · exact ih (h.iterate env hstep) (hP.iterate env h hs (hes e (by simp)) hstep)
        fun e' he' => hes e' (List.mem_cons_of_mem _ he')
    · rintro f t (⟨hf, htrace⟩ | hf)
      · exact .inl ⟨hf, htrace ▸ h.kills⟩
      · exact .inr hf

theorem MainEvent.from_univ (e : MainEvent) : e.From Set.univ := by
  cases e <;> trivial

theorem Kept.of_run {A : Set SockaddrLl} {P : Daemon L σ → Prop} (hP : Kept env A P) {w : σ}
    {udevFd netifFd : Int} (hinit : P (daemonInit w udevFd netifFd)) {es : List MainEvent}
    (hes : ∀ e ∈ es, e.From A) (h : mainLoop env es (etherdInit w udevFd netifFd) = .ok () s) :
      P s.daemon :=
  (wp_ok (hP.wp_mainLoop (s := etherdInit w udevFd netifFd)
    (aliveOk_init w udevFd netifFd) hinit hes) h).2

theorem aliveOk_of_run {w : σ} {udevFd netifFd : Int} {es : List MainEvent}
    (h : mainLoop env es (etherdInit w udevFd netifFd) = .ok () s) : AliveOk s.daemon :=
  Kept.of_run (A := Set.univ) (P := AliveOk) ⟨fun _ us hd => hd.wait us, fun _ _ _ hd hexp =>
    hd.expired hexp,
    fun _ _ _ _ _ hd hstep => hd.callback env hstep⟩ (aliveOk_init w udevFd netifFd)
    (fun e _ => e.from_univ) h

end Iterations

section Scheduled

variable {L σ : Type} [NodeLists L] {s t : Daemon L σ}

def AllScheduled (s : Daemon L σ) : Prop := ∀ n, s.Associated n → ((s.node n).aliveTo).isSome

theorem kept_allScheduled [LawfulNodeLists L] {env : Env σ} (hmalloc : ¬ MallocFails env) :
    Kept env Set.univ (AllScheduled : Daemon L σ → Prop) := by
  refine ⟨fun _ _ h => h, fun _ _ _ h hexp n hn => hexp.frame.node ▸ h n (hexp.associated hn), ?_⟩
  intro sender _ s t _ h hstep n hn
  cases hstep with
  | quiet hrun =>
    rw [Daemon.Associated, hrun.associated] at hn
    exact hrun.node ▸ h n hn
  | @request packet m s₁ s₂ u mem stat C S R q hacc hrun hcancel ht =>
    have hmem : 0 ≤ mem := not_lt.mp fun hneg => hmalloc (hrun.begun.malloc hneg)
    have hal := congrFun (hrun.aliveTo env (q := q) hmem) n
    rw [ht, hal]
    by_cases hnm : n = m
    · simp [hnm]
    · rw [ht, Daemon.Associated, hrun.associated env, Function.update_of_ne hnm] at hn
      simpa [hnm] using h n hn

end Scheduled

structure AliveTimeouts {L σ : Type} (s : Daemon L σ) : Prop where
  entry : ∀ n, s.Associated n → ∃ e ∈ s.timeouts.queue, e.armed = true ∧ e.handler = some .killNode ∧
    e.priv = n ∧ (s.node n).aliveTo = some e.addr
  unique : ∀ e ∈ s.timeouts.queue, ∀ e' ∈ s.timeouts.queue, e.armed = true → e'.armed = true →
    e.priv = e'.priv → e = e'
  owner : ∀ e ∈ s.timeouts.queue, e.armed = true → s.Associated e.priv

section Runs

variable {L σ : Type} [NodeLists L] [LawfulNodeLists L] (env : Env σ)

theorem AliveOk.aliveTimeouts {s : Daemon L σ} (h : AliveOk s) (hs : AllScheduled s) :
    AliveTimeouts s where
  entry n hn := by
    obtain ⟨a, ha⟩ := Option.isSome_iff_exists.mp (hs n hn)
    obtain ⟨t, ht, hta, hp, rfl⟩ := h.tags.alive n hn a ha
    obtain ⟨e, he, rfl⟩ := List.mem_map.mp ht
    exact ⟨e, he, hta, h.tags.handlers _ ht, hp, ha⟩
  unique e he e' he' ha ha' hp := by
    have htag := h.tags.eq_of_armed (List.mem_map_of_mem he) (List.mem_map_of_mem he') ha ha' hp
    exact List.inj_on_of_nodup_map h.addr_nodup he he' (congrArg Tag.addr htag)
  owner e he ha := (h.tags.armed _ (List.mem_map_of_mem he) ha).1

/-- Whatever the daemon receives, and however its timeouts expire: each associated
node has its alive timeout and no other node has one, no entry is used after it has been freed,
and only associated nodes are killed. -/
theorem alive_timeouts_match (hmalloc : ∀ what w, 0 ≤ (env.sys (.malloc what) w).1)
    (es : List MainEvent) (w : σ) (udevFd netifFd : Int) :
    wp (mainLoop env es)
      (fun _ s => AliveTimeouts s.daemon ∧ KillsAssociated (fun _ => false) s.daemon.trace)
      (fun f s => (f = .endless ∨ f = .wildRead) ∧ KillsAssociated (fun _ => false) s.daemon.trace)
      (etherdInit w udevFd netifFd : Etherd L σ) := by
  have hnever : ¬ MallocFails env := fun ⟨what, w, hneg⟩ => absurd (hmalloc what w) (not_le.mpr hneg)
  have hinit : AllScheduled (daemonInit w udevFd netifFd : Daemon L σ) := fun n hn =>
    absurd hn Bool.false_ne_true
  refine wp_mono ((kept_allScheduled hnever).wp_mainLoop (s := etherdInit w udevFd netifFd)
    (aliveOk_init w udevFd netifFd) hinit (fun e _ => e.from_univ))
    (fun _ s h => ⟨h.1.aliveTimeouts h.2, h.1.kills⟩) fun f s hf => ?_
  exact hf.resolve_right fun hfails => hnever hfails.2

def boardAssociates : MainEvent := .frame 0 boardAddr (requestFrame 1 [1, 0])

theorem alive_timeouts_match_one : ∃ t : Etherd (Links Cell) Unit,
    mainLoop bareHost [boardAssociates] (etherdInit () 3 4) = .ok () t ∧
    t.daemon.Associated 0 ∧ AliveTimeouts t.daemon := by
  have hreturns : returnsIn (mainLoop bareHost [boardAssociates])
      (fun t : Etherd (Links Cell) Unit => t.daemon.associated 0) (etherdInit () 3 4) = true := by
    decide +kernel
  obtain ⟨_, t, ht, hp⟩ := exists_of_returnsIn hreturns
  exact ⟨t, ht, hp, (wp_ok (alive_timeouts_match bareHost (fun _ _ => by simp [bareHost]) _
    () 3 4) ht).1⟩

end Runs

end Lininoio
