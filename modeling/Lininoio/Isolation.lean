import Lininoio.CoreReferences
import Lininoio.HandlerStates
import Lininoio.Mcuio

/-! The daemon with the mcuio handler: what a frame or the expiry of a timeout does to
one node leaves the others alone, their devices on the mcuio busses included. -/

namespace Lininoio

open StateFault Timeval DeltaQueue

section Composition

variable {σ : Type}

/-- A handler beside that of mcuio, which has a state of its own. -/
def LininoioProtoOps.beside (o : LininoioProtoOps σ) : LininoioProtoOps (σ × McuioState) where
  connect := o.connect.map fun f c n s => let r := f c n s.1; (r.1, r.2, s.2)
  inboundPacket := o.inboundPacket.map fun f c p s => (f c p s.1, s.2)
  disconnect := o.disconnect.map fun f c n s => (f c n s.1, s.2)

def Env.withMcuio (env : Env σ) (api : McuiodApi σ) (mcuio : OpsPtr) : Env (σ × McuioState) where
  bigEndian := env.bigEndian
  ulong := env.ulong
  sys call s := let r := env.sys call s.1; (r.1, r.2, s.2)
  loadProtoHandler protoId s := let r := env.loadProtoHandler protoId s.1; (r.1, r.2, s.2)
  ops o := if o = mcuio then mcuioOps api env.bigEndian else (env.ops o).beside
  firmwarePrefix := env.firmwarePrefix
  simpleFirmwareMagic := env.simpleFirmwareMagic
  fwNameSize := env.fwNameSize
  pdNameSize := env.pdNameSize
  aliveToHead := env.aliveToHead
  pastAliveTo := env.pastAliveTo
  unset := env.unset

theorem envKeeps_mcuio (env : Env σ) (api : McuiodApi σ) (mcuio : OpsPtr) (m : McuioState) :
    EnvKeeps (env.withMcuio api mcuio) (fun w => m.Keeps w.2) where
  sys _ _ h := h
  load _ _ h := h
  connect ops f hf ch n w h := by
    by_cases hops : ops = mcuio
    · have hconnect : f = fun c _ s => lininoioMcuioConnect api c s.1 s.2 := by
        simpa [Env.withMcuio, hops, mcuioOps] using hf.symm
      subst hconnect
      exact h.trans (keeps_connect api w.1 ch h.ok)
    · obtain ⟨g, -, rfl⟩ : ∃ g, (env.ops ops).connect = some g ∧
          (fun c n s => let r := g c n s.1; (r.1, r.2, s.2)) = f := by
        simpa [Env.withMcuio, hops, LininoioProtoOps.beside] using hf
      exact h

end Composition

section Nodes

variable {L σ : Type} {s t u : Daemon L σ} {m : Slot} {now now' : Nat}

/-- An associated node is still associated and keeps its fields, what its cores and
channels hold, and its timeout with its deadline. -/
structure NodeKept (m : Slot) (now now' : Nat) (s t : Daemon L σ) : Prop where
  associated : t.Associated m
  node : t.node m = s.node m
  core : ∀ j c, (s.node m).cores j = some c → ∃ pd, t.core c = { s.core c with pd := pd }
  chan : ∀ j c, (s.node m).cores j = some c → ∀ x ∈ (s.core c).channels, t.chan x = s.chan x
  timer : ∀ a, (s.node m).aliveTo = some a → ∀ d, d.2.addr = a →
    (d ∈ agenda now' t.timeouts.queue ↔ d ∈ agenda now s.timeouts.queue)

theorem AliveOk.aliveTo_lt [NodeLists L] [LawfulNodeLists L] (h : AliveOk s)
    (hm : s.Associated m) {a : Nat}
    (ha : (s.node m).aliveTo = some a) : a < s.timeouts.fresh := by
  obtain ⟨tag, htag, -, -, rfl⟩ := h.tags.alive m hm a ha
  exact h.tags.fresh tag htag

theorem AliveOk.entry [NodeLists L] [LawfulNodeLists L] (h : AliveOk s) (hm : s.Associated m) {a : Nat}
    (ha : (s.node m).aliveTo = some a)
    {d : Nat × Tag ToHandler Slot} (hd : d ∈ agenda now s.timeouts.queue)
    (haddr : d.2.addr = a) : d.2.armed = true ∧ d.2.priv = m := by
  obtain ⟨tag, htag, harmed, hpriv, htaga⟩ := h.tags.alive m hm a ha
  have hd' : d.2 ∈ s.timeouts.queue.map Timeout.tag := by
    rw [← map_snd_agenda now]
    exact List.mem_map_of_mem hd
  have heq : d.2 = tag := List.inj_on_of_nodup_map h.tags.distinct hd' htag (haddr.trans htaga.symm)
  rw [heq]
  exact ⟨harmed, hpriv⟩

variable [NodeLists L] [LawfulNodeLists L] {env : Env σ} {sender : SockaddrLl}

omit [NodeLists L] [LawfulNodeLists L] in
theorem ChannelsHeld.chan_lt {bigEndian : Bool} {packet : Memory} {base : ChanPtr}
    (h : ChannelsHeld bigEndian packet base m s) {j : Fin lininoioMaxNcores} {c : CorePtr} {x : ChanPtr}
    (hc : (s.node m).cores j = some c) (hx : x ∈ (s.core c).channels) : x < s.freshChan := by
  rw [h.holds.channels j c hc] at hx
  obtain ⟨k, hk, rfl⟩ := List.mem_map.mp hx
  have hlt := List.mem_range.mp (List.mem_of_mem_filter hk)
  exact (Nat.add_lt_add_left hlt base).trans_le h.freshChan

theorem NodeKept.callback (hok : AliveOk s) (hheld : AllHeld env.bigEndian s) (hm : s.Associated m)
    (hstep : CallbackStep env sender s t) : NodeKept m now now s t := by
  obtain ⟨hA, -, -, hagenda⟩ := hstep.spares hok hm now
  have htimer : ∀ a, (s.node m).aliveTo = some a → ∀ d : Nat × Tag ToHandler Slot, d.2.addr = a →
      (d ∈ agenda now t.timeouts.queue ↔ d ∈ agenda now s.timeouts.queue) :=
    fun a ha d haddr => hagenda d (haddr ▸ hok.aliveTo_lt hm ha)
  cases hstep with
  | quiet hrun =>
    exact ⟨hA, by rw [hrun.node], fun _ c _ => hrun.core c, fun _ _ _ x _ => by rw [hrun.chan], htimer⟩
  | @request packet n s₁ s₂ u mem stat C S R q hacc hrun hcancel ht =>
    subst ht
    have hfree := LawfulNodeLists.free_of_handOut hok.lists hacc.unknown hacc.free
    have hne : m ≠ n := by
      rintro rfl
      simp [show s.associated m = true from hm] at hfree
    obtain ⟨packet', base, hch⟩ := hheld m hm
    have hothers := hrun.others env (q := q)
    exact ⟨hA, hothers.node m hne, fun j c hc => hothers.core c (hch.holds.fresh j c hc),
      fun j c hc x hx => hothers.chan x (hch.chan_lt hc hx), htimer⟩

theorem NodeKept.expired (hok : AliveOk s) (hm : s.Associated m) (hexp : Expired s t)
    (hlater : ∀ d ∈ agenda now s.timeouts.queue, d.2.armed = true → d.2.priv = m → now < d.1) :
    NodeKept m now now s t := by
  have hf := hexp.frame
  refine ⟨(hexp.associated_iff now m).mpr ⟨hm,
    hlater⟩, by rw [hf.node], fun _ c _ => ⟨(s.core c).pd, by rw [hf.core]⟩,
    fun _ _ _ x _ => by rw [hf.chan], ?_⟩
  intro a ha d haddr
  rw [hexp.agenda now, List.mem_filter, decide_eq_true_eq]
  constructor
  · exact fun h => h.1
  · intro hd
    obtain ⟨harmed, hpriv⟩ := hok.entry hm ha hd haddr
    exact ⟨hd, hlater d hd harmed hpriv⟩

end Nodes

section Runs

variable {L σ : Type} [NodeLists L] [LawfulNodeLists L] {env : Env σ} {api : McuiodApi σ}
  {mcuio : OpsPtr}

def DevicesKept (s t : Daemon L (σ × McuioState)) : Prop := s.world.2.Keeps t.world.2

/-- Whoever a frame comes from and whatever becomes of it, and whichever timeouts expire:
every node that is associated and whose own timeout is not due keeps what it has. -/
theorem nodes_isolated {w : σ} {udevFd netifFd : Int} {es : List Wakeup} {s : Etherd L (σ × McuioState)}
    (hreach : eventLoop (env.withMcuio api mcuio) es (etherdInit (w, mcuioStart) udevFd netifFd) =
      .ok () s)
    {m : Slot} (hm : s.daemon.Associated m) :
    (∀ sender packet len t, etherRxCb (env.withMcuio api mcuio) sender packet len s.daemon = .ok () t →
      NodeKept m s.now s.now s.daemon t ∧ DevicesKept s.daemon t) ∧
    ∀ t, eventIteration (env.withMcuio api mcuio) .timeout s = .ok () t →
      (∀ d ∈ agenda s.now s.daemon.timeouts.queue, d.2.armed = true → d.2.priv = m → t.now < d.1) →
      NodeKept m s.now t.now s.daemon t.daemon ∧ DevicesKept s.daemon t.daemon := by
  obtain ⟨hok, hstart⟩ := eventLoop_world (envKeeps_mcuio env api mcuio mcuioStart)
    (McuioState.Keeps.refl mcuioOk_start) hreach
  have hworld : s.daemon.world.2.Keeps s.daemon.world.2 := .refl hstart.ok
  have hheld := ((keptByAll_allHeld (env.withMcuio api mcuio)).of_run
    (fun n hn => absurd hn Bool.false_ne_true) hreach).2
  constructor
  · intro sender packet len t hrun
    have hstep := wp_ok (wp_etherRxCb (env.withMcuio api mcuio) hok.table sender packet len) hrun
    have hdevices := wp_ok (preserves_etherRxCb (envKeeps_mcuio env api mcuio s.daemon.world.2)
      sender packet len
      s.daemon ⟨hworld, hok.table⟩) hrun
    exact ⟨.callback hok hheld hm hstep, hdevices.1⟩
  · intro t hrun hlater
    have hstep := wp_ok (wp_iteration_timeout (env.withMcuio api mcuio) hok) hrun
    cases hstep with
    | nothingScheduled =>
      exact ⟨⟨hm, rfl, fun _ c _ => ⟨_, rfl⟩, fun _ _ _ _ _ => rfl, fun _ _ _ _ => Iff.rfl⟩, hworld⟩
    | @timeout s t tv htv hexp hnow =>
      have hagenda : agenda (s.waited tv.micros).now (s.waited tv.micros).daemon.timeouts.queue =
          agenda s.now s.daemon.timeouts.queue := agenda_selectWait tv.micros s.now s.daemon.timeouts
      rw [hnow] at hlater ⊢
      have hkept := NodeKept.expired (m := m) (hok.waited tv.micros) hm hexp (by rwa [hagenda])
      refine ⟨⟨hkept.associated, hkept.node, hkept.core, hkept.chan, ?_⟩, ?_⟩
      · intro a ha d haddr
        rw [hkept.timer a ha d haddr, hagenda]
      · rw [DevicesKept, hexp.world]
        exact hworld

def mcuioHost : Env (Unit × McuioState) :=
  ({ driverHost with loadProtoHandler := fun _ w => (some (some 0), w) } : Env Unit).withMcuio
    mcuiodHost 0

omit [NodeLists L] [LawfulNodeLists L] in
theorem board_keeps_device :
    ∃ (s : Etherd SlotLists (Unit × McuioState)) (t : Daemon SlotLists (Unit × McuioState)),
    etherRxCb mcuioHost neighbourAddr (atPointer (requestFrame 1 [1, 0])) 20 s.daemon = .ok () t ∧
    ¬ (s.daemon.world.2.bus 0).IsFree 0 ∧ NodeKept 0 s.now s.now s.daemon t ∧
      DevicesKept s.daemon t := by
  have hreturns : returnsIn
    (eventLoop mcuioHost [.ready 0 [4] ⟨some (boardAddr, requestFrame 1 [1, 0]), none⟩])
      (fun s : Etherd SlotLists (Unit × McuioState) => s.daemon.associated 0 &&
        !(s.daemon.world.2.bus 0).freeDevs.toBitVec.getLsbD 0 &&
        returnsIn (etherRxCb mcuioHost neighbourAddr (atPointer (requestFrame 1 [1, 0])) 20)
          (fun _ => true) s.daemon)
      (etherdInit ((), mcuioStart) 3 4) = true := by decide +kernel
  obtain ⟨_, s, hrun, hs⟩ := exists_of_returnsIn hreturns
  simp only [Bool.and_eq_true, Bool.not_eq_true'] at hs
  obtain ⟨⟨hassoc, htaken⟩, hframe⟩ := hs
  obtain ⟨_, t, ht, -⟩ := exists_of_returnsIn hframe
  have hkept := (nodes_isolated hrun hassoc).1 neighbourAddr _ 20 t ht
  exact ⟨s, t, ht, fun hfree => Bool.false_ne_true (htaken.symm.trans hfree), hkept⟩

end Runs

end Lininoio
