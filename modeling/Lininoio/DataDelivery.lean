import Lininoio.ChannelTable
import Lininoio.MainLoopSteps

/-! Data packets and the channels they are meant for. An associated node keeps the
channels of its request in its cores as long as it lives, while `ether_data_packet`
looks for them in the channel table. -/

namespace Lininoio

open StateFault CircularLinks

section Held

variable {L σ : Type} {n : Slot} {id : Nat} {c : ChanPtr} {s t : Daemon L σ}

def HeldChannel (n : Slot) (id : Nat) (s : Daemon L σ) (c : ChanPtr) : Prop :=
  ∃ j core ch, (s.node n).cores j = some core ∧ c ∈ (s.core core).channels ∧ s.chan c = some ch ∧
    ch.id.toNat = id

/-- The node as its request has left it, with the channels from `base` on. -/
structure ChannelsHeld (bigEndian : Bool) (packet : Memory) (base : ChanPtr) (n : Slot)
    (s : Daemon L σ) : Prop where
  few : (s.node n).nchannels ≤ lininoioMaxNchannels
  holds : CoresHold n s (fun j => ∃ k < (s.node n).nchannels, coreIdAt bigEndian packet k = j)
    (membersUpTo bigEndian packet base (s.node n).nchannels)
  freshChan : base + (s.node n).nchannels ≤ s.freshChan
  chan : ∀ k < (s.node n).nchannels, ∃ ch, s.chan (base + k) = some ch ∧ ch.id = UInt8.ofNat k ∧
    ch.protocol = protocolAt bigEndian packet k ∧ ch.coreId.toNat = coreIdAt bigEndian packet k

namespace ChannelsHeld

variable {bigEndian : Bool} {packet : Memory} {base : ChanPtr}

theorem frame (h : ChannelsHeld bigEndian packet base n s) (hnode : t.node n = s.node n)
    (hcore : ∀ c < s.freshCore, ∃ pd, t.core c = { s.core c with pd := pd })
    (hchan : ∀ x < s.freshChan, t.chan x = s.chan x) (hfresh : s.freshCore ≤ t.freshCore)
    (hfresh' : s.freshChan ≤ t.freshChan) : ChannelsHeld bigEndian packet base n t := by
  refine ⟨?_, ?_, ?_, ?_⟩
  all_goals rw [hnode]
  · exact h.few
  · exact h.holds.frame (by rw [hnode]) (fun j c hc => hcore c (h.holds.fresh j c hc)) hfresh
  · exact h.freshChan.trans hfresh'
  · intro k hk
    rw [hchan _ ((Nat.add_lt_add_left hk base).trans_le h.freshChan)]
    exact h.chan k hk

theorem heldChannel_iff (h : ChannelsHeld bigEndian packet base n s) :
    HeldChannel n id s c ↔ id < (s.node n).nchannels ∧ c = base + id := by
  constructor
  · intro hh
    obtain ⟨j, core, ch, hcore, hc, hch, rfl⟩ := hh
    rw [h.holds.channels j core hcore] at hc
    obtain ⟨k, hmem, rfl⟩ := List.mem_map.mp hc
    have hlt : k < (s.node n).nchannels := List.mem_range.mp (List.mem_of_mem_filter hmem)
    obtain ⟨ch', hch', hid, -⟩ := h.chan k hlt
    obtain rfl := Option.some.inj (hch.symm.trans hch')
    have hk : k < 2 ^ 8 := (hlt.trans_le h.few).trans (by decide)
    rw [hid, UInt8.toNat_ofNat', Nat.mod_eq_of_lt hk]
    exact ⟨hlt, rfl⟩
  · intro hh
    obtain ⟨hlt, rfl⟩ := hh
    obtain ⟨ch, hch, hid, -⟩ := h.chan id hlt
    obtain ⟨core, hcore⟩ := Option.isSome_iff_exists.mp ((h.holds.used_iff _).mpr ⟨id, hlt, rfl⟩)
    have hsmall : id < 2 ^ 8 := (hlt.trans_le h.few).trans (by decide)
    refine ⟨_, core, ch, hcore, ?_, hch, ?_⟩
    · rw [h.holds.channels _ core hcore]
      exact List.mem_map.mpr ⟨id, by simp [hlt], rfl⟩
    · rw [hid, UInt8.toNat_ofNat']
      exact Nat.mod_eq_of_lt hsmall

end ChannelsHeld

def AllHeld (bigEndian : Bool) (s : Daemon L σ) : Prop :=
  ∀ n, s.Associated n → ∃ packet base, ChannelsHeld bigEndian packet base n s

theorem AllHeld.existsUnique {bigEndian : Bool} (h : AllHeld bigEndian s) (hn : s.Associated n)
    (hid : id < (s.node n).nchannels) : ∃! c, HeldChannel n id s c := by
  obtain ⟨packet, base, hheld⟩ := h n hn
  exact ⟨base + id, hheld.heldChannel_iff.mpr ⟨hid, rfl⟩, fun c hc => (hheld.heldChannel_iff.mp hc).2⟩

theorem AllHeld.wait {bigEndian : Bool} (h : AllHeld bigEndian s) (us : Nat) :
    AllHeld bigEndian { s with timeouts := (selectWait us s.timeouts).2 } := by
  intro n hn
  obtain ⟨packet, base, hheld⟩ := h n hn
  exact ⟨packet, base, hheld.frame rfl (fun _ _ => ⟨_, rfl⟩) (fun _ _ => rfl) le_rfl le_rfl⟩

end Held

section Requests

variable {L σ : Type} [NodeLists L] (env : Env σ) {sender : SockaddrLl} {packet : Memory} {n m : Slot}
  {s s₁ s₂ u : Daemon L σ} {mem stat : Int} {C S R : List Effect} {q : Timeouts ToHandler Slot}

/-- Only the node `m` changes; of the cores and channels that were there nothing but what
is handed to the driver. -/
structure OthersKept (m : Slot) (s t : Daemon L σ) : Prop where
  node : ∀ n, n ≠ m → t.node n = s.node n
  core : ∀ c < s.freshCore, ∃ pd, t.core c = { s.core c with pd := pd }
  chan : ∀ x < s.freshChan, t.chan x = s.chan x
  freshCore : s.freshCore ≤ t.freshCore
  freshChan : s.freshChan ≤ t.freshChan

theorem AssociationRun.others (h : AssociationRun env m packet (handOut m sender s) s₁ s₂ u mem
    stat C S R) :
    OthersKept m s (closeArequest m stat q u) := by
  have hcores : ∀ j c, (s₁.node m).cores j ≠ some c := by
    intro j c
    simp [h.begun.node, Node.begun, handOut, Node.recycled]
  have hs₁core : s₁.core = s.core := h.begun.core
  have hs₁chan : s₁.chan = s.chan := h.begun.chan
  have hs₁fresh : s₁.freshCore = s.freshCore := h.begun.freshCore
  have hs₁fresh' : s₁.freshChan = s.freshChan := h.begun.freshChan
  have hclose : (closeArequest m stat q u).core = u.core ∧ (closeArequest m stat q u).chan = u.chan ∧
      (closeArequest m stat q u).freshCore = u.freshCore ∧
      (closeArequest m stat q u).freshChan = u.freshChan := by
    by_cases hstat : stat = 0 <;> simp [closeArequest, hstat]
  obtain ⟨hcore, hchan, hfresh, hfresh'⟩ := hclose
  refine ⟨?_, ?_, ?_, ?_, ?_⟩
  · intro n hne
    rw [h.node env, h.node_eq env, Function.update_of_ne hne]
    simp [handOut, hne]
  · intro c hc
    obtain ⟨pd, hpd⟩ := h.conclusion.run.core c
    rw [← hs₁fresh] at hc
    exact ⟨pd, by rw [hcore, hpd, h.loop.core c hc (fun j => hcores j c), hs₁core]⟩
  · intro x hx
    rw [← hs₁fresh'] at hx
    rw [hchan, h.conclusion.run.chan, h.loop.chan x hx, hs₁chan]
  · rw [hfresh, h.conclusion.run.freshCore, ← hs₁fresh]
    exact h.loop.freshCore
  · rw [hfresh', h.conclusion.run.freshChan, ← hs₁fresh']
    exact h.loop.freshChan

theorem AssociationRun.frame (h : AssociationRun env m packet (handOut m sender s) s₁ s₂ u
    mem stat C S R)
    {bigEndian : Bool} {packet' : Memory} {base : ChanPtr} (hne : n ≠ m)
    (hheld : ChannelsHeld bigEndian packet' base n s) :
    ChannelsHeld bigEndian packet' base n (closeArequest m stat q u) := by
  have hothers := h.others env (q := q)
  exact hheld.frame (hothers.node n hne) hothers.core hothers.chan hothers.freshCore hothers.freshChan

theorem AssociationRun.channelsHeld (hacc : Accepted sender packet n s)
    (h : AssociationRun env n packet (handOut n sender s) s₁ s₂ u mem stat C S R) (hstat : stat = 0) :
    ChannelsHeld env.bigEndian packet s.freshChan n (closeArequest n stat q u) := by
  have hgroup := (h.answer env (q := q)).grouped hstat
  have hn : ((closeArequest n stat q u).node n).nchannels =
    (ArequestPacket.nchannels packet).toNat := by
    rw [h.node env, h.node_eq env]
    simp [Node.begun]
  exact ⟨hn ▸ hacc.nchannels, hn ▸ hgroup.holds, hn ▸ hgroup.freshChan.ge, hn ▸ hgroup.chan⟩

theorem kept_allHeld [LawfulNodeLists L] :
    Kept env Set.univ (AllHeld env.bigEndian : Daemon L σ → Prop) := by
  refine ⟨fun _ us h => h.wait us, fun s t _ h hexp n hn => ?_, fun sender _ s t _ h hstep n hn => ?_⟩
  · obtain ⟨packet, base, hheld⟩ := h n (hexp.associated hn)
    have hf := hexp.frame
    exact ⟨packet, base, hheld.frame (by rw [hf.node]) (fun c _ => ⟨(s.core c).pd, by rw [hf.core]⟩)
      (fun x _ => by rw [hf.chan]) hf.freshCore.ge hf.freshChan.ge⟩
  · cases hstep with
    | quiet hrun =>
      rw [Daemon.Associated, hrun.associated] at hn
      obtain ⟨packet, base, hheld⟩ := h n hn
      exact ⟨packet, base, hheld.frame (by rw [hrun.node]) (fun c _ => hrun.core c)
        (fun x _ => by rw [hrun.chan]) hrun.freshCore.ge hrun.freshChan.ge⟩
    | @request packet m s₁ s₂ u mem stat C S R q hacc hrun hcancel ht =>
      subst ht
      rw [Daemon.Associated, hrun.associated env] at hn
      by_cases hnm : n = m
      · subst hnm
        exact ⟨packet, _, hrun.channelsHeld env hacc (by simpa using hn)⟩
      · obtain ⟨packet', base, hheld⟩ := h n (by simpa [hnm] using hn)
        exact ⟨packet', base, hrun.frame env hnm hheld⟩

end Requests

def inboundCalls : List Effect → List ChanPtr := List.filterMap fun
  | .inboundPacket c => some c
  | _ => none

section Delivery

variable {L σ : Type}

structure DataPacketFor (n : Slot) (id : UInt8) (dlen : UInt16) (sender : SockaddrLl) (dp : Memory)
    (s : Daemon L σ) : Prop where
  mac : sender.mac = (s.node n).addr.mac
  id_lt : id.toNat < 16
  dlen_le : dlen.toNat ≤ 4095
  low : dp 1 = UInt8.ofNat ((lininoioEncodeCdlen dlen id).toNat % 256)
  high : dp 2 = UInt8.ofNat ((lininoioEncodeCdlen dlen id).toNat / 256)

theorem DataPacketFor.decode {n : Slot} {id : UInt8} {dlen : UInt16} {sender : SockaddrLl} {dp : Memory}
    {s : Daemon L σ} (h : DataPacketFor n id dlen sender dp s) (bigEndian : Bool) :
    lininoioDecodeCdlen (le16toh bigEndian (DataPacket.cdlen bigEndian dp)) = (dlen, id) := by
  have hfield : (lininoioEncodeCdlen dlen id).toNat < 65536 := (lininoioEncodeCdlen dlen id).toNat_lt
  have hwire : le16toh bigEndian (DataPacket.cdlen bigEndian dp) = lininoioEncodeCdlen dlen id := by
    refine UInt16.toNat_inj.mp ((le16toh_loadU16 bigEndian dp 1).trans ?_)
    rw [h.low, h.high, UInt8.toNat_ofNat', UInt8.toNat_ofNat']
    omega
  rw [hwire]
  exact decodeCdlen_encodeCdlen (Nat.lt_succ_iff.mpr h.dlen_le) h.id_lt

def HandlesInbound (env : Env σ) (ch : Channel) : Prop :=
  (ch.ops.bind fun o => (env.ops o).inboundPacket).isSome

/-- Each descriptor has its channel, and a data packet for channel `id` is handed to
that of descriptor `id`, if it has a handler, and to no other. -/
structure Delivers (env : Env σ) (n : Slot) (id : Nat) (s : Daemon L σ)
    (calls : List ChanPtr) : Prop where
  channel : id < (s.node n).nchannels → ∃! c, HeldChannel n id s c
  handed : ∀ c ch, HeldChannel n id s c → s.chan c = some ch → HandlesInbound env ch → calls = [c]
  ignored : (s.node n).nchannels ≤ id → calls = []

variable [NodeLists L] [LawfulNodeLists L] (env : Env σ)

/-- No data packet reaches a handler, so exactly the channels without one get what they
are promised. -/
theorem delivers_iff_not_handled {w : σ} {udevFd netifFd : Int} {es : List MainEvent} {s : Etherd L σ}
    (hreach : mainLoop env es (etherdInit w udevFd netifFd) = .ok () s) {n : Slot}
    (hn : s.daemon.Associated n) {id : UInt8} {dlen : UInt16} {sender : SockaddrLl} {dp : Memory}
    (_hp : DataPacketFor n id dlen sender dp s.daemon) :
    wp (etherDataPacket env sender.sllAddr dp)
      (fun _ t => Delivers env n id.toNat s.daemon (inboundCalls (s.daemon.effectsSince t)))
      (fun _ t => Delivers env n id.toNat s.daemon (inboundCalls (s.daemon.effectsSince t))) s.daemon ↔
    ∀ c ch, HeldChannel n id.toNat s.daemon c → s.daemon.chan c = some ch →
      ¬ HandlesInbound env ch := by
  have hheld := (kept_allHeld env).of_run (fun n hn => absurd hn Bool.false_ne_true)
    (fun e _ => e.from_univ) hreach
  have hdrop := wp_etherDataPacket env (aliveOk_of_run hreach).table sender.sllAddr dp
  have hcalls : Delivers env n id.toNat s.daemon (inboundCalls (s.daemon.effectsSince s.daemon)) ↔
      ∀ c ch, HeldChannel n id.toNat s.daemon c → s.daemon.chan c = some ch →
        ¬ HandlesInbound env ch := by
    have hnil : inboundCalls (s.daemon.effectsSince s.daemon) = [] := by
      rw [effectsSince_eq (E := []) (by simp)]
      rfl
    rw [hnil]
    constructor
    · intro h c ch hc hch hhandles
      simpa using h.handed c ch hc hch hhandles
    · intro h
      exact ⟨hheld.existsUnique hn, fun c ch hc hch hh => absurd hh (h c ch hc hch),
        fun _ => rfl⟩
  refine wp_iff (wp_mono hdrop ?_ ?_)
  · rintro _ t rfl
    exact hcalls
  · intro f t ht
    obtain ⟨-, rfl⟩ := ht
    exact hcalls

end Delivery

def handlerHost : Env Unit :=
  { bareHost with
    loadProtoHandler := fun _ w => (some (some 0), w)
    ops := fun _ => ⟨none, some fun _ _ w => w, none⟩ }

def boardData : Memory := atPointer [3, 1, 0, 255]

theorem handled_data_dropped : ∃ s : Etherd (Links Cell) Unit,
    mainLoop handlerHost [boardAssociates] (etherdInit () 3 4) = .ok () s ∧ s.daemon.Associated 0 ∧
    DataPacketFor 0 0 1 boardAddr boardData s.daemon ∧
    ¬ wp (etherDataPacket handlerHost boardAddr.sllAddr boardData)
      (fun _ t => Delivers handlerHost 0 0 s.daemon (inboundCalls (s.daemon.effectsSince t)))
      (fun _ t => Delivers handlerHost 0 0 s.daemon (inboundCalls (s.daemon.effectsSince t)))
        s.daemon := by
  have hreturns : returnsIn (mainLoop handlerHost [boardAssociates])
      (fun s : Etherd (Links Cell) Unit =>
        s.daemon.associated 0 && decide ((s.daemon.node 0).addr = boardAddr) &&
        decide ((s.daemon.node 0).cores 0 = some 0) && decide ((s.daemon.core 0).channels = [0]) &&
        decide ((s.daemon.chan 0).map (fun ch => (ch.id, ch.ops)) = some (0, some 0)))
      (etherdInit () 3 4) = true := by decide +kernel
  obtain ⟨_, s, hs, hp⟩ := exists_of_returnsIn hreturns
  simp only [Bool.and_eq_true, decide_eq_true_eq, Option.map_eq_some_iff, Prod.mk.injEq] at hp
  obtain ⟨⟨⟨⟨hassoc, haddr⟩, hcore⟩, hchannels⟩, ch, hch, hid, hops⟩ := hp
  refine ⟨s, hs, hassoc, ⟨by rw [haddr], by decide, by decide, by decide, by decide⟩, fun hw => ?_⟩
  have hheld : HeldChannel 0 0 s.daemon 0 := ⟨0, 0, ch, hcore, by simp [hchannels], hch, by simp [hid]⟩
  have hhandles : HandlesInbound handlerHost ch := by simp [HandlesInbound, hops, handlerHost]
  have hdrop := wp_etherDataPacket handlerHost (aliveOk_of_run hs).table boardAddr.sllAddr boardData
  have hcalls : ∀ t, t = s.daemon →
    ¬ Delivers handlerHost 0 0 s.daemon (inboundCalls (s.daemon.effectsSince t)) := by
    rintro t rfl h
    have hh := h.handed 0 ch hheld hch hhandles
    rw [effectsSince_eq (E := []) (by simp)] at hh
    simp [inboundCalls] at hh
  refine (wp_iff (P := False) (wp_mono hdrop ?_ ?_)).mp hw
  · exact fun _ t ht => iff_false_intro (hcalls t ht)
  · exact fun _ t ht => iff_false_intro (hcalls t ht.2)

theorem delivers_iff_not_handled_bare : ∃ s : Etherd (Links Cell) Unit, s.daemon.Associated 0 ∧
    wp (etherDataPacket bareHost boardAddr.sllAddr boardData)
      (fun _ t => Delivers bareHost 0 0 s.daemon (inboundCalls (s.daemon.effectsSince t)))
      (fun _ t => Delivers bareHost 0 0 s.daemon (inboundCalls (s.daemon.effectsSince t)))
        s.daemon := by
  have hreturns : returnsIn (mainLoop bareHost [boardAssociates])
      (fun s : Etherd (Links Cell) Unit =>
        s.daemon.associated 0 && decide ((s.daemon.node 0).addr = boardAddr))
      (etherdInit () 3 4) = true := by decide +kernel
  obtain ⟨_, s, hs, hp⟩ := exists_of_returnsIn hreturns
  simp only [Bool.and_eq_true, decide_eq_true_eq] at hp
  have hpacket : DataPacketFor 0 0 1 boardAddr boardData s.daemon :=
    ⟨by rw [hp.2], by decide, by decide, by decide, by decide⟩
  refine ⟨s, hp.1, (delivers_iff_not_handled bareHost hs hp.1 hpacket).mpr fun c ch _ _ hh => ?_⟩
  cases hops : ch.ops <;> simp [HandlesInbound, bareHost, hops] at hh

end Lininoio
