import Lininoio.NodeRings
import Lininoio.Requests

/-! The two records of the channels of a node: its channel table and the channel
lists of its cores. -/

namespace Lininoio

open StateFault CircularLinks

/-- The table of a node holds the channels of the `k` descriptors of a request, and
holds the same channels as the lists of its cores. -/
structure TableComplete {L σ : Type} (bigEndian : Bool) (packet : Memory) (k : Nat) (n : Slot)
    (s : Daemon L σ) : Prop where
  filled : ∀ i : Fin lininoioMaxNchannels, i.val < k → ∃ c ch, (s.node n).channels i = some c ∧
    s.chan c = some ch ∧ ch.id = UInt8.ofNat i ∧ ch.protocol = protocolAt bigEndian packet i ∧
    ch.coreId.toNat = coreIdAt bigEndian packet i
  null : ∀ i : Fin lininoioMaxNchannels, k ≤ i.val → (s.node n).channels i = none
  agrees : ∀ c, (∃ i, (s.node n).channels i = some c) ↔
    ∃ j core, (s.node n).cores j = some core ∧ c ∈ (s.core core).channels

section

variable {L σ : Type} (env : Env σ) {sender : SockaddrLl} {packet : Memory} {n : Slot}
  {s t : Daemon L σ}

theorem Answer.channel_held {stat : Int} (h : Answer env.bigEndian packet n s t stat) (hstat : stat = 0)
    {i : Nat} (hi : i < (ArequestPacket.nchannels packet).toNat) :
    ∃ core, (t.node n).cores (coreIdAt env.bigEndian packet i) = some core ∧
      s.freshChan + i ∈ (t.core core).channels := by
  have hgroup := (h.grouped hstat).holds
  obtain ⟨core, hcore⟩ := Option.isSome_iff_exists.mp ((hgroup.used_iff _).mpr ⟨i, hi, rfl⟩)
  refine ⟨core, hcore, ?_⟩
  rw [hgroup.channels _ core hcore]
  exact List.mem_map.mpr ⟨i, by simp [hi], rfl⟩

variable [NodeLists L]

/-- `new_channel` never writes the channel table: it stays empty whatever the
request, while the cores hold the channels. -/
theorem channel_table_never_complete (h : Accepted sender packet n s) {len : Nat}
    (hk : 0 < (ArequestPacket.nchannels packet).toNat)
    (hrun : etherRxArequest env sender packet len s = .ok () t)
    (hconn : ∀ r ∈ connects (s.effectsSince t), r = 0) :
    ¬ TableComplete env.bigEndian packet (ArequestPacket.nchannels packet).toNat n t := by
  obtain ⟨stat, hans⟩ := h.answer env hrun
  have hstat := hans.stat_eq_zero_iff.mpr ⟨hk, hconn⟩
  intro hc
  obtain ⟨core, hcore, hmem⟩ := hans.channel_held env hstat hk
  obtain ⟨i, hi⟩ := (hc.agrees _).mpr ⟨_, core, hcore, hmem⟩
  simp [hans.table i] at hi

end

def boardDaemon : Daemon (Links Cell) Unit := daemonInit () 3 4

theorem request_accepted {σ : Type} (w : σ) {nchannels : UInt8} {chanDescr : List UInt8}
    (h : nchannels.toNat ≤ 16) : Accepted boardAddr (atPointer (requestFrame nchannels chanDescr)) 0
      (daemonInit w 3 4 : Daemon (Links Cell) σ) :=
  ⟨h, search_init _, firstFree_init⟩

theorem boardRequest_accepted {nchannels : UInt8} {chanDescr : List UInt8} (h : nchannels.toNat ≤ 16) :
    Accepted boardAddr (atPointer (requestFrame nchannels chanDescr)) 0 boardDaemon :=
  request_accepted () h

theorem boardRequest_returns : returnsIn
    (etherRxArequest bareHost boardAddr (atPointer (requestFrame 1 [1, 0])) 20)
    (fun t => (connects (boardDaemon.effectsSince t)).isEmpty && ((t.node 0).channels 0).isNone)
    boardDaemon = true := by
  decide +kernel

theorem boardRequest_table_incomplete : ∃ t : Daemon (Links Cell) Unit,
    etherRxArequest bareHost boardAddr (atPointer (requestFrame 1 [1, 0])) 20 boardDaemon = .ok () t ∧
    (∀ r ∈ connects (boardDaemon.effectsSince t), r = 0) ∧
    ¬ TableComplete false (atPointer (requestFrame 1 [1, 0])) 1 0 t := by
  obtain ⟨_, t, hrun, ht⟩ := exists_of_returnsIn boardRequest_returns
  simp only [Bool.and_eq_true, List.isEmpty_iff, Option.isNone_iff_eq_none] at ht
  refine ⟨t, hrun, by simp [ht.1], fun hc => ?_⟩
  obtain ⟨c, ch, hi, -⟩ := hc.filled 0 (by decide)
  simp [ht.2] at hi

theorem channel_table_never_complete_one : ∃ t : Daemon (Links Cell) Unit,
    ¬ TableComplete false (atPointer (requestFrame 1 [1, 0])) 1 0 t := by
  obtain ⟨_, t, hrun, ht⟩ := exists_of_returnsIn boardRequest_returns
  simp only [Bool.and_eq_true, List.isEmpty_iff] at ht
  exact ⟨t, channel_table_never_complete bareHost (boardRequest_accepted (by decide)) (by decide) hrun
    (by simp [ht.1])⟩

end Lininoio
