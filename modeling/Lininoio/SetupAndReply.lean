import Lininoio.ChannelTable

/-! Which remote processors an association request sets up, and when the status
of its reply tells the slave the truth. -/

namespace Lininoio

open StateFault CircularLinks

/-- The core ids used by the first `k` descriptors are the numbers below some bound. -/
def CoreIdsGapFree (bigEndian : Bool) (packet : Memory) (k : Nat) : Prop :=
  ∀ i < k, ∀ x, x ≤ coreIdAt bigEndian packet i → ∃ l < k, coreIdAt bigEndian packet l = x

/-- `setup_remoteproc` was invoked once for the core of each core id in the
descriptors and for nothing else. -/
structure SetUpOncePerCore {L σ : Type} (bigEndian : Bool) (packet : Memory) (k : Nat) (n : Slot)
    (s : Daemon L σ) (E : List Effect) : Prop where
  used : ∀ i < k, ∃ c, (s.node n).cores (coreIdAt bigEndian packet i) = some c ∧ (setups E).count c = 1
  only : ∀ c ∈ setups E, ∃ i < k, (s.node n).cores (coreIdAt bigEndian packet i) = some c

/-- The reply with this status byte, the association and the remote processors
tell the same story. -/
structure StatusTruthful {L σ : Type} (n : Slot) (s : Daemon L σ) (E : List Effect) (status : UInt8) :
    Prop where
  zero_iff : status = 0 ↔ s.Associated n ∧ (∀ r ∈ connects E, r = 0) ∧
    ∀ j c, (s.node n).cores j = some c → ProcessorAdded c E
  nonzero_iff : status ≠ 0 ↔ .killNode n ∈ E

section

variable {L σ : Type} {bigEndian : Bool} {packet : Memory} {n : Slot} {s t : Daemon L σ} {stat : Int}

theorem Answer.all_reached_iff (h : Answer bigEndian packet n s t stat) (hstat : stat = 0) :
    (∀ j c, (t.node n).cores j = some c → c ∈ (t.node n).setupOrder) ↔
      CoreIdsGapFree bigEndian packet (ArequestPacket.nchannels packet).toNat := by
  have hholds := (h.grouped hstat).holds
  rw [Node.setupOrder, reachedCores_complete_iff hholds.distinct]
  simp only [hholds.used_iff, CoreIdsGapFree]
  constructor
  · exact fun hg i hi x hx => hg x _ hx ⟨i, hi, rfl⟩
  · intro hg x _ hx hhx
    obtain ⟨i, hi, rfl⟩ := hhx
    exact hg i hi x hx

theorem Answer.setUpOncePerCore_iff (h : Answer bigEndian packet n s t stat) (hstat : stat = 0) :
    SetUpOncePerCore bigEndian packet (ArequestPacket.nchannels packet).toNat n t (s.effectsSince t) ↔
      CoreIdsGapFree bigEndian packet (ArequestPacket.nchannels packet).toNat := by
  have hholds := (h.grouped hstat).holds
  have hsetups : setups (s.effectsSince t) = (t.node n).setupOrder := by rw [h.setUp, if_pos hstat]
  rw [← h.all_reached_iff hstat]
  constructor
  · intro hs j c hc
    obtain ⟨i, hi, rfl⟩ := (hholds.used_iff j).mp (by simp [hc])
    obtain ⟨d, hd, hcount⟩ := hs.used i hi
    obtain rfl := Option.some.inj (hc.symm.trans hd)
    rw [← hsetups]
    exact List.count_pos_iff.mp (by omega)
  · intro hall
    refine ⟨fun i hi => ?_, fun c hc => ?_⟩
    · obtain ⟨c, hc⟩ := Option.isSome_iff_exists.mp ((hholds.used_iff _).mpr ⟨i, hi, rfl⟩)
      refine ⟨c, hc, ?_⟩
      rw [hsetups]
      exact List.count_eq_one_of_mem (nodup_reachedCores hholds.distinct (List.nodup_finRange _))
        (hall _ c hc)
    · rw [hsetups] at hc
      obtain ⟨j, -, hj⟩ := mem_reachedCores hc
      obtain ⟨i, hi, rfl⟩ := (hholds.used_iff j).mp (by simp [hj])
      exact ⟨i, hi, hj⟩

theorem Answer.all_added_iff (h : Answer bigEndian packet n s t stat) (hstat : stat = 0) :
    (∀ j c, (t.node n).cores j = some c → ProcessorAdded c (s.effectsSince t)) ↔
      CoreIdsGapFree bigEndian packet (ArequestPacket.nchannels packet).toNat ∧
        StepsSucceed (s.effectsSince t) := by
  rw [← h.all_reached_iff hstat, ← h.added hstat]
  constructor
  · intro hall
    refine ⟨fun j c hc => h.reached c (hall j c hc), fun c hc => ?_⟩
    obtain ⟨j, -, hj⟩ := mem_reachedCores hc
    exact hall j c hj
  · exact fun hh j c hc => hh.2 c (hh.1 j c hc)

variable [NodeLists L] (env : Env σ) {sender : SockaddrLl}

/-- `setup_remoteprocs` stops at the first unused core id. -/
theorem setups_exact_iff_gap_free (h : Accepted sender packet n s) {len : Nat}
    (hrun : etherRxArequest env sender packet len s = .ok () t)
    (hconn : ∀ r ∈ connects (s.effectsSince t), r = 0) :
    SetUpOncePerCore env.bigEndian packet (ArequestPacket.nchannels packet).toNat n t
      (s.effectsSince t) ↔
      CoreIdsGapFree env.bigEndian packet (ArequestPacket.nchannels packet).toNat := by
  obtain ⟨stat, hans⟩ := h.answer env hrun
  rcases Nat.eq_zero_or_pos (ArequestPacket.nchannels packet).toNat with h0 | hpos
  · have hstat : stat ≠ 0 := by simp [(hans.empty h0).1, einval]
    have hnone : setups (s.effectsSince t) = [] := by rw [hans.setUp, if_neg hstat]
    rw [h0]
    exact ⟨fun _ i hi => absurd hi (Nat.not_lt_zero i),
      fun _ => ⟨fun i hi => absurd hi (Nat.not_lt_zero i), by simp [hnone]⟩⟩
  · exact hans.setUpOncePerCore_iff (hans.stat_eq_zero_iff.mpr ⟨hpos, hconn⟩)

theorem ofNat_emod_eq_zero_iff (stat : Int) : UInt8.ofNat (stat % 256).toNat = 0 ↔ stat % 256 = 0 := by
  have hlo := Int.emod_nonneg stat (by decide : (256 : Int) ≠ 0)
  have hhi := Int.emod_lt_of_pos stat (by decide : (0 : Int) < 256)
  rw [← UInt8.toNat_inj, UInt8.toNat_ofNat']
  simp only [UInt8.toNat_zero]
  omega

/-- The status goes out as an `uint8_t`, and `setup_remoteprocs` reports no failure. -/
theorem status_truthful_iff (h : Accepted sender packet n s) {len : Nat}
    (hrun : etherRxArequest env sender packet len s = .ok () t) {status : UInt8}
    (hreply : statusSent (s.effectsSince t) = [status]) :
    StatusTruthful n t (s.effectsSince t) status ↔
      (∀ r ∈ connects (s.effectsSince t), r % 256 = 0 → r = 0) ∧
      (0 < (ArequestPacket.nchannels packet).toNat → (∀ r ∈ connects (s.effectsSince t), r = 0) →
        CoreIdsGapFree env.bigEndian packet (ArequestPacket.nchannels packet).toNat ∧
          StepsSucceed (s.effectsSince t)) := by
  obtain ⟨stat, hans⟩ := h.answer env hrun
  have hbyte : status = 0 ↔ stat % 256 = 0 := by
    rw [← ofNat_emod_eq_zero_iff]
    rcases hans.status with hnone | hsent
    · simp [hnone] at hreply
    · rw [List.singleton_inj.mp (hreply.symm.trans hsent)]
  by_cases hstat : stat = 0
  · have hconn := (hans.stat_eq_zero_iff.mp hstat)
    have hadded := hans.all_added_iff hstat
    have hzero : status = 0 := hbyte.mpr (by simp [hstat])
    constructor
    · intro hs
      exact ⟨fun r hr _ => hconn.2 r hr, fun _ _ => hadded.mp (hs.zero_iff.mp hzero).2.2⟩
    · intro hs
      refine ⟨⟨fun _ => ⟨hans.associated.mpr hstat, hconn.2, hadded.mpr (hs.2 hconn.1 hconn.2)⟩,
        fun _ => hzero⟩, ?_⟩
      simp [hzero, hans.killed, hstat]
  · have hassoc : ¬ t.Associated n := fun ha => hstat (hans.associated.mp ha)
    have hkilled := hans.killed.mpr hstat
    constructor
    · intro hs
      have hmod : stat % 256 ≠ 0 := fun h0 => hassoc (hs.zero_iff.mp (hbyte.mpr h0)).1
      refine ⟨fun r hr h0 => ?_, fun hpos hall => absurd (hans.stat_eq_zero_iff.mpr ⟨hpos, hall⟩) hstat⟩
      rcases hans.connected r hr with rfl | rfl
      · rfl
      · exact absurd h0 hmod
    · intro hs
      have hmod : stat % 256 ≠ 0 := by
        rcases hans.failed hstat with h0 | hmem
        · rw [(hans.empty h0).1]
          decide
        · exact fun h0 => hstat (hs.1 stat hmem h0)
      have hne : status ≠ 0 := fun h0 => hmod (hbyte.mp h0)
      exact ⟨⟨fun h0 => absurd h0 hne, fun ha => absurd ha.1 hassoc⟩, ⟨fun _ => hkilled, fun _ => hne⟩⟩

end

theorem gapRequest_not_set_up : ∃ t : Daemon (Links Cell) Unit,
    etherRxArequest bareHost boardAddr (atPointer (requestFrame 1 [1, 0x20])) 20
      boardDaemon = .ok () t ∧
    (∀ r ∈ connects (boardDaemon.effectsSince t), r = 0) ∧
    ¬ SetUpOncePerCore false (atPointer (requestFrame 1 [1, 0x20])) 1 0 t
      (boardDaemon.effectsSince t) := by
  have hreturns : returnsIn
    (etherRxArequest bareHost boardAddr (atPointer (requestFrame 1 [1, 0x20])) 20)
      (fun t => (connects (boardDaemon.effectsSince t)).isEmpty &&
        (setups (boardDaemon.effectsSince t)).isEmpty) boardDaemon = true := by decide +kernel
  obtain ⟨_, t, hrun, ht⟩ := exists_of_returnsIn hreturns
  simp only [Bool.and_eq_true, List.isEmpty_iff] at ht
  refine ⟨t, hrun, by simp [ht.1], fun hs => ?_⟩
  obtain ⟨c, -, hcount⟩ := hs.used 0 (by decide)
  simp [ht.2] at hcount

theorem setups_exact_core_zero : ∃ t : Daemon (Links Cell) Unit,
    SetUpOncePerCore false (atPointer (requestFrame 1 [1, 0])) 1 0 t (boardDaemon.effectsSince t) := by
  obtain ⟨_, t, hrun, ht⟩ := exists_of_returnsIn boardRequest_returns
  simp only [Bool.and_eq_true, List.isEmpty_iff] at ht
  refine ⟨t, (setups_exact_iff_gap_free bareHost (boardRequest_accepted (by decide)) hrun
    (by simp [ht.1])).mpr ?_⟩
  unfold CoreIdsGapFree
  decide

theorem unset_processor_reported_ready : ∃ t : Daemon (Links Cell) Unit,
    etherRxArequest bareHost boardAddr (atPointer (requestFrame 1 [1, 0])) 20 boardDaemon = .ok () t ∧
    statusSent (boardDaemon.effectsSince t) = [0] ∧
    ¬ StatusTruthful 0 t (boardDaemon.effectsSince t) 0 := by
  have hreturns : returnsIn (etherRxArequest bareHost boardAddr (atPointer (requestFrame 1 [1, 0])) 20)
      (fun t => (statusSent (boardDaemon.effectsSince t) = [0]) && ((t.node 0).cores 0 = some 0) &&
        (boardDaemon.effectsSince t).all fun e => !e.addsProc) boardDaemon = true := by
    decide +kernel
  obtain ⟨_, t, hrun, ht⟩ := exists_of_returnsIn hreturns
  simp only [Bool.and_eq_true, decide_eq_true_eq, List.all_eq_true, Bool.not_eq_true'] at ht
  refine ⟨t, hrun, ht.1.1, fun hs => ?_⟩
  exact not_processorAdded_of_addsProc ht.2 ((hs.zero_iff.mp rfl).2.2 0 0 ht.1.2)

theorem status_truthful_core_zero : ∃ t : Daemon (Links Cell) Unit,
    etherRxArequest driverHost boardAddr (atPointer (requestFrame 1 [1, 0])) 20 boardDaemon = .ok () t ∧
    StatusTruthful 0 t (boardDaemon.effectsSince t) 0 := by
  have hreturns : returnsIn
      (etherRxArequest driverHost boardAddr (atPointer (requestFrame 1 [1, 0])) 20)
      (fun t => (connects (boardDaemon.effectsSince t)).isEmpty &&
        decide (statusSent (boardDaemon.effectsSince t) = [0]) &&
        (boardDaemon.effectsSince t).all fun e => e.succeeds) boardDaemon = true := by decide +kernel
  obtain ⟨_, t, hrun, ht⟩ := exists_of_returnsIn hreturns
  simp only [Bool.and_eq_true, List.isEmpty_iff, decide_eq_true_eq, List.all_eq_true] at ht
  obtain ⟨⟨hconn, hsent⟩, hsteps⟩ := ht
  refine ⟨t, hrun, (status_truthful_iff driverHost (boardRequest_accepted (by decide)) hrun hsent).mpr
    ⟨by simp [hconn], fun _ _ => ⟨?_, stepsSucceed_of_succeeds hsteps⟩⟩⟩
  unfold CoreIdsGapFree
  decide

end Lininoio
