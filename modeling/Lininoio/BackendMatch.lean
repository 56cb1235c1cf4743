import Lininoio.BackendBinding

/-! The channel that `match_backend` finds for the backend of a vring, compared with the
channel lists of the cores, in whose order the firmware images are made. -/

namespace Lininoio

open StateFault CircularLinks

section

variable {L σ : Type} {s : Daemon L σ} {c : CorePtr}

theorem matchBackend_eq {minor : Nat} (h : minor / 2 < lininoioMaxNchannels) : matchBackend c minor s =
    .ok (minor % 2, (s.node (s.core c).node).channels ⟨minor / 2, h⟩) s := by
  simp only [matchBackend, bind, EStateM.bind, readCore, readNode, get_apply, pure,
    EStateM.pure, dif_pos h]

/-- The backend of vring `r` of the `v`-th vdev gets the channel at position `v` of the list
of the core. -/
def SelectsMember (c : CorePtr) (v r : Nat) (s : Daemon L σ) : Prop :=
  ∃ x, (s.core c).channels[v]? = some x ∧ matchBackend c (2 * v + r) s = .ok (r, some x) s

theorem not_selectsMember_of_null {v r : Nat} (hv : v < lininoioMaxNchannels) (hr : r < 2)
    (hnull : ∀ j, (s.node (s.core c).node).channels j = none) :
    matchBackend c (2 * v + r) s = .ok (r, none) s ∧ ¬ SelectsMember c v r s := by
  have hdiv : (2 * v + r) / 2 < lininoioMaxNchannels := by omega
  have hmod : (2 * v + r) % 2 = r := by omega
  have hmatch : matchBackend c (2 * v + r) s = .ok (r, none) s := by
    rw [matchBackend_eq hdiv, hnull, hmod]
  refine ⟨hmatch, fun hh => ?_⟩
  obtain ⟨x, -, hx⟩ := hh
  rw [hmatch] at hx
  cases hx

variable [NodeLists L] [LawfulNodeLists L] (env : Env σ)

/-- In a run each core of an associated node has at least one channel, and none of its
backends ever gets its channel: `match_backend` stays inside the table of the node, finds the
right vring, and NULL. -/
theorem match_backend_never_selects {w : σ} {udevFd netifFd : Int} {es : List Wakeup} {s : Etherd L σ}
    (hrun : eventLoop env es (etherdInit w udevFd netifFd) = .ok () s) {n : Slot}
    (hn : s.daemon.Associated n) {j : Fin lininoioMaxNcores} {c : CorePtr}
    (hc : (s.daemon.node n).cores j = some c) :
    0 < (s.daemon.core c).nchannels ∧ ∀ v < (s.daemon.core c).nchannels, ∀ r < 2,
      matchBackend c (2 * v + r) s.daemon = .ok (r, none) s.daemon ∧
        ¬ SelectsMember c v r s.daemon := by
  obtain ⟨hok, hheld⟩ := (keptByAll_allHeld env).of_run (fun n hn => by simp [Daemon.Associated,
    Daemon.associated, daemonInit, associatedAfter] at hn) hrun
  obtain ⟨packet, base, hh⟩ := hheld n hn
  have hcount := hh.holds.nchannels j c hc
  obtain ⟨k, hk, hkj⟩ := (hh.holds.used_iff j).mp (by rw [hc]; rfl)
  have hmem : base + k ∈ membersUpTo env.bigEndian packet base (s.daemon.node n).nchannels j :=
    List.mem_map.mpr ⟨k, by simp [hk, hkj], rfl⟩
  have hle : (s.daemon.core c).nchannels ≤ lininoioMaxNchannels := by
    rw [hcount, membersUpTo, List.length_map]
    exact ((List.length_filter_le _ _).trans_eq List.length_range).trans hh.few
  refine ⟨by rw [hcount]; exact List.length_pos_of_mem hmem, fun v hv r hr => ?_⟩
  exact not_selectsMember_of_null (hv.trans_le hle) hr (hok.table _)

end

/-- A board with one channel on each of its first two cores. -/
def twoCores : List Wakeup := [.ready 0 [4] ⟨some (boardAddr, requestFrame 2 [1, 0, 1, 0x20]), none⟩]

theorem twoCores_returns : returnsIn (eventLoop driverHost twoCores)
    (fun t : Etherd (Links Cell) Unit => t.daemon.associated 0 &&
      (t.daemon.node 0).cores 1 == some 1 && (t.daemon.core 1).nchannels == 1 &&
      (List.finRange lininoioMaxNchannels).all fun j =>
        ((t.daemon.node (t.daemon.core 1).node).channels j).isNone) (etherdInit () 3 4) = true := by
  decide +kernel

theorem twoCores_run : ∃ t : Etherd (Links Cell) Unit,
    eventLoop driverHost twoCores (etherdInit () 3 4) = .ok () t ∧ t.daemon.Associated 0 ∧
    (t.daemon.node 0).cores 1 = some 1 ∧ (t.daemon.core 1).nchannels = 1 ∧
    ∀ j, (t.daemon.node (t.daemon.core 1).node).channels j = none := by
  obtain ⟨_, t, hrun, ht⟩ := exists_of_returnsIn twoCores_returns
  simp only [Bool.and_eq_true, beq_iff_eq, List.all_eq_true, List.mem_finRange, forall_const,
    Option.isNone_iff_eq_none] at ht
  exact ⟨t, hrun, ht.1.1.1, ht.1.1.2, ht.1.2, ht.2⟩

theorem twoCores_never_selects : ∃ t : Etherd (Links Cell) Unit,
    eventLoop driverHost twoCores (etherdInit () 3 4) = .ok () t ∧ 0 < (t.daemon.core 1).nchannels ∧
      ∀ v < (t.daemon.core 1).nchannels, ∀ r < 2,
        matchBackend 1 (2 * v + r) t.daemon = .ok (r, none) t.daemon ∧
          ¬ SelectsMember 1 v r t.daemon := by
  obtain ⟨t, hrun, hassoc, hcore, -⟩ := twoCores_run
  exact ⟨t, hrun, match_backend_never_selects driverHost hrun hassoc hcore⟩

/-- The backend of the only channel of the second core gets no channel. -/
theorem twoCores_not_selected : ∃ t : Etherd (Links Cell) Unit,
    eventLoop driverHost twoCores (etherdInit () 3 4) = .ok () t ∧ t.daemon.Associated 0 ∧
      (t.daemon.node 0).cores 1 = some 1 ∧ 0 < (t.daemon.core 1).nchannels ∧
      ¬ SelectsMember 1 0 0 t.daemon := by
  obtain ⟨t, hrun, hassoc, hcore, hcount, hnull⟩ := twoCores_run
  exact ⟨t, hrun, hassoc, hcore, by rw [hcount]; exact Nat.one_pos,
    (not_selectsMember_of_null (by decide) (by decide) hnull).2⟩

end Lininoio
