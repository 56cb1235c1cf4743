import Lininoio.EventSteps
import Lininoio.KeepAlive

/-! Armed timeouts that are due when an iteration ends. `handle_timeouts` runs only
when select returns 0, which a busy socket may prevent for ever. -/

namespace Lininoio

open StateFault Timeval DeltaQueue CircularLinks

section Due

variable {L σ : Type} {s t : Daemon L σ} {now : Nat}

/-- An armed entry is still queued although its deadline has been reached. -/
def DueNow (now : Nat) (s : Daemon L σ) : Prop :=
  ∃ d ∈ agenda now s.timeouts.queue, d.2.armed = true ∧ d.1 ≤ now

theorem dueNow_congr (h : t.timeouts = s.timeouts) : DueNow now t ↔ DueNow now s := by
  simp only [DueNow, h]

variable [NodeLists L]

theorem Expired.agenda (h : Expired s t) (now : Nat) :
    agenda now t.timeouts.queue = (agenda now s.timeouts.queue).filter (fun d => now < d.1) := by
  induction h with
  | @done s hhead =>
    refine (List.filter_eq_self.mpr fun d hd => decide_eq_true ?_).symm
    cases hq : s.timeouts.queue with
    | nil =>
      rw [hq] at hd
      simp [Lininoio.agenda, deltas, dueTimes] at hd
    | cons e rest =>
      have hpos := hhead e (by simp [hq])
      rw [hq] at hd
      have hle : now + e.expires.micros ≤ d.1 := by
        rcases List.mem_cons.mp hd with hd | hd
        · exact (congrArg Prod.fst hd).ge
        · exact base_le_of_mem_dueTimes hd
      omega
  | @round s t e rest hq h0 _ ih =>
    rw [ih, hq, agenda_cons_expired h0]
    simp [expire]

theorem Expired.not_dueNow (h : Expired s t) : ¬ DueNow now t := by
  intro hh
  obtain ⟨d, hd, -, hle⟩ := hh
  rw [h.agenda now] at hd
  have hlt := of_decide_eq_true (List.mem_filter.mp hd).2
  omega

theorem Expired.associated_iff (h : Expired s t) (now : Nat) (n : Slot) : t.Associated n ↔
    s.Associated n ∧
    ∀ d ∈ Lininoio.agenda now s.timeouts.queue, d.2.armed = true → d.2.priv = n → now < d.1 := by
  induction h with
  | @done s hhead =>
    refine ⟨fun hn => ⟨hn, fun d hd _ _ => ?_⟩, fun hn => hn.1⟩
    rw [(Expired.done hhead).agenda now] at hd
    exact of_decide_eq_true (List.mem_filter.mp hd).2
  | @round s t e rest hq h0 _ ih =>
    have hexpire := associated_expire (s := s) e rest
    have hkilled : (expire e rest s).Associated n ↔ s.Associated n ∧
      ¬ (e.armed = true ∧ e.priv = n) := by
      rw [Daemon.Associated, hexpire]
      by_cases he : e.armed = true
      · by_cases hn : n = e.priv
        · simp [he, hn]
        · simp [he, hn, Ne.symm hn]
      · simp [he]
    rw [ih, hkilled, hq, agenda_cons_expired h0, List.forall_mem_cons, and_assoc]
    refine and_congr_right' (and_congr_left' ⟨fun hne harmed hpriv => absurd ⟨harmed, hpriv⟩ hne, ?_⟩)
    intro hlt hhlt
    obtain ⟨harmed, hpriv⟩ := hhlt
    exact absurd (hlt harmed hpriv) (lt_irrefl _)

variable [LawfulNodeLists L] {env : Env σ}

theorem AssociationRun.addr_lt_of_due {packet : Memory} {sender : SockaddrLl} {m : Slot}
    {s₁ s₂ u : Daemon L σ} {mem stat : Int} {C S R : List Effect} {q : Timeouts ToHandler Slot}
    (h : AssociationRun env m packet (handOut m sender s) s₁ s₂ u mem stat C S R)
    (hcancel : stat ≠ 0 → ∃ a, (s₁.node m).aliveTo = some a ∧ cancelTimeout a s₁.timeouts = some q)
    (hok : AliveOk s) {d : Nat × Tag ToHandler Slot}
    (hd : d ∈ Lininoio.agenda now (closeArequest m stat q u).timeouts.queue) (hle : d.1 ≤ now) :
    d.2.addr < s.timeouts.fresh := by
  by_cases hneg : mem < 0
  · rw [(h.unscheduled env hcancel hneg).2] at hd
    exact hok.addr_lt hd
  have hinserted : ∀ d' : Nat × Tag ToHandler Slot, d'.1 ≤ now → d' ∈ Lininoio.agenda now
      (insertTimeout (aliveEntry env m s.timeouts.fresh) s.timeouts.queue) →
        d'.2.addr < s.timeouts.fresh := by
    intro d' hle' hd'
    rw [agenda_insertTimeout now (normal_ofMillis _ _) hok.normal, micros_aliveEntry] at hd'
    rcases mem_insertDue.mp hd' with rfl | hd'
    · have hpos : 0 < aliveMicros := by decide
      exact absurd hle' (by simp; omega)
    · exact hok.addr_lt hd'
  rw [(h.queue env hcancel (not_lt.mp hneg)).2] at hd
  by_cases hstat : stat = 0
  · rw [if_pos hstat] at hd
    exact hinserted d hle hd
  · rw [if_neg hstat, agenda_disarm] at hd
    obtain ⟨d', hd', rfl⟩ := List.mem_map.mp hd
    have hlt := hinserted d' hle hd'
    simpa [Tag.disarm, hlt.ne] using hlt

theorem dueNow_callback {sender : SockaddrLl} (hok : AliveOk s) (hstep : CallbackStep env sender s t) :
    DueNow now t ↔ DueNow now s := by
  cases hstep with
  | quiet hrun => exact dueNow_congr hrun.timeouts
  | @request packet m s₁ s₂ u mem stat C S R q hacc hrun hcancel ht =>
    subst ht
    constructor
    · intro hpost
      obtain ⟨d, hd, harmed, hle⟩ := hpost
      have hlt := hrun.addr_lt_of_due hcancel hok hd hle
      exact ⟨d, (hrun.timer hcancel hok.normal hlt).mp hd, harmed, hle⟩
    · intro hpre
      obtain ⟨d, hd, harmed, hle⟩ := hpre
      exact ⟨d, (hrun.timer hcancel hok.normal (hok.addr_lt hd)).mpr hd, harmed, hle⟩

theorem dueNow_fdEvents (hok : AliveOk s) (hsteps : FdEventSteps env s t) : DueNow now t ↔
    DueNow now s := by
  induction hsteps with
  | refl => exact Iff.rfl
  | step hstep _ ih =>
    rw [ih (hok.fdEvent env hstep)]
    cases hstep with
    | frame hcb => exact dueNow_callback hok hcb
    | service hrun => exact dueNow_congr hrun.timeouts

end Due

section Runs

variable {L σ : Type} [NodeLists L] [LawfulNodeLists L] (env : Env σ)

/-- Unless select returns 0, no armed timeout reaches its deadline while it waits. -/
def WaitsBeforeDeadlines (e : Wakeup) (s : Etherd L σ) : Prop :=
  match e with
  | .timeout => True
  | .error us | .ready us _ _ => ∀ d ∈ agenda s.now s.daemon.timeouts.queue, d.2.armed = true →
      (s.waited us).now < d.1

omit [NodeLists L] [LawfulNodeLists L] in
theorem dueNow_waited (s : Etherd L σ) (us : Nat) : DueNow (s.waited us).now (s.waited us).daemon ↔
    ∃ d ∈ agenda s.now s.daemon.timeouts.queue, d.2.armed = true ∧ d.1 ≤ (s.waited us).now := by
  have hwait := agenda_selectWait us s.now s.daemon.timeouts
  change agenda (s.waited us).now (s.waited us).daemon.timeouts.queue = _ at hwait
  rw [DueNow, hwait]

variable {env}

theorem EventStep.not_dueNow_iff {e : Wakeup} {s t : Etherd L σ} (hok : AliveOk s.daemon)
    (hstep : EventStep env e s t) : ¬ DueNow t.now t.daemon ↔ WaitsBeforeDeadlines e s := by
  have hwaited : ∀ us, ¬ DueNow (s.waited us).now (s.waited us).daemon ↔
      ∀ d ∈ agenda s.now s.daemon.timeouts.queue, d.2.armed = true → (s.waited us).now < d.1 := by
    intro us
    rw [dueNow_waited]
    simp only [not_exists, not_and, not_le]
  cases hstep with
  | timeout hiter =>
    refine iff_of_true ?_ trivial
    cases hiter with
    | nothingScheduled hnone =>
      intro hh
      obtain ⟨d, hd, -⟩ := hh
      cases hq : s.daemon.timeouts.queue with
      | nil =>
        rw [hq] at hd
        simp [agenda, deltas, dueTimes] at hd
      | cons e rest => simp [getNextTimeout, hq] at hnone
    | timeout _ hexp hnow => exact hexp.not_dueNow
  | error us => exact hwaited us
  | ready us fds arrivals hsteps hnow =>
    rw [hnow, dueNow_fdEvents (hok.waited us) hsteps]
    exact hwaited us

variable (env)

/-- No armed timeout outlives its deadline, at the end of all iterations of a run, exactly
when every wait of select that reaches a deadline is one that returns 0. -/
theorem timely_expiry_iff (w : σ) (udevFd netifFd : Int) (es : List Wakeup) :
    EachIteration env (fun _ _ t => ¬ DueNow t.now t.daemon) es
      (etherdInit w udevFd netifFd : Etherd L σ) ↔
      EachIteration env (fun e s _ => WaitsBeforeDeadlines e s) es
        (etherdInit w udevFd netifFd : Etherd L σ) := by
  refine eachIteration_iff (I := fun s => AliveOk s.daemon) (fun e s hok => ?_) es
    (aliveOk_init w udevFd netifFd)
  refine wp_mono (wp_eventIteration env hok e) (fun _ t hstep => ?_) fun _ _ _ => trivial
  exact ⟨hstep.not_dueNow_iff hok, fun _ => hok.eventStep env hstep⟩

def neighbourAddr : SockaddrLl := { boardAddr with sllAddr := #v[2, 0, 0, 0, 0, 2, 0, 0] }

/-- A frame of the neighbour arrives just when the alive timeout of the board elapses. -/
def boardOutlived : List Wakeup :=
  [.ready 0 [4] ⟨some (boardAddr, requestFrame 1 [1, 0]), none⟩,
    .ready 2000000 [4] ⟨some (neighbourAddr, [2, 0]), none⟩]

theorem boardOutlived_returns : returnsIn (eventLoop bareHost boardOutlived)
    (fun t : Etherd (Links Cell) Unit => (agenda t.now t.daemon.timeouts.queue).any
      fun d => d.2.armed && decide (d.1 ≤ t.now)) (etherdInit () 3 4) = true := by
  decide +kernel

theorem board_outlives_timeout :
    ¬ EachIteration bareHost (fun _ _ t => ¬ DueNow t.now t.daemon) boardOutlived
    (etherdInit () 3 4 : Etherd (Links Cell) Unit) := by
  apply not_eachIteration_of_returnsIn boardOutlived_returns (List.cons_ne_nil _ _)
  intro t ht hnot
  obtain ⟨d, hd, hdue⟩ := List.any_eq_true.mp ht
  rw [Bool.and_eq_true, decide_eq_true_eq] at hdue
  exact hnot ⟨d, hd, hdue⟩

end Runs

end Lininoio
