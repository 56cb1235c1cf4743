import Lininoio.ChannelTable
import Lininoio.MainLoopSteps

/-! How long an associated node stays alive: the deadline of its alive timeout
along a run, and the data packets that should move it. -/

namespace Lininoio

open StateFault Timeval DeltaQueue CircularLinks

def aliveMicros : Nat := optAliveTimeout * 1000

section Deadlines

variable {L σ : Type} {s t : Daemon L σ} {n : Slot} {D now : Nat}

def DueAt (n : Slot) (D now : Nat) (s : Daemon L σ) : Prop :=
  s.Associated n ∧ ∃ a, (s.node n).aliveTo = some a ∧
    (D, ⟨a, some .killNode, n, true⟩) ∈ agenda now s.timeouts.queue

/-- An allocation that fails leaves an associated node without an alive timeout. -/
def Untimed (n : Slot) (s : Daemon L σ) : Prop := s.Associated n ∧ (s.node n).aliveTo = none

def Awaits (n : Slot) (D now : Nat) (s : Daemon L σ) : Prop := DueAt n D now s ∨ Untimed n s

def Spared (n : Slot) (s t : Daemon L σ) : Prop := ∃ E, t.trace = s.trace ++ E ∧ .killNode n ∉ E

theorem Spared.refl (n : Slot) (s : Daemon L σ) : Spared n s s := ⟨[], by simp, by simp⟩

theorem Spared.trans {u : Daemon L σ} (h : Spared n s t) (h' : Spared n t u) : Spared n s u := by
  obtain ⟨E, hE, hk⟩ := h
  obtain ⟨F, hF, hk'⟩ := h'
  exact ⟨E ++ F, by rw [hF, hE, List.append_assoc], by simp [hk, hk']⟩

theorem micros_aliveEntry (env : Env σ) (n : Slot) (addr : Nat) :
    (aliveEntry env n addr).expires.micros = aliveMicros := by
  apply micros_ofMillis
  cases env.ulong <;> simp [LongWidth.bits, optAliveTimeout]

theorem DueAt.wait {s : Etherd L σ} (h : DueAt n D s.now s.daemon) (us : Nat) :
    DueAt n D (s.waited us).now (s.waited us).daemon := by
  obtain ⟨hA, a, ha, hm⟩ := h
  refine ⟨hA, a, ha, ?_⟩
  change _ ∈ agenda (s.now + (selectWait us s.daemon.timeouts).1)
    (selectWait us s.daemon.timeouts).2.queue
  rwa [agenda_selectWait]

theorem Untimed.wait {s : Etherd L σ} (h : Untimed n s.daemon) (us : Nat) :
    Untimed n (s.waited us).daemon := h

theorem DueAt.later (h : DueAt n D now s)
    (hhead : ∀ e, s.timeouts.queue.head? = some e → e.expires.micros ≠ 0) : now < D := by
  obtain ⟨-, a, -, hm⟩ := h
  cases hq : s.timeouts.queue with
  | nil => simp [hq, agenda, dueTimes] at hm
  | cons e rest =>
    have hpos := hhead e (by simp [hq])
    have hle : now + e.expires.micros ≤ D := by
      rw [hq] at hm
      rcases List.mem_cons.mp hm with hm | hm
      · exact (congrArg Prod.fst hm).ge
      · exact base_le_of_mem_dueTimes hm
    omega

variable [NodeLists L] [LawfulNodeLists L]

theorem AliveOk.addr_lt (h : AliveOk s) {d : Nat × Tag ToHandler Slot}
    (hd : d ∈ agenda now s.timeouts.queue) : d.2.addr < s.timeouts.fresh := by
  have hm := List.mem_map_of_mem (f := Prod.snd) hd
  rw [map_snd_agenda] at hm
  exact h.tags.fresh _ hm

omit [LawfulNodeLists L] in
theorem spared_expire {e : Timeout ToHandler Slot} (rest : List (Timeout ToHandler Slot))
    (hA : s.Associated n) (hpriv : e.armed = true → e.priv ≠ n) :
    (expire e rest s).Associated n ∧ Spared n s (expire e rest s) := by
  rw [Daemon.Associated, associated_expire]
  by_cases he : e.armed = true
  · exact ⟨by simpa [he, (hpriv he).symm] using hA, [.killNode e.priv], by simp [expire, he],
      by simpa using (hpriv he).symm⟩
  · exact ⟨by simpa [he] using hA, [], by simp [expire, he], by simp⟩

theorem Untimed.expired (h : Untimed n s) (hok : AliveOk s) (hexp : Expired s t) :
    Untimed n t ∧ Spared n s t := by
  induction hexp with
  | done => exact ⟨h, .refl n _⟩
  | @round s t e rest hq h0 hrest ih =>
    have hpriv : e.armed = true → e.priv ≠ n := by
      intro he hp
      have halive := (hok.tags.armed e.tag (by simp [hq]) he).2
      rw [show e.tag.priv = n from hp, h.2] at halive
      simp at halive
    obtain ⟨hA, hspared⟩ := spared_expire rest h.1 hpriv
    obtain ⟨huntimed, hspared'⟩ := ih ⟨hA, h.2⟩ (hok.expire hq)
    exact ⟨huntimed, hspared.trans hspared'⟩

theorem DueAt.expired (h : DueAt n D now s) (hok : AliveOk s) (hexp : Expired s t) :
    if D = now then ∃ E, t.trace = s.trace ++ E ∧ .killNode n ∈ E else DueAt n D now t ∧
      Spared n s t := by
  induction hexp with
  | @done s hhead =>
    rw [if_neg (h.later hhead).ne']
    exact ⟨h, .refl n s⟩
  | @round s t e rest hq h0 hrest ih =>
    obtain ⟨hA, a, ha, hm⟩ := h
    rw [hq, agenda_cons_expired h0] at hm
    rcases List.mem_cons.mp hm with hm | hm
    · have htag : (⟨a, some .killNode, n, true⟩ : Tag ToHandler Slot) = e.tag := congrArg Prod.snd hm
      have harmed : e.armed = true := (congrArg Tag.armed htag).symm
      have hpriv : e.priv = n := (congrArg Tag.priv htag).symm
      obtain ⟨E, hE⟩ := hrest.trace
      rw [if_pos (congrArg Prod.fst hm)]
      exact ⟨.killNode n :: E, by simp [hE, expire, harmed, hpriv], by simp⟩
    · have htags := hok.tags
      rw [hq, List.map_cons] at htags
      have hmem : (⟨a, some .killNode, n, true⟩ : Tag ToHandler Slot) ∈ rest.map Timeout.tag := by
        rw [← map_snd_agenda now rest]
        exact List.mem_map_of_mem hm
      have hpriv : e.armed = true → e.priv ≠ n := by
        intro he hp
        have heq := htags.eq_of_armed (List.mem_cons_of_mem _ hmem) List.mem_cons_self rfl he hp.symm
        exact (List.nodup_cons.mp htags.distinct).1 (heq ▸ List.mem_map_of_mem hmem)
      obtain ⟨hA', hspared⟩ := spared_expire rest hA hpriv
      have hdue : DueAt n D now (expire e rest s) := ⟨hA', a, ha, hm⟩
      have hh := ih hdue (hok.expire hq)
      by_cases hD : D = now
      · rw [if_pos hD] at hh ⊢
        obtain ⟨E, hE, hk⟩ := hh
        obtain ⟨F, hF, -⟩ := hspared
        exact ⟨F ++ E, by rw [hE, hF, List.append_assoc], by simp [hk]⟩
      · rw [if_neg hD] at hh ⊢
        exact ⟨hh.1, hspared.trans hh.2⟩

variable {env : Env σ} {sender : SockaddrLl}

omit [LawfulNodeLists L] in
theorem AssociationRun.timer {packet : Memory} {n : Slot} {s₁ s₂ u : Daemon L σ} {mem stat : Int}
    {C S R : List Effect} {q : Timeouts ToHandler Slot}
    (h : AssociationRun env n packet (handOut n sender s) s₁ s₂ u mem stat C S R)
    (hcancel : stat ≠ 0 → ∃ a, (s₁.node n).aliveTo = some a ∧ cancelTimeout a s₁.timeouts = some q)
    (hnormal : QueueNormal s.timeouts.queue)
    {d : Nat × Tag ToHandler Slot} (hd : d.2.addr < s.timeouts.fresh) :
    d ∈ agenda now (closeArequest n stat q u).timeouts.queue ↔ d ∈ agenda now s.timeouts.queue := by
  by_cases hneg : mem < 0
  · rw [(h.unscheduled env hcancel hneg).2]
  · have hinsert : ∀ d' : Nat × Tag ToHandler Slot, d'.2.addr < s.timeouts.fresh →
        (d' ∈ agenda now (insertTimeout (aliveEntry env n s.timeouts.fresh) s.timeouts.queue) ↔
          d' ∈ agenda now s.timeouts.queue) := by
      intro d' hlt
      rw [agenda_insertTimeout now (normal_ofMillis _ _) hnormal, mem_insertDue]
      constructor
      · rintro (rfl | hd')
        · exact absurd hlt (lt_irrefl _)
        · exact hd'
      · exact .inr
    rw [(h.queue env hcancel (not_lt.mp hneg)).2]
    by_cases hstat : stat = 0
    · rw [if_pos hstat]
      exact hinsert d hd
    · rw [if_neg hstat, agenda_disarm, List.mem_map, ← hinsert d hd]
      have haddr : ∀ d' : Nat × Tag ToHandler Slot, (d'.2.disarm s.timeouts.fresh).addr =
        d'.2.addr := by
        intro d'
        by_cases hfresh : d'.2.addr = s.timeouts.fresh <;> simp [Tag.disarm, hfresh]
      have hsame : ∀ d' : Nat × Tag ToHandler Slot, d'.2.addr < s.timeouts.fresh →
          (d'.1, d'.2.disarm s.timeouts.fresh) = d' := by
        intro d' hlt
        simp [Tag.disarm, hlt.ne]
      constructor
      · intro hh
        obtain ⟨d', hd', rfl⟩ := hh
        have hlt : d'.2.addr < s.timeouts.fresh := by rwa [← haddr d']
        rwa [hsame d' hlt]
      · intro hmem
        exact ⟨d, hmem, hsame d hd⟩

theorem CallbackStep.spares (hstep : CallbackStep env sender s t) (hok : AliveOk s)
    (hA : s.Associated n) (now : Nat) :
    t.Associated n ∧ (t.node n).aliveTo = (s.node n).aliveTo ∧ Spared n s t ∧
      ∀ d : Nat × Tag ToHandler Slot, d.2.addr < s.timeouts.fresh →
        (d ∈ agenda now t.timeouts.queue ↔ d ∈ agenda now s.timeouts.queue) := by
  cases hstep with
  | @quiet E hrun =>
    refine ⟨?_, by rw [hrun.node], ⟨E, hrun.trace, fun hk => hrun.effects _ hk⟩, fun d _ => by
      rw [hrun.timeouts]⟩
    rw [Daemon.Associated, hrun.associated]
    exact hA
  | @request packet m s₁ s₂ u mem stat C S R q hacc hrun hcancel ht =>
    have hfree := LawfulNodeLists.free_of_handOut hok.lists hacc.unknown hacc.free
    have hne : n ≠ m := by
      rintro rfl
      simp [show s.associated n = true from hA] at hfree
    subst ht
    refine ⟨?_, ?_, ⟨_, hrun.trace env, ?_⟩, fun d hd => hrun.timer hcancel hok.normal hd⟩
    · rw [Daemon.Associated, hrun.associated env]
      simpa [hne] using hA
    · have hal := congrFun (hrun.aliveTo_eq env (q := q)) n
      rwa [Function.update_of_ne hne] at hal
    · have hq := hrun.quiet env
      intro hk
      simp only [List.mem_append, List.mem_cons, List.not_mem_nil, or_false, reduceCtorEq,
        false_or] at hk
      rcases hk with hk | hk
      · exact hq _ (by simpa using hk)
      · by_cases hstat : stat = 0 <;> simp [hstat, hne] at hk

theorem DueAt.callback (h : DueAt n D now s) (hok : AliveOk s) (hstep : CallbackStep env sender s t) :
    DueAt n D now t ∧ Spared n s t := by
  obtain ⟨hA, a, ha, hm⟩ := h
  obtain ⟨hA', hal, hspared, hagenda⟩ := hstep.spares hok hA now
  exact ⟨⟨hA', a, hal ▸ ha, (hagenda _ (hok.addr_lt hm)).mpr hm⟩, hspared⟩

theorem Untimed.callback (h : Untimed n s) (hok : AliveOk s) (hstep : CallbackStep env sender s t) :
    Untimed n t ∧ Spared n s t := by
  obtain ⟨hA, hal, hspared, -⟩ := hstep.spares hok h.1 0
  exact ⟨⟨hA, hal.trans h.2⟩, hspared⟩

end Deadlines

section Runs

variable {L σ : Type} [NodeLists L] (env : Env σ) {n : Slot} {D : Nat} {s t : Etherd L σ}

def SendsData (n : Slot) (s : Etherd L σ) : MainEvent → Prop
  | .frame _ sender payload => memcpy s.buf 0 (payload.take recvBufSize) 0 = 3 ∧
      NodeLists.search (fun m => (s.daemon.node m).addr.sllAddr = sender.sllAddr)
        s.daemon.lists = .found n
  | _ => False

instance (n : Slot) (s : Etherd L σ) (e : MainEvent) : Decidable (SendsData n s e) := by
  cases e <;> unfold SendsData <;> infer_instance

def Refreshed (n : Slot) (s t : Etherd L σ) : Prop :=
  ∃ a b, (s.daemon.node n).aliveTo = some a ∧ (t.daemon.node n).aliveTo = some b ∧
    (∀ e ∈ t.daemon.timeouts.queue, e.addr = a → e.armed = false) ∧
    (t.now + aliveMicros, ⟨b, some .killNode, n, true⟩) ∈ agenda t.now t.daemon.timeouts.queue

def RunStep (s : Etherd L σ) (es : List MainEvent) (e : MainEvent) (s' t' : Etherd L σ) : Prop :=
  ∃ pre post, es = pre ++ e :: post ∧ mainLoop env pre s = .ok () s' ∧ iteration env e s' = .ok () t'

/-- Less than the alive timeout passes between two contacts with the node: its
association or a data packet, the last of which was at `last`. -/
inductive KeptAlive (n : Slot) : Nat → Etherd L σ → List MainEvent → Prop
  | nil {last : Nat} {s : Etherd L σ} : KeptAlive n last s []
  | data {last : Nat} {s t : Etherd L σ} {e : MainEvent} {es : List MainEvent}
      (hit : iteration env e s = .ok () t) (hdata : SendsData n s e) (hgap : t.now < last + aliveMicros)
      (h : KeptAlive n t.now t es) : KeptAlive n last s (e :: es)
  | other {last : Nat} {s t : Etherd L σ} {e : MainEvent} {es : List MainEvent}
      (hit : iteration env e s = .ok () t) (hother : ¬ SendsData n s e)
      (hgap : t.now < last + aliveMicros)
      (h : KeptAlive n last t es) : KeptAlive n last s (e :: es)

variable {env}

theorem mainLoop_cons_ok {e : MainEvent} {es : List MainEvent} (hit : iteration env e s = .ok () t) :
    mainLoop env (e :: es) s = mainLoop env es t := by
  simp only [mainLoop, bind, EStateM.bind, hit]

theorem runStep_head {e : MainEvent} {es : List MainEvent} (hit : iteration env e s = .ok () t) :
    RunStep env s (e :: es) e s t :=
  ⟨[], es, rfl, rfl, hit⟩

theorem RunStep.tail {e e' : MainEvent} {es : List MainEvent} {s' t' : Etherd L σ}
    (hit : iteration env e s = .ok () t) (h : RunStep env t es e' s' t') :
      RunStep env s (e :: es) e' s' t' := by
  obtain ⟨pre, post, rfl, hpre, hit'⟩ := h
  exact ⟨e :: pre, post, rfl, (mainLoop_cons_ok hit).trans hpre, hit'⟩

theorem RunStep.cases {e e' : MainEvent} {es : List MainEvent} {s' t' : Etherd L σ}
    (hit : iteration env e s = .ok () t) (h : RunStep env s (e :: es) e' s' t') :
    (e' = e ∧ s' = s ∧ t' = t) ∨ RunStep env t es e' s' t' := by
  obtain ⟨pre, post, hes, hpre, hit'⟩ := h
  cases pre with
  | nil =>
    obtain ⟨rfl, rfl⟩ := List.cons_eq_cons.mp hes
    obtain rfl : s = s' := by simpa [mainLoop, pure, EStateM.pure] using hpre
    exact .inl ⟨rfl, rfl, by simpa using hit'.symm.trans hit⟩
  | cons e₀ pre =>
    obtain ⟨rfl, rfl⟩ := List.cons_eq_cons.mp hes
    rw [mainLoop_cons_ok hit] at hpre
    exact .inr ⟨pre, post, rfl, hpre, hit'⟩

theorem KeptAlive.before_deadline {last : Nat} {es : List MainEvent} (h : KeptAlive env n last s es)
    (hnone : ∀ e s' t', RunStep env s es e s' t' → ¬ SendsData n s' e) :
    ∀ e s' t', RunStep env s es e s' t' → t'.now < last + aliveMicros := by
  induction h with
  | nil =>
    intro e s' t' ht'
    obtain ⟨pre, post, hes, -⟩ := ht'
    simp at hes
  | data hit hdata => exact absurd hdata (hnone _ _ _ (runStep_head hit))
  | other hit _ hgap _ ih =>
    intro e s' t' hr
    rcases hr.cases hit with ⟨-, -, rfl⟩ | hr
    · exact hgap
    · exact ih (fun e' s' t' hr => hnone e' s' t' (hr.tail hit)) e s' t' hr

variable [LawfulNodeLists L]

theorem DueAt.iterate {e : MainEvent} (h : DueAt n D s.now s.daemon) (hok : AliveOk s.daemon)
    (hstep : IterationStep env e s t) :
    (DueAt n D t.now t.daemon ∧ Spared n s.daemon t.daemon) ∨
      (t.now = D ∧ ∃ E, t.daemon.trace = s.daemon.trace ++ E ∧ .killNode n ∈ E) := by
  have hexpired : ∀ {us : Nat}, t.now = (s.waited us).now → Expired (s.waited us).daemon t.daemon →
      (DueAt n D t.now t.daemon ∧ Spared n s.daemon t.daemon) ∨
        (t.now = D ∧ ∃ E, t.daemon.trace = s.daemon.trace ++ E ∧ .killNode n ∈ E) := by
    intro us hnow hexp
    have hh := (h.wait us).expired (hok.waited us) hexp
    rw [← hnow] at hh
    by_cases hD : D = t.now
    · rw [if_pos hD] at hh
      exact .inr ⟨hD.symm, hh⟩
    · rw [if_neg hD] at hh
      exact .inl hh
  cases hstep with
  | nothingScheduled => exact .inl ⟨h, .refl n _⟩
  | timeout htv hexp hnow => exact hexpired hnow hexp
  | error us => exact .inl ⟨h.wait us, .refl n _⟩
  | recvError us => exact .inl ⟨h.wait us, .refl n _⟩
  | frame us sender payload hcb hnow =>
    have hh := (h.wait us).callback (hok.waited us) hcb
    rw [← hnow] at hh
    exact .inl hh

theorem Untimed.iterate {e : MainEvent} (h : Untimed n s.daemon) (hok : AliveOk s.daemon)
    (hstep : IterationStep env e s t) : Untimed n t.daemon ∧ Spared n s.daemon t.daemon := by
  cases hstep with
  | nothingScheduled => exact ⟨h, .refl n _⟩
  | timeout htv hexp hnow => exact (h.wait _).expired (hok.waited _) hexp
  | error us => exact ⟨h, .refl n _⟩
  | recvError us => exact ⟨h, .refl n _⟩
  | frame us sender payload hcb hnow =>
    exact (h.wait us).callback (hok.waited us) hcb

theorem Awaits.iterate {e : MainEvent} (h : Awaits n D s.now s.daemon) (hok : AliveOk s.daemon)
    (hstep : IterationStep env e s t) (hbefore : t.now < D) :
    Awaits n D t.now t.daemon ∧ Spared n s.daemon t.daemon := by
  rcases h with hdue | huntimed
  · obtain ⟨hdue', hspared⟩ := (hdue.iterate hok hstep).resolve_right fun hD => absurd hD.1 hbefore.ne
    exact ⟨.inl hdue', hspared⟩
  · obtain ⟨huntimed', hspared⟩ := huntimed.iterate hok hstep
    exact ⟨.inr huntimed', hspared⟩

theorem awaits_of_associated {e : MainEvent} (hok : AliveOk s.daemon) (hstep : IterationStep env e s t)
    (hnew : ¬ s.daemon.Associated n) (hn : t.daemon.Associated n) :
    Awaits n (t.now + aliveMicros) t.now t.daemon := by
  cases hstep with
  | nothingScheduled => exact absurd hn hnew
  | timeout htv hexp hnow => exact absurd (hexp.associated hn) hnew
  | error us => exact absurd hn hnew
  | recvError us => exact absurd hn hnew
  | frame us sender payload hcb hnow =>
    cases hcb with
    | @quiet E hrun =>
      rw [Daemon.Associated, hrun.associated] at hn
      exact absurd hn hnew
    | @request packet m s₁ s₂ u mem stat C S R q hacc hrun hcancel ht =>
      have hn' := hn
      rw [ht, Daemon.Associated, hrun.associated env] at hn'
      obtain rfl : n = m := by
        by_contra hne
        rw [Function.update_of_ne hne] at hn'
        exact hnew hn'
      have hstat : stat = 0 := by simpa using hn'
      have hal := congrFun (hrun.aliveTo_eq env (q := q)) n
      rw [← ht, Function.update_self] at hal
      by_cases hneg : mem < 0
      · exact .inr ⟨hn, hal.trans (congrArg Prod.fst (scheduleAlive_of_neg env hneg _))⟩
      · have hmem : 0 ≤ mem := not_lt.mp hneg
        refine .inl ⟨hn, (s.waited us).daemon.timeouts.fresh, ?_, ?_⟩
        · exact hal.trans (congrArg Prod.fst (scheduleAlive_eq env hmem _))
        · rw [ht, (hrun.queue env hcancel hmem).2, if_pos hstat,
            agenda_insertTimeout _ (normal_ofMillis _ _) (hok.waited us).normal, micros_aliveEntry]
          exact mem_insertDue.mpr (.inl rfl)

theorem Awaits.spared {es : List MainEvent} {u : Etherd L σ} (h : Awaits n D s.now s.daemon)
    (hok : AliveOk s.daemon) (hbefore : ∀ e s' t', RunStep env s es e s' t' → t'.now < D)
    (hu : mainLoop env es s = .ok () u) : Spared n s.daemon u.daemon := by
  induction es generalizing s with
  | nil =>
    obtain rfl : s = u := by simpa [mainLoop, pure, EStateM.pure] using hu
    exact .refl n _
  | cons e es ih =>
    cases hit : iteration env e s with
    | error f t => simp [mainLoop, bind, EStateM.bind, hit] at hu
    | ok a t =>
      have hstep := wp_ok (wp_iteration env hok e) hit
      obtain ⟨hawaits, hspared⟩ := h.iterate hok hstep (hbefore e s t (runStep_head hit))
      rw [mainLoop_cons_ok hit] at hu
      exact hspared.trans (ih hawaits (hok.iterate env hstep)
        (fun e' s' t' hr => hbefore e' s' t' (hr.tail hit)) hu)

theorem Awaits.not_refreshed {e : MainEvent} (h : Awaits n D s.now s.daemon) (hok : AliveOk s.daemon)
    (hdata : SendsData n s e) (hit : iteration env e s = .ok () t) : ¬ Refreshed n s t := by
  cases e with
  | timeout => exact hdata.elim
  | error us => exact hdata.elim
  | recvError us => exact hdata.elim
  | frame us sender payload =>
    have hstep : wp (iteration env (.frame us sender payload))
        (fun _ t => t.now = (s.waited us).now ∧ t.daemon = (s.waited us).daemon)
        (fun _ _ => True) s := by
      simp only [iteration, etherRx, wp_bind, wp_waitInSelect, wp_modify, wp_get, wp_onDaemon]
      have htype : LininoioPacketType.ofByte (memcpy (s.waited us).buf 0 (payload.take recvBufSize) 0) =
          some .data := by
        have hbyte : memcpy (s.waited us).buf 0 (payload.take recvBufSize) 0 = 3 := hdata.1
        rw [hbyte]
        rfl
      simp only [etherRxCb, htype]
      exact wp_mono (wp_etherDataPacket env (hok.waited us).table _ _) (fun _ d hd => ⟨trivial, hd⟩)
        (fun _ _ _ => trivial)
    obtain ⟨hnow, hdaemon⟩ := wp_ok hstep hit
    intro hh
    obtain ⟨a', b, ha', -, hcancelled, -⟩ := hh
    obtain ⟨-, a, ha, hm⟩ := (h.resolve_right fun hnone => by simp [hnone.2] at ha').wait us
    obtain rfl : a = a' := Option.some.inj (ha.symm.trans ha')
    obtain ⟨x, hx, htag⟩ := exists_entry hm
    rw [hdaemon] at hcancelled
    have hdis := hcancelled x hx (congrArg Tag.addr htag)
    exact Bool.false_ne_true (hdis.symm.trans (congrArg Tag.armed htag))

theorem KeptAlive.no_data {last : Nat} {es : List MainEvent} (h : KeptAlive env n last s es)
    (hok : AliveOk s.daemon) (hawaits : Awaits n (last + aliveMicros) s.now s.daemon)
    (hrefresh : ∀ e s' t', RunStep env s es e s' t' → SendsData n s' e → Refreshed n s' t') :
    ∀ e s' t', RunStep env s es e s' t' → ¬ SendsData n s' e := by
  induction h with
  | nil =>
    intro e s' t' ht'
    obtain ⟨pre, post, hes, -⟩ := ht'
    simp at hes
  | data hit hdata =>
    exact absurd (hrefresh _ _ _ (runStep_head hit) hdata) (hawaits.not_refreshed hok hdata hit)
  | other hit hother hgap _ ih =>
    have hstep := wp_ok (wp_iteration env hok _) hit
    have hawaits' := (hawaits.iterate hok hstep hgap).1
    intro e s' t' hr
    rcases hr.cases hit with ⟨rfl, rfl, -⟩ | hr
    · exact hother
    · exact ih (hok.iterate env hstep) hawaits' (fun e' s' t' hr =>
        hrefresh e' s' t' (hr.tail hit)) e s' t' hr

/-- Data packets never refresh the alive timeout of their node: what is promised to a node
that stays in touch is kept in a run exactly when no data packet is sent. -/
theorem kept_alive_iff_no_data {w : σ} {udevFd netifFd : Int} {before es : List MainEvent}
    {e : MainEvent} {u : Etherd L σ}
    (hreach : mainLoop env before (etherdInit w udevFd netifFd) = .ok () s)
    (hassoc : iteration env e s = .ok () t) (hnew : ¬ s.daemon.Associated n)
    (hn : t.daemon.Associated n)
    (hkept : KeptAlive env n t.now t es) (hu : mainLoop env es t = .ok () u) :
    (.killNode n ∉ t.daemon.effectsSince u.daemon ∧
      ∀ e s' t', RunStep env t es e s' t' → SendsData n s' e → Refreshed n s' t') ↔
    ∀ e s' t', RunStep env t es e s' t' → ¬ SendsData n s' e := by
  have hok := aliveOk_of_run hreach
  have hstep := wp_ok (wp_iteration env hok e) hassoc
  have hawaits := awaits_of_associated hok hstep hnew hn
  have hok' := hok.iterate env hstep
  constructor
  · exact fun h => hkept.no_data hok' hawaits h.2
  · intro h
    obtain ⟨E, hE, hk⟩ := hawaits.spared hok' (hkept.before_deadline h) hu
    refine ⟨?_, fun e s' t' hr hd => absurd hd (h e s' t' hr)⟩
    rwa [effectsSince_eq hE]

end Runs

def boardAlive : MainEvent := .frame 1500000 boardAddr [3, 0, 0]

theorem live_board_killed : ∃ s t u : Etherd (Links Cell) Unit,
    iteration bareHost boardAssociates (etherdInit () 3 4) = .ok () s ∧ s.daemon.Associated 0 ∧
    KeptAlive bareHost 0 s.now s [boardAlive, .timeout] ∧ iteration bareHost boardAlive s = .ok () t ∧
    iteration bareHost .timeout t = .ok () u ∧ .killNode 0 ∈ s.daemon.effectsSince u.daemon := by
  have hreturns : returnsIn (iteration bareHost boardAssociates)
      (fun s : Etherd (Links Cell) Unit => s.daemon.associated 0 && decide (SendsData 0 s boardAlive) &&
        returnsIn (iteration bareHost boardAlive) (fun t => decide (t.now < s.now + aliveMicros) &&
          returnsIn (iteration bareHost .timeout) (fun u => decide (u.now < t.now + aliveMicros) &&
            decide (.killNode 0 ∈ s.daemon.effectsSince u.daemon)) t) s)
      (etherdInit () 3 4) = true := by decide +kernel
  obtain ⟨_, s, hs, hp⟩ := exists_of_returnsIn hreturns
  simp only [Bool.and_eq_true, decide_eq_true_eq] at hp
  obtain ⟨⟨hassoc, hdata⟩, hp⟩ := hp
  obtain ⟨_, t, ht, hp⟩ := exists_of_returnsIn hp
  simp only [Bool.and_eq_true, decide_eq_true_eq] at hp
  obtain ⟨hgap, hp⟩ := hp
  obtain ⟨_, u, hu, hp⟩ := exists_of_returnsIn hp
  simp only [Bool.and_eq_true, decide_eq_true_eq] at hp
  exact ⟨s, t, u, hs, hassoc, .data ht hdata hgap (.other hu id hp.1 .nil), ht, hu, hp.2⟩

theorem kept_alive_iff_no_data_silent : ∃ t u : Etherd (Links Cell) Unit,
    iteration bareHost (.error 1000) t = .ok () u ∧ .killNode 0 ∉ t.daemon.effectsSince u.daemon := by
  have hreturns : returnsIn (iteration bareHost boardAssociates)
      (fun t : Etherd (Links Cell) Unit => t.daemon.associated 0 && decide (t.now = 0))
      (etherdInit () 3 4) =
      true := by decide +kernel
  obtain ⟨_, t, ht, hp⟩ := exists_of_returnsIn hreturns
  simp only [Bool.and_eq_true, decide_eq_true_eq] at hp
  have hu : iteration bareHost (.error 1000) t = .ok () (t.waited 1000) := rfl
  have hgap : (t.waited 1000).now < t.now + aliveMicros :=
    (Nat.add_le_add_left (selectWait_le 1000 _) _).trans_lt (Nat.add_lt_add_left (by decide) _)
  refine ⟨t, t.waited 1000, hu, ((kept_alive_iff_no_data
    (show mainLoop bareHost [] _ = .ok () _ from rfl) ht (by decide) hp.1 (.other hu id hgap .nil)
    (mainLoop_cons_ok hu)).mpr ?_).1⟩
  intro e s' t' ht'
  obtain ⟨pre, post, hes, -⟩ := ht'
  obtain rfl : MainEvent.error 1000 = e := by
    cases pre with
    | nil => exact (List.cons_eq_cons.mp hes).1
    | cons e₀ pre => simp at hes
  exact id

end Lininoio
