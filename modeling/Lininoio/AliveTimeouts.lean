import Lininoio.MainLoop
import Lininoio.NodeRings
import Lininoio.Requests

/-! The alive timeouts of the nodes: in every run the armed entries of the timeout
queue are those of the associated nodes. -/

namespace Lininoio

open StateFault Timeval DeltaQueue

/-- The entries of the queue, their places in time aside, belong to the associated nodes. -/
structure TagsOk (A : Slot → Bool) (aliveTo : Slot → Option Nat) (fresh : Nat)
    (T : List (Tag ToHandler Slot)) : Prop where
  distinct : (T.map Tag.addr).Nodup
  fresh : ∀ t ∈ T, t.addr < fresh
  handlers : ∀ t ∈ T, t.handler = some .killNode
  armed : ∀ t ∈ T, t.armed = true → A t.priv = true ∧ aliveTo t.priv = some t.addr
  alive : ∀ n, A n = true → ∀ a, aliveTo n = some a → ∃ t ∈ T, t.armed = true ∧ t.priv = n ∧ t.addr = a

namespace TagsOk

variable {A : Slot → Bool} {aliveTo : Slot → Option Nat} {fresh : Nat}
  {T T' : List (Tag ToHandler Slot)}
  {n : Slot}

theorem perm (h : TagsOk A aliveTo fresh T) (hp : T'.Perm T) : TagsOk A aliveTo fresh T' where
  distinct := (hp.map Tag.addr).nodup_iff.mpr h.distinct
  fresh t ht := h.fresh t (hp.mem_iff.mp ht)
  handlers t ht := h.handlers t (hp.mem_iff.mp ht)
  armed t ht := h.armed t (hp.mem_iff.mp ht)
  alive n hn a ha := by
    obtain ⟨t, ht, hh⟩ := h.alive n hn a ha
    exact ⟨t, hp.mem_iff.mpr ht, hh⟩

theorem schedule (h : TagsOk A aliveTo fresh T) (hn : A n = false) :
    TagsOk (Function.update A n true) (Function.update aliveTo n (some fresh)) (fresh + 1)
      (⟨fresh, some .killNode, n, true⟩ :: T) where
  distinct := by
    refine List.nodup_cons.mpr ⟨fun hm => ?_, h.distinct⟩
    obtain ⟨t, ht, he⟩ := List.mem_map.mp hm
    exact absurd (h.fresh t ht) (by simp [he])
  fresh t ht := by
    rcases List.mem_cons.mp ht with rfl | ht
    · exact Nat.lt_succ_self _
    · exact (h.fresh t ht).trans (Nat.lt_succ_self _)
  handlers t ht := by
    rcases List.mem_cons.mp ht with rfl | ht
    · rfl
    · exact h.handlers t ht
  armed t ht hta := by
    rcases List.mem_cons.mp ht with rfl | ht
    · simp
    · have hp : t.priv ≠ n := fun he => by simp [← he, (h.armed t ht hta).1] at hn
      simpa [hp] using h.armed t ht hta
  alive k hk a ha := by
    by_cases hkn : k = n
    · exact ⟨_, List.mem_cons_self, rfl, hkn.symm, by simpa [hkn] using ha⟩
    · obtain ⟨t, ht, hh⟩ := h.alive k (by simpa [hkn] using hk) a (by simpa [hkn] using ha)
      exact ⟨t, List.mem_cons_of_mem _ ht, hh⟩

theorem unscheduled (h : TagsOk A aliveTo fresh T) (hn : A n = false) :
    TagsOk (Function.update A n true) (Function.update aliveTo n none) fresh T where
  distinct := h.distinct
  fresh := h.fresh
  handlers := h.handlers
  armed t ht hta := by
    have hp : t.priv ≠ n := fun he => by simp [← he, (h.armed t ht hta).1] at hn
    simpa [hp] using h.armed t ht hta
  alive k hk a ha := by
    have hkn : k ≠ n := fun he => by simp [he] at ha
    exact h.alive k (by simpa [hkn] using hk) a (by simpa [hkn] using ha)

theorem eq_of_armed (h : TagsOk A aliveTo fresh T) {t t' : Tag ToHandler Slot} (ht : t ∈ T)
    (ht' : t' ∈ T)
    (ha : t.armed = true) (ha' : t'.armed = true) (hp : t.priv = t'.priv) : t = t' := by
  have hal := (h.armed t ht ha).2
  rw [hp, (h.armed t' ht' ha').2] at hal
  exact List.inj_on_of_nodup_map h.distinct ht ht' (Option.some.inj hal).symm

theorem cancel (h : TagsOk A aliveTo fresh T) {a : Nat} (hn : aliveTo n = some a) (hA : A n = true) :
    TagsOk (Function.update A n false) aliveTo fresh (T.map (Tag.disarm a)) := by
  have haddr : ∀ t : Tag ToHandler Slot, (t.disarm a).addr = t.addr := by
    intro t
    by_cases ht : t.addr = a <;> simp [Tag.disarm, ht]
  refine ⟨?_, ?_, ?_, ?_, ?_⟩
  · simpa [Function.comp_def, haddr] using h.distinct
  · intro t ht
    obtain ⟨u, hu, rfl⟩ := List.mem_map.mp ht
    simpa [haddr] using h.fresh u hu
  · intro t ht
    obtain ⟨u, hu, rfl⟩ := List.mem_map.mp ht
    by_cases hua : u.addr = a <;> simpa [Tag.disarm, hua] using h.handlers u hu
  · intro t ht hta
    obtain ⟨u, hu, rfl⟩ := List.mem_map.mp ht
    by_cases hua : u.addr = a
    · simp [Tag.disarm, hua] at hta
    · simp only [Tag.disarm, hua, if_false] at hta ⊢
      have hh := h.armed u hu hta
      have hp : u.priv ≠ n := fun he => hua (Option.some.inj (hh.2.symm.trans (he ▸ hn)))
      simpa [hp] using hh
  · intro k hk b hb
    have hkn : k ≠ n := fun he => by simp [he] at hk
    obtain ⟨t, ht, hta, hp, hal⟩ := h.alive k (by simpa [hkn] using hk) b hb
    obtain ⟨t', ht', -, hp', ha'⟩ := h.alive n hA a hn
    have hua : t.addr ≠ a := by
      intro he
      have heq : t = t' := List.inj_on_of_nodup_map h.distinct ht ht' (he.trans ha'.symm)
      exact hkn (hp.symm.trans (heq ▸ hp'))
    refine ⟨t, List.mem_map.mpr ⟨t, ht, by simp [Tag.disarm, hua]⟩, hta, hp, hal⟩

theorem remove {t : Tag ToHandler Slot} (h : TagsOk A aliveTo fresh (t :: T)) :
    TagsOk (if t.armed then Function.update A t.priv false else A) aliveTo fresh T where
  distinct := (List.nodup_cons.mp h.distinct).2
  fresh u hu := h.fresh u (List.mem_cons_of_mem _ hu)
  handlers u hu := h.handlers u (List.mem_cons_of_mem _ hu)
  armed u hu hua := by
    have hh := h.armed u (List.mem_cons_of_mem _ hu) hua
    by_cases hta : t.armed = true
    · have hp : u.priv ≠ t.priv := by
        intro he
        have heq := h.eq_of_armed (List.mem_cons_of_mem _ hu) List.mem_cons_self hua hta he
        exact (List.nodup_cons.mp h.distinct).1 (heq ▸ List.mem_map_of_mem hu)
      simpa [hta, hp] using hh
    · simpa [hta] using hh
  alive k hk a ha := by
    have hA : A k = true ∧ (t.armed = true → k ≠ t.priv) := by
      by_cases hta : t.armed = true
      · have hkt : k ≠ t.priv := fun he => by simp [hta, he] at hk
        exact ⟨by simpa [hta, hkt] using hk, fun _ => hkt⟩
      · exact ⟨by simpa [hta] using hk, fun h => absurd h hta⟩
    obtain ⟨u, hu, hua, hp, hal⟩ := h.alive k hA.1 a ha
    rcases List.mem_cons.mp hu with rfl | hu
    · exact absurd hp.symm (hA.2 hua)
    · exact ⟨u, hu, hua, hp, hal⟩

end TagsOk

theorem killsAssociated_request (A : Slot → Bool) (n : Slot) (mem stat : Int) {E : List Effect}
    (hE : ∀ e ∈ E, e.Quiet) : KillsAssociated A ([.getNode n, .sys (.malloc .timeout) mem] ++ E ++
      if stat = 0 then [] else [.killNode n]) := by
  rw [killsAssociated_append, killsAssociated_append, associatedAfter_append]
  refine ⟨⟨trivial, killsAssociated_quiet hE⟩, ?_⟩
  rw [associatedAfter_quiet hE]
  by_cases hstat : stat = 0
  · simp [hstat, KillsAssociated]
  · simp [hstat, KillsAssociated, associatedAfter]

section Request

variable {L σ : Type} (env : Env σ) {sender : SockaddrLl} {packet : Memory} {n : Slot}
  {s s₁ s₂ u : Daemon L σ} {mem stat : Int} {C S R : List Effect} {q : Timeouts ToHandler Slot}

def aliveEntry (env : Env σ) (n : Slot) (addr : Nat) : Timeout ToHandler Slot :=
  ⟨addr, ofMillis env.ulong.bits optAliveTimeout, some .killNode, n, true⟩

theorem scheduleAlive_eq {mem : Int} (hmem : 0 ≤ mem) (t : Timeouts ToHandler Slot) :
    scheduleAlive env n mem t = (some t.fresh, { t with
      queue := insertTimeout (aliveEntry env n t.fresh) t.queue
      fresh := t.fresh + 1 }) := by
  simp [scheduleAlive, scheduleTimeout, hmem, aliveEntry]

theorem scheduleAlive_of_neg {mem : Int} (hmem : mem < 0) (t : Timeouts ToHandler Slot) :
    scheduleAlive env n mem t = (none, t) := by
  simp [scheduleAlive, scheduleTimeout, not_le.mpr hmem]

variable [NodeLists L]

theorem AssociationRun.queue (h : AssociationRun env n packet (handOut n sender s) s₁ s₂ u
    mem stat C S R)
    (hcancel : stat ≠ 0 → ∃ a, (s₁.node n).aliveTo = some a ∧ cancelTimeout a s₁.timeouts = some q)
    (hmem : 0 ≤ mem) :
    (closeArequest n stat q u).timeouts.fresh = s.timeouts.fresh + 1 ∧
    (closeArequest n stat q u).timeouts.queue =
      if stat = 0 then insertTimeout (aliveEntry env n s.timeouts.fresh) s.timeouts.queue
      else (insertTimeout (aliveEntry env n s.timeouts.fresh) s.timeouts.queue).map
        (Timeout.disarm s.timeouts.fresh) := by
  have hsched := scheduleAlive_eq env (n := n) hmem s.timeouts
  have htimeouts : s₁.timeouts = (scheduleAlive env n mem s.timeouts).2 := h.begun.timeouts
  rw [hsched] at htimeouts
  by_cases hstat : stat = 0
  · simp [closeArequest, hstat, h.conclusion.run.timeouts, h.loop.timeouts, htimeouts]
  · obtain ⟨a, ha, hc⟩ := hcancel hstat
    have hnode : (s₁.node n).aliveTo = some s.timeouts.fresh := by
      have hb := h.begun.node
      have ht : (handOut n sender s).timeouts = s.timeouts := rfl
      rw [ht, hsched] at hb
      rw [hb, Function.update_self]
      rfl
    obtain rfl := Option.some.inj (ha.symm.trans hnode)
    simp only [cancelTimeout] at hc
    split at hc
    case isFalse => simp at hc
    case isTrue =>
      have hq := (Option.some.inj hc).symm
      simp [closeArequest, hstat, hq, htimeouts]

theorem AssociationRun.aliveTo_eq
    (h : AssociationRun env n packet (handOut n sender s) s₁ s₂ u mem stat C S R) :
    (fun m => ((closeArequest n stat q u).node m).aliveTo) =
      Function.update (fun m => (s.node m).aliveTo) n (scheduleAlive env n mem s.timeouts).1 := by
  funext m
  rw [h.node env, h.node_eq env]
  by_cases hm : m = n
  · subst hm
    simp [Node.begun, handOut]
  · simp [hm, handOut]

theorem AssociationRun.aliveTo (h : AssociationRun env n packet (handOut n sender s) s₁ s₂ u
    mem stat C S R)
    (hmem : 0 ≤ mem) : (fun m => ((closeArequest n stat q u).node m).aliveTo) =
      Function.update (fun m => (s.node m).aliveTo) n (some s.timeouts.fresh) := by
  rw [h.aliveTo_eq env, scheduleAlive_eq env hmem]

theorem AssociationRun.unscheduled
    (h : AssociationRun env n packet (handOut n sender s) s₁ s₂ u mem stat C S R)
    (hcancel : stat ≠ 0 → ∃ a, (s₁.node n).aliveTo = some a ∧ cancelTimeout a s₁.timeouts = some q)
    (hmem : mem < 0) : stat = 0 ∧ (closeArequest n stat q u).timeouts = s.timeouts := by
  have hstat : stat = 0 := by
    by_contra hne
    obtain ⟨a, ha, -⟩ := hcancel hne
    rw [h.begun.node, Function.update_self, scheduleAlive_of_neg env hmem] at ha
    simp [Node.begun] at ha
  have htimeouts : s₁.timeouts = (scheduleAlive env n mem s.timeouts).2 := h.begun.timeouts
  rw [scheduleAlive_of_neg env hmem] at htimeouts
  exact ⟨hstat, by simp [closeArequest, hstat, h.conclusion.run.timeouts, h.loop.timeouts, htimeouts]⟩

theorem AssociationRun.associated (h : AssociationRun env n packet (handOut n sender s) s₁ s₂ u mem
    stat C S R) :
    (closeArequest n stat q u).associated = Function.update s.associated n (decide (stat = 0)) := by
  rw [Daemon.associated, h.trace env, associatedAfter_append,
    associatedAfter_request _ n mem stat (h.quiet env), Daemon.associated]

end Request

section Invariant

variable {L σ : Type} [NodeLists L] [LawfulNodeLists L]

/-- The daemon between two callbacks of its main loop. -/
structure AliveOk (s : Daemon L σ) : Prop where
  normal : QueueNormal s.timeouts.queue
  tags : TagsOk s.associated (fun n => (s.node n).aliveTo) s.timeouts.fresh
    (s.timeouts.queue.map Timeout.tag)
  table : ∀ n j, (s.node n).channels j = none
  lists : LawfulNodeLists.Holds s.lists s.associated
  kills : KillsAssociated (fun _ => false) s.trace

variable {s t : Daemon L σ}

theorem aliveOk_init (w : σ) (udevFd netifFd : Int) :
    AliveOk (daemonInit w udevFd netifFd : Daemon L σ) where
  normal e he := by simp [daemonInit, timeoutsInit] at he
  tags := by
    refine ⟨?_, ?_, ?_, ?_, ?_⟩ <;>
      simp [daemonInit, timeoutsInit, Daemon.associated, associatedAfter]
  table n j := rfl
  lists := LawfulNodeLists.init
  kills := trivial

theorem AliveOk.quiet (h : AliveOk s) {E : List Effect} (hrun : SetupRun Effect.Quiet s t E) :
    AliveOk t := by
  refine ⟨hrun.timeouts ▸ h.normal, ?_, hrun.node ▸ h.table, ?_, ?_⟩
  · rw [hrun.timeouts, hrun.node, hrun.associated]
    exact h.tags
  · rw [hrun.lists, hrun.associated]
    exact h.lists
  · rw [hrun.trace, killsAssociated_append]
    exact ⟨h.kills, killsAssociated_quiet hrun.effects⟩

theorem AliveOk.wait (h : AliveOk s) (us : Nat) :
    AliveOk { s with timeouts := (selectWait us s.timeouts).2 } := by
  have hfresh : (selectWait us s.timeouts).2.fresh = s.timeouts.fresh := by
    cases hq : s.timeouts.queue <;> simp [selectWait, hq]
  have htags : (selectWait us s.timeouts).2.queue.map Timeout.tag =
    s.timeouts.queue.map Timeout.tag := by
    cases hq : s.timeouts.queue <;> simp [selectWait, hq]
  refine ⟨queueNormal_selectWait h.normal, ?_, h.table, h.lists, h.kills⟩
  change TagsOk _ _ (selectWait us s.timeouts).2.fresh ((selectWait us s.timeouts).2.queue.map _)
  rw [hfresh, htags]
  exact h.tags

/-- One round of `handle_timeouts` for the entry `e` at the head of the queue. -/
def expire (e : Timeout ToHandler Slot) (rest : List (Timeout ToHandler Slot)) (s : Daemon L σ) :
    Daemon L σ :=
  { s with
    timeouts := { s.timeouts with queue := rest, running := none }
    trace := if e.armed then s.trace ++ [.killNode e.priv] else s.trace
    lists := if e.armed then NodeLists.moveToFree e.priv s.lists else s.lists }

omit [LawfulNodeLists L] in
theorem associated_expire (e : Timeout ToHandler Slot) (rest : List (Timeout ToHandler Slot)) :
    (Lininoio.expire e rest s).associated =
      if e.armed then Function.update s.associated e.priv false else s.associated := by
  by_cases he : e.armed = true
  · simp [Lininoio.expire, Daemon.associated, he, associatedAfter_append, associatedAfter]
  · simp [Lininoio.expire, Daemon.associated, he]

theorem AliveOk.expire (h : AliveOk s)
    {e : Timeout ToHandler Slot} {rest : List (Timeout ToHandler Slot)}
    (hq : s.timeouts.queue = e :: rest) : AliveOk (expire e rest s) := by
  have htags := h.tags
  rw [hq, List.map_cons] at htags
  have hassoc := associated_expire (s := s) e rest
  refine ⟨fun x hx => h.normal x (by simp [hq]; exact .inr hx), ?_, h.table, ?_, ?_⟩
  · rw [hassoc]
    exact htags.remove
  · rw [hassoc]
    by_cases he : e.armed = true
    · simp only [Lininoio.expire, he, if_true]
      exact LawfulNodeLists.giveBack h.lists (htags.armed e.tag (by simp) he).1
    · simp only [Lininoio.expire, he, Bool.false_eq_true, if_false]
      exact h.lists
  · by_cases he : e.armed = true
    · simp only [Lininoio.expire, he, if_true, killsAssociated_append]
      exact ⟨h.kills, (htags.armed e.tag (by simp) he).1, trivial⟩
    · simp only [Lininoio.expire, he, Bool.false_eq_true, if_false]
      exact h.kills

/-- What `handle_timeouts` may do: rounds for entries that are due, as long as there are any. -/
inductive Expired : Daemon L σ → Daemon L σ → Prop
  | done {s : Daemon L σ} (h : ∀ e, s.timeouts.queue.head? = some e → e.expires.micros ≠ 0) :
    Expired s s
  | round {s t : Daemon L σ} (e : Timeout ToHandler Slot) (rest : List (Timeout ToHandler Slot))
      (hq : s.timeouts.queue = e :: rest) (h0 : e.expires.micros = 0)
      (h : Expired (expire e rest s) t) :
      Expired s t

omit [LawfulNodeLists L] in
theorem Expired.trace (h : Expired s t) : ∃ E, t.trace = s.trace ++ E := by
  induction h with
  | done => exact ⟨[], by simp⟩
  | @round s t e rest _ _ _ ih =>
    obtain ⟨E, hE⟩ := ih
    by_cases he : e.armed = true
    · exact ⟨.killNode e.priv :: E, by simp [hE, Lininoio.expire, he]⟩
    · exact ⟨E, by simp [hE, Lininoio.expire, he]⟩

structure ExpiredFrame (s t : Daemon L σ) : Prop where
  node : t.node = s.node
  core : t.core = s.core
  freshCore : t.freshCore = s.freshCore
  chan : t.chan = s.chan
  freshChan : t.freshChan = s.freshChan

omit [LawfulNodeLists L] in
theorem Expired.frame (h : Expired s t) : ExpiredFrame s t := by
  induction h with
  | done => exact ⟨rfl, rfl, rfl, rfl, rfl⟩
  | round e rest _ _ _ ih => exact ⟨ih.node, ih.core, ih.freshCore, ih.chan, ih.freshChan⟩

omit [LawfulNodeLists L] in
theorem Expired.associated (h : Expired s t) {n : Slot} (hn : t.Associated n) : s.Associated n := by
  induction h with
  | done => exact hn
  | @round s t e rest _ _ _ ih =>
    have hh := ih hn
    rw [Daemon.Associated, associated_expire] at hh
    by_cases he : e.armed = true
    · rw [if_pos he] at hh
      by_cases hp : n = e.priv
      · simp [hp] at hh
      · simpa [hp] using hh
    · simpa [he] using hh

theorem AliveOk.expired (h : AliveOk s) (he : Expired s t) : AliveOk t := by
  induction he with
  | done => exact h
  | round e rest hq h0 _ ih => exact ih (h.expire hq)

variable (env : Env σ) {sender : SockaddrLl} {packet : Memory} {n : Slot}
  {s₁ s₂ u : Daemon L σ} {mem stat : Int} {C S R : List Effect} {q : Timeouts ToHandler Slot}

theorem AliveOk.addr_nodup (h : AliveOk s) : (s.timeouts.queue.map Timeout.addr).Nodup := by
  simpa [Function.comp_def, Timeout.tag] using h.tags.distinct

theorem wp_handleLoop (h : AliveOk s) {fuel : Nat} (hfuel : s.timeouts.queue.length < fuel) :
    wp (handleLoop env fuel (nextPos s.timeouts.queue none)
      (nextPos s.timeouts.queue (nextPos s.timeouts.queue none)))
      (fun _ t => Expired s t) (fun _ _ => False) s := by
  -- each round shortens the queue, and what `AliveOk` says of the handlers keeps it from growing
  induction fuel generalizing s with
  | zero => exact absurd hfuel (Nat.not_lt_zero _)
  | succ fuel ih =>
    cases hq : s.timeouts.queue with
    | nil =>
      simp only [nextPos, List.head?_nil, Option.map_none, handleLoop, wp_bind, wp_get,
        loopTest, wp_pure]
      exact .done (by simp [hq])
    | cons e rest =>
      have htest : loopTest (e :: rest) (some e.addr) =
          if timercmpEq e.expires zerot then .expired e else .leave := by simp [loopTest]
      have hnext : nextPos (e :: rest) none = some e.addr := rfl
      have hzero := (h.normal e (by simp [hq])).timercmpEq_zerot_iff
      rw [hnext, nextPos_head]
      simp only [handleLoop, wp_bind, wp_get, hq, htest]
      by_cases h0 : e.expires.micros = 0
      · have hhandler : e.handler = some .killNode := h.tags.handlers e.tag (by simp [hq])
        have hoff : takeOff e s.timeouts = { s.timeouts with queue := rest, running := some e } := by
          simp [takeOff, hq]
        have hrest := ih (h.expire hq) (by simpa [expire, hq] using hfuel)
        rw [if_pos (hzero.mpr h0)]
        simp only [wp_bind, wp_setTimeouts, hhandler, wp_get, wp_ite, callHandler, hoff]
        refine ⟨fun ha => ?_, fun ha => ?_⟩
        · rw [wp_killNode env (by exact h.table _ _)]
          simp only [freeRunning]
          refine wp_mono ?_ (fun _ _ ht => .round e rest hq h0 ht) (fun _ _ hf => hf)
          simpa [expire, ha] using hrest
        · refine wp_mono ?_ (fun _ _ ht => .round e rest hq h0 ht) (fun _ _ hf => hf)
          simpa [expire, ha, freeRunning] using hrest
      · rw [if_neg (fun hz => h0 (hzero.mp hz))]
        exact .done (by simpa [hq] using h0)

theorem wp_handleTimeouts (h : AliveOk s) (hne : s.timeouts.queue ≠ []) :
    wp (handleTimeouts env) (fun _ t => Expired s t) (fun _ _ => False) s := by
  have hempty : s.timeouts.queue.isEmpty = false := by simpa using hne
  simp only [handleTimeouts, wp_bind, wp_get, hempty, Bool.false_eq_true, if_false]
  exact wp_handleLoop env h (Nat.lt_succ_self _)

theorem AliveOk.requestTags (h : AliveOk s) (hacc : Accepted sender packet n s)
    (hrun : AssociationRun env n packet (handOut n sender s) s₁ s₂ u mem stat C S R)
    (hcancel : stat ≠ 0 → ∃ a, (s₁.node n).aliveTo = some a ∧ cancelTimeout a s₁.timeouts = some q) :
    QueueNormal (closeArequest n stat q u).timeouts.queue ∧
      TagsOk (Function.update s.associated n (decide (stat = 0)))
        (fun m => ((closeArequest n stat q u).node m).aliveTo) (closeArequest n stat q u).timeouts.fresh
        ((closeArequest n stat q u).timeouts.queue.map Timeout.tag) := by
  have hfree : s.associated n = false := LawfulNodeLists.free_of_handOut h.lists hacc.unknown hacc.free
  by_cases hneg : mem < 0
  · obtain ⟨hstat, htimeouts⟩ := hrun.unscheduled env hcancel hneg
    rw [htimeouts, hrun.aliveTo_eq env, scheduleAlive_of_neg env hneg]
    exact ⟨h.normal, by simpa [hstat] using h.tags.unscheduled hfree⟩
  have hmem := not_lt.mp hneg
  obtain ⟨hfresh, hqueue⟩ := hrun.queue env hcancel hmem
  have hnormal : (aliveEntry env n s.timeouts.fresh).expires.Normal := normal_ofMillis _ _
  have hinsert := (deltas_insertTimeout hnormal h.normal).1
  have htags := (h.tags.schedule hfree).perm
    (insertTimeout_perm (aliveEntry env n s.timeouts.fresh) s.timeouts.queue)
  rw [hqueue, hfresh, hrun.aliveTo env hmem]
  by_cases hstat : stat = 0
  · exact ⟨by simpa [hstat] using hinsert, by simpa [hstat] using htags⟩
  · have hcancelled := htags.cancel (n := n) (a := s.timeouts.fresh) (by simp) (by simp)
    have hmap : ∀ q : List (Timeout ToHandler Slot),
      (q.map (Timeout.disarm s.timeouts.fresh)).map Timeout.tag =
        (q.map Timeout.tag).map (Tag.disarm s.timeouts.fresh) := fun q => by simp
    refine ⟨by simpa [hstat] using queueNormal_disarm hinsert, ?_⟩
    simpa only [hstat, if_false, decide_false, hmap, Function.update_idem] using hcancelled

theorem AliveOk.request (h : AliveOk s) (hacc : Accepted sender packet n s)
    (hrun : AssociationRun env n packet (handOut n sender s) s₁ s₂ u mem stat C S R)
    (hcancel : stat ≠ 0 → ∃ a, (s₁.node n).aliveTo = some a ∧ cancelTimeout a s₁.timeouts = some q) :
    AliveOk (closeArequest n stat q u) := by
  obtain ⟨hnormal, htags⟩ := h.requestTags env hacc hrun hcancel
  have hassoc := hrun.associated env (q := q)
  have hlists := LawfulNodeLists.handOut h.lists hacc.unknown hacc.free
  have hu : u.lists = NodeLists.addTailNodes n (NodeLists.moveToNodes n s.lists) := hrun.lists env
  refine ⟨hnormal, hassoc ▸ htags, ?_, ?_, ?_⟩
  · intro m j
    rw [hrun.node env, hrun.node_eq env]
    by_cases hm : m = n
    · simp [hm, handOut, Node.begun, Node.recycled]
    · simpa [hm, handOut] using h.table m j
  · rw [hassoc]
    by_cases hstat : stat = 0
    · simpa [closeArequest, hstat, hu] using hlists
    · have hback := LawfulNodeLists.giveBack hlists (n := n) (by simp)
      simpa [closeArequest, hstat, hu] using hback
  · rw [hrun.trace env, killsAssociated_append]
    exact ⟨h.kills, killsAssociated_request _ n mem stat (hrun.quiet env)⟩

end Invariant

end Lininoio
