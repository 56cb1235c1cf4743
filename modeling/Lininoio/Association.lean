import Lininoio.ChannelLoop
import Lininoio.SetupLoop

/-! An association request from beginning to end: what `get_node`, the channel
loop, the setup of the remote processors, the reply and `kill_node` have done
when `ether_rx_arequest` returns. -/

namespace Lininoio

open StateFault

section Frames

variable {L σ : Type} {bigEndian : Bool} {packet : Memory} {n : Slot} {base : ChanPtr}
  {s t : Daemon L σ} {k : Nat}

theorem CoresHold.setup {used : Fin lininoioMaxNcores → Prop}
    {members : Fin lininoioMaxNcores → List ChanPtr} (h : CoresHold n s used members)
    (hf : SetupFrame s t) : CoresHold n t used members :=
  h.frame (by rw [hf.node]) (fun _ c _ => hf.core c) hf.freshCore.ge

theorem Grouped.setup (h : Grouped bigEndian packet n base s k) (hf : SetupFrame s t) :
    Grouped bigEndian packet n base t k :=
  ⟨h.holds.setup hf, hf.freshChan.trans h.freshChan, hf.chan ▸ h.chan⟩

theorem Grouped.chan_isSome (h : Grouped bigEndian packet n base s k) {j : Fin lininoioMaxNcores}
    {c : CorePtr} (hc : (s.node n).cores j = some c) : ∀ x ∈ (s.core c).channels,
    (s.chan x).isSome := by
  intro x hx
  rw [h.holds.channels j c hc] at hx
  obtain ⟨l, hl, rfl⟩ := List.mem_map.mp hx
  obtain ⟨ch, hch, -⟩ := h.chan l (List.mem_range.mp (List.mem_of_mem_filter hl))
  simp [hch]

end Frames

def statusSent : List Effect → List UInt8 := List.filterMap fun
  | .sys (.sendmsg _ (some (_ :: status :: _) :: _)) _ => some status
  | _ => none

@[simp] theorem statusSent_nil : statusSent [] = [] := rfl

@[simp] theorem statusSent_getNode (n : Slot) (E : List Effect) :
    statusSent (.getNode n :: E) = statusSent E := rfl

@[simp] theorem statusSent_killNode (n : Slot) (E : List Effect) :
    statusSent (.killNode n :: E) = statusSent E := rfl

@[simp] theorem statusSent_malloc (what : Alloc) (r : Int) (E : List Effect) :
    statusSent (.sys (.malloc what) r :: E) = statusSent E := rfl

@[simp] theorem statusSent_append (E F : List Effect) :
    statusSent (E ++ F) = statusSent E ++ statusSent F :=
  List.filterMap_append

def Effect.Replying : Effect → Prop
  | .sys (.malloc .iovecs) _ => True
  | .sys (.sendmsg _ _) _ => True
  | _ => False

theorem Effect.Replying.quiet {e : Effect} (h : e.Replying) : e.Quiet := by
  cases e <;> trivial

section Phases

variable {path : CorePtr → List UInt8} {cs : List CorePtr} {c : CorePtr} {E : List Effect}

theorem setups_connecting (h : ∀ e ∈ E, e.Connecting) : setups E = [] := by
  apply List.filterMap_eq_nil_iff.mpr
  intro e he
  have hh := h e he
  cases e <;> trivial

theorem statusSent_connecting (h : ∀ e ∈ E, e.Connecting) : statusSent E = [] := by
  apply List.filterMap_eq_nil_iff.mpr
  intro e he
  have hh := h e he
  cases e with
  | sys call r => cases call <;> trivial
  | _ => trivial

theorem not_processorAdded_connecting (h : ∀ e ∈ E, e.Connecting) : ¬ ProcessorAdded c E := by
  intro hh
  obtain ⟨pd, r, hm, -⟩ := hh
  exact h _ hm

theorem stepsSucceed_connecting (h : ∀ e ∈ E, e.Connecting) : StepsSucceed E := by
  intro call r hm hstep
  have hh := h _ hm
  cases call with
  | malloc what => cases what <;> trivial
  | _ => trivial

theorem connects_setupAll (h : ∀ e ∈ E, e.SetupAll path cs) : connects E = [] := by
  apply List.filterMap_eq_nil_iff.mpr
  intro e he
  have hh := h e he
  cases e with
  | connect => obtain ⟨d, -, hd⟩ := hh; exact hd.elim
  | _ => rfl

theorem statusSent_setupAll (h : ∀ e ∈ E, e.SetupAll path cs) : statusSent E = [] := by
  apply List.filterMap_eq_nil_iff.mpr
  intro e he
  have hh := h e he
  cases e with
  | sys call r =>
    obtain ⟨d, -, hd⟩ := hh
    cases call <;> trivial
  | _ => rfl

theorem connects_replying (h : ∀ e ∈ E, e.Replying) : connects E = [] := by
  apply List.filterMap_eq_nil_iff.mpr
  intro e he
  have hh := h e he
  cases e <;> trivial

theorem setups_replying (h : ∀ e ∈ E, e.Replying) : setups E = [] := by
  apply List.filterMap_eq_nil_iff.mpr
  intro e he
  have hh := h e he
  cases e <;> trivial

theorem not_processorAdded_replying (h : ∀ e ∈ E, e.Replying) : ¬ ProcessorAdded c E := by
  intro hh
  obtain ⟨pd, r, hm, -⟩ := hh
  exact h _ hm

theorem stepsSucceed_replying (h : ∀ e ∈ E, e.Replying) : StepsSucceed E := by
  intro call r hm hstep
  have hh := h _ hm
  cases call with
  | malloc what => cases what <;> trivial
  | _ => trivial

end Phases

section Steps

variable {L σ : Type} (env : Env σ) {n : Slot} {s : Daemon L σ}

theorem wp_etherSendAreply (h : (s.node n).channels 0 = none) (stat : Int) :
    wp (etherSendAreply env n stat) (fun _ t => ∃ R, SetupRun Effect.Replying s t R ∧
      (statusSent R = [] ∨ statusSent R = [UInt8.ofNat (stat % 256).toNat])) (fun _ _ => False) s := by
  simp only [etherSendAreply, wp_bind]
  refine wp_sys_run env s Effect.Replying (fun _ => trivial) fun mem t hmalloc => ?_
  by_cases hmem : mem < 0
  · simp only [hmem, if_true, wp_pure]
    exact ⟨_, hmalloc, .inl rfl⟩
  · rw [← hmalloc.node] at h
    simp only [hmem, if_false, wp_bind, wp_readNode, h, fillVecs, wp_pure]
    refine wp_sys_run env t Effect.Replying (fun _ => trivial) fun sent u hsend => ?_
    exact ⟨_, hmalloc.trans hsend, .inr rfl⟩

def Node.setupOrder (node : Node) : List CorePtr :=
  reachedCores node.cores (List.finRange lininoioMaxNcores)

theorem wp_setupRemoteprocs {used : Fin lininoioMaxNcores → Prop}
    {members : Fin lininoioMaxNcores → List ChanPtr} (h : CoresHold n s used members)
    (hchan : ∀ j c, (s.node n).cores j = some c → ∀ x ∈ (s.core c).channels, (s.chan x).isSome) :
    wp (setupRemoteprocs env n) (fun r t => r = 0 ∧ ∃ S,
      SetupRun (Effect.SetupAll (setupPath env s) (s.node n).setupOrder) s t S ∧
        setups S = (s.node n).setupOrder ∧
      ((∀ c ∈ (s.node n).setupOrder, ProcessorAdded c S) ↔ StepsSucceed S)) (fun _ _ => False) s := by
  simp only [setupRemoteprocs, wp_bind, wp_readNode]
  refine wp_mono (wp_setupCores env s (nodup_reachedCores h.distinct (List.nodup_finRange _)) ?_ ?_)
    (fun _ t hs => ⟨rfl, hs⟩) (fun _ _ hf => hf)
  · intro c hc
    obtain ⟨j, -, hj⟩ := mem_reachedCores hc
    exact h.name j c hj
  · intro c hc
    obtain ⟨j, -, hj⟩ := mem_reachedCores hc
    exact hchan j c hj

/-- The setup `S` and the reply `R` that follow the channel loop lead from `s` to `u`. -/
structure Conclusion (env : Env σ) (n : Slot) (s u : Daemon L σ) (stat : Int)
    (S R : List Effect) : Prop where
  run : SetupRun (fun _ => True) s u (S ++ R)
  setup : ∀ e ∈ S, e.SetupAll (setupPath env s) (s.node n).setupOrder
  replying : ∀ e ∈ R, e.Replying
  skipped : stat ≠ 0 → S = []
  setups : stat = 0 → setups S = (s.node n).setupOrder
  added : stat = 0 → ((∀ c ∈ (s.node n).setupOrder, ProcessorAdded c S) ↔ StepsSucceed S)
  status : statusSent R = [] ∨ statusSent R = [UInt8.ofNat (stat % 256).toNat]

variable [NodeLists L]

def Node.recycled (node : Node) (sender : SockaddrLl) : Node :=
  { node with name := node.name.set 0 0, aliveTo := none, cores := fun _ => none, nchannels := 0,
              channels := fun _ => none, addr := sender }

theorem wp_getNode (sender : SockaddrLl) (Q : Option Slot → Daemon L σ → Prop)
    (E : Fault → Daemon L σ → Prop) : wp (getNode sender) Q E s ↔
      (∀ n, NodeLists.firstFree s.lists = .found n → Q (some n) { s with
        trace := s.trace ++ [.getNode n]
        lists := NodeLists.moveToNodes n s.lists
        node := Function.update s.node n ((s.node n).recycled sender) }) ∧
      (NodeLists.firstFree s.lists = .none → Q none s) ∧
      (NodeLists.firstFree s.lists = .wild → E .wildRead s) ∧
      (NodeLists.firstFree s.lists = .endless → E .endless s) := by
  simp only [getNode, wp_bind, wp_get, wp_ofNodeSearch, wp_pure, wp_emit, wp_modifyNode, wp_modifyLists,
    Function.update_idem, Function.update_self]
  rfl

theorem wp_killNode (h : (s.node n).channels 0 = none) (Q : Unit → Daemon L σ → Prop)
    (E : Fault → Daemon L σ → Prop) : wp (killNode env n) Q E s ↔ Q () { s with
      trace := s.trace ++ [.killNode n]
      lists := NodeLists.moveToFree n s.lists } := by
  simp only [killNode, wp_bind, wp_emit, killRemoteprocs, wp_pure, List.finRange_succ, killChannels,
    wp_readNode, h, wp_modifyLists]

def closeArequest (n : Slot) (stat : Int) (timeouts : Timeouts ToHandler Slot) (u : Daemon L σ) :
    Daemon L σ :=
  if stat = 0 then u
  else { u with
    timeouts := timeouts
    trace := u.trace ++ [.killNode n]
    lists := NodeLists.moveToFree n u.lists }

theorem wp_concludeArequest {used : Fin lininoioMaxNcores → Prop}
    {members : Fin lininoioMaxNcores → List ChanPtr} (h : CoresHold n s used members)
    (hchan : ∀ j c, (s.node n).cores j = some c → ∀ x ∈ (s.core c).channels, (s.chan x).isSome)
    (htable : (s.node n).channels 0 = none)
    (hlive : ∀ a, (s.node n).aliveTo = some a → s.timeouts.Live a) (stat : Int) :
    wp (concludeArequest env n stat) (fun _ t => ∃ u S R q, Conclusion env n s u stat S R ∧
      (stat ≠ 0 → ∃ a, (s.node n).aliveTo = some a ∧ cancelTimeout a s.timeouts = some q) ∧
      t = closeArequest n stat q u)
      (fun f t => f = .nullDeref ∧ (s.node n).aliveTo = none ∧ t.lists = s.lists ∧
        ∃ E, t.trace = s.trace ++ E ∧ ∀ e ∈ E, e.Quiet) s := by
  have hreply : ∀ {v : Daemon L σ} {S : List Effect},
      SetupRun (Effect.SetupAll (setupPath env s) (s.node n).setupOrder) s v S →
      wp (etherSendAreply env n stat) (fun _ u => ∃ R, SetupRun (fun _ => True) s u (S ++ R) ∧
        (∀ e ∈ R, e.Replying) ∧ (statusSent R = [] ∨ statusSent R = [UInt8.ofNat (stat % 256).toNat]))
        (fun _ _ => False) v := by
    intro v S hrun
    refine wp_mono (wp_etherSendAreply env (by rwa [hrun.node]) stat) ?_ (fun _ _ hf => hf)
    intro _ u hu
    obtain ⟨R, hR, hstatus⟩ := hu
    exact ⟨R, (hrun.mono fun _ _ _ => trivial).trans (hR.mono fun _ _ _ => trivial),
      hR.effects, hstatus⟩
  by_cases hstat : stat = 0
  · simp only [concludeArequest, hstat, if_true, wp_bind]
    refine wp_mono (wp_setupRemoteprocs env h hchan) ?_ (fun _ _ hf => hf.elim)
    intro _ v hv
    obtain ⟨rfl, S, hS, hsetups, hadded⟩ := hv
    rw [hstat] at hreply
    refine wp_mono (hreply hS) ?_ (fun _ _ hf => hf.elim)
    intro _ u hu
    obtain ⟨R, hrun, hR, hstatus⟩ := hu
    refine ⟨u, S, R, s.timeouts,
      ⟨hrun, hS.effects, hR, by simp, fun _ => hsetups, fun _ => hadded, hstatus⟩, by simp, ?_⟩
    simp [closeArequest]
  · simp only [concludeArequest, hstat, if_false, wp_bind, wp_pure]
    refine wp_mono (hreply (.refl s)) ?_ (fun _ _ hf => hf.elim)
    intro _ u hu
    obtain ⟨R, hrun, hR, hstatus⟩ := hu
    have hconcl : Conclusion env n s u stat [] R :=
      ⟨hrun, by simp, hR, fun _ => rfl, fun h0 => absurd h0 hstat, fun h0 => absurd h0 hstat, hstatus⟩
    rw [if_pos hstat]
    simp only [wp_bind, wp_readNode, hrun.node]
    cases ha : (s.node n).aliveTo with
    | none => exact ⟨rfl, rfl, hrun.lists, _, hrun.trace, fun e he => (hR e he).quiet⟩
    | some a =>
      have hcancel : cancelTimeout a u.timeouts = cancelTimeout a s.timeouts := by rw [hrun.timeouts]
      obtain ⟨q, hq⟩ : ∃ q, cancelTimeout a s.timeouts = some q := by
        simp [cancelTimeout, hlive a ha]
      simp only [cancelAliveTimeout, wp_bind, wp_get, hcancel, hq, wp_setTimeouts]
      rw [wp_killNode env (by simpa [hrun.node] using htable)]
      exact ⟨u, [], R, q, hconcl, fun _ => ⟨a, rfl, hq⟩, by simp [closeArequest, hstat]⟩

/-- `schedule_timeout(opt_alive_timeout, kill_node, n)` when malloc returns `mem`. -/
def scheduleAlive (env : Env σ) (n : Slot) (mem : Int) (t : Timeouts ToHandler Slot) :
    Option Nat × Timeouts ToHandler Slot :=
  scheduleTimeout env.ulong.bits optAliveTimeout (some ToHandler.killNode) n (decide (0 ≤ mem)) t

theorem live_scheduleAlive {mem : Int} {t : Timeouts ToHandler Slot} {a : Nat}
    (h : (scheduleAlive env n mem t).1 = some a) : (scheduleAlive env n mem t).2.Live a := by
  by_cases hmem : 0 ≤ mem
  · simp only [scheduleAlive, scheduleTimeout, hmem, decide_true, if_true, Option.some.injEq] at h ⊢
    subst h
    refine .inl (List.mem_map.mpr ?_)
    have hp := insertTimeout_perm (η := ToHandler) (π := Slot)
      ⟨t.fresh, Timeval.ofMillis env.ulong.bits optAliveTimeout, some .killNode, n, true⟩ t.queue
    obtain ⟨e, he, htag⟩ := List.mem_map.mp (hp.mem_iff.mpr List.mem_cons_self)
    exact ⟨e, he, congrArg Tag.addr htag⟩
  · simp [scheduleAlive, scheduleTimeout, hmem] at h

theorem scheduleAlive_eq_none {mem : Int} {t : Timeouts ToHandler Slot}
    (h : (scheduleAlive env n mem t).1 = none) : mem < 0 := by
  by_contra hmem
  simp [scheduleAlive, scheduleTimeout, not_lt.mp hmem] at h

def Node.begun (node : Node) (packet : Memory) (aliveTo : Option Nat) : Node :=
  { node with name := strncpy 16 (ArequestPacket.slaveName packet), aliveTo := aliveTo,
              nchannels := (ArequestPacket.nchannels packet).toNat }

structure Begun (env : Env σ) (n : Slot) (packet : Memory) (s t : Daemon L σ) (mem : Int) : Prop where
  lists : t.lists = NodeLists.addTailNodes n s.lists
  timeouts : t.timeouts = (scheduleAlive env n mem s.timeouts).2
  node : t.node = Function.update s.node n
    ((s.node n).begun packet (scheduleAlive env n mem s.timeouts).1)
  freshCore : t.freshCore = s.freshCore
  freshChan : t.freshChan = s.freshChan
  core : t.core = s.core
  chan : t.chan = s.chan
  registries : t.registries = s.registries
  trace : t.trace = s.trace ++ [.sys (.malloc .timeout) mem]
  malloc : mem < 0 → MallocFails env
  answer : mem = (env.sys (.malloc .timeout) s.world).1

/-- A run of `associate` that returns: it begins in `s`, is in `s₁` and `s₂` before
and after the channel loop, and in `u` when the reply has been sent. -/
structure AssociationRun (env : Env σ) (n : Slot) (packet : Memory) (s s₁ s₂ u : Daemon L σ)
    (mem stat : Int) (C S R : List Effect) : Prop where
  begun : Begun env n packet s s₁ mem
  loop : LoopRun env n s₁ s₂ C
  named : CoresNamed env n s₂
  tabled : stat = 0 → s₂.coreTable n =
    coresTaken env.bigEndian packet s.freshCore (ArequestPacket.nchannels packet).toNat
  grouped : stat = 0 → Grouped env.bigEndian packet n s.freshChan s₂
    (ArequestPacket.nchannels packet).toNat
  connected : ∀ r ∈ connects C, r = 0 ∨ r = stat
  returned : ∀ r ∈ connects C, ConnectReturns env r
  failed : stat ≠ 0 → (ArequestPacket.nchannels packet).toNat = 0 ∨ stat ∈ connects C
  empty : (ArequestPacket.nchannels packet).toNat = 0 → stat = -einval ∧ connects C = []
  conclusion : Conclusion env n s₂ u stat S R

theorem AssociationRun.lists {packet : Memory} {s₁ s₂ u : Daemon L σ} {mem stat : Int}
    {C S R : List Effect} (h : AssociationRun env n packet s s₁ s₂ u mem stat C S R) :
    u.lists = NodeLists.addTailNodes n s.lists :=
  (h.conclusion.run.lists.trans h.loop.lists).trans h.begun.lists

theorem quiet_begun {E F : List Effect} {mem : Int} (hE : ∀ e ∈ E, e.Quiet) (hF : ∀ e ∈ F, e.Quiet) :
    ∀ e ∈ [.sys (.malloc .timeout) mem] ++ E ++ F, e.Quiet := by
  intro e he
  simp only [List.mem_append, List.mem_singleton] at he
  rcases he with (rfl | he) | he
  · trivial
  · exact hE e he
  · exact hF e he

/-- A request without channels is refused whatever the empty loop returns. -/
theorem AssociationRun.of_loop {packet : Memory} {s₁ s₂ u : Daemon L σ} {mem st : Int}
    {C S R : List Effect} {m k : Nat} (hm : m = (ArequestPacket.nchannels packet).toNat)
    (hbegun : Begun env n packet s s₁ mem) (hrun : LoopRun env n s₁ s₂ C)
    (hnamed : CoresNamed env n s₂) (hgroup : Grouped env.bigEndian packet n s₁.freshChan s₂ k)
    (hdone : st = 0 → k = m)
    (htaken : st = 0 → s₂.coreTable n = coresTaken env.bigEndian packet s.freshCore m)
    (hall : ∀ r ∈ connects C, (r = 0 ∨ r = st) ∧ ConnectReturns env r)
    (hmem : st ≠ 0 → st ∈ connects C) (hempty : m = 0 → C = [])
    (hconcl : Conclusion env n s₂ u (if m = 0 then -einval else st) S R) :
    AssociationRun env n packet s s₁ s₂ u mem (if m = 0 then -einval else st) C S R := by
  subst hm
  have hreturned : ∀ r ∈ connects C, ConnectReturns env r := fun r hr => (hall r hr).2
  by_cases h0 : (ArequestPacket.nchannels packet).toNat = 0
  · have hC : connects C = [] := by rw [hempty h0]; rfl
    rw [if_pos h0] at hconcl ⊢
    exact ⟨hbegun, hrun, hnamed, fun h => absurd h (by decide), fun h => absurd h (by decide),
      by simp [hC], hreturned, fun _ => .inl h0, fun _ => ⟨rfl, hC⟩, hconcl⟩
  · rw [if_neg h0] at hconcl ⊢
    refine ⟨hbegun, hrun, hnamed, htaken, fun h => ?_, fun r hr => (hall r hr).1, hreturned,
      fun h => .inr (hmem h), fun h => absurd h h0, hconcl⟩
    rw [← hdone h, ← hbegun.freshChan]
    exact hgroup

theorem wp_associate {packet : Memory} (hcores : ∀ j, (s.node n).cores j = none)
    (htable : (s.node n).channels 0 = none) :
    wp (associate env n packet) (fun _ t => ∃ s₁ s₂ u mem stat C S R q,
      AssociationRun env n packet s s₁ s₂ u mem stat C S R ∧
      (stat ≠ 0 → ∃ a, (s₁.node n).aliveTo = some a ∧ cancelTimeout a s₁.timeouts = some q) ∧
      t = closeArequest n stat q u)
      (fun f t => f = .nullDeref ∧ MallocFails env ∧ t.lists = NodeLists.addTailNodes n s.lists ∧
        ∃ E, t.trace = s.trace ++ E ∧ ∀ e ∈ E, e.Quiet) s := by
  simp only [associate, scheduleAliveTimeout, wp_bind, wp_modifyNode, wp_sys, wp_get, wp_setTimeouts,
    wp_pure, wp_modifyLists, Function.update_idem, Function.update_self]
  refine wp_of_state (fun s₁ => ∃ mem, Begun env n packet s s₁ mem)
    ⟨_, rfl, rfl, rfl, rfl, rfl, rfl, rfl, rfl, rfl, fun h => ⟨_, _, h⟩, rfl⟩ ?_
  intro s₁ hs₁
  obtain ⟨mem, hbegun⟩ := hs₁
  have hnode : s₁.node n = (s.node n).begun packet (scheduleAlive env n mem s.timeouts).1 := by
    simp [hbegun.node]
  have hnocores : ∀ j, (s₁.node n).cores j = none :=
    fun j => by simpa [hnode, Node.begun] using hcores j
  have hzero : Grouped env.bigEndian packet n s₁.freshChan s₁ 0 :=
    grouped_zero env hnocores
  have hloop := hzero.addChannels env (m := (ArequestPacket.nchannels packet).toNat)
  rw [← List.range_eq_range'] at hloop
  simp only [Nat.zero_add] at hloop
  have hstart : s₁.coreTable n = (fun _ => none, s.freshCore) :=
    Prod.ext (funext hnocores) hbegun.freshCore
  refine wp_mono (wp_and hloop (wp_addChannels_table env n packet _)) ?_ ?_
  · intro st s₂ hs₂
    obtain ⟨⟨C, hrun, ⟨k, hk, hgroup, hdone⟩, hall, hmem, hempty⟩, htaken⟩ := hs₂
    rw [hstart] at htaken
    have hnode' : s₂.node n = { s₁.node n with cores := (s₂.node n).cores } := by
      rw [hrun.node]
      simp
    rw [hnode] at hnode'
    have htable' : (s₂.node n).channels 0 = none := by
      rw [hnode']
      exact htable
    have halive : (s₂.node n).aliveTo = (scheduleAlive env n mem s.timeouts).1 := by
      rw [hnode']
      rfl
    have hlive : ∀ a, (s₂.node n).aliveTo = some a → s₂.timeouts.Live a := by
      rw [halive, hrun.timeouts, hbegun.timeouts]
      exact fun a ha => live_scheduleAlive env ha
    refine wp_mono (wp_concludeArequest env hgroup.holds (fun _ _ hc => hgroup.chan_isSome hc)
      htable' hlive _) ?_ ?_
    · intro _ t hh
      obtain ⟨u, S, R, q, hconcl, hcancel, ht⟩ := hh
      refine ⟨s₁, s₂, u, mem, _, C, S, R, q, ?_, fun h => ?_, ht⟩
      · exact .of_loop env rfl hbegun hrun (hrun.named fun j c hc => by simp [hnocores] at hc) hgroup
          hdone htaken hall hmem hempty hconcl
      · rw [halive, hrun.timeouts] at hcancel
        rw [hnode]
        exact hcancel h
    · intro f t hh
      obtain ⟨hf, ha, hl, E, hE, hquiet⟩ := hh
      rw [halive] at ha
      refine ⟨hf, hbegun.malloc (scheduleAlive_eq_none env ha), by rw [hl, hrun.lists, hbegun.lists],
        [.sys (.malloc .timeout) mem] ++ C ++ E, by simp [hE, hrun.trace, hbegun.trace], ?_⟩
      exact quiet_begun (fun e he => (hrun.effects e he).quiet) hquiet
  · intro f t hh
    obtain ⟨⟨hf, hmalloc, C, hrun⟩, -⟩ := hh
    refine ⟨hf, hmalloc, by rw [hrun.lists, hbegun.lists], [.sys (.malloc .timeout) mem] ++ C ++ [],
      by simp [hrun.trace, hbegun.trace], ?_⟩
    exact quiet_begun (fun e he => (hrun.effects e he).quiet) (by simp)

end Steps

end Lininoio
