import Lininoio.DataDelivery
import Lininoio.TimelyExpiry

/-! The cores that callbacks and backends refer to. `kill_remoteprocs` does not take
them out of the registries when their node dies. -/

namespace Lininoio

open StateFault Timeval DeltaQueue CircularLinks

/-- A callback is registered for the core, or a backend bound to it. -/
def Registries.Refers (r : Registries) (c : CorePtr) : Prop :=
  (∃ evt ∈ r.udevEvents, evt.cbData = c) ∨ (∃ evt ∈ r.fdEvents, evt.cb = .start c ∨ evt.cb = .stop c) ∨
    ∃ vbe ∈ r.backends, vbe.core = c

def Effect.Refers (c : CorePtr) : Effect → Prop
  | .scheduleUdevEvent evt => evt.cbData = c
  | .addFdEvent evt => evt.cb = .start c ∨ evt.cb = .stop c
  | .newBackend vbe => vbe.core = c
  | _ => False

theorem refers_add {r : Registries} {e : Effect} {c : CorePtr} (h : (r.add e).Refers c) :
    r.Refers c ∨ e.Refers c := by
  cases e with
  | addFdEvent evt =>
    rcases h with hudev | ⟨evt', hm, hcb⟩ | hvbe
    · exact .inl (.inl hudev)
    · rcases List.mem_append.mp hm with hm | hm
      · exact .inl (.inr (.inl ⟨evt', hm, hcb⟩))
      · exact .inr (List.mem_singleton.mp hm ▸ hcb)
    · exact .inl (.inr (.inr hvbe))
  | scheduleUdevEvent evt =>
    rcases h with ⟨evt', hm, hdata⟩ | hrest
    · rcases List.mem_append.mp hm with hm | hm
      · exact .inl (.inl ⟨evt', hm, hdata⟩)
      · exact .inr (List.mem_singleton.mp hm ▸ hdata)
    · exact .inl (.inr hrest)
  | newBackend vbe =>
    rcases h with hudev | hfd | ⟨vbe', hm, hcore⟩
    · exact .inl (.inl hudev)
    · exact .inl (.inr (.inl hfd))
    · rcases List.mem_append.mp hm with hm | hm
      · exact .inl (.inr (.inr ⟨vbe', hm, hcore⟩))
      · exact .inr (List.mem_singleton.mp hm ▸ hcore)
  | _ => exact .inl h

theorem refers_after {r : Registries} {E : List Effect} {c : CorePtr} (h : (r.after E).Refers c) :
    r.Refers c ∨ ∃ e ∈ E, e.Refers c := by
  induction E generalizing r with
  | nil => exact .inl h
  | cons e E ih =>
    rcases ih (r := r.add e) h with hadd | ⟨e', he', href⟩
    · rcases refers_add hadd with hr | he
      · exact .inl hr
      · exact .inr ⟨e, List.mem_cons_self, he⟩
    · exact .inr ⟨e', List.mem_cons_of_mem _ he', href⟩

theorem Effect.SetupAll.mem_of_refers {path : CorePtr → List UInt8} {cs : List CorePtr} {e : Effect}
    {c : CorePtr} (h : e.SetupAll path cs) (href : e.Refers c) : c ∈ cs := by
  cases e with
  | scheduleUdevEvent evt =>
    obtain ⟨d, hd, hdata⟩ := h
    exact (show c = d from href.symm.trans (congrArg UdevEvent.cbData hdata)) ▸ hd
  | addFdEvent evt =>
    obtain ⟨d, hd, hcb⟩ := h
    have hcd : c = d := by
      rcases href with href | href <;> rcases hcb with hcb | hcb <;> rw [href] at hcb <;>
        cases hcb <;> rfl
    exact hcd ▸ hd
  | newBackend vbe =>
    obtain ⟨d, -, hd⟩ := h
    exact absurd hd id
  | _ => exact absurd href id

section

variable {L σ : Type} {s t : Daemon L σ} {c : CorePtr}

/-- The core belongs to a node that is associated and holds it. -/
structure CoreLive (s : Daemon L σ) (c : CorePtr) : Prop where
  associated : s.Associated (s.core c).node
  held : ∃ j, (s.node (s.core c).node).cores j = some c

/-- Nothing in the registries refers to a core of a past association. -/
def ReferencesLive (s : Daemon L σ) : Prop := ∀ c, s.registries.Refers c → CoreLive s c

theorem CoreLive.congr (h : CoreLive s c) (hcore : (t.core c).node = (s.core c).node)
    (hassoc : t.Associated (s.core c).node) (hnode : t.node (s.core c).node = s.node (s.core c).node) :
    CoreLive t c := by
  refine ⟨hcore ▸ hassoc, ?_⟩
  rw [hcore, hnode]
  exact h.held

theorem ReferencesLive.setup {P : Effect → Prop} {E : List Effect} (h : ReferencesLive s)
    (hrun : SetupRun P s t E) (hassoc : t.associated = s.associated)
    (hE : ∀ e ∈ E, ∀ c, e.Refers c → s.registries.Refers c) : ReferencesLive t := by
  intro c hc
  rw [hrun.registries] at hc
  have hold : s.registries.Refers c := (refers_after hc).elim id fun ⟨e, he, href⟩ => hE e he c href
  obtain ⟨pd, hpd⟩ := hrun.core c
  refine (h c hold).congr (by rw [hpd]) ?_ (by rw [hrun.node])
  rw [Daemon.Associated, hassoc]
  exact (h c hold).associated

theorem ReferencesLive.service {E : List Effect} (h : ReferencesLive s)
    (hrun : SetupRun (Effect.Servicing s.registeredCores) s t E) : ReferencesLive t := by
  apply h.setup hrun (hrun.mono fun e _ he => he.quiet).associated
  intro e he c href
  have hserv := hrun.effects e he
  cases e with
  | addFdEvent evt =>
    obtain ⟨-, vbe, hcb⟩ := hserv
    simp [Effect.Refers, hcb] at href
  | newBackend vbe =>
    obtain ⟨evt, hevt, hdata⟩ := List.mem_map.mp (show vbe.core ∈ s.registeredCores from hserv)
    exact .inl ⟨evt, hevt, hdata.trans href⟩
  | scheduleUdevEvent evt => exact absurd hserv id
  | _ => exact absurd href id

variable [NodeLists L]

theorem Expired.registries (h : Expired s t) : t.registries = s.registries := by
  induction h with
  | done => rfl
  | round e rest _ _ _ ih => exact ih

variable (env : Env σ)

theorem AssociationRun.registries {sender : SockaddrLl} {packet : Memory} {n : Slot}
    {s₁ s₂ u : Daemon L σ}
    {mem stat : Int} {C S R : List Effect} {q : Timeouts ToHandler Slot}
    (h : AssociationRun env n packet (handOut n sender s) s₁ s₂ u mem stat C S R) :
    (closeArequest n stat q u).registries = s.registries.after S := by
  have hclose : (closeArequest n stat q u).registries = u.registries := by
    by_cases hstat : stat = 0 <;> simp [closeArequest, hstat, Daemon.registries]
  have hbegun : s₁.registries = s.registries := h.begun.registries
  have hreply : ∀ r : Registries, r.after R = r := fun r => registries_after_eq fun e he r' => by
    have hh := h.conclusion.replying e he
    cases e <;> first | rfl | exact absurd hh id
  rw [hclose, h.conclusion.run.registries, registries_after_append, hreply, h.loop.registries, hbegun]

variable [LawfulNodeLists L]

theorem CoreLive.request {sender : SockaddrLl} {packet : Memory} {n : Slot} {s₁ s₂ u : Daemon L σ}
    {mem stat : Int} {C S R : List Effect} {q : Timeouts ToHandler Slot} (h : CoreLive s c)
    (hok : AliveOk s) (hheld : AllHeld env.bigEndian s) (hacc : Accepted sender packet n s)
    (hrun : AssociationRun env n packet (handOut n sender s) s₁ s₂ u mem stat C S R) :
    CoreLive (closeArequest n stat q u) c := by
  have hne : (s.core c).node ≠ n := by
    intro heq
    have hfree := LawfulNodeLists.free_of_handOut hok.lists hacc.unknown hacc.free
    have hA := h.associated
    rw [heq, Daemon.Associated, hfree] at hA
    exact Bool.false_ne_true hA
  obtain ⟨packet', base, hch⟩ := hheld _ h.associated
  obtain ⟨j, hj⟩ := h.held
  have hframe := hrun.frame env (q := q) hne hch
  have hnode : (closeArequest n stat q u).node (s.core c).node = s.node (s.core c).node := by
    rw [hrun.node env, hrun.node_eq env, Function.update_of_ne hne]
    simp [handOut, hne]
  refine h.congr ?_ ?_ hnode
  · rw [← hnode] at hj
    exact hframe.holds.node j c hj
  · rw [Daemon.Associated, hrun.associated env, Function.update_of_ne hne]
    exact h.associated

theorem ReferencesLive.callback {sender : SockaddrLl} (h : ReferencesLive s) (hok : AliveOk s)
    (hheld : AllHeld env.bigEndian s) (hstep : CallbackStep env sender s t) : ReferencesLive t := by
  cases hstep with
  | @quiet E hrun hreply =>
    apply h.setup hrun hrun.associated
    intro e he c href
    have hh := hreply e he
    cases e <;> first | exact absurd href id | exact absurd hh id
  | @request packet n s₁ s₂ u mem stat C S R q hacc hrun hcancel ht =>
    subst ht
    have hassoc := hrun.associated env (q := q)
    intro c hc
    rw [hrun.registries env] at hc
    rcases refers_after hc with hold | ⟨e, he, href⟩
    · exact (h c hold).request env hok hheld hacc hrun
    · have hstat : stat = 0 := by
        by_contra hne
        rw [hrun.conclusion.skipped hne] at he
        exact absurd he List.not_mem_nil
      have hmem : c ∈ (s₂.node n).setupOrder := (hrun.conclusion.setup e he).mem_of_refers href
      obtain ⟨j, -, hj⟩ := mem_reachedCores hmem
      have hgroup := (hrun.answer env (q := q)).grouped hstat
      have hj' : ((closeArequest n stat q u).node n).cores j = some c := by rwa [hrun.node env]
      have hnode := hgroup.holds.node j c hj'
      refine ⟨?_, j, ?_⟩
      · rw [hnode, Daemon.Associated, hassoc]
        simp [hstat]
      · rwa [hnode]

theorem keptByAll_allHeld : KeptByAll env (AllHeld env.bigEndian : Daemon L σ → Prop) where
  toKept := kept_allHeld env
  service cs s t E h hrun n hn := by
    rw [Daemon.Associated, (hrun.mono fun e _ he => he.quiet).associated] at hn
    obtain ⟨packet, base, hheld⟩ := h n hn
    exact ⟨packet, base, hheld.frame (by rw [hrun.node]) (fun c _ => hrun.core c)
      (fun x _ => by rw [hrun.chan]) hrun.freshCore.ge hrun.freshChan.ge⟩

theorem ReferencesLive.fdEvents (h : ReferencesLive s) (hok : AliveOk s)
    (hheld : AllHeld env.bigEndian s)
    (hsteps : FdEventSteps env s t) : ReferencesLive t := by
  induction hsteps with
  | refl => exact h
  | step hstep _ ih =>
    refine ih ?_ (hok.fdEvent env hstep) ((keptByAll_allHeld env).fdEvent hok hheld hstep)
    cases hstep with
    | frame hcb => exact h.callback env hok hheld hcb
    | service hrun => exact h.service hrun

end

section Runs

variable {L σ : Type} [NodeLists L] [LawfulNodeLists L] (env : Env σ) {s t : Etherd L σ}

/-- The alive timeout of the node elapses if select returns 0 now. -/
def ExpiresNext (s : Etherd L σ) (n : Slot) : Prop :=
  ∃ tv, getNextTimeout s.daemon.timeouts = some tv ∧
    ∃ d ∈ agenda s.now s.daemon.timeouts.queue, d.2.armed = true ∧ d.2.priv = n ∧
      d.1 ≤ (s.waited tv.micros).now

/-- No node dies of its alive timeout while the registries refer to a core of it. -/
def SparesReferenced (e : Wakeup) (s : Etherd L σ) : Prop :=
  e = .timeout → ∀ c, s.daemon.registries.Refers c → ¬ ExpiresNext s (s.daemon.core c).node

variable {env}

omit [NodeLists L] [LawfulNodeLists L] in
theorem ReferencesLive.waited (h : ReferencesLive s.daemon) (us : Nat) :
    ReferencesLive (s.waited us).daemon :=
  fun c hc => ⟨(h c hc).associated, (h c hc).held⟩

omit [LawfulNodeLists L] in
theorem Expired.referencesLive_iff {tv : Timeval} (h : ReferencesLive s.daemon)
    (htv : getNextTimeout s.daemon.timeouts = some tv)
    (hexp : Expired (s.waited tv.micros).daemon t.daemon) :
    ReferencesLive t.daemon ↔ ∀ c, s.daemon.registries.Refers c →
      ¬ ExpiresNext s (s.daemon.core c).node := by
  have hcore : t.daemon.core = s.daemon.core := hexp.frame.core
  have hnode : t.daemon.node = s.daemon.node := hexp.frame.node
  have hreg : t.daemon.registries = s.daemon.registries := hexp.registries
  have hagenda : Lininoio.agenda (s.waited tv.micros).now (s.waited tv.micros).daemon.timeouts.queue =
      Lininoio.agenda s.now s.daemon.timeouts.queue :=
        agenda_selectWait tv.micros s.now s.daemon.timeouts
  have hkilled : ∀ n, s.daemon.Associated n → (t.daemon.Associated n ↔ ¬ ExpiresNext s n) := by
    intro n hn
    rw [hexp.associated_iff (s.waited tv.micros).now, hagenda]
    constructor
    · rintro ⟨-, hall⟩ ⟨tv', htv', d, hd, harmed, hpriv, hle⟩
      obtain rfl := Option.some.inj (htv.symm.trans htv')
      exact absurd hle (hall d hd harmed hpriv).not_ge
    · intro hne
      exact ⟨hn, fun d hd harmed hpriv => not_le.mp fun hle => hne ⟨tv, htv, d, hd, harmed, hpriv, hle⟩⟩
  rw [ReferencesLive, hreg]
  apply forall₂_congr
  intro c hc
  have hlive := h c hc
  rw [← hkilled _ hlive.associated]
  constructor
  · intro hlive'
    have hA := hlive'.associated
    rwa [hcore] at hA
  · intro hA
    exact hlive.congr (by rw [hcore]) hA (by rw [hnode])

variable (env)

/-- In a run all references are to live cores, until the first node dies whose cores
are still registered. -/
theorem references_live_iff (w : σ) (udevFd netifFd : Int) (es : List Wakeup) :
    EachIteration env (fun _ _ t => ReferencesLive t.daemon) es
      (etherdInit w udevFd netifFd : Etherd L σ) ↔
      EachIteration env (fun e s _ => SparesReferenced e s) es
        (etherdInit w udevFd netifFd : Etherd L σ) := by
  have hinit : ReferencesLive (daemonInit w udevFd netifFd : Daemon L σ) := by
    intro c hc
    simp [Registries.Refers, Daemon.registries, daemonInit] at hc
  refine eachIteration_iff (I := fun s => AliveOk s.daemon ∧ AllHeld env.bigEndian s.daemon ∧
    ReferencesLive s.daemon) (fun e s hs => ?_) es
    ⟨aliveOk_init w udevFd netifFd, fun n hn => absurd hn Bool.false_ne_true, hinit⟩
  obtain ⟨hok, hheld, hlive⟩ := hs
  refine wp_mono (wp_eventIteration env hok e) (fun _ t hstep => ?_) fun _ _ _ => trivial
  have hok' := hok.eventStep env hstep
  have hheld' := (keptByAll_allHeld env).eventStep hok hheld hstep
  refine ⟨?_, fun hlive' => ⟨hok', hheld', hlive'⟩⟩
  cases hstep with
  | error us =>
    apply iff_of_true (hlive.waited us)
    intro he
    cases he
  | ready us fds arrivals hsteps =>
    apply iff_of_true ((hlive.waited us).fdEvents env (hok.waited us) (hheld.wait us) hsteps)
    intro he
    cases he
  | timeout hiter =>
    cases hiter with
    | nothingScheduled hnone =>
      apply iff_of_true hlive
      intro _ c _ hexp
      obtain ⟨tv, htv, -⟩ := hexp
      simp [hnone] at htv
    | timeout htv hexp =>
      rw [hexp.referencesLive_iff hlive htv]
      exact ⟨fun hh _ => hh, fun hh => hh rfl⟩

/-- A board comes, and dies of its alive timeout. -/
def boardDies : List Wakeup := [.ready 0 [4] ⟨some (boardAddr, requestFrame 1 [1, 0]), none⟩, .timeout]

theorem boardDies_returns : returnsIn (eventLoop driverHost boardDies)
    (fun t : Etherd (Links Cell) Unit => (t.daemon.udevEvents.map UdevEvent.cbData).contains 0 &&
      !t.daemon.associated (t.daemon.core 0).node) (etherdInit () 3 4) = true := by
  decide +kernel

/-- The events of its remote processor stay registered. -/
theorem dead_board_referenced :
    ¬ EachIteration driverHost (fun _ _ t => ReferencesLive t.daemon) boardDies
    (etherdInit () 3 4 : Etherd (Links Cell) Unit) := by
  apply not_eachIteration_of_returnsIn boardDies_returns (List.cons_ne_nil _ _)
  intro t ht hall
  rw [Bool.and_eq_true, List.contains_iff_mem, Bool.not_eq_true'] at ht
  obtain ⟨evt, hevt, hdata⟩ := List.mem_map.mp ht.1
  have hlive := hall 0 (.inl ⟨evt, hevt, hdata⟩)
  exact Bool.false_ne_true (ht.2.symm.trans hlive.associated)

end Runs

end Lininoio
