import Lininoio.MainLoopSteps

/-! The pointers of the two node lists along a run. They are sound until the first
association, which adds its node to `nodes` a second time. -/

namespace Lininoio

open StateFault Timeval CircularLinks

section Runs

variable {L σ : Type} [NodeLists L] (env : Env σ)

/-- `P` holds in every state of the run: between any two iterations, and where it stops. -/
def Throughout (P : Etherd L σ → Prop) : List MainEvent → Etherd L σ → Prop
  | [], s => P s
  | e :: es, s => P s ∧ wp (iteration env e) (fun _ t => Throughout P es t) (fun _ t => P t) s

variable {env}

theorem Throughout.here {P : Etherd L σ → Prop} {es : List MainEvent} {s : Etherd L σ}
    (h : Throughout env P es s) : P s := by
  cases es with
  | nil => exact h
  | cons e es => exact h.1

end Runs

/-- `ether_rx_cb` takes the packet for an association request and does not drop it. -/
def RequestsNode (p : Memory) : Prop :=
  p 0 = 1 ∧ (ArequestPacket.nchannels p).toNat ≤ lininoioMaxNchannels

/-- Some frame requests a node. What a frame leaves out is read from the frames before it. -/
def RequestReceived : Memory → List MainEvent → Prop
  | _, [] => False
  | buf, .frame _ _ payload :: es =>
    RequestsNode (received buf payload) ∨ RequestReceived (received buf payload) es
  | buf, _ :: es => RequestReceived buf es

/-- Both lists are well formed and share out the slots, the associated nodes being in
`nodes`, and every walk of `nodes` ends at an associated node that it looks for, if there is one. -/
structure ListsSound {σ : Type} (s : Daemon (Links Cell) σ) : Prop where
  shared : ∃ m, Represents s.lists m ∧ ∀ n, s.Associated n ↔ n ∈ m.nodes
  walks : ∀ p, (NodeLists.search p s.lists = .none ∧ ∀ n, s.Associated n → p n = false) ∨
    ∃ n, NodeLists.search p s.lists = .found n ∧ p n = true ∧ s.Associated n

section Lists

variable {σ : Type} {s : Daemon (Links Cell) σ}

theorem listsSound_iff : ListsSound s ↔ ∃ m, Represents s.lists m ∧ ∀ n, s.Associated n ↔
    n ∈ m.nodes := by
  refine ⟨fun h => h.shared, fun h => ⟨h, fun p => ?_⟩⟩
  obtain ⟨m, hm, hA⟩ := h
  rw [hm.search p]
  simp only [NodeLists.search]
  cases hf : m.nodes.find? p with
  | none =>
    refine .inl ⟨rfl, fun n hn => ?_⟩
    simpa using List.find?_eq_none.mp hf n ((hA n).mp hn)
  | some n =>
    exact .inr ⟨n, rfl, List.find?_some hf, (hA n).mpr (List.mem_of_find?_eq_some hf)⟩

theorem not_listsSound (h : s.lists = linksAssociated ∨ s.lists = linksKilled) : ¬ ListsSound s := by
  intro hs
  have hnone : NodeLists.search (fun _ => false) s.lists ≠ .none := by
    rcases h with h | h
    · simp [h, search_linksAssociated]
    · have hfind : (List.finRange numNodes).find? (fun _ => false) = none := by simp
      simp [h, search_linksKilled, hfind]
  rcases hs.walks (fun _ => false) with hw | ⟨n, -, hn, -⟩
  · exact hnone hw.1
  · exact Bool.false_ne_true hn

structure Untouched (s : Daemon (Links Cell) σ) : Prop where
  lists : s.lists = etherInitLinks
  queue : s.timeouts.queue = []
  trace : s.trace = []

theorem Untouched.listsSound (h : Untouched s) : ListsSound s := by
  refine listsSound_iff.mpr ⟨NodeLists.init, h.lists ▸ represents_init, fun n => ?_⟩
  simp [Daemon.associated, h.trace, associatedAfter, NodeLists.init]

theorem Untouched.waited {s : Etherd (Links Cell) σ} (h : Untouched s.daemon) (us : Nat) :
    Untouched (s.waited us).daemon :=
  ⟨h.lists, by simp [Etherd.waited, selectWait, h.queue], h.trace⟩

variable (env : Env σ)

theorem Untouched.wp_etherRxCb (h : Untouched s) {p : Memory} (hp : ¬ RequestsNode p)
    (sender : SockaddrLl)
    (len : Nat) : wp (etherRxCb env sender p len) (fun _ t => t = s) (fun _ _ => False) s := by
  unfold etherRxCb
  cases htype : LininoioPacketType.ofByte (p 0) with
  | none => rfl
  | some type =>
    cases type with
    | areply => rfl
    | data => simp [etherDataPacket, macToNode, wp_ofNodeSearch, h.lists, search_init]
    | arequest =>
      have hbig : lininoioMaxNchannels < (ArequestPacket.nchannels p).toNat :=
        not_le.mp fun hle => hp ⟨ofByte_eq_arequest.mp htype, hle⟩
      simp only [etherRxArequest, hbig, if_true, wp_pure]

theorem Untouched.wp_request (h : Untouched s) {p : Memory} (hp : RequestsNode p) (sender : SockaddrLl)
    (len : Nat) : wp (etherRxCb env sender p len) (fun _ t => ¬ ListsSound t)
    (fun _ t => ¬ ListsSound t) s := by
  have hacc : Accepted sender p 0 s := ⟨hp.2, h.lists ▸ search_init _, h.lists ▸ firstFree_init⟩
  have hassoc : NodeLists.addTailNodes 0 (NodeLists.moveToNodes 0 s.lists) = linksAssociated := by
    rw [h.lists, linksAssociated]
  simp only [etherRxCb, ofByte_eq_arequest.mpr hp.1]
  refine wp_mono (wp_etherRxArequest_accepted env hacc len) ?_ fun f t hf => ?_
  · intro _ t ht
    obtain ⟨s₁, s₂, u, mem, stat, C, S, R, q, hrun, -, rfl⟩ := ht
    have hu : u.lists = linksAssociated :=
      (hrun.lists env).trans hassoc
    by_cases hstat : stat = 0
    · exact not_listsSound (.inl (by simp [closeArequest, hstat, hu]))
    · exact not_listsSound (.inr (by simp [closeArequest, hstat, hu, linksKilled]))
  · exact not_listsSound (.inl (hf.2.2.1.trans hassoc))

theorem Untouched.throughout_iff {s : Etherd (Links Cell) σ} (h : Untouched s.daemon)
    (es : List MainEvent) :
    Throughout env (fun t => ListsSound t.daemon) es s ↔ ¬ RequestReceived s.buf es := by
  induction es generalizing s with
  | nil => simpa [Throughout, RequestReceived] using h.listsSound
  | cons e es ih =>
    simp only [Throughout, h.listsSound, true_and]
    cases e with
    | timeout =>
      have hnone : getNextTimeout s.daemon.timeouts = none := by simp [getNextTimeout, h.queue]
      simp only [iteration, wp_bind, wp_get, hnone, wp_pure, RequestReceived]
      exact ih h
    | error us => exact ih (h.waited us)
    | recvError us => exact ih (h.waited us)
    | frame us sender payload =>
      simp only [iteration, etherRx, wp_bind, wp_waitInSelect, wp_modify, wp_get, wp_onDaemon,
        RequestReceived]
      by_cases hp : RequestsNode (received s.buf payload)
      · simp only [hp, true_or, not_true]
        refine wp_iff (wp_mono ((h.waited us).wp_request env hp sender _) ?_ ?_)
        · exact fun _ _ hbad => iff_false_intro fun hh => hbad hh.here
        · exact fun _ _ hbad => iff_false_intro hbad
      · simp only [hp, false_or]
        refine wp_iff (wp_mono ((h.waited us).wp_etherRxCb env hp sender _) ?_ (fun _ _ hf => hf.elim))
        rintro _ _ rfl
        exact ih (s := ⟨(s.waited us).daemon, received s.buf payload, (s.waited us).now⟩) (h.waited us)

theorem lists_sound_iff_no_request (es : List MainEvent) (w : σ) (udevFd netifFd : Int) :
    Throughout env (fun s => ListsSound s.daemon) es (etherdInit w udevFd netifFd) ↔
      ¬ RequestReceived (fun _ => 0) es :=
  Untouched.throughout_iff (s := etherdInit w udevFd netifFd) env ⟨rfl, rfl, rfl⟩ es

end Lists

/-- The association of a board with one channel is enough to break them. -/
theorem boardRequest_breaks_lists : ¬ Throughout bareHost (fun s => ListsSound s.daemon)
    [boardAssociates] (etherdInit () 3 4) := by
  have hp : RequestsNode (received (fun _ => 0) (requestFrame 1 [1, 0])) := ⟨by decide, by decide⟩
  have hinit : Untouched (etherdInit () 3 4 : Etherd (Links Cell) Unit).daemon := ⟨rfl, rfl, rfl⟩
  rw [hinit.throughout_iff bareHost]
  exact not_not_intro (.inl hp)

end Lininoio
