import Lininoio.Association

/-! Accepted association requests: the channel table and the channel lists of the
cores, the remote processors that are set up, and the status that is sent. -/

namespace Lininoio

open StateFault

/-- The request passes all checks, and `get_node` hands out `n` for it. -/
structure Accepted {L σ : Type} [NodeLists L] (sender : SockaddrLl) (packet : Memory) (n : Slot)
    (s : Daemon L σ) : Prop where
  nchannels : (ArequestPacket.nchannels packet).toNat ≤ lininoioMaxNchannels
  unknown : NodeLists.search (fun m => sender = (s.node m).addr) s.lists = .none
  free : NodeLists.firstFree s.lists = .found n

def handOut {L σ : Type} [NodeLists L] (n : Slot) (sender : SockaddrLl) (s : Daemon L σ) : Daemon L σ :=
  { s with
    trace := s.trace ++ [.getNode n]
    lists := NodeLists.moveToNodes n s.lists
    node := Function.update s.node n ((s.node n).recycled sender) }

section Answers

variable {L σ : Type} (env : Env σ) {sender : SockaddrLl} {packet : Memory} {n : Slot}
  {s t : Daemon L σ}

/-- What an accepted request has led to when `ether_rx_arequest` returns. -/
structure Answer (bigEndian : Bool) (packet : Memory) (n : Slot) (s t : Daemon L σ)
    (stat : Int) : Prop where
  connected : ∀ r ∈ connects (s.effectsSince t), r = 0 ∨ r = stat
  failed : stat ≠ 0 → (ArequestPacket.nchannels packet).toNat = 0 ∨ stat ∈ connects (s.effectsSince t)
  empty : (ArequestPacket.nchannels packet).toNat = 0 → stat = -einval ∧
    connects (s.effectsSince t) = []
  associated : t.Associated n ↔ stat = 0
  killed : .killNode n ∈ s.effectsSince t ↔ stat ≠ 0
  table : ∀ j, (t.node n).channels j = none
  grouped : stat = 0 → Grouped bigEndian packet n s.freshChan t (ArequestPacket.nchannels packet).toNat
  setUp : setups (s.effectsSince t) = if stat = 0 then (t.node n).setupOrder else []
  added : stat = 0 →
    ((∀ c ∈ (t.node n).setupOrder, ProcessorAdded c (s.effectsSince t)) ↔
      StepsSucceed (s.effectsSince t))
  reached : ∀ c, ProcessorAdded c (s.effectsSince t) → c ∈ (t.node n).setupOrder
  status : statusSent (s.effectsSince t) = [] ∨
    statusSent (s.effectsSince t) = [UInt8.ofNat (stat % 256).toNat]

theorem Answer.stat_eq_zero_iff {bigEndian : Bool} {stat : Int}
    (h : Answer bigEndian packet n s t stat) :
    stat = 0 ↔ 0 < (ArequestPacket.nchannels packet).toNat ∧
      ∀ r ∈ connects (s.effectsSince t), r = 0 := by
  constructor
  · rintro rfl
    refine ⟨Nat.pos_of_ne_zero fun h0 => absurd (h.empty h0).1 (by simp [einval]), fun r hr => ?_⟩
    exact (h.connected r hr).elim id id
  · intro hh
    obtain ⟨hpos, hall⟩ := hh
    by_contra hstat
    rcases h.failed hstat with h0 | hmem
    · omega
    · exact hstat (hall stat hmem)

variable [NodeLists L]

theorem wp_etherRxArequest_accepted (h : Accepted sender packet n s) (len : Nat) :
    wp (etherRxArequest env sender packet len) (fun _ t => ∃ s₁ s₂ u mem stat C S R q,
      AssociationRun env n packet (handOut n sender s) s₁ s₂ u mem stat C S R ∧
      (stat ≠ 0 → ∃ a, (s₁.node n).aliveTo = some a ∧ cancelTimeout a s₁.timeouts = some q) ∧
      t = closeArequest n stat q u)
      (fun f t => f = .nullDeref ∧ MallocFails env ∧
        t.lists = NodeLists.addTailNodes n (NodeLists.moveToNodes n s.lists) ∧
        ∃ E, t.trace = s.trace ++ .getNode n :: E ∧ ∀ e ∈ E, e.Quiet) s := by
  simp only [etherRxArequest, if_neg (not_lt.mpr h.nchannels), wp_bind, findNode, wp_get, h.unknown,
    ofNodeSearch, wp_pure, wp_getNode, h.free, NodeSearch.found.injEq, reduceCtorEq, false_implies,
    and_true, forall_eq']
  refine wp_mono (wp_associate env (n := n) (s := handOut n sender s) (by simp [handOut, Node.recycled])
    (by simp [handOut, Node.recycled])) (fun _ _ h => h) ?_
  intro f t ht
  obtain ⟨hf, hmalloc, hlists, E, hE, hquiet⟩ := ht
  exact ⟨hf, hmalloc, hlists, E, by simp [hE, handOut], hquiet⟩

theorem wp_etherRxCb_accepted (h : Accepted sender packet n s) (htype : packet 0 = 1)
    (hmalloc : ¬ MallocFails env) (len : Nat) :
    wp (etherRxCb env sender packet len) (fun _ t => ∃ s₁ s₂ u mem stat C S R q,
      AssociationRun env n packet (handOut n sender s) s₁ s₂ u mem stat C S R ∧
        t = closeArequest n stat q u)
      (fun _ _ => False) s := by
  simp only [etherRxCb, ofByte_eq_arequest.mpr htype]
  refine wp_mono (wp_etherRxArequest_accepted env h len) ?_ fun _ _ hf => hmalloc hf.2.1
  intro _ t hh
  obtain ⟨s₁, s₂, u, mem, stat, C, S, R, q, hrun, -, ht⟩ := hh
  exact ⟨s₁, s₂, u, mem, stat, C, S, R, q, hrun, ht⟩

theorem AssociationRun.granted {s₁ s₂ u : Daemon L σ} {mem stat : Int} {C S R : List Effect}
    (h : AssociationRun env n packet s s₁ s₂ u mem stat C S R)
    (hk : 0 < (ArequestPacket.nchannels packet).toNat) (hconnect : ∀ r, ¬ ConnectReturns env r) :
      stat = 0 := by
  by_contra hne
  rcases h.failed hne with h0 | hmem
  · exact hk.ne' h0
  · exact hconnect _ (h.returned _ hmem)

theorem AssociationRun.trace {s₁ s₂ u : Daemon L σ} {mem stat : Int} {C S R : List Effect}
    {q : Timeouts ToHandler Slot}
    (h : AssociationRun env n packet (handOut n sender s) s₁ s₂ u mem stat C S R) :
    (closeArequest n stat q u).trace = s.trace ++ ([.getNode n, .sys (.malloc .timeout) mem] ++
      (C ++ (S ++ R)) ++ if stat = 0 then [] else [.killNode n]) := by
  have hu : u.trace = s.trace ++ ([.getNode n, .sys (.malloc .timeout) mem] ++ (C ++ (S ++ R))) := by
    rw [h.conclusion.run.trace, h.loop.trace, h.begun.trace]
    simp [handOut]
  by_cases hstat : stat = 0
  · simp [closeArequest, hstat, hu]
  · simp [closeArequest, hstat, hu]

theorem AssociationRun.quiet {s₁ s₂ u : Daemon L σ} {mem stat : Int} {C S R : List Effect}
    (h : AssociationRun env n packet s s₁ s₂ u mem stat C S R) : ∀ e ∈ C ++ (S ++ R), e.Quiet := by
  intro e he
  simp only [List.mem_append] at he
  rcases he with he | he | he
  · exact (h.loop.effects e he).quiet
  · exact (h.conclusion.setup e he).quiet
  · exact (h.conclusion.replying e he).quiet

theorem associatedAfter_request (A : Slot → Bool) (n : Slot) (mem stat : Int) {E : List Effect}
    (hE : ∀ e ∈ E, e.Quiet) : associatedAfter A ([.getNode n, .sys (.malloc .timeout) mem] ++ E ++
      if stat = 0 then [] else [.killNode n]) = Function.update A n (decide (stat = 0)) := by
  rw [associatedAfter_append, associatedAfter_append, associatedAfter_quiet hE]
  by_cases hstat : stat = 0
  · simp [hstat, associatedAfter]
  · simp [hstat, associatedAfter]

theorem AssociationRun.node_eq {s₁ s₂ u : Daemon L σ} {mem stat : Int} {C S R : List Effect}
    (h : AssociationRun env n packet s s₁ s₂ u mem stat C S R) :
    s₂.node = Function.update s.node n
      { (s.node n).begun packet (scheduleAlive env n mem s.timeouts).1 with cores := (s₂.node
        n).cores } := by
  have hloop := h.loop.node
  rw [h.begun.node] at hloop
  simpa using hloop

theorem AssociationRun.node {s₁ s₂ u : Daemon L σ} {mem stat : Int} {C S R : List Effect}
    {q : Timeouts ToHandler Slot}
    (h : AssociationRun env n packet (handOut n sender s) s₁ s₂ u mem stat C S R) :
    (closeArequest n stat q u).node = s₂.node := by
  by_cases hstat : stat = 0
  · simp [closeArequest, hstat, h.conclusion.run.node]
  · simp [closeArequest, hstat, h.conclusion.run.node]

theorem AssociationRun.answer {s₁ s₂ u : Daemon L σ} {mem stat : Int} {C S R : List Effect}
    {q : Timeouts ToHandler Slot}
    (h : AssociationRun env n packet (handOut n sender s) s₁ s₂ u mem stat C S R) :
    Answer env.bigEndian packet n s (closeArequest n stat q u) stat := by
  have htrace := h.trace env (q := q)
  have hnode := h.node env (q := q)
  have hE := effectsSince_eq htrace
  have hC := h.loop.effects
  have hS := h.conclusion.setup
  have hR := h.conclusion.replying
  have hconnects : connects (s.effectsSince (closeArequest n stat q u)) = connects C := by
    rw [hE]
    by_cases hstat : stat = 0 <;>
      simp [hstat, connects_setupAll hS, connects_replying hR]
  have hsetups : Lininoio.setups (s.effectsSince (closeArequest n stat q u)) = Lininoio.setups S := by
    rw [hE]
    by_cases hstat : stat = 0 <;>
      simp [hstat, setups_append, setups_connecting hC, setups_replying hR]
  have hprep : ∀ c, ProcessorAdded c (s.effectsSince (closeArequest n stat q u)) ↔
    ProcessorAdded c S := by
    intro c
    rw [hE]
    by_cases hstat : stat = 0 <;>
      simp [hstat, not_processorAdded_connecting hC, not_processorAdded_replying hR]
  have hsteps : StepsSucceed (s.effectsSince (closeArequest n stat q u)) ↔ StepsSucceed S := by
    rw [hE]
    by_cases hstat : stat = 0 <;>
      simp [hstat, stepsSucceed_connecting hC, stepsSucceed_replying hR, SysCall.setupStep]
  have hsent : statusSent (s.effectsSince (closeArequest n stat q u)) = statusSent R := by
    rw [hE]
    by_cases hstat : stat = 0 <;>
      simp [hstat, statusSent_connecting hC, statusSent_setupAll hS]
  refine ⟨?_, ?_, ?_, ?_, ?_, ?_, ?_, ?_, ?_, ?_, ?_⟩
  · rw [hconnects]
    exact h.connected
  · rw [hconnects]
    exact h.failed
  · rw [hconnects]
    exact h.empty
  · rw [Daemon.Associated, Daemon.associated, htrace, associatedAfter_append,
      associatedAfter_request _ n mem stat (h.quiet env)]
    simp
  · have hq : .killNode n ∉ C ++ (S ++ R) := fun hm => h.quiet env _ hm
    rw [hE]
    by_cases hstat : stat = 0
    · simpa [hstat] using hq
    · simp [hstat]
  · intro j
    rw [hnode, h.node_eq env]
    simp [handOut, Node.begun, Node.recycled]
  · intro hstat
    rw [closeArequest, if_pos hstat]
    exact (h.grouped hstat).setup h.conclusion.run.toSetupFrame
  · rw [hsetups, hnode]
    by_cases hstat : stat = 0
    · rw [if_pos hstat, h.conclusion.setups hstat]
    · rw [if_neg hstat, h.conclusion.skipped hstat, setups_nil]
  · intro hstat
    simp only [hprep, hsteps, hnode]
    exact h.conclusion.added hstat
  · intro c hc
    rw [hnode]
    exact ((hprep c).mp hc).mem_of_setupAll hS
  · rw [hsent]
    exact h.conclusion.status

theorem Accepted.answer (h : Accepted sender packet n s) {len : Nat}
    (hrun : etherRxArequest env sender packet len s = .ok () t) :
    ∃ stat, Answer env.bigEndian packet n s t stat := by
  obtain ⟨s₁, s₂, u, mem, stat, C, S, R, q, hassoc, -, rfl⟩ :=
    wp_ok (wp_etherRxArequest_accepted env h len) hrun
  exact ⟨stat, hassoc.answer env⟩

end Answers

def bareHost : Env Unit where
  bigEndian := false
  ulong := .bits64
  sys call w := match call with
    | .openMiscDev => (-1, w)
    | _ => (3, w)
  loadProtoHandler _ w := (none, w)
  ops _ := ⟨none, none, none⟩
  firmwarePrefix := []
  simpleFirmwareMagic := 0
  fwNameSize := 64
  pdNameSize := 64
  aliveToHead _ := 0
  pastAliveTo _ := []
  unset _ := []

def driverHost : Env Unit := { bareHost with sys := fun _ w => (5, w) }

def boardAddr : SockaddrLl := ⟨17, 0, 2, 1, 0, 6, #v[2, 0, 0, 0, 0, 1, 0, 0]⟩

def requestFrame (nchannels : UInt8) (chanDescr : List UInt8) : List UInt8 :=
  1 :: List.replicate 16 0 ++ nchannels :: chanDescr

def atPointer (bytes : List UInt8) : Memory := fun i => bytes.getD i 0

end Lininoio
