import Lininoio.MainLoopSteps
import Mathlib.Data.List.Find
import Mathlib.Data.Set.Function

/-! The identity of a node: `find_node` compares whole socket addresses and
`mac_to_node` the address bytes. They agree as long as no MAC address is seen with
two socket addresses. The lists are read as the sequences of slots they stand for. -/

namespace Lininoio

open StateFault

section Lookups

variable {σ : Type} {s : Daemon SlotLists σ} {n : Slot}

theorem mem_nodes_iff (h : AliveOk s) : n ∈ s.lists.nodes ↔ s.Associated n :=
  ((h.lists : SlotLists.Holds s.lists s.associated).mem_iff n).symm

theorem slotLists_search_none {m : SlotLists} {p : Slot → Bool} (h : NodeLists.search p m = .none) :
    ∀ n ∈ m.nodes, p n = false := by
  cases hf : m.nodes.find? p with
  | none => simpa using hf
  | some n => simp [NodeLists.search, hf] at h

structure AddrsDistinct (A : Set SockaddrLl) (s : Daemon SlotLists σ) : Prop where
  known : ∀ n, s.Associated n → (s.node n).addr ∈ A
  distinct : ∀ n m, s.Associated n → s.Associated m → (s.node n).addr = (s.node m).addr → n = m

/-- A MAC address stands for at most one node, which both lookups find, and a node
that asks again gets no second slot. -/
structure OneNodePerMac (env : Env σ) (A : Set SockaddrLl) (s : Daemon SlotLists σ) : Prop where
  distinct : ∀ n m, s.Associated n → s.Associated m → (s.node n).addr.mac = (s.node m).addr.mac → n = m
  lookups : ∀ a ∈ A, ∃ r, findNode a s = .ok r s ∧ macToNode a.sllAddr s = .ok r s
  noSecond : ∀ a ∈ A, ∀ n, s.Associated n → (s.node n).addr.mac = a.mac → ∀ packet len,
    wp (etherRxArequest env a packet len) (fun _ t => ∀ k, .getNode k ∉ s.effectsSince t)
      (fun _ _ => False) s

theorem findNode_eq {a : SockaddrLl} :
    findNode a s = .ok (s.lists.nodes.find? fun n => a = (s.node n).addr) s := by
  simp only [findNode, bind, EStateM.bind, get_apply, NodeLists.search]
  cases s.lists.nodes.find? fun n => a = (s.node n).addr <;> rfl

theorem macToNode_eq {mac : Vector UInt8 8} :
    macToNode mac s = .ok (s.lists.nodes.find? fun n => (s.node n).addr.sllAddr = mac) s := by
  simp only [macToNode, bind, EStateM.bind, get_apply,
    NodeLists.search]
  cases s.lists.nodes.find? fun n => (s.node n).addr.sllAddr = mac <;> rfl

theorem AddrsDistinct.oneNodePerMac {A : Set SockaddrLl} (env : Env σ) (hok : AliveOk s)
    (h : AddrsDistinct A s) (hA : Set.InjOn SockaddrLl.mac A) : OneNodePerMac env A s where
  distinct n m hn hm hmac := h.distinct n m hn hm (hA (h.known n hn) (h.known m hm) hmac)
  lookups a ha := by
    have hfind : (s.lists.nodes.find? fun n => (s.node n).addr.sllAddr = a.sllAddr) =
        s.lists.nodes.find? fun n => a = (s.node n).addr := by
      refine List.find?_congr fun n hn =>
        decide_eq_decide.mpr ⟨fun haddr => ?_, fun haddr => by rw [haddr]⟩
      have hknown := h.known n ((mem_nodes_iff hok).mp hn)
      exact hA ha hknown (by simp [SockaddrLl.mac, haddr])
    exact ⟨_, findNode_eq, hfind ▸ macToNode_eq⟩
  noSecond a ha n hn hmac packet len := by
    have haddr : a = (s.node n).addr := hA ha (h.known n hn) hmac.symm
    obtain ⟨m, hm⟩ : ∃ m, (s.lists.nodes.find? fun n => a = (s.node n).addr) = some m := by
      refine Option.isSome_iff_exists.mp (List.find?_isSome.mpr ⟨n, (mem_nodes_iff hok).mpr hn, ?_⟩)
      exact decide_eq_true haddr
    have hself : ∀ k, .getNode k ∉ s.effectsSince s := by
      rw [effectsSince_eq (E := []) (by simp)]
      simp
    simp only [etherRxArequest, wp_ite, wp_pure]
    refine ⟨fun _ => hself, fun _ => ?_⟩
    simp only [wp_bind, findNode, wp_get, NodeLists.search, hm, ofNodeSearch, wp_pure]
    refine wp_mono (wp_etherSendAreply env (hok.table m 0) 0) ?_ (fun _ _ hf => hf)
    rintro _ t ⟨R, hrun, -⟩ k hk
    rw [effectsSince_eq hrun.trace] at hk
    exact hrun.effects _ hk

end Lookups

section Runs

variable {σ : Type} (env : Env σ) {sender : SockaddrLl} {packet : Memory} {n : Slot}
  {s s₁ s₂ u : Daemon SlotLists σ} {mem stat : Int} {C S R : List Effect} {q : Timeouts ToHandler Slot}

theorem AssociationRun.addr
    (h : AssociationRun env n packet (handOut n sender s) s₁ s₂ u mem stat C S R) (m : Slot) :
    ((closeArequest n stat q u).node m).addr = if m = n then sender else (s.node m).addr := by
  rw [h.node env, h.node_eq env]
  by_cases hm : m = n
  · simp [hm, Node.begun, handOut, Node.recycled]
  · simp [hm, handOut]

theorem AddrsDistinct.request {A : Set SockaddrLl} (h : AddrsDistinct A s) (hok : AliveOk s)
    (hA : sender ∈ A)
    (hacc : Accepted sender packet n s)
    (hrun : AssociationRun env n packet (handOut n sender s) s₁ s₂ u mem stat C S R) :
    AddrsDistinct A (closeArequest n stat q u) := by
  have haddr := hrun.addr env (q := q)
  have hassoc : ∀ m, (closeArequest n stat q u).Associated m → m ≠ n → s.Associated m := by
    intro m hm hne
    rw [Daemon.Associated, hrun.associated env, Function.update_of_ne hne] at hm
    exact hm
  have hnew : ∀ m, s.Associated m → (s.node m).addr ≠ sender := by
    intro m hm heq
    have hh := slotLists_search_none hacc.unknown m ((mem_nodes_iff hok).mpr hm)
    exact of_decide_eq_false hh heq.symm
  refine ⟨fun m hm => ?_, fun m k hm hk heq => ?_⟩
  · rw [haddr]
    by_cases hmn : m = n
    · rwa [if_pos hmn]
    · rw [if_neg hmn]
      exact h.known m (hassoc m hm hmn)
  · rw [haddr, haddr] at heq
    by_cases hmn : m = n <;> by_cases hkn : k = n
    · rw [hmn, hkn]
    · rw [if_pos hmn, if_neg hkn] at heq
      exact absurd heq.symm (hnew k (hassoc k hk hkn))
    · rw [if_neg hmn, if_pos hkn] at heq
      exact absurd heq (hnew m (hassoc m hm hmn))
    · rw [if_neg hmn, if_neg hkn] at heq
      exact h.distinct m k (hassoc m hm hmn) (hassoc k hk hkn) heq

theorem kept_addrsDistinct (A : Set SockaddrLl) :
    Kept env A (AddrsDistinct A : Daemon SlotLists σ → Prop) := by
  refine ⟨fun _ _ h => ⟨h.known, h.distinct⟩, fun s t _ h hexp => ?_,
    fun sender hA s t hok h hstep => ?_⟩
  · have hnode := hexp.frame.node
    refine ⟨fun n hn => hnode ▸ h.known n (hexp.associated hn), fun n m hn hm heq => ?_⟩
    rw [hnode] at heq
    exact h.distinct n m (hexp.associated hn) (hexp.associated hm) heq
  · cases hstep with
    | quiet hrun =>
      refine ⟨fun n hn => ?_, fun n m hn hm heq => ?_⟩
      · rw [Daemon.Associated, hrun.associated] at hn
        exact hrun.node ▸ h.known n hn
      · rw [Daemon.Associated, hrun.associated] at hn hm
        rw [hrun.node] at heq
        exact h.distinct n m hn hm heq
    | request hacc hrun hcancel ht =>
      subst ht
      exact h.request env hok hA hacc hrun

end Runs

section TwoSlots

variable {packet : Memory} {n : Slot} {sender : SockaddrLl} {s : Daemon SlotLists Unit}

theorem not_mallocFails_bareHost : ¬ MallocFails bareHost :=
  not_mallocFails fun _ _ => by simp [bareHost]

theorem wp_etherRxCb_bareHost (hacc : Accepted sender packet n s) (htype : packet 0 = 1)
    (hk : 0 < (ArequestPacket.nchannels packet).toNat) (len : Nat) :
    wp (etherRxCb bareHost sender packet len) (fun _ t =>
      t.lists = NodeLists.addTailNodes n (NodeLists.moveToNodes n s.lists) ∧
      t.associated = Function.update s.associated n true ∧
      ∀ m, (t.node m).addr = if m = n then sender else (s.node m).addr) (fun _ _ => False) s := by
  refine wp_mono (wp_etherRxCb_accepted bareHost hacc htype not_mallocFails_bareHost len) ?_
    fun _ _ hf => hf
  intro _ t ht
  obtain ⟨s₁, s₂, u, mem, stat, C, S, R, q, hrun, rfl⟩ := ht
  have hstat := hrun.granted bareHost hk (not_connectReturns fun _ => rfl)
  refine ⟨?_, ?_, hrun.addr bareHost⟩
  · have hu : u.lists = NodeLists.addTailNodes n (NodeLists.moveToNodes n s.lists) :=
      hrun.lists bareHost
    simp [closeArequest, hstat, hu]
  · rw [hrun.associated bareHost]
    simp [hstat]

theorem wp_iteration_bareHost {s : Etherd SlotLists Unit} (hnew : ∀ m ∈ s.daemon.lists.nodes,
    (s.daemon.node m).addr ≠ sender)
    (hfree : NodeLists.firstFree s.daemon.lists = .found n) :
    wp (iteration bareHost (.frame 0 sender (requestFrame 1 [1, 0]))) (fun _ t =>
      t.daemon.lists = NodeLists.addTailNodes n (NodeLists.moveToNodes n s.daemon.lists) ∧
      t.daemon.associated = Function.update s.daemon.associated n true ∧
      ∀ m, (t.daemon.node m).addr = if m = n then sender else (s.daemon.node m).addr)
        (fun _ _ => False) s := by
  have hbuf : ∀ buf : Memory, memcpy buf 0 ((requestFrame 1 [1, 0]).take recvBufSize) 0 = 1 ∧
      ArequestPacket.nchannels (memcpy buf 0 ((requestFrame 1 [1, 0]).take recvBufSize)) = 1 :=
    fun buf => ⟨rfl, rfl⟩
  have hunknown : NodeLists.search (fun m => sender = (s.daemon.node m).addr)
    s.daemon.lists = .none := by
    have hnone : (s.daemon.lists.nodes.find? fun m => sender = (s.daemon.node m).addr) = none :=
      List.find?_eq_none.mpr fun m hm => by simpa using (hnew m hm).symm
    simp only [NodeLists.search, hnone]
  simp only [iteration, etherRx, wp_bind, wp_waitInSelect, wp_modify, wp_get, wp_onDaemon]
  refine wp_etherRxCb_bareHost (s := (s.waited 0).daemon) ⟨?_, hunknown, hfree⟩ (hbuf _).1 ?_ _
  · rw [(hbuf _).2]
    decide
  · rw [(hbuf _).2]
    decide

theorem wp_two_requests {a b : SockaddrLl} (hne : a ≠ b) {s : Etherd SlotLists Unit}
    (hs : s.daemon.lists = NodeLists.init) :
    wp (mainLoop bareHost [.frame 0 a (requestFrame 1 [1, 0]), .frame 0 b (requestFrame 1 [1, 0])])
      (fun _ s => s.daemon.Associated 0 ∧ s.daemon.Associated 1 ∧ (s.daemon.node 0).addr = a ∧
        (s.daemon.node 1).addr = b) (fun _ _ => False) s := by
  simp only [wp_mainLoop_cons, wp_mainLoop_nil]
  refine wp_mono (wp_iteration_bareHost (n := 0) (by simp [hs, NodeLists.init]) (by rw [hs]; rfl))
    ?_ (fun _ _ hf => hf)
  intro _ t hh
  obtain ⟨hlists, hassoc, haddr⟩ := hh
  have ht : t.daemon.lists = ⟨[0], [1, 2, 3, 4, 5, 6]⟩ := by
    rw [hlists, hs]
    rfl
  refine wp_mono (wp_iteration_bareHost (n := 1) (by simpa [ht, haddr] using hne) (by rw [ht]; rfl)) ?_
    (fun _ _ hf => hf)
  intro _ u hu
  obtain ⟨-, hassoc', haddr'⟩ := hu
  refine ⟨?_, ?_, ?_, ?_⟩
  · simp [Daemon.Associated, hassoc', hassoc]
  · simp [Daemon.Associated, hassoc']
  · simp [haddr', haddr]
  · simp [haddr']

theorem exists_two_nodes {a b : SockaddrLl} (hne : a ≠ b) (w : Unit) (udevFd netifFd : Int) :
    ∃ s : Etherd SlotLists Unit,
      mainLoop bareHost [.frame 0 a (requestFrame 1 [1, 0]), .frame 0 b (requestFrame 1 [1, 0])]
        (etherdInit w udevFd netifFd) = .ok () s ∧ s.daemon.Associated 0 ∧ s.daemon.Associated 1 ∧
      (s.daemon.node 0).addr = a ∧ (s.daemon.node 1).addr = b := by
  have hinit : (etherdInit w udevFd netifFd : Etherd SlotLists Unit).daemon.lists =
    NodeLists.init := rfl
  have hw := wp_two_requests (s := etherdInit w udevFd netifFd) hne hinit
  obtain ⟨_, s, hs, hh⟩ := exists_ok_of_wp hw
  exact ⟨s, hs, hh⟩

end TwoSlots

/-- Nodes are told apart by their MAC addresses, whatever the runs, exactly when no
MAC address comes with two socket addresses. -/
theorem one_node_per_mac_iff (A : Set SockaddrLl) :
    (∀ (σ : Type) (env : Env σ) (w : σ) (udevFd netifFd : Int) (es : List MainEvent)
      (s : Etherd SlotLists σ), (∀ e ∈ es, e.From A) →
      mainLoop env es (etherdInit w udevFd netifFd) = .ok () s →
      OneNodePerMac env A s.daemon) ↔ Set.InjOn SockaddrLl.mac A := by
  constructor
  · intro h a ha b hb hmac
    by_contra hne
    obtain ⟨s, hs, hassoc, hassoc', haddr, haddr'⟩ := exists_two_nodes hne () 3 4
    have hfrom : ∀ e ∈ [MainEvent.frame 0 a (requestFrame 1 [1, 0]),
      .frame 0 b (requestFrame 1 [1, 0])],
        e.From A := List.forall_mem_cons.mpr ⟨ha, List.forall_mem_singleton.mpr hb⟩
    have hone := h Unit bareHost () 3 4 _ s hfrom hs
    exact absurd (hone.distinct 0 1 hassoc hassoc' (by rw [haddr, haddr', hmac])) (by decide)
  · intro hA σ env w udevFd netifFd es s hes hs
    have hinit : AddrsDistinct A (daemonInit w udevFd netifFd : Daemon SlotLists σ) :=
      ⟨fun n hn => absurd hn Bool.false_ne_true, fun n m hn => absurd hn Bool.false_ne_true⟩
    exact ((kept_addrsDistinct env A).of_run hinit hes hs).oneNodePerMac env (aliveOk_of_run hs) hA

def broadcastAddr : SockaddrLl := { boardAddr with sllPkttype := 1 }

/-- A board that asks once by unicast and once by broadcast gets two slots. -/
theorem board_gets_two_slots : ∃ s : Etherd SlotLists Unit,
    mainLoop bareHost [.frame 0 boardAddr (requestFrame 1 [1, 0]),
      .frame 0 broadcastAddr (requestFrame 1 [1, 0])]
      (etherdInit () 3 4) = .ok () s ∧
        ¬ OneNodePerMac bareHost {boardAddr, broadcastAddr} s.daemon := by
  obtain ⟨s, hs, hassoc, hassoc', haddr, haddr'⟩ :=
    exists_two_nodes (a := boardAddr) (b := broadcastAddr) (by decide) () 3 4
  refine ⟨s, hs, fun hone => ?_⟩
  have hmac : (s.daemon.node 0).addr.mac = (s.daemon.node 1).addr.mac := by rw [haddr, haddr']; decide
  exact absurd (hone.distinct 0 1 hassoc hassoc' hmac) (by decide)

end Lininoio
