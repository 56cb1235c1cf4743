import Mathlib.Algebra.BigOperators.Fin
import Lininoio.ChannelTable

/-! The channels of a request grouped by their cores, whatever the node that is recycled for
it has held before. -/

namespace Lininoio

open StateFault CircularLinks

section Beginning

variable {L σ : Type} [NodeLists L] (env : Env σ)

/-- `associate` up to the end of the channel loop, with the value of `stat`. -/
def associateChannels (n : Slot) (packet : Memory) : EtherM L σ Int := do
  let nchannels := (ArequestPacket.nchannels packet).toNat
  modifyNode n (fun node => { node with nchannels := nchannels })
  let aliveTo ← scheduleAliveTimeout env n
  modifyNode n (fun node => { node with aliveTo := aliveTo })
  modifyLists (NodeLists.addTailNodes n)
  modifyNode n (fun node => { node with name := strncpy 16 (ArequestPacket.slaveName packet) })
  addChannels env n packet (List.range nchannels)

theorem associate_eq (n : Slot) (packet : Memory) : associate (L := L) env n packet = (do
    let stat ← associateChannels env n packet
    concludeArequest env n (if (ArequestPacket.nchannels packet).toNat =
      0 then -einval else stat)) := by
  simp only [associate, associateChannels, bind_assoc]

/-- What `ether_rx_arequest` does with an unknown sender, up to the end of the channel loop. -/
def recycleAndLoop (sender : SockaddrLl) (packet : Memory) : EtherM L σ (Option Int) := do
  match ← getNode sender with
  | none => return none
  | some n => return some (← associateChannels env n packet)

theorem getNode_apply {n : Slot} {s : Daemon L σ} (h : NodeLists.firstFree s.lists = .found n)
    (sender : SockaddrLl) : getNode sender s = .ok (some n) (handOut n sender s) := by
  have hwp : wp (getNode sender) (fun r t => r = some n ∧ t = handOut n sender s)
    (fun _ _ => False) s := by
    simp [wp_getNode, h, handOut]
  obtain ⟨_, _, heq, rfl, rfl⟩ := exists_ok_of_wp hwp
  exact heq

theorem etherRxArequest_eq {sender : SockaddrLl} {packet : Memory} {n : Slot} {s : Daemon L σ}
    (h : Accepted sender packet n s) (len : Nat) : etherRxArequest env sender packet len s =
    (recycleAndLoop env sender packet >>= fun
      | none => pure ()
      | some stat => concludeArequest env n
        (if (ArequestPacket.nchannels packet).toNat = 0 then -einval else stat)) s := by
  simp only [etherRxArequest, if_neg (not_lt.mpr h.nchannels), findNode, recycleAndLoop, associate_eq,
    bind, EStateM.bind, get_apply, h.unknown, ofNodeSearch, pure,
    EStateM.pure, getNode_apply h.free]
  cases associateChannels env n packet (handOut n sender s) <;> rfl

/-- The state in which the channel loop begins. -/
def loopStart (n : Slot) (packet : Memory) (s : Daemon L σ) : Daemon L σ :=
  let r := env.sys (.malloc .timeout) s.world
  let a := scheduleAlive env n r.1 s.timeouts
  { s with
    world := r.2
    trace := s.trace ++ [.sys (.malloc .timeout) r.1]
    timeouts := a.2
    lists := NodeLists.addTailNodes n s.lists
    node := Function.update s.node n ((s.node n).begun packet a.1) }

theorem associateChannels_apply (n : Slot) (packet : Memory) (s : Daemon L σ) :
    associateChannels env n packet s = addChannels env n packet
      (List.range (ArequestPacket.nchannels packet).toNat) (loopStart env n packet s) := by
  have hnode : ∀ a, Function.update s.node n ((s.node n).begun packet a) =
      Function.update (Function.update (Function.update s.node n
        { s.node n with nchannels := (ArequestPacket.nchannels packet).toNat }) n
        { s.node n with nchannels := (ArequestPacket.nchannels packet).toNat, aliveTo := a }) n
        ((s.node n).begun packet a) := by
    intro a
    rw [Function.update_idem, Function.update_idem]
  simp only [loopStart, hnode]
  simp only [associateChannels, scheduleAliveTimeout, bind, EStateM.bind, modifyNode, modify_apply,
    sys, get_apply, set_apply, pure, EStateM.pure, setTimeouts, modifyLists, Function.update_self]
  rfl

theorem recycleAndLoop_apply {n : Slot} {s : Daemon L σ} (h : NodeLists.firstFree s.lists = .found n)
    (sender : SockaddrLl) (packet : Memory) : recycleAndLoop env sender packet s =
      (some <$> addChannels env n packet (List.range (ArequestPacket.nchannels packet).toNat))
        (loopStart env n packet (handOut n sender s)) := by
  simp only [recycleAndLoop, bind, EStateM.bind, getNode_apply h, Functor.map, EStateM.map,
    associateChannels_apply env n packet (handOut n sender s), pure, EStateM.pure]

theorem recycleAndLoop_congr {n : Slot} {s : Daemon L σ} (h : NodeLists.firstFree s.lists = .found n)
    (sender : SockaddrLl) (packet : Memory) (old : Node) :
    recycleAndLoop env sender packet { s with node := Function.update s.node n old } =
      recycleAndLoop env sender packet s := by
  have hstart : loopStart env n packet
      (handOut n sender { s with node := Function.update s.node n old }) =
      loopStart env n packet (handOut n sender s) := by
    simp only [loopStart, handOut, Function.update_idem, Function.update_self]
    rfl
  rw [recycleAndLoop_apply env h, recycleAndLoop_apply env (by exact h), hstart]

end Beginning

/-- `c->nchannels` of a core, and 0 where the node has none. -/
def coreNchannels {L σ : Type} (s : Daemon L σ) (n : Slot) (j : Fin lininoioMaxNcores) : Nat :=
  match (s.node n).cores j with
  | none => 0
  | some c => (s.core c).nchannels

theorem sum_length_membersUpTo (bigEndian : Bool) (packet : Memory) (base i : Nat) :
    ∑ j, (membersUpTo bigEndian packet base i j).length = i := by
  induction i with
  | zero => simp [membersUpTo]
  | succ i ih =>
    have hstep : ∀ j, (membersUpTo bigEndian packet base (i + 1) j).length =
        (membersUpTo bigEndian packet base i j).length +
          if j = coreIdAt bigEndian packet i then 1 else 0 := by
      intro j
      rw [membersUpTo_succ]
      by_cases hj : j = coreIdAt bigEndian packet i
      · subst hj
        simp
      · simp [hj]
    rw [Finset.sum_congr rfl fun j _ => hstep j, Finset.sum_add_distrib, ih]
    simp

theorem Grouped.sum_coreNchannels {L σ : Type} {bigEndian : Bool} {packet : Memory} {n : Slot}
    {base : ChanPtr} {s : Daemon L σ} {k : Nat} (h : Grouped bigEndian packet n base s k) :
    ∑ j, coreNchannels s n j = k := by
  have hcore : ∀ j, coreNchannels s n j = (membersUpTo bigEndian packet base k j).length := by
    intro j
    unfold coreNchannels
    cases hj : (s.node n).cores j with
    | none =>
      have hunused : ¬ ∃ i < k, coreIdAt bigEndian packet i = j := fun hu => by
        simpa [hj] using (h.holds.used_iff j).mpr hu
      rw [h.holds.unused j hunused]
      rfl
    | some c => exact h.holds.nchannels j c hj
  rw [Finset.sum_congr rfl fun j _ => hcore j]
  exact sum_length_membersUpTo bigEndian packet base k

section Loop

variable {L σ : Type} [NodeLists L] (env : Env σ)

/-- When all connect methods return 0 the channels of the request are grouped by their cores,
in the order of the descriptors, and nothing of this depends on what the slot has held. -/
theorem channels_grouped_by_core {n : Slot} {s : Daemon L σ} (hmalloc : ¬ MallocFails env)
    (hfree : NodeLists.firstFree s.lists = .found n) (sender : SockaddrLl) (packet : Memory) :
    wp (recycleAndLoop env sender packet) (fun _ t => (∀ r ∈ connects (s.effectsSince t), r = 0) →
      Grouped env.bigEndian packet n s.freshChan t (ArequestPacket.nchannels packet).toNat ∧
      (t.node n).nchannels = (ArequestPacket.nchannels packet).toNat ∧
      ∑ j, coreNchannels t n j = (t.node n).nchannels) (fun _ _ => False) s ∧
    ∀ old, recycleAndLoop env sender packet { s with node := Function.update s.node n old } =
      recycleAndLoop env sender packet s := by
  refine ⟨?_, recycleAndLoop_congr env hfree sender packet⟩
  have hstart : ∀ j, ((loopStart env n packet (handOut n sender s)).node n).cores j = none := by
    simp [loopStart, handOut, Node.begun, Node.recycled]
  have hzero : Grouped env.bigEndian packet n _ (loopStart env n packet (handOut n sender s)) 0 :=
    grouped_zero env hstart
  have hloop := hzero.addChannels env
    (m := (ArequestPacket.nchannels packet).toNat)
  rw [← List.range_eq_range'] at hloop
  simp only [Nat.zero_add] at hloop
  unfold wp
  rw [recycleAndLoop_apply env hfree]
  refine (wp_map _ _ _ _ _).mpr (wp_mono hloop ?_ fun _ _ hf => hmalloc hf.2.1)
  intro stat t ht hall
  obtain ⟨E, hrun, ⟨k, -, hgroup, hdone⟩, -, hmem, -⟩ := ht
  have htrace : t.trace = s.trace ++
      ([.getNode n, .sys (.malloc .timeout) (env.sys (.malloc .timeout) s.world).1] ++ E) := by
    rw [hrun.trace]
    simp [loopStart, handOut]
  have hstat : stat = 0 := by
    by_contra hne
    refine hne (hall stat ?_)
    rw [effectsSince_eq htrace, connects_append]
    exact List.mem_append_right _ (hmem hne)
  obtain rfl := hdone hstat
  have hcount : (t.node n).nchannels = (ArequestPacket.nchannels packet).toNat := by
    rw [hrun.node]
    simp [loopStart, Node.begun]
  exact ⟨hgroup, hcount, by rw [hcount]; exact hgroup.sum_coreNchannels⟩

end Loop

theorem two_cores_grouped : wp (recycleAndLoop bareHost boardAddr
      (atPointer (requestFrame 3 [1, 0x20, 2, 0, 1, 0x20])))
    (fun _ t => (∀ r ∈ connects (boardDaemon.effectsSince t), r = 0) →
      Grouped false (atPointer (requestFrame 3 [1, 0x20, 2, 0, 1, 0x20])) 0 0 t 3 ∧
      (t.node 0).nchannels = 3 ∧ ∑ j, coreNchannels t 0 j = (t.node 0).nchannels)
    (fun _ _ => False) boardDaemon ∧ ∀ old, recycleAndLoop bareHost boardAddr
      (atPointer (requestFrame 3 [1, 0x20, 2, 0, 1, 0x20]))
      { boardDaemon with node := Function.update boardDaemon.node 0 old } =
    recycleAndLoop bareHost boardAddr (atPointer (requestFrame 3 [1, 0x20, 2, 0, 1, 0x20]))
      boardDaemon :=
  channels_grouped_by_core bareHost (not_mallocFails fun _ _ => by simp [bareHost])
    firstFree_init boardAddr _

end Lininoio
