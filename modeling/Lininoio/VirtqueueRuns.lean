import Lininoio.VirtqueueSetup

/-! The two sides of a virtqueue from its creation on, in any interleaving of their accesses. -/

namespace Lininoio

open SharedMemory CircularBuffers FreeChains

variable {w n : Nat} {debug : Bool} {p : VqPair debug w}

/-- Whatever the two sides do, in any interleaving of their accesses: no call faults, and each one
returns when it is left alone. -/
theorem virtqueue_calls_return (hn : IsRingSize n) (h : VqReached n debug p) :
    (∀ l c, p.first = .busy l c → ∃ l' m, c.run p.memory = .ok (l', m)) ∧
    ∀ l c, p.second = .busy l c → ∃ l' m, c.run p.memory = .ok (l', m) := by
  obtain ⟨g, hfirst, hsecond⟩ := h.sound hn
  constructor
  · intro l c hbusy
    rw [hbusy] at hfirst
    obtain ⟨l', t, hrun, -⟩ := run_of_wp hfirst.2
    exact ⟨l', t.1, hrun⟩
  · intro l c hbusy
    rw [hbusy] at hsecond
    obtain ⟨l', t, hrun, -⟩ := run_of_wp hsecond.2
    exact ⟨l', t.1, hrun⟩

theorem addingFirst_returns : ∃ l m, Prog.run
    (driverStart.body true (.addBuffer [⟨0x1000, twoPages, 8⟩] 1 0 7)) bothCreated = .ok (l, m) :=
  (virtqueue_calls_return twoDescs_ringSize addingFirst_reached).1 _ _ rfl

theorem VqReached.logs (hn : IsRingSize n) (h : VqReached n debug p) : ∃ g : VqGhost w,
    DriverEver n p.first.holds (p.memory, g) ∧ DeviceEver n p.second.holds (p.memory, g) := by
  obtain ⟨g, hfirst, hsecond⟩ := h.sound hn
  exact ⟨g, hfirst.ever, hsecond.ever⟩

theorem getElem?_of_added {offered : List (Offer w)} {added : List (Request w)} {o : Offer w} {i : Nat}
    (hpre : offered.map Offer.toRequest <+: added) (ho : offered[i]? = some o) :
    added[i]? = some o.toRequest := by
  obtain ⟨rest, rfl⟩ := hpre
  have hlt := (List.getElem?_eq_some_iff.mp ho).1
  rw [List.getElem?_append_left (by rwa [List.length_map]), List.getElem?_map, ho]
  rfl

/-- The ring is what the exchange says, at any time, and so are the logs of a side between its
calls. -/
structure RingRepresents (n : Nat) (p : VqPair debug w) (g : VqGhost w) : Prop where
  ring : RingInv n (p.memory, g)
  driver : ∀ d, p.first = .idle d →
    g.offered.map Offer.toRequest = d.added ∧ g.collected = d.collected.length
  device : ∀ e, p.second = .idle e → g.taken = e.taken.length ∧ g.finished = e.completed

theorem VqSound.represents {hn : IsRingSize n} {g : VqGhost w} (h : VqSound hn debug p g) :
    RingRepresents n p g := by
  refine ⟨h.1.ever.inv, fun d hd => ?_, fun e he => ?_⟩
  · have hfirst := h.1
    rw [hd] at hfirst
    obtain ⟨k, hat, hknows⟩ := hfirst
    exact ⟨hat.offered ▸ hknows.added, hat.collected.trans hknows.collected.symm⟩
  · have hsecond := h.2
    rw [he] at hsecond
    obtain ⟨k, hat, hknows⟩ := hsecond
    exact ⟨hat.taken.trans hknows.taken.symm, hat.finished.trans hknows.completed.symm⟩

/-- The two sides and the ring between them refine an exchange of requests and answers: every
access, by whichever side, is one of its operations or none. -/
theorem virtqueue_refines_exchange (hn : IsRingSize n) : ∃ R : VqPair debug w → VqGhost w → Prop,
    (∀ p, Started n debug p → R p Exchange.start) ∧
    (∀ p p' g, R p g → Pair.Step p p' → ∃ g', R p' g' ∧ Exchange.Act g g') ∧
    ∀ p g, R p g → RingRepresents n p g :=
  ⟨VqSound hn debug, fun _ h => h.sound hn, fun _ _ _ h hstep => h.step hn hstep,
    fun _ _ h => h.represents⟩

theorem twoBuffers_refines : ∃ g, Relation.ReflTransGen Exchange.Act Exchange.start g ∧
    RingRepresents 2 twoBuffers g := by
  obtain ⟨p₀, hstart, hsteps⟩ := twoBuffers_reached
  obtain ⟨R, hinit, hstep, hrep⟩ : ∃ R : VqPair true 32 → VqGhost 32 → Prop, _ :=
    virtqueue_refines_exchange twoDescs_ringSize
  obtain ⟨g, hR, hacts⟩ :=
    simulated_run (fun p p' g hR hs => hstep p p' g hR hs) (hinit p₀ hstart) hsteps
  exact ⟨g, hacts, hrep _ _ hR⟩

/-- The device takes the buffers in the order in which the driver enqueues them, and the driver
collects them in the order in which the device gives them back, each at most once, with the
cookie of the buffer and the length that the device has written. -/
theorem virtqueue_delivers (hn : IsRingSize n) (h : VqReached n debug p) :
    (∀ i (hi : i < p.second.holds.taken.length), ∃ r, p.first.holds.added[i]? = some r ∧
      Sees p.second.holds.vq.shmIo r p.second.holds.taken[i]) ∧
    (∀ i (hi : i < p.first.holds.collected.length), ∃ f r,
      p.second.holds.completed[i]? = some f ∧ p.first.holds.added[f.1]? = some r ∧
      p.first.holds.collected[i] = ⟨r.cookie, f.2, UInt16.ofNat (i % n)⟩) ∧
    ((p.second.holds.completed.take p.first.holds.collected.length).map Prod.fst).Nodup := by
  obtain ⟨g, hdriver, hdevice⟩ := h.logs hn
  obtain ⟨rest, hrest⟩ := hdevice.completed
  refine ⟨fun i hi => ?_, fun i hi => ?_, ?_⟩
  · obtain ⟨o, ho, hsees⟩ := hdevice.seen i hi
    exact ⟨o.toRequest, getElem?_of_added hdriver.added ho, hsees⟩
  · obtain ⟨f, hf, r, hr, hu⟩ := hdriver.answered i hi
    refine ⟨f, r, ?_, hr, hu⟩
    rw [← hrest, List.getElem?_append_left (List.getElem?_eq_some_iff.mp hf).1, hf]
  · have hle : p.first.holds.collected.length ≤ g.finished.length :=
      hdriver.collected.trans hdriver.inv.valid.collected_le
    rw [← hrest, List.take_append_of_le_length hle]
    exact hdriver.inv.valid.nodup.sublist ((List.take_sublist _ _).map _)

theorem twoBuffers_delivered : ∃ f r, secondGiven.1.completed[0]? = some f ∧
    secondCollected.1.added[f.1]? = some r ∧
    secondCollected.1.collected[0]? = some ⟨r.cookie, f.2, 0⟩ := by
  have hlt : 0 < secondCollected.1.collected.length := Nat.zero_lt_one
  obtain ⟨f, r, hf, hr, hu⟩ := (virtqueue_delivers twoDescs_ringSize twoBuffers_reached).2.1 0 hlt
  exact ⟨f, r, hf, hr, (List.getElem?_eq_getElem hlt).trans (congrArg some hu)⟩

/-- Where the device maps the first byte of a buffer at all, the pointer that it gets is the address
under which it does. -/
theorem virtqueue_same_bytes (hn : IsRingSize n) (h : VqReached n debug p) (hw : w ≤ 64)
    (hmapped : p.second.holds.vq.shmIo.Mapped) :
    ∀ i (hi : i < p.second.holds.taken.length), ∃ r seg, p.first.holds.added[i]? = some r ∧
      r.sg.head? = some seg ∧ p.second.holds.taken[i].len = seg.len.toUInt32 ∧
      ∀ virt, virt - p.second.holds.vq.shmIo.virt < p.second.holds.vq.shmIo.size →
        metalIoVirtToPhys p.second.holds.vq.shmIo virt = metalIoVirtToPhys seg.io seg.virt →
        p.second.holds.taken[i].buffer = virt := by
  intro i hi
  obtain ⟨g, hdriver, hdevice⟩ := h.logs hn
  obtain ⟨o, ho, -, seg, hseg, hlen, hbuffer⟩ := hdevice.seen i hi
  refine ⟨o.toRequest, seg, getElem?_of_added hdriver.added ho, hseg, hlen, fun virt hvirt hsame => ?_⟩
  rw [BitVec.setWidth_setWidth_of_le _ hw, BitVec.setWidth_eq, ← hsame,
    hmapped.physToVirt_virtToPhys hvirt] at hbuffer
  exact (Option.some.inj hbuffer).symm

theorem twoBuffers_same_bytes : ∃ a, secondGiven.1.taken[1]? = some a ∧ a.buffer = 0x1018 := by
  have hlt : 1 < secondGiven.1.taken.length := Nat.one_lt_two
  obtain ⟨r, seg, hr, hseg, -, hbuffer⟩ := virtqueue_same_bytes twoDescs_ringSize twoBuffers_reached
    (by decide) twoPages_mapped 1 hlt
  obtain rfl : (⟨1, [⟨0x1018, twoPages, 4⟩], 0, 9⟩ : Request 32) = r := Option.some.inj hr
  obtain rfl : (⟨0x1018, twoPages, 4⟩ : MetalSg 32) = seg := Option.some.inj hseg
  exact ⟨_, List.getElem?_eq_getElem hlt, hbuffer 0x1018 (by decide) rfl⟩

def HeldByDevice (e : DeviceLocal w) (i : Nat) : Prop :=
  i < e.taken.length ∧ i ∉ e.completed.map Prod.fst

/-- As long as a buffer is with the device, the descriptors that it was told still describe the
buffer as it was enqueued, and no two such buffers share a descriptor. -/
theorem virtqueue_buffers_intact (hn : IsRingSize n) (h : VqReached n debug p) :
    ∃ chainOf : Nat → List UInt16,
      (∀ i, HeldByDevice p.second.holds i → ∃ r a, p.first.holds.added[i]? = some r ∧
        p.second.holds.taken[i]? = some a ∧ (chainOf i).head? = some a.availIdx ∧
        Laid p.memory.desc r.readable (chainOf i) r.sg ∧ ∀ x ∈ chainOf i, x.toNat < n) ∧
      ∀ i j, HeldByDevice p.second.holds i → HeldByDevice p.second.holds j → i ≠ j →
        (chainOf i).Disjoint (chainOf j) := by
  obtain ⟨g, hdriver, hdevice⟩ := h.logs hn
  have hlive : ∀ i, HeldByDevice p.second.holds i → i ∈ g.live := by
    intro i hheld
    have hlt := hheld.1.trans_le (hdevice.taken.trans hdevice.inv.valid.taken_le)
    refine Exchange.mem_live_iff.mpr ⟨hlt, fun hmem => hheld.2 ?_⟩
    exact (hdevice.completed.sublist.map _).subset (Exchange.mem_returned hmem)
  have hoffer : ∀ i, HeldByDevice p.second.holds i → ∃ o, g.offered[i]? = some o ∧ o ∈ g.outstanding ∧
      ∃ a, p.second.holds.taken[i]? = some a ∧ a.availIdx = o.head := by
    intro i hheld
    obtain ⟨o, ho, hsees⟩ := hdevice.seen i hheld.1
    exact ⟨o, ho, Exchange.mem_outstanding (hlive i hheld) ho, _, List.getElem?_eq_getElem hheld.1,
      hsees.1⟩
  refine ⟨fun i => (g.offered[i]?).elim [] Offer.chain, fun i hheld => ?_, fun i j hi hj hne => ?_⟩
  · obtain ⟨o, ho, hout, a, ha, hhead⟩ := hoffer i hheld
    have hinv := hdevice.inv
    refine ⟨o.toRequest, a, getElem?_of_added hdriver.added ho, ha, ?_⟩
    simp only [ho, Option.elim_some, hhead]
    exact ⟨hinv.heads o hout, hinv.laid o hout, fun x hx => hinv.bound x (mem_chains hout hx)⟩
  · obtain ⟨o, ho, -⟩ := hoffer i hi
    obtain ⟨o', ho', -⟩ := hoffer j hj
    simp only [ho, ho']
    exact disjoint_chains hdevice.inv.nodup (hlive i hi) (hlive j hj) hne ho ho'

theorem twoBuffers_intact : ∃ r a chain, secondCollected.1.added[0]? = some r ∧
    secondGiven.1.taken[0]? = some a ∧ chain.head? = some a.availIdx ∧
    Laid secondCollected.2.desc r.readable chain r.sg := by
  have hheld : HeldByDevice secondGiven.1 0 := ⟨Nat.zero_lt_two, by decide⟩
  obtain ⟨chainOf, hchain, -⟩ := virtqueue_buffers_intact twoDescs_ringSize twoBuffers_reached
  obtain ⟨r, a, hr, ha, hhead, hlaid, -⟩ := hchain 0 hheld
  exact ⟨r, a, chainOf 0, hr, ha, hhead, hlaid⟩

def underWay (d : DriverLocal w) (e : DeviceLocal w) : List (Request w) :=
  ((List.range d.added.length).filter fun i =>
    decide (i ∉ (e.completed.take d.collected.length).map Prod.fst)).filterMap fun i => d.added[i]?

theorem sum_segments {desc : UInt16 → VringDesc} {os : List (Offer w)}
    (h : ∀ o ∈ os, Laid desc o.readable o.chain o.sg) :
    ((os.map Offer.toRequest).map fun r => r.sg.length).sum = (chains os).length := by
  induction os with
  | nil => rfl
  | cons o os ih =>
    rw [chains_cons, List.length_append, List.map_cons, List.map_cons, List.sum_cons,
      ih fun o' ho' => h o' (List.mem_cons_of_mem _ ho'),
      (h o List.mem_cons_self).length_eq]

theorem map_outstanding (e : VqGhost w) : e.outstanding.map Offer.toRequest =
    e.live.filterMap fun i => (e.offered.map Offer.toRequest)[i]? := by
  rw [Exchange.outstanding, List.map_filterMap]
  simp only [List.getElem?_map]

/-- Nothing is lost: while neither side is in a call, a descriptor is free unless a request that has
not been collected occupies it, the device gets another buffer exactly when the driver has
enqueued one that it has not got, and the driver another answer exactly when the device has
given one that it has not got. -/
theorem virtqueue_nothing_lost (hn : IsRingSize n) (h : VqReached n debug p) {d : DriverLocal w}
    {e : DeviceLocal w} (hd : p.first = .idle d) (he : p.second = .idle e) :
    d.vq.vqFreeCnt.toNat + ((underWay d e).map fun r => r.sg.length).sum = n ∧
    (∃ e' m, (e.body debug .getAvailableBuffer).run p.memory = .ok (e', m) ∧
      e'.taken.length = if e.taken.length < d.added.length then e.taken.length + 1
        else e.taken.length) ∧
    ∃ d' m, (d.body debug .getBuffer).run p.memory = .ok (d', m) ∧
      d'.collected.length = if d.collected.length < e.completed.length then d.collected.length + 1
        else d.collected.length := by
  obtain ⟨g, hfirst, hsecond⟩ := h.sound hn
  rw [hd] at hfirst
  rw [he] at hsecond
  obtain ⟨k, hat, hknows⟩ := hfirst
  obtain ⟨k', hat', hknows'⟩ := hsecond
  have hadded : d.added = g.offered.map Offer.toRequest := by rw [← hknows.added, hat.offered]
  have htaken : e.taken.length = g.taken := hknows'.taken.trans hat'.taken.symm
  have hcollected : d.collected.length = g.collected := hknows.collected.trans hat.collected.symm
  have hcompleted : e.completed = g.finished := hknows'.completed.trans hat'.finished.symm
  refine ⟨?_, ?_, ?_⟩
  · obtain ⟨free, htable⟩ := hknows.table
    have hunder : underWay d e = g.outstanding.map Offer.toRequest := by
      rw [map_outstanding, underWay, hadded, hcompleted, hcollected, List.length_map]
      rfl
    have hcount := htable.length
    have hsum := sum_segments hat.inv.laid
    rw [← hat.outstanding] at hcount
    rw [hunder, htable.toNat_freeCnt hn, hsum]
    exact hcount
  · by_cases hlt : e.taken.length < d.added.length
    · obtain ⟨hat', hknows'⟩ := hat'.seen hknows'
      have hwp : wp (deviceKeeps n e) _ (e.body debug .getAvailableBuffer) (p.memory, g) :=
        hat'.wp_getAvailableBuffer hn hknows'
      obtain ⟨e', t, hrun, -, hnext⟩ := run_of_wp hwp
      refine ⟨e', t.1, hrun, ?_⟩
      rw [if_pos hlt]
      refine hnext ?_
      rw [hadded, List.length_map, hknows'.taken] at hlt
      exact hlt
    · have hempty : e.vq.vqAvailableIdx = p.memory.availIdx := by
        have hle : g.taken ≤ g.offered.length := hat.inv.valid.taken_le
        rw [hadded, List.length_map] at hlt
        have havail : p.memory.availIdx = UInt16.ofNat g.offered.length := hat.inv.availIdx
        rw [hknows'.availableIdx, havail, ← hknows'.taken]
        congr 1
        omega
      refine ⟨{ e with taken := e.taken ++ [] }, p.memory, ?_, by simp [hlt]⟩
      rw [DeviceLocal.body, virtqueueGetAvailableBuffer]
      simp only [Prog.bind_assoc, Prog.run_load_bind, if_pos hempty]
      rfl
  · by_cases hlt : d.collected.length < e.completed.length
    · obtain ⟨hat, hknows⟩ := hat.seen hknows
      have hwp : wp (driverKeeps n d) _ (d.body debug .getBuffer) (p.memory, g) :=
        hat.wp_getBuffer hn hknows
      obtain ⟨d', t, hrun, -, hnext⟩ := run_of_wp hwp
      refine ⟨d', t.1, hrun, ?_⟩
      rw [if_pos hlt]
      refine hnext ?_
      rw [hcompleted, hknows.collected] at hlt
      exact hlt
    · have hempty : d.vq.vqUsedConsIdx = p.memory.usedIdx := by
        have hle : g.collected ≤ g.finished.length := hat.inv.valid.collected_le
        rw [hcompleted] at hlt
        have hused : p.memory.usedIdx = UInt16.ofNat g.finished.length := hat.inv.usedIdx
        rw [hknows.consIdx, hused, ← hknows.collected]
        congr 1
        omega
      refine ⟨{ d with collected := d.collected ++ [] }, p.memory, ?_, by simp [hlt]⟩
      rw [DriverLocal.body, virtqueueGetBuffer]
      simp only [Prog.bind_assoc, Prog.run_load_bind, if_pos hempty]
      rfl

theorem twoBuffers_not_lost : secondCollected.1.vq.vqFreeCnt.toNat +
    ((underWay secondCollected.1 secondGiven.1).map fun r => r.sg.length).sum = 2 :=
  (virtqueue_nothing_lost twoDescs_ringSize twoBuffers_reached rfl rfl).1

/-- The counter has passed the event index since it was `b - a` lower, as far as 16 bits tell. -/
theorem vringNeedEvent_iff {a b : Nat} (eventIdx : UInt16) :
    vringNeedEvent eventIdx (UInt16.ofNat b) (UInt16.ofNat b - UInt16.ofNat (b - a)) = true ↔
      ∃ j, b - (b - a) % 65536 ≤ j ∧ j < b ∧ j % 65536 = eventIdx.toNat := by
  have hle : (b - a) % 65536 ≤ b := (Nat.mod_le _ _).trans (Nat.sub_le _ _)
  have hback : UInt16.ofNat b - (UInt16.ofNat b - UInt16.ofNat (b - a)) = UInt16.ofNat (b - a) := by
    grind
  have hlow : (UInt16.ofNat b - eventIdx - 1).toNat =
      (b % 65536 + (65536 - eventIdx.toNat) + (65536 - 1)) % 65536 := by
    have hone : (1 : UInt16).toNat = 1 := rfl
    rw [UInt16.toNat_sub, UInt16.toNat_sub, UInt16.toNat_ofNat', hone]
    omega
  rw [crossed_iff (Nat.sub_le _ _) eventIdx.toNat_lt, vringNeedEvent, decide_eq_true_iff, hback,
    UInt16.lt_iff_toNat_lt, hlow, UInt16.toNat_ofNat', Nat.sub_sub_self hle]

/-- With event indices the device is notified exactly when the index that it has asked for is one of
those used since the last kick. If 65536 buffers or more have been enqueued since then, only the
last of them count. -/
theorem virtqueue_kick_notifies (hn : IsRingSize n) (h : VqReached n debug p) {d : DriverLocal w}
    (hd : p.first = .idle d) : ∃ vq notified,
      (virtqueueKick debug d.vq).run p.memory = .ok ((vq, notified), p.memory) ∧
      (notified = true ↔ d.vq.notify = true ∧
        if d.vq.vqFlags &&& virtqueueFlagEventIdx ≠ 0 then
          ∃ j, d.added.length - (d.added.length - d.kicked) % 65536 ≤ j ∧ j < d.added.length ∧
            j % 65536 = ((p.memory.usedRing d.vq.vqNentries).id &&& 0xFFFF).toUInt16.toNat
        else p.memory.usedFlags &&& vringUsedFNoNotify = 0) := by
  obtain ⟨g, hfirst, -⟩ := h.sound hn
  rw [hd] at hfirst
  obtain ⟨k, hat, hknows⟩ := hfirst
  have havail : p.memory.availIdx = UInt16.ofNat d.added.length := by
    rw [← hknows.added, List.length_map, ← hat.offered]
    exact hat.inv.availIdx
  rw [virtqueueKick, vqueueBusy_of hknows.inuse]
  simp only [Prog.pure_bind, vqRingMustNotifyHost]
  by_cases hevent : d.vq.vqFlags &&& virtqueueFlagEventIdx ≠ 0
  · have hevent' : (d.vq.setInuse debug).vqFlags &&& virtqueueFlagEventIdx ≠ 0 := hevent
    rw [if_pos hevent', if_pos hevent]
    refine ⟨_, _, rfl, ?_⟩
    rw [Bool.and_eq_true, and_comm, havail]
    refine and_congr Iff.rfl ?_
    rw [← vringNeedEvent_iff, ← hknows.queuedCnt]
    rfl
  · have hevent' : ¬((d.vq.setInuse debug).vqFlags &&& virtqueueFlagEventIdx ≠ 0) := hevent
    rw [if_neg hevent', if_neg hevent]
    refine ⟨_, _, rfl, ?_⟩
    rw [Bool.and_eq_true, and_comm, beq_iff_eq]
    rfl

theorem twoBuffers_kick : ∃ vq,
    (virtqueueKick true secondCollected.1.vq).run secondCollected.2 =
      .ok ((vq, true), secondCollected.2) := by
  obtain ⟨vq, notified, hrun, hiff⟩ :=
    virtqueue_kick_notifies twoDescs_ringSize twoBuffers_reached rfl
  have hevent : secondCollected.1.vq.vqFlags &&& virtqueueFlagEventIdx ≠ 0 := by
    change virtqueueFlagEventIdx &&& virtqueueFlagEventIdx ≠ 0
    decide
  have hnotified : notified = true := by
    rw [hiff, if_pos hevent]
    exact ⟨rfl, 0, Nat.zero_le _, Nat.zero_lt_two, rfl⟩
  exact ⟨vq, hnotified ▸ hrun⟩

theorem DriverAt.run_virtqueueEnableCb (hn : IsRingSize n) {d : DriverLocal w} {k : DriverView w}
    {m : Vring} {g : VqGhost w} (hat : DriverAt n k (m, g)) (hknows : DriverKnows n d k) :
    (virtqueueEnableCb debug d.vq).run m = .ok (if k.collected < g.finished.length then 1 else 0,
      if d.vq.vqFlags &&& virtqueueFlagEventIdx ≠ 0 then
        m.setAvailRing d.vq.vqNentries (UInt16.ofNat k.collected)
      else { m with availFlags := m.availFlags &&& ~~~vringAvailFNoInterrupt }) := by
  obtain ⟨hcount, hassert⟩ := hat.nused hn hknows
  have hroom := hat.inv.uncollected_le
  have hnle := hn.le
  have hresult : ((if UInt16.ofNat (g.finished.length - k.collected) > 0 then 1 else 0 : Int)) =
      if k.collected < g.finished.length then 1 else 0 := by
    rw [hat.collected] at hroom
    have hiff : UInt16.ofNat (g.finished.length - k.collected) > 0 ↔
        k.collected < g.finished.length := by
      rw [gt_iff_lt, UInt16.lt_iff_toNat_lt, UInt16.toNat_ofNat', Nat.mod_eq_of_lt (by omega)]
      exact Nat.sub_pos_iff_lt
    rw [if_congr hiff rfl rfl]
  have hnused : ∀ m' : Vring, m'.usedIdx = m.usedIdx → (virtqueueNused debug d.vq).run m' =
      .ok (UInt16.ofNat (g.finished.length - k.collected), m') := by
    intro m' hm
    rw [virtqueueNused, Prog.run_load_bind, hm, vqassert_of hassert, Prog.pure_bind, hcount]
    rfl
  rw [virtqueueEnableCb, vqRingEnableInterrupt]
  by_cases hevent : d.vq.vqFlags &&& virtqueueFlagEventIdx ≠ 0
  · simp only [if_pos hevent]
    rw [Prog.run_store_bind, Prog.run_bind (hnused (m.setAvailRing _ _) rfl), ← hresult,
      UInt16.add_zero, hknows.consIdx]
    rfl
  · simp only [if_neg hevent]
    rw [Prog.run_load_bind, Prog.run_store_bind, Prog.run_bind (hnused _ (by rfl)), ← hresult]
    rfl

/-- After `virtqueue_enable_cb` nothing that the device gives back goes unnoticed: either there is
an answer now, and the driver is told, or the next one interrupts. -/
theorem virtqueue_enable_cb_reports (hn : IsRingSize n) (h : VqReached n debug p) {d : DriverLocal w}
    {e : DeviceLocal w} (hd : p.first = .idle d) (he : p.second = .idle e) : ∃ m,
      (virtqueueEnableCb debug d.vq).run p.memory =
        .ok (if d.collected.length < e.completed.length then 1 else 0, m) ∧
      if d.vq.vqFlags &&& virtqueueFlagEventIdx ≠ 0 then
        m = p.memory.setAvailRing d.vq.vqNentries (UInt16.ofNat d.collected.length)
      else m = { p.memory with availFlags := p.memory.availFlags &&& ~~~vringAvailFNoInterrupt } := by
  obtain ⟨g, hfirst, hsecond⟩ := h.sound hn
  rw [hd] at hfirst
  rw [he] at hsecond
  obtain ⟨k, hat, hknows⟩ := hfirst
  obtain ⟨k', hat', hknows'⟩ := hsecond
  have hcompleted : e.completed = g.finished := hknows'.completed.trans hat'.finished.symm
  refine ⟨_, by rw [hat.run_virtqueueEnableCb hn hknows, hcompleted, hknows.collected], ?_⟩
  split
  · rw [hknows.collected]
  · rfl

theorem twoBuffers_enable_cb : ∃ m,
    (virtqueueEnableCb true secondCollected.1.vq).run secondCollected.2 = .ok (0, m) := by
  obtain ⟨m, hrun, -⟩ := virtqueue_enable_cb_reports twoDescs_ringSize twoBuffers_reached rfl rfl
  exact ⟨m, hrun⟩

theorem vringNeedEvent_between {a b : Nat} (hab : a ≤ b) (hlt : b - a < 65536) (eventIdx : UInt16) :
    vringNeedEvent eventIdx (UInt16.ofNat b) (UInt16.ofNat a) = true ↔
      ∃ j, a ≤ j ∧ j < b ∧ j % 65536 = eventIdx.toNat := by
  have hback : UInt16.ofNat b - UInt16.ofNat (b - a) = UInt16.ofNat a := by
    rw [UInt16.ofNat_sub hab]
    grind
  rw [← hback, vringNeedEvent_iff, Nat.mod_eq_of_lt hlt, Nat.sub_sub_self hab]

/-- With event indices, a device that goes by `vring_need_event` interrupts after
`virtqueue_enable_cb` when it gives the first answer that has not been collected, and after
`virtqueue_disable_cb` not at all, unless it fills a ring of 32768 descriptors. -/
theorem virtqueue_cb_interrupts (hn : IsRingSize n) (h : VqReached n debug p) {d : DriverLocal w}
    (hd : p.first = .idle d) (hevent : d.vq.vqFlags &&& virtqueueFlagEventIdx ≠ 0) :
    ∃ r m vq m', (virtqueueEnableCb debug d.vq).run p.memory = .ok (r, m) ∧
      (virtqueueDisableCb debug d.vq).run p.memory = .ok (vq, m') ∧
      ∀ old new, d.collected.length ≤ old → old < new → new ≤ d.collected.length + n →
        (vringNeedEvent (m.availRing d.vq.vqNentries) (UInt16.ofNat new) (UInt16.ofNat old) = true ↔
          old = d.collected.length) ∧
        (vringNeedEvent (m'.availRing d.vq.vqNentries) (UInt16.ofNat new) (UInt16.ofNat old) = true ↔
          n = 32768 ∧ new = d.collected.length + n) := by
  obtain ⟨g, hfirst, -⟩ := h.sound hn
  rw [hd] at hfirst
  obtain ⟨k, hat, hknows⟩ := hfirst
  have hnle := hn.le
  have hdisable : (virtqueueDisableCb debug d.vq).run p.memory =
      .ok (vqueueIdle debug (d.vq.setInuse debug), p.memory.setAvailRing d.vq.vqNentries
        (d.vq.vqUsedConsIdx - d.vq.vqNentries - 1)) := by
    have hevent' : (d.vq.setInuse debug).vqFlags &&& virtqueueFlagEventIdx ≠ 0 := hevent
    rw [virtqueueDisableCb, vqueueBusy_of hknows.inuse, Prog.pure_bind, if_pos hevent']
    rfl
  refine ⟨_, _, _, _, hat.run_virtqueueEnableCb hn hknows, hdisable, fun old new hold hlt hnew => ?_⟩
  have hapart : new - old < 65536 := by omega
  rw [if_pos hevent, vringNeedEvent_between hlt.le hapart, vringNeedEvent_between hlt.le hapart]
  simp only [Vring.setAvailRing, Function.update_self]
  have hlow : (d.vq.vqUsedConsIdx - d.vq.vqNentries - 1).toNat =
      (d.collected.length % 65536 + (65536 - n) + (65536 - 1)) % 65536 := by
    have hone : (1 : UInt16).toNat = 1 := rfl
    rw [UInt16.toNat_sub, UInt16.toNat_sub, hknows.consIdx, hknows.nentries, hn.toNat_ofNat,
      UInt16.toNat_ofNat', hone, hknows.collected]
    omega
  rw [hlow, UInt16.toNat_ofNat', ← hknows.collected]
  constructor
  · constructor
    · rintro ⟨j, hj, hjn, hmod⟩
      omega
    · intro heq
      exact ⟨old, le_rfl, hlt, by rw [heq]⟩
  · constructor
    · rintro ⟨j, hj, hjn, hmod⟩
      omega
    · rintro ⟨rfl, rfl⟩
      exact ⟨d.collected.length + 32767, by omega, by omega, by omega⟩

theorem twoBuffers_interrupts : ∃ r m vq m',
    (virtqueueEnableCb true secondCollected.1.vq).run secondCollected.2 = .ok (r, m) ∧
    (virtqueueDisableCb true secondCollected.1.vq).run secondCollected.2 = .ok (vq, m') ∧
    vringNeedEvent (m.availRing 2) 2 1 = true ∧ vringNeedEvent (m'.availRing 2) 2 1 = false := by
  have hevent : secondCollected.1.vq.vqFlags &&& virtqueueFlagEventIdx ≠ 0 := by
    change virtqueueFlagEventIdx &&& virtqueueFlagEventIdx ≠ 0
    decide
  obtain ⟨r, m, vq, m', henable, hdisable, hcb⟩ :=
    virtqueue_cb_interrupts twoDescs_ringSize twoBuffers_reached rfl hevent
  have hnext := hcb 1 2 le_rfl (by decide) (by decide)
  refine ⟨r, m, vq, m', henable, hdisable, hnext.1.mpr rfl, Bool.eq_false_iff.mpr fun hmasked => ?_⟩
  exact absurd (hnext.2.mp hmasked).1 (by decide)

end Lininoio
