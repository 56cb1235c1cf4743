import Lininoio.VirtqueueRings

/-! The device's calls, whatever the driver does meanwhile. -/

namespace Lininoio

open SharedMemory CircularBuffers FreeChains

variable {w n : Nat}

/-- The search for a virtual address ends, for every physical one. -/
def Finds (io : MetalIoRegion w) : Prop := ∀ phys, ∃ virt, metalIoPhysToVirt io phys = some virt

/-- What the device is told about a request: its head, and where the first segment is. -/
def Sees (io : MetalIoRegion w) (r : Request w) (a : AvailableBuffer w) : Prop :=
  a.availIdx = r.head ∧ ∃ s, r.sg.head? = some s ∧ a.len = s.len.toUInt32 ∧
    metalIoPhysToVirt io (((metalIoVirtToPhys s.io s.virt).setWidth 64).setWidth w) = some a.buffer

def SeenBy (l : DeviceLocal w) (offered : List (Offer w)) : Prop :=
  ∀ i (h : i < l.taken.length), ∃ o, offered[i]? = some o ∧ Sees l.vq.shmIo o.toRequest l.taken[i]

structure DeviceEver (n : Nat) (l : DeviceLocal w) (s : Vring × VqGhost w) : Prop where
  inv : RingInv n s
  taken : l.taken.length ≤ s.2.taken
  seen : SeenBy l s.2.offered
  completed : s.2.finished <+: l.completed

/-- What the device knows within a call: what it alone writes, and the offers it has seen. -/
structure DeviceView (w : Nat) where
  ring : UInt16 → VringUsedElem
  taken : Nat
  finished : List (Nat × UInt32)
  offered : List (Offer w)

structure DeviceAt (n : Nat) (k : DeviceView w) (s : Vring × VqGhost w) : Prop where
  inv : RingInv n s
  ring : s.1.usedRing = k.ring
  taken : s.2.taken = k.taken
  finished : s.2.finished = k.finished
  offered : k.offered <+: s.2.offered

structure DeviceKnows (l : DeviceLocal w) (n : Nat) (k : DeviceView w) : Prop where
  nentries : l.vq.vqNentries = UInt16.ofNat n
  inuse : l.vq.vqInuse = false
  finds : Finds l.vq.shmIo
  availableIdx : l.vq.vqAvailableIdx = UInt16.ofNat k.taken
  taken : l.taken.length = k.taken
  seen : SeenBy l k.offered
  completed : l.completed = k.finished

def DeviceIdle (n : Nat) (l : DeviceLocal w) (s : Vring × VqGhost w) : Prop :=
  ∃ k, DeviceAt n k s ∧ DeviceKnows l n k

structure DeviceLogs (l : DeviceLocal w) (k : DeviceView w) : Prop where
  taken : l.taken.length ≤ k.taken
  seen : SeenBy l k.offered
  completed : k.finished <+: l.completed

theorem SeenBy.mono {l : DeviceLocal w} {offered offered' : List (Offer w)} (h : SeenBy l offered)
    (hpre : offered <+: offered') : SeenBy l offered' := by
  intro i hi
  obtain ⟨o, ho, hsees⟩ := h i hi
  obtain ⟨rest, rfl⟩ := hpre
  exact ⟨o, by rw [List.getElem?_append_left (List.getElem?_eq_some_iff.mp ho).1, ho], hsees⟩

section At

variable {l : DeviceLocal w} {k : DeviceView w} {s t : Vring × VqGhost w}

def DeviceView.setRing (k : DeviceView w) (j : UInt16) (e : VringUsedElem) : DeviceView w :=
  { k with ring := Function.update k.ring j e }

@[simp] theorem DeviceView.setRing_ring_self (k : DeviceView w) (j : UInt16) (e : VringUsedElem) :
    (k.setRing j e).ring j = e := Function.update_self ..

@[simp] theorem DeviceView.setRing_setRing (k : DeviceView w) (j : UInt16) (e e' : VringUsedElem) :
    (k.setRing j e).setRing j e' = k.setRing j e' := by
  simp [DeviceView.setRing]

theorem DeviceLogs.setRing (h : DeviceLogs l k) (j : UInt16) (e : VringUsedElem) :
    DeviceLogs l (k.setRing j e) := ⟨h.taken, h.seen, h.completed⟩

theorem DeviceAt.rely (h : DeviceAt n k s) (hst : DriverStep n s t) : DeviceAt n k t :=
  ⟨hst.inv h.inv, hst.usedRing.trans h.ring, hst.taken.trans h.taken, hst.finished.trans h.finished,
    h.offered.trans hst.offered⟩

theorem DeviceIdle.rely (h : DeviceIdle n l s) (hst : DriverStep n s t) : DeviceIdle n l t := by
  obtain ⟨k, hat, hknows⟩ := h
  exact ⟨k, hat.rely hst, hknows⟩

theorem DeviceEver.rely (h : DeviceEver n l s) (hst : DriverStep n s t) : DeviceEver n l t :=
  ⟨hst.inv h.inv, hst.taken ▸ h.taken, h.seen.mono hst.offered, hst.finished ▸ h.completed⟩

theorem DeviceAt.ever (h : DeviceAt n k s) (hl : DeviceLogs l k) : DeviceEver n l s :=
  ⟨h.inv, h.taken ▸ hl.taken, hl.seen.mono h.offered, h.finished ▸ hl.completed⟩

theorem DeviceKnows.logs (h : DeviceKnows l n k) : DeviceLogs l k :=
  ⟨h.taken.le, h.seen, h.completed ▸ List.prefix_rfl⟩

theorem DeviceAt.seen (h : DeviceAt n k s) (hknows : DeviceKnows l n k) :
    DeviceAt n { k with offered := s.2.offered } s ∧
    DeviceKnows l n { k with offered := s.2.offered } :=
  ⟨⟨h.inv, h.ring, h.taken, h.finished, List.prefix_rfl⟩, hknows.nentries, hknows.inuse,
    hknows.finds, hknows.availableIdx, hknows.taken, hknows.seen.mono h.offered, hknows.completed⟩

end At

abbrev deviceKeeps (n : Nat) (l : DeviceLocal w) : Contract Vring (VqGhost w) :=
  (deviceContract n w).keeping (DeviceEver n l)

section Accesses

variable {l : DeviceLocal w} {k : DeviceView w} {s : Vring × VqGhost w} {α β : Type}
  {Q : β → Vring × VqGhost w → Prop}

theorem deviceAt_stable (n : Nat) (l : DeviceLocal w) (k : DeviceView w) :
    Stable (deviceKeeps n l) (DeviceAt n k) := fun _ _ hst h => h.rely hst

theorem DeviceAt.wp_load (h : DeviceAt n k s) (hl : DeviceLogs l k) {g : Vring → α}
    {f : α → VqProg β} (hnext : ∀ t, DeviceAt n k t → wp (deviceKeeps n l) Q (f (g t.1)) t) :
    wp (deviceKeeps n l) Q (Prog.load g >>= f) s :=
  SharedMemory.wp_load (deviceAt_stable n l k) h
    (fun t ht => ⟨deviceContract_self n t, ht.ever hl⟩) hnext

theorem DeviceAt.wp_take (h : DeviceAt n k s) (hl : DeviceLogs l k) (hlt : k.taken < k.offered.length)
    {g : Vring → α} {f : α → VqProg β} (hnext : ∀ t, DeviceAt n k t →
      ∀ u, DeviceAt n { k with taken := k.taken + 1 } u → u.1 = t.1 →
        wp (deviceKeeps n l) Q (f (g t.1)) u) :
    wp (deviceKeeps n l) Q (Prog.load g >>= f) s := by
  have hroom : ∀ t, DeviceAt n k t → t.2.taken < t.2.offered.length := fun t ht =>
    ht.taken ▸ hlt.trans_le ht.offered.length_le
  have htake : ∀ t, DeviceAt n k t → DeviceAt n { k with taken := k.taken + 1 } (t.1, t.2.take) := by
    intro t ht
    refine ⟨ht.inv.take (hroom t ht), ht.ring, ?_, ht.finished, ht.offered⟩
    rw [Exchange.taken_take, ht.taken]
  refine wp_load_ghost (u := Exchange.take) (deviceAt_stable n l k) h (fun t ht => ?_)
    fun t ht => hnext t ht _ (htake t ht) rfl
  have hafter := htake t ht
  refine ⟨⟨⟨rfl, rfl, fun _ => hafter.inv, rfl, rfl, List.prefix_rfl⟩, .take _ (hroom t ht)⟩,
    hafter.ever ?_⟩
  exact ⟨hl.taken.trans (Nat.le_succ _), hl.seen, hl.completed⟩

end Accesses

section Calls

variable {debug : Bool} {l : DeviceLocal w} {k : DeviceView w} {s : Vring × VqGhost w}

theorem DeviceAt.next (h : DeviceAt n k s) (hlt : k.taken < k.offered.length) : ∃ o seg,
    k.offered[k.taken]? = some o ∧ o.sg.head? = some seg ∧ o.head.toNat < n ∧
    ∀ t, DeviceAt n k t → t.1.availRing (UInt16.ofNat (k.taken % n)) = o.head ∧
      (t.1.desc o.head).addr = (metalIoVirtToPhys seg.io seg.virt).setWidth 64 ∧
      (t.1.desc o.head).len = seg.len.toUInt32 := by
  have hmem : ∀ t, DeviceAt n k t → k.offered[k.taken] ∈ t.2.outstanding ∧
      t.1.availRing (UInt16.ofNat (k.taken % n)) = k.offered[k.taken].head := by
    intro t ht
    obtain ⟨rest, hrest⟩ := ht.offered
    have hget : t.2.offered[k.taken]? = some k.offered[k.taken] := by
      rw [← hrest, List.getElem?_append_left hlt, List.getElem?_eq_getElem hlt]
    have hlt' := (List.getElem?_eq_some_iff.mp hget).1
    refine ⟨Exchange.mem_outstanding (Exchange.mem_live_iff.mpr ⟨hlt', fun hmem => ?_⟩) hget, ?_⟩
    · obtain ⟨q, hq, heq⟩ := List.mem_map.mp (Exchange.mem_returned hmem)
      have hfinished := ht.inv.valid.finished_lt q hq
      rw [ht.taken] at hfinished
      omega
    · have hwindow := ht.inv.avail k.taken (by simpa using hlt') ht.taken.le
      simpa [(List.getElem?_eq_some_iff.mp hget).2] using hwindow
  have hout := (hmem s h).1
  have hhead := h.inv.heads _ hout
  obtain ⟨seg, hseg, -, -⟩ := (h.inv.laid _ hout).segment hhead
  refine ⟨k.offered[k.taken], seg, List.getElem?_eq_getElem hlt, hseg,
    h.inv.bound _ (mem_chains hout (List.mem_of_mem_head? hhead)), fun t ht => ?_⟩
  obtain ⟨hout', hring⟩ := hmem t ht
  obtain ⟨seg', hseg', haddr, hlen⟩ := (ht.inv.laid _ hout').segment hhead
  obtain rfl : seg = seg' := Option.some.inj (hseg.symm.trans hseg')
  exact ⟨hring, haddr, hlen⟩

theorem DeviceAt.available (hn : IsRingSize n) (h : DeviceAt n k s) (hknows : DeviceKnows l n k)
    (hne : l.vq.vqAvailableIdx ≠ s.1.availIdx) : ∃ k', DeviceAt n k' s ∧ DeviceKnows l n k' ∧
      k'.taken < k'.offered.length ∧
      (l.vq.setInuse debug).vqAvailableIdx &&& ((l.vq.setInuse debug).vqNentries - 1) =
        UInt16.ofNat (k'.taken % n) := by
  obtain ⟨hat, hknows'⟩ := h.seen hknows
  refine ⟨_, hat, hknows', lt_of_le_of_ne (h.taken ▸ h.inv.valid.taken_le) fun heq => hne ?_, ?_⟩
  · rw [hknows.availableIdx, h.inv.availIdx, heq]
  · have hslot := hn.slot k.taken
    rwa [← hknows.availableIdx, ← hknows.nentries] at hslot

theorem SeenBy.take {offered : List (Offer w)} {o : Offer w} {a : AvailableBuffer w}
    {vq : Virtqueue w} (h : SeenBy l offered) (hvq : vq.shmIo = l.vq.shmIo)
    (ho : offered[l.taken.length]? = some o) (ha : Sees l.vq.shmIo o.toRequest a) :
    SeenBy { l with vq := vq, taken := l.taken ++ [a] } offered := by
  intro i hi
  simp only [hvq]
  rcases Nat.lt_or_eq_of_le (Nat.lt_succ_iff.mp (by simpa using hi)) with hlt | rfl
  · obtain ⟨o', ho', hsees⟩ := h i hlt
    exact ⟨o', ho', by simpa only [List.getElem_append_left hlt] using hsees⟩
  · exact ⟨o, ho, by simpa using ha⟩

theorem DeviceAt.wp_getAvailableBuffer (hn : IsRingSize n) (h : DeviceAt n k s)
    (hknows : DeviceKnows l n k) :
    wp (deviceKeeps n l) (fun l' t => DeviceIdle n l' t ∧ (k.taken < k.offered.length →
      l'.taken.length = l.taken.length + 1)) (l.body debug .getAvailableBuffer) s := by
  rw [DeviceLocal.body, virtqueueGetAvailableBuffer]
  simp only [Prog.bind_assoc]
  refine h.wp_load hknows.logs fun t ht => ?_
  by_cases hempty : l.vq.vqAvailableIdx = t.1.availIdx
  · rw [if_pos hempty, Prog.pure_bind]
    have hroom := ht.inv.pending_le
    have hnle := hn.le
    have hseen := ht.offered.length_le
    rw [ht.taken] at hroom
    rw [hknows.availableIdx, ht.inv.availIdx,
      ofNat_eq_iff (ht.taken ▸ ht.inv.valid.taken_le) (by omega)] at hempty
    refine wp_pure (deviceAt_stable n l k) ht fun t ht => ⟨⟨k, ht, ?_⟩, fun hlt => by omega⟩
    simpa using hknows
  rw [if_neg hempty, vqueueBusy_of hknows.inuse]
  simp only [Prog.pure_bind, Prog.bind_assoc]
  obtain ⟨k', ht, hknows, hlt, hslot⟩ := ht.available hn hknows hempty
  obtain ⟨o, seg, ho, hseg, hbound, hread⟩ := ht.next hlt
  have hlogs := hknows.logs
  rw [hslot]
  refine ht.wp_load hlogs fun t ht => ?_
  rw [(hread t ht).1, inTable_of hn (by exact hknows.nentries) hbound]
  simp only [Prog.pure_bind]
  refine ht.wp_load hlogs fun t ht => ?_
  obtain ⟨buffer, hbuffer⟩ := hknows.finds
    (((metalIoVirtToPhys seg.io seg.virt).setWidth 64).setWidth w)
  have hfound : metalIoPhysToVirt (l.vq.setInuse debug).nextAvailable.shmIo
      (((metalIoVirtToPhys seg.io seg.virt).setWidth 64).setWidth w) = some buffer := hbuffer
  rw [(hread t ht).2.1]
  simp only [hfound, Prog.bind_assoc, Prog.pure_bind]
  refine ht.wp_take hlogs hlt fun t ht u hu hsame => ?_
  rw [(hread t ht).2.2, vqueueIdle_of (by rfl)]
  refine wp_pure (deviceAt_stable n l _) hu fun u hu => ⟨⟨_, hu, ?_⟩, fun _ => by simp⟩
  refine ⟨hknows.nentries, rfl, hknows.finds, ?_, ?_, ?_, hknows.completed⟩
  · rw [← ofNat_succ, ← hknows.availableIdx]
    rfl
  · simpa using hknows.taken
  · exact hknows.seen.take rfl (hknows.taken ▸ ho) ⟨rfl, seg, hseg, rfl, hbuffer⟩

theorem DeviceAt.wp_getDescSize (hn : IsRingSize n) (h : DeviceAt n k s)
    (hknows : DeviceKnows l n k) :
    wp (deviceKeeps n l) (DeviceIdle n) (l.body debug .getDescSize) s := by
  have hsame : vqueueIdle debug (l.vq.setInuse debug) = l.vq := by
    rw [vqueueIdle_of (by rfl), ← hknows.inuse]
    rfl
  rw [DeviceLocal.body, virtqueueGetDescSize]
  simp only [Prog.bind_assoc]
  refine h.wp_load hknows.logs fun t ht => ?_
  by_cases hempty : l.vq.vqAvailableIdx = t.1.availIdx
  · rw [if_pos hempty, Prog.pure_bind]
    exact wp_pure (deviceAt_stable n l k) ht fun t ht => ⟨k, ht, hknows⟩
  rw [if_neg hempty, vqueueBusy_of hknows.inuse]
  simp only [Prog.pure_bind, Prog.bind_assoc, hsame]
  obtain ⟨k', ht, hknows, hlt, hslot⟩ := ht.available hn hknows hempty
  obtain ⟨o, seg, ho, hseg, hbound, hread⟩ := ht.next hlt
  rw [hslot]
  refine ht.wp_load hknows.logs fun t ht => ?_
  rw [(hread t ht).1, inTable_of hn (by exact hknows.nentries) hbound]
  simp only [Prog.pure_bind]
  refine ht.wp_load hknows.logs fun t ht => ?_
  exact wp_pure (deviceAt_stable n l k') ht fun t ht => ⟨k', ht, hknows⟩

def DeviceLocal.completing (l : DeviceLocal w) (p : Nat) (len : UInt32) : DeviceLocal w :=
  { l with completed := l.completed ++ [(p, len)] }

theorem DeviceKnows.completing (hknows : DeviceKnows l n k) (p : Nat) (len : UInt32) :
    DeviceLogs (l.completing p len) k := by
  refine ⟨hknows.taken.le, hknows.seen, ?_⟩
  rw [← hknows.completed]
  exact List.prefix_append _ _

structure Holds (k : DeviceView w) (p : Nat) : Prop where
  taken : p < k.taken
  not_finished : p ∉ k.finished.map Prod.fst

theorem DeviceAt.answer_lt {p : Nat} (h : DeviceAt n k s) (hp : Holds k p) :
    s.2.finished.length < s.2.collected + n :=
  h.inv.answer_lt (h.taken ▸ hp.taken) (h.finished ▸ hp.not_finished)

theorem DeviceAt.wp_modifyUsedRing {β : Type} {Q : β → Vring × VqGhost w → Prop} {c : Unit → VqProg β}
    {p : Nat} (hn : IsRingSize n) (h : DeviceAt n k s) (hl : DeviceLogs l k) (hp : Holds k p)
    {j : UInt16} (hj : j = UInt16.ofNat (k.finished.length % n)) {f : VringUsedElem → VringUsedElem}
    (hnext : ∀ t, DeviceAt n (k.setRing j (f (k.ring j))) t →
      wp (deviceKeeps n l) Q (c ()) t) :
    wp (deviceKeeps n l) Q (Prog.store (Vring.modifyUsedRing j f) >>= c) s := by
  have hset : ∀ t, DeviceAt n k t →
      DeviceAt n (k.setRing j (f (k.ring j)))
        (t.1.modifyUsedRing j f, t.2) := by
    intro t ht
    refine ⟨?_, ?_, ht.taken, ht.finished, ht.offered⟩
    · rw [hj, ← ht.finished]
      exact ht.inv.modifyUsedRing hn (ht.answer_lt hp) f
    · simp only [Vring.modifyUsedRing, DeviceView.setRing, ht.ring]
  refine wp_store (deviceAt_stable n l k) h (fun t ht => ?_) fun t ht => hnext _ (hset t ht)
  have hafter := hset t ht
  exact ⟨⟨⟨rfl, rfl, fun _ => hafter.inv, rfl, rfl, List.prefix_rfl⟩, .none _⟩,
    hafter.ever (hl.setRing _ _)⟩

theorem DeviceAt.wp_finish {β : Type} {Q : β → Vring × VqGhost w → Prop} {c : Unit → VqProg β}
    {p : Nat} {len : UInt32} {o : Offer w} {idx : UInt16} (h : DeviceAt n k s)
    (hl : DeviceLogs l k) (hp : Holds k p) (ho : k.offered[p]? = some o)
    (hring : k.ring (UInt16.ofNat (k.finished.length % n)) = ⟨o.head.toUInt32, len⟩)
    (hidx : idx = UInt16.ofNat k.finished.length)
    (hcompleted : k.finished ++ [(p, len)] <+: l.completed)
    (hnext : ∀ t, DeviceAt n { k with finished := k.finished ++ [(p, len)] } t →
      wp (deviceKeeps n l) Q (c ()) t) :
    wp (deviceKeeps n l) Q (Prog.store (fun r => { r with usedIdx := idx + 1 }) >>= c) s := by
  have hset : ∀ t, DeviceAt n k t → DeviceAt n { k with finished := k.finished ++ [(p, len)] }
      ({ t.1 with usedIdx := idx + 1 }, t.2.finish p len) := by
    intro t ht
    have hsame : idx = t.1.usedIdx := by
      rw [hidx, ht.inv.usedIdx, ht.finished]
    obtain ⟨rest, hrest⟩ := ht.offered
    have hget : t.2.offered[p]? = some o := by
      rw [← hrest, List.getElem?_append_left (List.getElem?_eq_some_iff.mp ho).1, ho]
    rw [hsame]
    refine ⟨ht.inv.finish (ht.taken ▸ hp.taken) (ht.finished ▸ hp.not_finished) ?_, ht.ring, ht.taken,
      ?_, ht.offered⟩
    · rw [ht.ring, ht.finished, hring, usedElem, hget]
      rfl
    · rw [Exchange.finished_finish, ht.finished]
  refine wp_store_ghost (u := Exchange.finish p len) (deviceAt_stable n l k) h (fun t ht => ?_)
    fun t ht => hnext _ (hset t ht)
  have hafter := hset t ht
  exact ⟨⟨⟨rfl, rfl, fun _ => hafter.inv, rfl, rfl, List.prefix_append _ _⟩,
      .finish _ p len (ht.taken ▸ hp.taken) (ht.finished ▸ hp.not_finished)⟩,
    hafter.ever ⟨hl.taken, hl.seen, hcompleted⟩⟩

theorem DeviceAt.held (h : DeviceAt n k s) (hknows : DeviceKnows l n k) {p : Nat}
    (hp : p < l.taken.length) (hnot : p ∉ l.completed.map Prod.fst) : ∃ o, Holds k p ∧
      k.offered[p]? = some o ∧ l.headOf p = o.head ∧ o.head.toNat < n := by
  obtain ⟨o, ho, hsees⟩ := hknows.seen p hp
  have hholds : Holds k p := ⟨hknows.taken ▸ hp, hknows.completed ▸ hnot⟩
  refine ⟨o, hholds, ho, ?_, ?_⟩
  · rw [DeviceLocal.headOf, List.getElem?_eq_getElem hp]
    exact hsees.1
  · obtain ⟨rest, hrest⟩ := h.offered
    have hget : s.2.offered[p]? = some o := by
      rw [← hrest, List.getElem?_append_left (List.getElem?_eq_some_iff.mp ho).1, ho]
    have hlive : p ∈ s.2.live :=
      Exchange.mem_live_iff.mpr ⟨(List.getElem?_eq_some_iff.mp hget).1, fun hmem =>
        hholds.not_finished (h.finished ▸ Exchange.mem_returned hmem)⟩
    have hout := Exchange.mem_outstanding hlive hget
    exact h.inv.bound _ (mem_chains hout (List.mem_of_mem_head? (h.inv.heads o hout)))

theorem DeviceAt.wp_addConsumedBuffer (hn : IsRingSize n) (h : DeviceAt n k s)
    (hknows : DeviceKnows l n k) {p : Nat} {len : UInt32}
    (hlegal : l.Legal (.addConsumedBuffer p len)) :
    wp (deviceKeeps n (l.completing p len)) (DeviceIdle n) (l.body debug (.addConsumedBuffer p len))
      s := by
  obtain ⟨o, hholds, ho, hhead, hbound⟩ := h.held hknows hlegal.1 hlegal.2
  have hlogs := hknows.completing p len
  have hlt : ¬o.head > l.vq.vqNentries := by
    rw [hknows.nentries, gt_iff_lt, UInt16.lt_iff_toNat_lt, hn.toNat_ofNat]
    omega
  rw [DeviceLocal.body, virtqueueAddConsumedBuffer, hhead, if_neg hlt, vqueueBusy_of hknows.inuse]
  simp only [Prog.pure_bind, Prog.bind_assoc]
  refine h.wp_load hlogs fun t ht => ?_
  have hslot : t.1.usedIdx &&& ((l.vq.setInuse debug).vqNentries - 1) =
      UInt16.ofNat (k.finished.length % n) := by
    have hh := hn.slot k.finished.length
    rwa [← hknows.nentries, ← ht.finished, ← ht.inv.usedIdx, ht.finished] at hh
  rw [hslot]
  refine ht.wp_modifyUsedRing hn hlogs hholds rfl fun t ht => ?_
  refine ht.wp_modifyUsedRing hn (hlogs.setRing _ _) ⟨hholds.taken, hholds.not_finished⟩ (by rfl)
    fun t ht => ?_
  simp only [DeviceView.setRing_setRing, DeviceView.setRing_ring_self] at ht
  refine ht.wp_load (hlogs.setRing _ _) fun t ht => ?_
  have hring := k.setRing_ring_self (UInt16.ofNat (k.finished.length % n)) ⟨o.head.toUInt32, len⟩
  refine ht.wp_finish (hlogs.setRing _ _) ⟨hholds.taken, hholds.not_finished⟩ ho hring ?_ ?_
    fun t ht => ?_
  · rw [ht.inv.usedIdx, ht.finished]
  · exact hknows.completed ▸ List.prefix_rfl
  · rw [vqueueIdle_of (by rfl)]
    refine wp_pure (deviceAt_stable n _ _) ht fun t ht => ⟨_, ht, ?_⟩
    refine ⟨hknows.nentries, rfl, hknows.finds, hknows.availableIdx, hknows.taken, hknows.seen, ?_⟩
    exact congrArg (· ++ [(p, len)]) hknows.completed

end Calls

theorem DeviceIdle.started {l : DeviceLocal w} {c : DeviceCall} {s : Vring × VqGhost w}
    (h : DeviceIdle n l s) : DeviceEver n (l.started c) s := by
  obtain ⟨k, hat, hknows⟩ := h
  cases c with
  | addConsumedBuffer p len => exact hat.ever (hknows.completing p len)
  | _ => exact hat.ever hknows.logs

theorem DeviceIdle.wp_body (hn : IsRingSize n) {debug : Bool} {l : DeviceLocal w} {c : DeviceCall}
    {s : Vring × VqGhost w} (h : DeviceIdle n l s) (hlegal : l.Legal c) :
    wp (deviceKeeps n (l.started c)) (DeviceIdle n) (l.body debug c) s := by
  obtain ⟨k, hat, hknows⟩ := h
  cases c with
  | getAvailableBuffer => exact wp_mono (fun _ _ hh => hh.1) (hat.wp_getAvailableBuffer hn hknows)
  | getDescSize => exact hat.wp_getDescSize hn hknows
  | addConsumedBuffer p len => exact hat.wp_addConsumedBuffer hn hknows hlegal

def deviceSpec (hn : IsRingSize n) (debug : Bool) (w : Nat) :
    Spec (device debug w) (deviceContract n w) where
  Idle := DeviceIdle n
  Ever := DeviceEver n
  stable _ _ _ hst h := h.rely hst
  ever _ _ h := by
    obtain ⟨k, hat, hknows⟩ := h
    exact hat.ever hknows.logs
  stable_idle _ _ _ hst h := h.rely hst
  called _ _ _ h _ := h.started
  body _ _ _ h hlegal := h.wp_body hn hlegal

end Lininoio
