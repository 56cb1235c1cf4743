import Lininoio.VirtqueueDriver

/-! Collecting the buffers that the device gives back. -/

namespace Lininoio

open SharedMemory CircularBuffers FreeChains

variable {w n : Nat}

section Calls

variable {debug : Bool} {l : DriverLocal w} {k : DriverView w} {s : Vring × VqGhost w}

theorem DriverAt.wp_ringFreeChainFrom {vq : Virtqueue w} {chain : List UInt16} {sg : List (MetalSg w)}
    {readable rounds : Nat} {i last : UInt16} {β : Type} {Q : β → Vring × VqGhost w → Prop}
    {p : UInt16 × UInt16 → VqProg β} (hn : IsRingSize n) (hvq : vq.vqNentries = UInt16.ofNat n)
    (h : DriverAt n k s) (hl : DriverLogs n l k) (hlaid : Laid k.desc readable chain sg)
    (hhead : chain.head? = some i) (hlast : chain.getLast? = some last)
    (hbound : ∀ x ∈ chain, x.toNat < n) (hrounds : chain.length ≤ rounds)
    (hnext : ∀ t, DriverAt n k t → wp (driverKeeps n l) Q (p (last, 0)) t) :
    wp (driverKeeps n l) Q
      (ringFreeChainFrom debug vq rounds i (UInt16.ofNat chain.length - 1) >>= p) s := by
  induction chain generalizing readable rounds i sg s with
  | nil => simp at hhead
  | cons j chain ih =>
    obtain rfl : j = i := by simpa using hhead
    cases rounds with
    | zero => simp at hrounds
    | succ rounds =>
      cases sg with
      | nil => exact hlaid.elim
      | cons sg sgs =>
        obtain ⟨-, -, hflags, hlink, hrest⟩ := hlaid
        rw [ringFreeChainFrom]
        simp only [Prog.bind_assoc]
        refine h.wp_load hl fun t ht => ?_
        have hflags' : (t.1.desc j).flags &&& vringDescFNext ≠ 0 ↔ ¬chain = [] := by
          rw [ht.desc, hflags]
          exact chainFlags_next
        cases chain with
        | nil =>
          obtain rfl : j = last := by simpa using hlast
          rw [if_neg (by simp [hflags']), List.length_singleton]
          exact hnext t ht
        | cons x chain =>
          have hx : x.toNat < n := hbound x (by simp)
          rw [if_pos (by simp [hflags'])]
          simp only [Prog.bind_assoc]
          refine ht.wp_load hl fun t ht => ?_
          have hxnext : (t.1.desc j).next = x := by
            rw [ht.desc]
            exact hlink x rfl
          rw [hxnext, validIdx_of hn hvq hx, inTable_of hn hvq hx]
          simp only [Prog.pure_bind]
          rw [List.getLast?_cons_cons] at hlast
          have hcount : UInt16.ofNat (j :: x :: chain).length - 1 - 1 =
              UInt16.ofNat (x :: chain).length - 1 := by
            rw [List.length_cons, UInt16.ofNat_add]
            exact congrArg (· - 1) (UInt16.add_sub_cancel _ 1)
          rw [hcount]
          exact ih ht hrest rfl hlast (fun y hy => hbound y (List.mem_cons_of_mem _ hy))
            (by simpa using hrounds)

theorem DriverAt.answer (h : DriverAt n k s) (hlt : k.collected < k.finished.length) : ∃ f o,
    k.finished[k.collected]? = some f ∧ k.offered[f.1]? = some o ∧ o ∈ k.underWay ∧
    ∀ t, DriverAt n k t →
      t.1.usedRing (UInt16.ofNat (k.collected % n)) = ⟨o.head.toUInt32, f.2⟩ := by
  have hsome : ∀ t, DriverAt n k t → ∃ hlt' : t.2.collected < t.2.finished.length,
      t.2.finished[t.2.collected] = k.finished[k.collected] := by
    intro t ht
    obtain ⟨rest, hrest⟩ := ht.finished
    simp only [← hrest, ht.collected]
    exact ⟨by rw [List.length_append]; omega, List.getElem_append_left hlt⟩
  obtain ⟨hlt', heq⟩ := hsome s h
  have hplace := h.inv.valid.lt_length (List.getElem_mem hlt')
  rw [heq, h.offered] at hplace
  have ho : k.offered[k.finished[k.collected].1]? = some k.offered[k.finished[k.collected].1] :=
    List.getElem?_eq_getElem hplace
  refine ⟨k.finished[k.collected], k.offered[k.finished[k.collected].1], List.getElem?_eq_getElem hlt,
    ho, ?_, fun t ht => ?_⟩
  · rw [← h.outstanding]
    refine Exchange.mem_outstanding (h.inv.valid.next_live hlt') ?_
    rw [heq, h.offered, ho]
  · obtain ⟨hlt', heq⟩ := hsome t ht
    have hring := ht.inv.used t.2.collected (by simpa using hlt') le_rfl
    rw [List.getElem_map, heq, ht.collected, usedElem, ht.offered, ho] at hring
    exact hring

theorem DriverAt.wp_collect {o : Offer w} {f : Nat × UInt32} {i : UInt16} {g : VringDesc → VringDesc}
    {β : Type} {Q : β → Vring × VqGhost w → Prop} {p : Unit → VqProg β} (h : DriverAt n k s)
    (hl : DriverLogs n l k) (hf : k.finished[k.collected]? = some f)
    (ho : k.offered[f.1]? = some o) (hi : i ∈ o.chain)
    (hnext : ∀ t os, k.underWay.Perm (o :: os) →
      DriverView.underWay { k.setDesc i (g (k.desc i)) with collected := k.collected + 1 } = os →
      DriverAt n { k.setDesc i (g (k.desc i)) with collected := k.collected + 1 } t →
      wp (driverKeeps n l) Q (p ()) t) :
    wp (driverKeeps n l) Q (Prog.store (Vring.modifyDesc i g) >>= p) s := by
  obtain ⟨hlt, hget⟩ := List.getElem?_eq_some_iff.mp hf
  have hsome : ∀ t, DriverAt n k t → ∃ hlt : t.2.collected < t.2.finished.length,
      t.2.offered[t.2.finished[t.2.collected].1]? = some o := by
    intro t ht
    obtain ⟨rest, hrest⟩ := ht.finished
    simp only [← hrest, ht.collected, ht.offered]
    refine ⟨by rw [List.length_append]; omega, ?_⟩
    rw [List.getElem_append_left hlt, hget, ho]
  have hcollect : ∀ t, DriverAt n k t →
      DriverAt n { k.setDesc i (g (k.desc i)) with collected := k.collected + 1 }
        (t.1.modifyDesc i g, t.2.collect) := by
    intro t ht
    obtain ⟨hlt', ho'⟩ := hsome t ht
    refine ⟨ht.inv.collect hlt' ho' hi g, ?_, ht.ring, ht.offered, ?_, ht.finished, hlt⟩
    · simp only [Vring.modifyDesc, DriverView.setDesc, ht.desc]
    · rw [Exchange.collected_collect, ht.collected]
  refine wp_store_ghost (u := Exchange.collect) (driverAt_stable n l k) h
    (fun t ht => ?_) fun t ht => ?_
  · have hafter := hcollect t ht
    refine ⟨⟨⟨rfl, rfl, fun _ => hafter.inv, rfl, rfl, List.prefix_rfl⟩, .collect _ (hsome t ht).1⟩,
      hafter.ever ?_⟩
    exact ⟨hl.added, hl.collected.trans (Nat.le_succ _), hl.answered⟩
  · obtain ⟨hlt', ho'⟩ := hsome t ht
    have hafter := hcollect t ht
    refine hnext _ t.2.collect.outstanding ?_ hafter.outstanding.symm hafter
    rw [← ht.outstanding]
    exact ht.inv.valid.outstanding_collect hlt' ho'

theorem DriverAt.wp_vqRingFreeChain {vq : Virtqueue w} {o : Offer w} {f : Nat × UInt32}
    {free : List UInt16} {β : Type} {Q : β → Vring × VqGhost w → Prop} {p : Virtqueue w → VqProg β}
    (hn : IsRingSize n) (hvq : vq.vqNentries = UInt16.ofNat n) (h : DriverAt n k s)
    (hl : DriverLogs n l k) (htable : FreeTable n vq k.desc k.underWay free)
    (hf : k.finished[k.collected]? = some f) (ho : k.offered[f.1]? = some o) (hmem : o ∈ k.underWay)
    (hnext : ∀ desc t (vq' : Virtqueue w), vq' = (vq.setDescx o.head ⟨o.cookie, 0⟩).putFree o.head
        (UInt16.ofNat o.chain.length) →
      FreeTable n (vq'.setDescx o.head ⟨0, 0⟩) desc
        (DriverView.underWay { k with desc := desc, collected := k.collected + 1 })
        (o.chain ++ free) →
      DriverAt n { k with desc := desc, collected := k.collected + 1 } t →
      wp (driverKeeps n l) Q (p vq') t) :
    wp (driverKeeps n l) Q (vqRingFreeChain debug vq o.head >>= p) s := by
  have hheads : ∀ o ∈ k.underWay, o.chain.head? = some o.head := h.outstanding ▸ h.inv.heads
  have hlaid : Laid k.desc o.readable o.chain o.sg := by
    rw [← h.desc]
    exact h.inv.laid o (h.outstanding ▸ hmem)
  have hhead := hheads o hmem
  have hbounds : ∀ x ∈ o.chain, x.toNat < n := fun x hx =>
    h.inv.bound x (h.outstanding ▸ mem_chains hmem hx)
  have hbound := hbounds _ (List.mem_of_mem_head? hhead)
  have hlength : o.chain.length ≤ n := by
    have hsub : o.chain.Sublist (chains k.underWay) := by
      rw [chains, List.flatMap_def]
      exact List.sublist_flatten_of_mem (List.mem_map_of_mem hmem)
    exact length_le_of_bound ((List.nodup_append.mp (htable.nodup hn)).2.1.sublist hsub) hbounds
  obtain ⟨last, hlast⟩ : ∃ last, o.chain.getLast? = some last := by
    cases hchain : o.chain with
    | nil => simp [hchain] at hhead
    | cons x xs => exact ⟨_, List.getLast?_cons⟩
  rw [vqRingFreeChain, validIdx_of hn hvq hbound, inTable_of hn hvq hbound, htable.chainTerm debug hn,
    htable.used o hmem]
  simp only [Prog.pure_bind, Prog.bind_assoc]
  refine h.wp_load hl fun t ht => ?_
  have hflags : (t.1.desc o.head).flags &&& vringDescFIndirect = 0 := by
    rw [ht.desc]
    exact hlaid.flags_indirect hhead
  rw [if_pos hflags]
  simp only [Prog.bind_assoc]
  refine ht.wp_ringFreeChainFrom hn hvq hl hlaid hhead hlast hbounds ?_ fun t ht => ?_
  · rwa [hvq, hn.toNat_ofNat]
  rw [vqassert_of (by rfl)]
  simp only [Prog.pure_bind]
  refine ht.wp_collect hl hf ho (List.mem_of_getLast? hlast) fun t os hperm hos ht => ?_
  subst hos
  refine hnext _ t _ rfl (htable.put hn hperm hheads (hlaid.links hhead hlast) hlast rfl rfl rfl
    (fun i hi => ?_) ?_) ht
  · exact (Function.update_of_ne hi _ _).trans (Function.update_of_ne hi _ _)
  · simp [Virtqueue.setDescx]

theorem DriverAt.seen (h : DriverAt n k s) (hknows : DriverKnows n l k) :
    DriverAt n { k with finished := s.2.finished } s ∧
    DriverKnows n l { k with finished := s.2.finished } := by
  have hle : k.collected ≤ s.2.finished.length := h.collected ▸ h.inv.valid.collected_le
  have hseen : DriverAt n { k with finished := s.2.finished } s :=
    ⟨h.inv, h.desc, h.ring, h.offered, h.collected, List.prefix_rfl, hle⟩
  have hunderWay : DriverView.underWay { k with finished := s.2.finished } = k.underWay :=
    hseen.outstanding.symm.trans h.outstanding
  refine ⟨hseen, hknows.nentries, hknows.inuse, hknows.consIdx, ?_, hknows.added, hknows.collected,
    hknows.answered.mono h.finished, hknows.kicked, hknows.queuedCnt⟩
  rw [hunderWay]
  exact hknows.table

theorem AnsweredBy.collect {finished : List (Nat × UInt32)} {u : UsedBuffer w} {f : Nat × UInt32}
    {vq : Virtqueue w} (h : AnsweredBy n l finished) (hf : finished[l.collected.length]? = some f)
    (hu : Answers n l.added l.collected.length f u) :
    AnsweredBy n { l with vq := vq, collected := l.collected ++ [u] } finished := by
  intro i hi
  rcases Nat.lt_or_eq_of_le (Nat.lt_succ_iff.mp (by simpa using hi)) with hlt | rfl
  · obtain ⟨f', hf', hu'⟩ := h i hlt
    exact ⟨f', hf', by simpa only [List.getElem_append_left hlt] using hu'⟩
  · exact ⟨f, hf, by simpa using hu⟩

/-- An answer that was there before the call is collected. -/
theorem DriverAt.wp_getBuffer (hn : IsRingSize n) (h : DriverAt n k s) (hknows : DriverKnows n l k) :
    wp (driverKeeps n l) (fun l' t => DriverIdle n l' t ∧ (k.collected < k.finished.length →
      l'.collected.length = l.collected.length + 1)) (l.body debug .getBuffer) s := by
  rw [DriverLocal.body, virtqueueGetBuffer]
  simp only [Prog.bind_assoc]
  refine h.wp_load hknows.logs fun t ht => ?_
  by_cases hempty : l.vq.vqUsedConsIdx = t.1.usedIdx
  · rw [if_pos hempty, Prog.pure_bind]
    have hroom := ht.inv.uncollected_le
    have hnle := hn.le
    have hseen := ht.finished.length_le
    rw [ht.collected] at hroom
    rw [hknows.consIdx, ht.inv.usedIdx,
      ofNat_eq_iff (ht.collected ▸ ht.inv.valid.collected_le) (by omega)] at hempty
    refine wp_pure (driverAt_stable n l k) ht fun t ht => ⟨⟨k, ht, ?_⟩, fun hlt => by omega⟩
    simpa using hknows
  have hne : k.collected ≠ t.2.finished.length := by
    intro heq
    rw [hknows.consIdx, ht.inv.usedIdx, heq] at hempty
    exact hempty rfl
  rw [if_neg hempty, vqueueBusy_of hknows.inuse]
  simp only [Prog.pure_bind, Prog.bind_assoc]
  obtain ⟨k', hk', hcollected⟩ : ∃ k', k' = { k with finished := t.2.finished } ∧
    k'.collected = k.collected := ⟨_, rfl, rfl⟩
  obtain ⟨ht, hknows⟩ := hk' ▸ ht.seen hknows
  have hlt : k'.collected < k'.finished.length :=
    lt_of_le_of_ne ht.le (by rw [hcollected, hk']; exact hne)
  clear h hk' hempty
  have hlogs := hknows.logs
  obtain ⟨f, o, hf, ho, hmem, hentry⟩ := ht.answer hlt
  obtain ⟨free, htable⟩ := hknows.table
  have hslot : l.vq.vqUsedConsIdx &&& (l.vq.vqNentries - 1) = UInt16.ofNat (k'.collected % n) := by
    rw [hknows.consIdx, hknows.nentries, hn.slot]
  have hslot' : (l.vq.setInuse debug).vqUsedConsIdx &&& ((l.vq.setInuse debug).vqNentries - 1) =
      UInt16.ofNat (k'.collected % n) := hslot
  rw [hslot']
  refine ht.wp_load hlogs fun t ht => ?_
  rw [hentry t ht]
  refine ht.wp_load hlogs fun t ht => ?_
  rw [hentry t ht, UInt16.toUInt16_toUInt32]
  have htable' : FreeTable n (l.vq.setInuse debug).nextUsed k'.desc k'.underWay free :=
    ⟨htable.chain, htable.perm, htable.freeCnt, htable.used, htable.unused⟩
  refine ht.wp_vqRingFreeChain hn (by exact hknows.nentries) hlogs htable' hf ho hmem
    fun desc t vq hvq hput ht => ?_
  have hdx : vq.vqDescx o.head = ⟨o.cookie, 0⟩ := by
    rw [hvq]
    exact Function.update_self ..
  rw [hdx]
  refine wp_pure (driverAt_stable n l _) ht fun t ht => ⟨⟨_, ht, ?_⟩, fun _ => by simp⟩
  have hinuse : (vq.setDescx o.head ⟨0, 0⟩).vqInuse = debug := by
    rw [hvq]
    rfl
  have hcons : vq.vqUsedConsIdx = UInt16.ofNat (k'.collected + 1) := by
    rw [hvq, ← ofNat_succ, ← hknows.consIdx]
    rfl
  have hadded : l.added[f.1]? = some o.toRequest := by
    rw [← hknows.added, List.getElem?_map, ho]
    rfl
  rw [vqueueIdle_of hinuse]
  refine ⟨?_, rfl, hcons, ⟨_, hput.chain, hput.perm, hput.freeCnt, hput.used, hput.unused⟩,
    hknows.added, ?_, ?_, hknows.kicked, ?_⟩
  · rw [← hknows.nentries, hvq]
    rfl
  · simpa using hknows.collected
  · refine hknows.answered.collect (hknows.collected ▸ hf) ⟨o.toRequest, hadded, ?_⟩
    rw [hknows.collected]
  · rw [← hknows.queuedCnt, hvq]
    rfl

end Calls

end Lininoio
