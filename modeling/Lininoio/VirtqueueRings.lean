import Lininoio.VirtqueueParties

/-! What single accesses to the ring preserve. -/

namespace Lininoio

open SharedMemory CircularBuffers FreeChains

def IsRingSize (n : Nat) : Prop := ∃ k, k ≤ 15 ∧ n = 2 ^ k

namespace IsRingSize

variable {n : Nat}

theorem pos (h : IsRingSize n) : 0 < n := by
  obtain ⟨k, -, rfl⟩ := h
  exact Nat.two_pow_pos k

theorem le (h : IsRingSize n) : n ≤ 32768 := by
  obtain ⟨k, hk, rfl⟩ := h
  have hle : 2 ^ k ≤ 2 ^ 15 := Nat.pow_le_pow_right (by decide) hk
  exact hle

theorem toNat_ofNat (h : IsRingSize n) : (UInt16.ofNat n).toNat = n := by
  have hle := h.le
  rw [UInt16.toNat_ofNat', Nat.mod_eq_of_lt (by omega)]

theorem slot (h : IsRingSize n) (c : Nat) :
    UInt16.ofNat c &&& (UInt16.ofNat n - 1) = UInt16.ofNat (c % n) := by
  have hpos := h.pos
  have hle := h.le
  have hone : (UInt16.ofNat n - 1).toNat = n - 1 := by
    rw [UInt16.toNat_sub_of_le _ _ (by rw [UInt16.le_iff_toNat_le, h.toNat_ofNat]; exact hpos),
      h.toNat_ofNat]
    rfl
  apply UInt16.toNat_inj.mp
  rw [UInt16.toNat_and, hone]
  obtain ⟨k, hk, rfl⟩ := h
  rw [Nat.and_two_pow_sub_one_eq_mod, UInt16.toNat_ofNat', UInt16.toNat_ofNat',
    Nat.mod_mod_of_dvd _ (Nat.pow_dvd_pow 2 (by omega : k ≤ 16)),
    Nat.mod_eq_of_lt ((Nat.mod_lt _ hpos).trans_le (by omega))]

end IsRingSize

theorem ofNat_eq_iff {a b : Nat} (hab : a ≤ b) (hroom : b < a + 65536) :
    UInt16.ofNat a = UInt16.ofNat b ↔ a = b := by
  rw [← UInt16.toNat_inj, UInt16.toNat_ofNat', UInt16.toNat_ofNat']
  exact wrapped_eq_iff hab hroom

theorem ofNat_ne {i j n : Nat} (hn : n ≤ 32768) (hi : i < n) (hj : j ≤ n) (hij : i ≠ j) :
    UInt16.ofNat i ≠ UInt16.ofNat j := by
  rw [Ne, ← UInt16.toNat_inj, UInt16.toNat_ofNat', UInt16.toNat_ofNat',
    Nat.mod_eq_of_lt (by omega), Nat.mod_eq_of_lt (by omega)]
  exact hij

theorem ofInt_natCast (a : Nat) : UInt16.ofInt a = UInt16.ofNat a := by
  have hmod : ((a : Int) % 2 ^ 16).toNat = a % 65536 := by omega
  rw [UInt16.ofInt, hmod, ← UInt16.toNat_inj, UInt16.toNat_ofNat', UInt16.toNat_ofNat',
    Nat.mod_mod]

theorem ofNat_succ (a : Nat) : UInt16.ofNat a + 1 = UInt16.ofNat (a + 1) :=
  (UInt16.ofNat_add a 1).symm

variable {w n : Nat}

theorem vqassert_of {debug c : Bool} {msg : String} (h : c = true) :
    vqassert debug c msg = pure () := by
  simp [vqassert, h]

theorem inTable_of {vq : Virtqueue w} {idx : UInt16} (hn : IsRingSize n)
    (hvq : vq.vqNentries = UInt16.ofNat n) (h : idx.toNat < n) : inTable vq idx = pure () := by
  rw [inTable, if_pos]
  rwa [hvq, UInt16.lt_iff_toNat_lt, hn.toNat_ofNat]

theorem validIdx_of {debug : Bool} {vq : Virtqueue w} {idx : UInt16} (hn : IsRingSize n)
    (hvq : vq.vqNentries = UInt16.ofNat n) (h : idx.toNat < n) :
    vqRingAssertValidIdx debug vq idx = pure () := by
  refine vqassert_of (decide_eq_true ?_)
  rwa [hvq, UInt16.lt_iff_toNat_lt, hn.toNat_ofNat]

theorem ne_chainEnd (hn : IsRingSize n) {idx : UInt16} (h : idx.toNat < n) :
    idx ≠ vqRingDescChainEnd := by
  rintro rfl
  have hle := hn.le
  have hend : vqRingDescChainEnd.toNat = 32768 := rfl
  omega

section Busy

variable {vq : Virtqueue w}

theorem vqueueBusy_of {debug : Bool} (h : vq.vqInuse = false) :
    vqueueBusy debug vq = pure (vq.setInuse debug) := by
  cases vq
  subst h
  cases debug <;> rfl

theorem vqueueIdle_of {debug : Bool} (h : vq.vqInuse = debug) :
    vqueueIdle debug vq = vq.setInuse false := by
  cases debug with
  | true => rfl
  | false =>
    cases vq
    obtain rfl : _ = false := h
    rfl

theorem vqParamChk_of {debug condition : Bool} {err status : Int} (h : condition = false) :
    vqParamChk debug condition err status = status := by
  simp [vqParamChk, h]

end Busy

@[simp] theorem chains_nil : chains ([] : List (Offer w)) = [] := rfl

@[simp] theorem chains_cons (o : Offer w) (os : List (Offer w)) :
    chains (o :: os) = o.chain ++ chains os := rfl

@[simp] theorem chains_append (os os' : List (Offer w)) :
    chains (os ++ os') = chains os ++ chains os' := List.flatMap_append

theorem mem_chains {o : Offer w} {os : List (Offer w)} {i : UInt16} (ho : o ∈ os)
    (hi : i ∈ o.chain) : i ∈ chains os := List.mem_flatMap.mpr ⟨o, ho, hi⟩

theorem chains_perm {os os' : List (Offer w)} (h : os.Perm os') : (chains os).Perm (chains os') :=
  h.flatMap_right _

theorem Laid.length_eq {desc : UInt16 → VringDesc} {readable : Nat} {chain : List UInt16}
    {sg : List (MetalSg w)} (h : Laid desc readable chain sg) : chain.length = sg.length := by
  induction chain generalizing readable sg with
  | nil => simp [Laid] at h; simp [h]
  | cons i chain ih =>
    cases sg with
    | nil => exact h.elim
    | cons s sg => simpa using ih h.2.2.2.2

theorem Laid.congr {desc desc' : UInt16 → VringDesc} {readable : Nat} {chain : List UInt16}
    {sg : List (MetalSg w)} (h : Laid desc readable chain sg)
    (hsame : ∀ i ∈ chain, (desc' i).addr = (desc i).addr ∧ (desc' i).len = (desc i).len ∧
      (desc' i).flags = (desc i).flags)
    (hnext : ∀ i ∈ chain.dropLast, (desc' i).next = (desc i).next) :
    Laid desc' readable chain sg := by
  induction chain generalizing readable sg with
  | nil => exact h
  | cons i chain ih =>
    cases sg with
    | nil => exact h.elim
    | cons s sg =>
      obtain ⟨haddr, hlen, hflags, hlink, hrest⟩ := h
      obtain ⟨ha, hl, hf⟩ := hsame i List.mem_cons_self
      refine ⟨ha.trans haddr, hl.trans hlen, hf.trans hflags, ?_, ?_⟩
      · cases chain with
        | nil => simp
        | cons j chain =>
          intro k hk
          exact (hnext i (by simp)).trans (hlink k hk)
      · refine ih hrest (fun j hj => hsame j (List.mem_cons_of_mem _ hj)) fun j hj => hnext j ?_
        cases chain with
        | nil => simp at hj
        | cons k chain => simp [hj]

theorem Laid.frame {desc desc' : UInt16 → VringDesc} {readable : Nat} {chain : List UInt16}
    {sg : List (MetalSg w)} (h : Laid desc readable chain sg)
    (hsame : ∀ i ∈ chain, desc' i = desc i) : Laid desc' readable chain sg :=
  h.congr (fun i hi => by simp [hsame i hi])
    fun i hi => by rw [hsame i (List.mem_of_mem_dropLast hi)]

theorem length_le_of_bound {is : List UInt16} (hnodup : is.Nodup)
    (hbound : ∀ i ∈ is, i.toNat < n) : is.length ≤ n := by
  have hmap : (is.map UInt16.toNat).Nodup :=
    hnodup.map fun _ _ h => UInt16.toNat_inj.mp h
  have hsub : (is.map UInt16.toNat).Subset (List.range n) := by
    intro j hj
    obtain ⟨i, hi, rfl⟩ := List.mem_map.mp hj
    exact List.mem_range.mpr (hbound i hi)
  simpa using (List.subperm_of_subset hmap hsub).length_le

theorem length_le_chains {os : List (Offer w)} (h : ∀ o ∈ os, o.chain.head? = some o.head) :
    os.length ≤ (chains os).length := by
  induction os with
  | nil => simp
  | cons o os ih =>
    have hhead := h o List.mem_cons_self
    have hrest := ih fun o ho => h o (List.mem_cons_of_mem _ ho)
    cases hchain : o.chain with
    | nil => simp [hchain] at hhead
    | cons i chain =>
      simp only [chains_cons, hchain, List.length_cons, List.length_append]
      omega

theorem Laid.segment {desc : UInt16 → VringDesc} {readable : Nat} {i : UInt16} {chain : List UInt16}
    {sg : List (MetalSg w)} (h : Laid desc readable chain sg) (hhead : chain.head? = some i) :
    ∃ s, sg.head? = some s ∧ (desc i).addr = (metalIoVirtToPhys s.io s.virt).setWidth 64 ∧
      (desc i).len = s.len.toUInt32 := by
  cases chain with
  | nil => simp at hhead
  | cons j chain =>
    cases sg with
    | nil => exact h.elim
    | cons s sg =>
      obtain rfl : j = i := by simpa using hhead
      exact ⟨s, rfl, h.1, h.2.1⟩

theorem Laid.links {desc : UInt16 → VringDesc} {readable : Nat} {i last : UInt16}
    {chain : List UInt16} {sg : List (MetalSg w)} (h : Laid desc readable chain sg)
    (hhead : chain.head? = some i) (hlast : chain.getLast? = some last) :
    Chain (fun i => (desc i).next) i chain (desc last).next := by
  induction chain generalizing readable sg i with
  | nil => simp at hhead
  | cons j chain ih =>
    obtain rfl : j = i := by simpa using hhead
    refine ⟨rfl, ?_⟩
    cases sg with
    | nil => exact h.elim
    | cons s sg =>
      cases chain with
      | nil =>
        obtain rfl : j = last := by simpa using hlast
        rfl
      | cons k chain =>
        rw [List.getLast?_cons_cons] at hlast
        have hnext : (desc j).next = k := h.2.2.2.1 k rfl
        exact ih h.2.2.2.2 (congrArg some hnext.symm) hlast

theorem chainFlags_next {c d : Prop} [Decidable c] [Decidable d] :
    ((if c then 0 else vringDescFNext) ||| (if d then vringDescFWrite else 0)) &&& vringDescFNext ≠ 0 ↔
      ¬c := by
  by_cases hc : c <;> by_cases hd : d <;> simp only [hc, hd, if_true, if_false] <;> decide

theorem chainFlags_indirect {c d : Prop} [Decidable c] [Decidable d] :
    ((if c then 0 else vringDescFNext) ||| (if d then vringDescFWrite else 0)) &&&
      vringDescFIndirect = 0 := by
  by_cases hc : c <;> by_cases hd : d <;> simp only [hc, hd, if_true, if_false] <;> decide

theorem Laid.flags_indirect {desc : UInt16 → VringDesc} {readable : Nat} {i : UInt16}
    {chain : List UInt16} {sg : List (MetalSg w)} (h : Laid desc readable chain sg)
    (hhead : chain.head? = some i) : (desc i).flags &&& vringDescFIndirect = 0 := by
  cases chain with
  | nil => simp at hhead
  | cons j chain =>
    cases sg with
    | nil => exact h.elim
    | cons s sg =>
      obtain rfl : j = i := by simpa using hhead
      rw [h.2.2.1]
      exact chainFlags_indirect

theorem disjoint_chains {e : VqGhost w} (h : (chains e.outstanding).Nodup) {i j : Nat} {o o' : Offer w}
    (hi : i ∈ e.live) (hj : j ∈ e.live) (hne : i ≠ j) (ho : e.offered[i]? = some o)
    (ho' : e.offered[j]? = some o') : o.chain.Disjoint o'.chain := by
  have hsymm : Std.Symm fun a b : Nat => ∀ c, e.offered[a]? = some c →
      ∀ c', e.offered[b]? = some c' → List.Disjoint (Offer.chain c) (Offer.chain c') :=
    ⟨fun _ _ hh c hc c' hc' => (hh c' hc' c hc).symm⟩
  have hpairs := (List.nodup_flatMap.mp h).2
  rw [Exchange.outstanding, List.pairwise_filterMap] at hpairs
  exact List.Pairwise.forall hpairs hi hj hne o ho o' ho'

section Inv

variable {m m' : Vring} {g : VqGhost w}

theorem RingInv.outstanding_le (h : RingInv n (m, g)) :
    g.live.length ≤ (chains g.outstanding).length := by
  rw [← g.length_outstanding]
  exact length_le_chains h.heads

theorem RingInv.pending_le (h : RingInv n (m, g)) : g.offered.length ≤ g.taken + n := by
  have hall : (chains g.outstanding).length ≤ n := length_le_of_bound h.nodup h.bound
  have hpending : g.offered.length - g.taken ≤ g.live.length := h.valid.pending_le
  have hlive := h.outstanding_le
  omega

theorem RingInv.uncollected_le (h : RingInv n (m, g)) : g.finished.length ≤ g.collected + n := by
  have hall : (chains g.outstanding).length ≤ n := length_le_of_bound h.nodup h.bound
  have huncollected : g.finished.length - g.collected ≤ g.live.length := h.valid.uncollected_le
  have hlive := h.outstanding_le
  omega

theorem RingInv.frame (h : RingInv n (m, g))
    (hdesc : ∀ i ∈ chains g.outstanding, m'.desc i = m.desc i)
    (havail : m'.availIdx = m.availIdx) (hused : m'.usedIdx = m.usedIdx)
    (hring : Window (fun j => m'.availRing (UInt16.ofNat j)) n g.taken
      (g.offered.map fun o => o.head))
    (huring : Window (fun j => m'.usedRing (UInt16.ofNat j)) n g.collected
      (g.finished.map (usedElem g.offered))) : RingInv n (m', g) :=
  ⟨h.valid, h.heads, fun o ho => (h.laid o ho).frame fun i hi => hdesc i (mem_chains ho hi), h.nodup,
    h.bound, havail.trans h.availIdx, hused.trans h.usedIdx, hring, huring⟩

theorem RingInv.modifyDesc (h : RingInv n (m, g)) {i : UInt16} (hi : i ∉ chains g.outstanding)
    (f : VringDesc → VringDesc) : RingInv n (m.modifyDesc i f, g) := by
  refine h.frame (fun j hj => ?_) rfl rfl h.avail h.used
  exact Function.update_of_ne (ne_of_mem_of_not_mem hj hi) _ _

theorem RingInv.setAvailRing (h : RingInv n (m, g)) {j : UInt16} (x : UInt16)
    (hj : ∀ i, g.taken ≤ i → i < g.offered.length → UInt16.ofNat (i % n) ≠ j) :
    RingInv n (m.setAvailRing j x, g) := by
  refine h.frame (fun _ _ => rfl) rfl rfl (fun i hi hlo => ?_) h.used
  rw [← h.avail i hi hlo]
  exact Function.update_of_ne (hj i hlo (by simpa using hi)) _ _

theorem RingInv.pending_lt (h : RingInv n (m, g)) {chain : List UInt16} (hne : chain ≠ [])
    (hnodup : (chains g.outstanding ++ chain).Nodup) (hbound : ∀ i ∈ chain, i.toNat < n) :
    g.offered.length < g.taken + n := by
  have hpending : g.offered.length - g.taken ≤ g.live.length := h.valid.pending_le
  have hlive := h.outstanding_le
  have hall := length_le_of_bound hnodup fun i hi =>
    (List.mem_append.mp hi).elim (h.bound i) (hbound i)
  have hpos := List.length_pos_of_ne_nil hne
  rw [List.length_append] at hall
  omega

theorem usedElem_append {offered : List (Offer w)} {f : Nat × UInt32} (o : Offer w)
    (hf : f.1 < offered.length) : usedElem (offered ++ [o]) f = usedElem offered f := by
  rw [usedElem, usedElem, List.getElem?_append_left hf]

theorem RingInv.offer (h : RingInv n (m, g)) {o : Offer w} (hhead : o.chain.head? = some o.head)
    (hlaid : Laid m.desc o.readable o.chain o.sg) (hnodup : (chains g.outstanding ++ o.chain).Nodup)
    (hbound : ∀ i ∈ o.chain, i.toNat < n)
    (hslot : m.availRing (UInt16.ofNat (g.offered.length % n)) = o.head) :
    RingInv n ({ m with availIdx := m.availIdx + 1 }, g.offer o) := by
  have hne : o.chain ≠ [] := by
    intro hnil
    simp [hnil] at hhead
  have hroom := h.pending_lt hne hnodup hbound
  have hout : (g.offer o).outstanding = g.outstanding ++ [o] := h.valid.outstanding_offer
  refine ⟨h.valid.offer, ?_, ?_, ?_, ?_, ?_, h.usedIdx, ?_, ?_⟩
  · intro o' ho'
    rw [hout] at ho'
    rcases List.mem_append.mp ho' with ho' | ho'
    · exact h.heads o' ho'
    · rwa [List.mem_singleton.mp ho']
  · intro o' ho'
    rw [hout] at ho'
    rcases List.mem_append.mp ho' with ho' | ho'
    · exact h.laid o' ho'
    · rwa [List.mem_singleton.mp ho']
  · rwa [hout, chains_append, chains_cons, chains_nil, List.append_nil]
  · intro i hi
    rw [hout, chains_append, chains_cons, chains_nil, List.append_nil] at hi
    exact (List.mem_append.mp hi).elim (h.bound i) (hbound i)
  · have havail : m.availIdx = UInt16.ofNat g.offered.length := h.availIdx
    simp [havail]
  · have hwindow := Window.push (x := o.head) h.avail (by simpa using hroom) (fun _ _ _ => rfl)
      (by simpa using hslot)
    simpa using hwindow
  · intro i hi hlo
    have hi' : i < g.finished.length := by simpa [Exchange.offer] using hi
    have hlt := h.valid.lt_length (List.getElem_mem hi')
    have hold := h.used i (by simpa using hi') hlo
    simp only [List.getElem_map] at hold ⊢
    rw [hold]
    exact (usedElem_append o hlt).symm

theorem RingInv.collect (h : RingInv n (m, g)) {o : Offer w} (hlt : g.collected < g.finished.length)
    (ho : g.offered[g.finished[g.collected].1]? = some o) {i : UInt16} (hi : i ∈ o.chain)
    (f : VringDesc → VringDesc) : RingInv n (m.modifyDesc i f, g.collect) := by
  have hperm := h.valid.outstanding_collect hlt ho
  have hsub : ∀ o' ∈ g.collect.outstanding, o' ∈ g.outstanding := fun o' ho' =>
    hperm.symm.subset (List.mem_cons_of_mem _ ho')
  have hnodup : (o.chain ++ chains g.collect.outstanding).Nodup :=
    (chains_perm hperm).nodup_iff.mp h.nodup
  have hother : ∀ o' ∈ g.collect.outstanding, ∀ j ∈ o'.chain, (m.modifyDesc i f).desc j = m.desc j := by
    intro o' ho' j hj
    have hne := (List.nodup_append.mp hnodup).2.2 i hi j (mem_chains ho' hj)
    exact Function.update_of_ne hne.symm _ _
  refine ⟨h.valid.collect hlt, fun o' ho' => h.heads o' (hsub o' ho'), fun o' ho' => ?_,
    (List.nodup_append.mp hnodup).2.1, fun j hj => ?_, h.availIdx, h.usedIdx, h.avail, ?_⟩
  · exact (h.laid o' (hsub o' ho')).frame (hother o' ho')
  · exact h.bound j ((chains_perm hperm).symm.subset (List.mem_append_right _ hj))
  · exact h.used.advance (Nat.le_succ _)

theorem RingInv.take (h : RingInv n (m, g)) (hlt : g.taken < g.offered.length) :
    RingInv n (m, g.take) :=
  ⟨h.valid.take hlt, h.heads, h.laid, h.nodup, h.bound, h.availIdx, h.usedIdx,
    h.avail.advance (Nat.le_succ _), h.used⟩

theorem RingInv.answer_lt (h : RingInv n (m, g)) {p : Nat} (hp : p < g.taken)
    (hnot : p ∉ g.finished.map Prod.fst) : g.finished.length < g.collected + n := by
  have hlt : g.finished.length - g.collected < g.live.length := h.valid.uncollected_lt hp hnot
  have hall : (chains g.outstanding).length ≤ n := length_le_of_bound h.nodup h.bound
  have hlive := h.outstanding_le
  omega

theorem RingInv.modifyUsedRing (hn : IsRingSize n) (h : RingInv n (m, g))
    (hroom : g.finished.length < g.collected + n) (f : VringUsedElem → VringUsedElem) :
    RingInv n (m.modifyUsedRing (UInt16.ofNat (g.finished.length % n)) f, g) := by
  refine h.frame (fun _ _ => rfl) rfl rfl h.avail (h.used.frame (by simpa using hroom) ?_)
  intro j hj hne
  rw [List.length_map] at hne
  exact Function.update_of_ne (ofNat_ne hn.le hj (Nat.mod_lt _ hn.pos).le hne) _ _

theorem RingInv.finish (h : RingInv n (m, g)) {p : Nat} {len : UInt32} (hp : p < g.taken)
    (hnot : p ∉ g.finished.map Prod.fst)
    (hslot : m.usedRing (UInt16.ofNat (g.finished.length % n)) = usedElem g.offered (p, len)) :
    RingInv n ({ m with usedIdx := m.usedIdx + 1 }, g.finish p len) := by
  have hroom := h.answer_lt hp hnot
  have hout : (g.finish p len).outstanding = g.outstanding := h.valid.outstanding_finish
  have hused : m.usedIdx = UInt16.ofNat g.finished.length := h.usedIdx
  refine ⟨h.valid.finish hp hnot, by rw [hout]; exact h.heads, by rw [hout]; exact h.laid,
    by rw [hout]; exact h.nodup, by rw [hout]; exact h.bound, h.availIdx, ?_, h.avail, ?_⟩
  · simp [hused]
  · have hwindow := h.used.push (x := usedElem g.offered (p, len)) (by simpa using hroom)
      (fun _ _ _ => rfl) (by simpa using hslot)
    simpa using hwindow

end Inv

end Lininoio
