import Lininoio.VirtqueueDriver

/-! Enqueueing buffers, whatever the device does meanwhile. -/

namespace Lininoio

open SharedMemory CircularBuffers FreeChains

variable {w n : Nat}

def filled (d : VringDesc) (s : MetalSg w) (more writable : Bool) : VringDesc :=
  ⟨(metalIoVirtToPhys s.io s.virt).setWidth 64, s.len.toUInt32,
    (if more then vringDescFNext else 0) ||| (if writable then vringDescFWrite else 0), d.next⟩

section Fill

variable {debug : Bool} {l : DriverLocal w} {vq : Virtqueue w} {β : Type}
  {Q : β → Vring × VqGhost w → Prop}

theorem wp_ringAddBufferFrom (hn : IsRingSize n) (hvq : vq.vqNentries = UInt16.ofNat n)
    {chain : List UInt16} {sgs : List (MetalSg w)} {readable needed i : Nat} {idx b : UInt16}
    {k : DriverView w} {s : Vring × VqGhost w} {p : UInt16 → VqProg β} (h : DriverAt n k s)
    (hl : DriverLogs n l k) (hchain : Chain (fun i => (k.desc i).next) idx chain b)
    (hlength : chain.length = sgs.length) (hneeded : needed = i + chain.length)
    (hnodup : chain.Nodup) (hfree : ∀ x ∈ chain, x.toNat < n ∧ x ∉ chains k.underWay)
    (hnext : ∀ desc t, (∀ x, x ∉ chain → desc x = k.desc x) → (∀ x, (desc x).next = (k.desc x).next) →
      Laid desc (readable - i) chain sgs → DriverAt n { k with desc := desc } t →
      wp (driverKeeps n l) Q (p b) t) :
    wp (driverKeeps n l) Q
      (ringAddBufferFrom debug vq readable needed chain.length i idx sgs >>= p) s := by
  induction chain generalizing k s sgs i idx with
  | nil =>
    obtain rfl : idx = b := hchain
    obtain rfl : sgs = [] := List.eq_nil_of_length_eq_zero hlength.symm
    exact hnext k.desc s (fun _ _ => rfl) (fun _ => rfl) rfl h
  | cons x chain ih =>
    obtain ⟨rfl, hrest⟩ := hchain
    cases sgs with
    | nil => simp at hlength
    | cons sg sgs =>
      have hx := hfree idx List.mem_cons_self
      obtain ⟨hnot, hnodup⟩ := List.nodup_cons.mp hnodup
      simp only [List.length_cons] at hneeded hlength
      have hmore : decide ((i : Int) < (needed : Int) - 1) = decide (chain ≠ []) := by
        cases chain with
        | nil => simp only [List.length_nil] at hneeded; simp; omega
        | cons y ys => simp only [List.length_cons] at hneeded; simp; omega
      have hwritable : decide ((readable : Int) ≤ i) = decide (readable - i = 0) := by
        simp only [decide_eq_decide]
        omega
      rw [List.length_cons, ringAddBufferFrom, hmore, hwritable,
        vqassert_of (by simpa using ne_chainEnd hn hx.1), inTable_of hn hvq hx.1]
      simp only [Prog.pure_bind, Prog.bind_assoc]
      refine h.wp_modifyDesc hl hx.2 fun t ht => ?_
      refine ht.wp_modifyDesc (hl.setDesc _ _) hx.2 fun t ht => ?_
      refine ht.wp_modifyDesc ((hl.setDesc _ _).setDesc _ _) hx.2 fun t ht => ?_
      simp only [DriverView.setDesc_setDesc, DriverView.setDesc_desc_self] at ht
      refine ht.wp_orDescFlags (hl.setDesc _ _) hx.2 fun t ht => ?_
      refine ht.wp_orDescFlags ((hl.setDesc _ _).setDesc _ _) hx.2 fun t ht => ?_
      simp only [DriverView.setDesc_setDesc, DriverView.setDesc_desc_self] at ht
      obtain ⟨d, hd⟩ : ∃ d, d = filled (k.desc idx) sg (decide (chain ≠ []))
        (decide (readable - i = 0)) := ⟨_, rfl⟩
      have ht : DriverAt n (k.setDesc idx d) t := by simpa [hd, filled] using ht
      have hother : ∀ x ∈ chain, (k.setDesc idx d).desc x = k.desc x := fun x hx =>
        Function.update_of_ne (ne_of_mem_of_not_mem hx hnot) _ _
      refine ht.wp_load (hl.setDesc _ _) fun t ht => ?_
      have hnextIdx : (t.1.desc idx).next = (k.desc idx).next := by simp [ht.desc, hd, filled]
      rw [hnextIdx, ← Nat.cast_succ]
      refine ih ht (hl.setDesc _ _) (hrest.congr fun x hx => by rw [hother x hx]) (by omega)
        (by omega) hnodup (fun x hx => hfree x (List.mem_cons_of_mem _ hx)) ?_
      intro desc u hsame hlinks hlaid hu
      have hidx : desc idx = d := by rw [hsame idx hnot, DriverView.setDesc_desc_self]
      refine hnext desc u (fun x hx => ?_) (fun x => ?_) ?_ hu
      · rw [hsame x fun hh => hx (List.mem_cons_of_mem _ hh)]
        exact Function.update_of_ne (List.ne_of_not_mem_cons hx) _ _
      · rw [hlinks x]
        by_cases heq : x = idx
        · subst heq
          simp [hd, filled]
        · exact congrArg VringDesc.next (Function.update_of_ne heq _ _)
      · refine ⟨by rw [hidx, hd, filled], by rw [hidx, hd, filled], ?_, fun j hj => ?_, ?_⟩
        · rw [hidx, hd, filled]
          simp
        · rw [hidx, hd, filled]
          cases chain with
          | nil => simp at hj
          | cons y ys =>
            obtain rfl : y = j := by simpa using hj
            exact hrest.head
        · exact hlaid

end Fill

section Publish

variable {l : DriverLocal w} {vq : Virtqueue w} {β : Type} {Q : β → Vring × VqGhost w → Prop}
  {k : DriverView w} {s : Vring × VqGhost w} {o : Offer w}

/-- The buffer `o` is in its descriptors, and the driver has called for it. -/
structure Ready (n : Nat) (l : DriverLocal w) (k : DriverView w) (o : Offer w) : Prop where
  head : o.chain.head? = some o.head
  laid : Laid k.desc o.readable o.chain o.sg
  nodup : (chains k.underWay ++ o.chain).Nodup
  bound : ∀ i ∈ o.chain, i.toNat < n
  added : (k.offered ++ [o]).map Offer.toRequest <+: l.added

theorem Ready.chain_ne (hr : Ready n l k o) : o.chain ≠ [] := by
  intro hnil
  have hhead := hr.head
  simp [hnil] at hhead

theorem DriverAt.room (h : DriverAt n k s) (hr : Ready n l k o) :
    s.2.offered.length < s.2.taken + n :=
  h.inv.pending_lt hr.chain_ne (by rw [h.outstanding]; exact hr.nodup) hr.bound

theorem DriverAt.wp_vqRingUpdateAvail (hn : IsRingSize n) (hvq : vq.vqNentries = UInt16.ofNat n)
    (h : DriverAt n k s) (hl : DriverLogs n l k) (hr : Ready n l k o) {p : Virtqueue w → VqProg β}
    (hnext : ∀ ring t, DriverAt n { k with ring := ring, offered := k.offered ++ [o] } t →
      wp (driverKeeps n l) Q (p { vq with vqQueuedCnt := vq.vqQueuedCnt + 1 }) t) :
    wp (driverKeeps n l) Q (vqRingUpdateAvail vq o.head >>= p) s := by
  rw [vqRingUpdateAvail]
  simp only [Prog.bind_assoc]
  refine h.wp_load hl fun t ht => ?_
  have hslot : t.1.availIdx &&& (vq.vqNentries - 1) = UInt16.ofNat (k.offered.length % n) := by
    rw [ht.inv.availIdx, ht.offered, hvq, hn.slot]
  rw [hslot]
  obtain ⟨ring, hring⟩ : ∃ ring,
    ring = Function.update k.ring (UInt16.ofNat (k.offered.length % n)) o.head := ⟨_, rfl⟩
  have hwrite : ∀ t, DriverAt n k t → DriverAt n { k with ring := ring }
      (t.1.setAvailRing (UInt16.ofNat (k.offered.length % n)) o.head, t.2) := by
    intro t ht
    have hroom := ht.room hr
    refine ⟨ht.inv.setAvailRing _ fun i hlo hi => ?_, ht.desc, ?_, ht.offered, ht.collected,
      ht.finished, ht.le⟩
    · rw [ht.offered] at hi hroom
      exact ofNat_ne hn.le (Nat.mod_lt _ hn.pos) (Nat.mod_lt _ hn.pos).le (slot_ne hi (by omega))
    · simp only [Vring.setAvailRing, ht.ring, hring]
  have hlogs : DriverLogs n l { k with ring := ring } := ⟨hl.added, hl.collected, hl.answered⟩
  refine wp_store (driverAt_stable n l k) ht (fun t ht => ?_) fun t ht => ?_
  · have hafter := hwrite t ht
    exact ⟨⟨⟨rfl, rfl, fun _ => hafter.inv, rfl, rfl, List.prefix_rfl⟩, .none _⟩, hafter.ever hlogs⟩
  refine (hwrite t ht).wp_load hlogs fun t ht => ?_
  have hidx := ht.inv.availIdx
  have hpublish : ∀ u, DriverAt n { k with ring := ring } u →
      DriverAt n { k with ring := ring, offered := k.offered ++ [o] }
        ({ u.1 with availIdx := t.1.availIdx + 1 }, u.2.offer o) := by
    intro u hu
    have hsame : t.1.availIdx = u.1.availIdx := by
      rw [hidx, hu.inv.availIdx, ht.offered, hu.offered]
    rw [hsame]
    refine ⟨hu.inv.offer hr.head ?_ ?_ hr.bound ?_, hu.desc, hu.ring, ?_, hu.collected, hu.finished,
      hu.le⟩
    · rw [hu.desc]
      exact hr.laid
    · rw [hu.outstanding]
      exact hr.nodup
    · rw [hu.ring, hu.offered, hring]
      exact Function.update_self ..
    · rw [Exchange.offered_offer, hu.offered]
  have hafterLogs : DriverLogs n l { k with ring := ring, offered := k.offered ++ [o] } :=
    ⟨hr.added, hl.collected, hl.answered⟩
  refine wp_store_ghost (u := Exchange.offer o) (driverAt_stable n l _) ht (fun u hu => ?_)
    fun u hu => ?_
  · have hafter := hpublish u hu
    exact ⟨⟨⟨rfl, rfl, fun _ => hafter.inv, rfl, rfl, ⟨[o], rfl⟩⟩, .offer _ o⟩, hafter.ever hafterLogs⟩
  · exact hnext ring _ (hpublish u hu)

theorem DriverAt.wp_publish {debug : Bool} {free : List UInt16} (hn : IsRingSize n)
    (hvq : vq.vqNentries = UInt16.ofNat n) (h : DriverAt n k s) (hl : DriverLogs n l k)
    (hr : Ready n l k o) (hinuse : vq.vqInuse = debug)
    (hcons : vq.vqUsedConsIdx = UInt16.ofNat k.collected)
    (htable : FreeTable n vq k.desc (k.underWay ++ [o]) free)
    (hadded : (k.offered ++ [o]).map Offer.toRequest = l.added)
    (hcollected : l.collected.length = k.collected) (hkicked : l.kicked ≤ k.offered.length)
    (hqueued : vq.vqQueuedCnt = UInt16.ofNat (k.offered.length - l.kicked)) :
    wp (driverKeeps n l) (DriverIdle n) (vqRingUpdateAvail vq o.head >>= fun vq =>
      pure { l with vq := vqueueIdle debug vq }) s := by
  have hlength : l.added.length = k.offered.length + 1 := by
    rw [← hadded, List.length_map, List.length_append, List.length_singleton]
  have hkicked' : l.kicked ≤ l.added.length := by omega
  refine h.wp_vqRingUpdateAvail hn hvq hl hr fun ring t ht => ?_
  refine wp_pure (driverAt_stable n l _) ht fun t ht => ?_
  rw [vqueueIdle_of (by exact hinuse)]
  refine ⟨_, ht, hvq, rfl, hcons, ⟨free, ?_⟩, hadded, hcollected, hl.answered, hkicked', ?_⟩
  · have hunderWay : DriverView.underWay { k with ring := ring, offered := k.offered ++ [o] } =
      k.underWay ++ [o] := h.underWay_offer o
    rw [hunderWay]
    exact ⟨htable.chain, htable.perm, htable.freeCnt, htable.used, htable.unused⟩
  · have hsucc : k.offered.length + 1 - l.kicked = k.offered.length - l.kicked + 1 := by omega
    change vq.vqQueuedCnt + 1 = _
    rw [hqueued, ofNat_succ, hlength, hsucc]

end Publish

section Calls

variable {debug : Bool} {l : DriverLocal w} {k : DriverView w} {s : Vring × VqGhost w}

theorem AnsweredBy.added {finished : List (Nat × UInt32)} {vq : Virtqueue w} {kicked : Nat}
    {added : List (Request w)} (h : AnsweredBy n l finished) (hpre : l.added <+: added) :
    AnsweredBy n { l with vq := vq, added := added, kicked := kicked } finished := by
  intro i hi
  obtain ⟨f, hf, r, hr, hu⟩ := h i hi
  obtain ⟨rest, hrest⟩ := hpre
  refine ⟨f, hf, r, ?_, hu⟩
  simp only [← hrest]
  rw [List.getElem?_append_left (List.getElem?_eq_some_iff.mp hr).1, hr]

def DriverLocal.adding (l : DriverLocal w) (o : Offer w) : DriverLocal w :=
  { l with added := l.added ++ [o.toRequest] }

theorem DriverKnows.adding (hknows : DriverKnows n l k) (o : Offer w) :
    (k.offered ++ [o]).map Offer.toRequest = (l.adding o).added ∧ DriverLogs n (l.adding o) k := by
  have hadded : (k.offered ++ [o]).map Offer.toRequest = (l.adding o).added := by
    rw [List.map_append, hknows.added]
    rfl
  refine ⟨hadded, hadded ▸ (List.prefix_append _ _).map _, hknows.collected.le, ?_⟩
  exact hknows.answered.added (List.prefix_append _ _)

theorem DriverAt.wp_enqueue {o : Offer w} {desc : UInt16 → VringDesc} {rest : List UInt16} {b : UInt16}
    (hn : IsRingSize n) (hknows : DriverKnows n l k) (h : DriverAt n { k with desc := desc } s)
    (htable : FreeTable n l.vq k.desc k.underWay (o.chain ++ rest))
    (hhead : o.chain.head? = some o.head) (hheads : ∀ o ∈ k.underWay, o.chain.head? = some o.head)
    (hlaid : Laid desc o.readable o.chain o.sg) (hlinks : ∀ x, (desc x).next = (k.desc x).next)
    (hfirst : Chain (fun i => (k.desc i).next) l.vq.vqDescHeadIdx o.chain b) {vq : Virtqueue w}
    (hvq : vq = ((l.vq.setInuse debug).setDescx o.head
      ⟨o.cookie, UInt16.ofNat o.chain.length⟩).takeFree b (UInt16.ofNat o.chain.length)) :
    wp (driverKeeps n (l.adding o)) (DriverIdle n) (vqRingAssertHead debug vq b >>= fun _ =>
      vqRingUpdateAvail vq o.head >>= fun vq =>
        pure { l.adding o with vq := vqueueIdle debug vq }) s := by
  obtain ⟨hadded, hlogs⟩ := hknows.adding o
  have hafter : FreeTable n vq desc (k.underWay ++ [o]) rest := by
    subst hvq
    exact htable.take hn hhead hheads (fun x _ => hlinks x) hfirst rfl rfl
  have hnentries : vq.vqNentries = UInt16.ofNat n := by
    subst hvq
    exact hknows.nentries
  have hassert : vqRingAssertHead debug vq b = pure () := by
    have hh := hafter.headAsserts debug hn hnentries
    subst hvq
    exact hh
  have hready : Ready n (l.adding o) { k with desc := desc } o := by
    refine ⟨hhead, hlaid, ?_, ?_, hadded ▸ List.prefix_rfl⟩
    · have hnodup := (List.nodup_append.mp (hafter.nodup hn)).2.1
      rwa [chains_append, chains_cons, chains_nil, List.append_nil] at hnodup
    · exact fun x hx => (htable.bound hn (List.mem_append_left _ hx)).1
  have hlength : k.offered.length = l.added.length := by
    rw [← hknows.added, List.length_map]
  rw [hassert, Prog.pure_bind]
  refine h.wp_publish hn hnentries ⟨hlogs.added, hlogs.collected, hlogs.answered⟩ hready ?_ ?_ hafter
    hadded hknows.collected ?_ ?_
  · rw [hvq]
    rfl
  · rw [hvq]
    exact hknows.consIdx
  · exact hlength ▸ hknows.kicked
  · rw [hvq]
    exact hlength ▸ hknows.queuedCnt

theorem DriverAt.wp_addBuffer (hn : IsRingSize n) (h : DriverAt n k s) (hknows : DriverKnows n l k)
    {sg : List (MetalSg w)} {readable writable : Nat} {cookie : BitVec w}
    (hlegal : l.Legal (.addBuffer sg readable writable cookie)) :
    wp (driverKeeps n (l.started (.addBuffer sg readable writable cookie))) (DriverIdle n)
      (l.body debug (.addBuffer sg readable writable cookie)) s := by
  obtain ⟨hpos, hsum, hroom, hcookie⟩ := hlegal
  obtain ⟨free, htable⟩ := hknows.table
  have hneeded : (readable : Int) + writable = (sg.length : Nat) := by omega
  have hchk : decide ((readable : Int) + writable < 1) = false := by
    rw [hneeded]
    simp only [decide_eq_false_iff_not]
    omega
  have hfull : (l.vq.vqFreeCnt == 0) = false := by
    rw [beq_eq_false_iff_ne]
    intro hzero
    rw [hzero] at hroom
    exact absurd (hpos.trans hroom) (by decide)
  obtain ⟨chain, rest, b, rfl, hlength, hfirst, hhead⟩ := htable.front hn hpos hroom
  have hmem := List.mem_append_left rest (List.mem_of_mem_head? hhead)
  have hbound := (htable.bound hn hmem).1
  have hheads : ∀ o ∈ k.underWay, o.chain.head? = some o.head := h.outstanding ▸ h.inv.heads
  have hfresh := htable.cookie_eq_zero hn hheads hmem
  obtain ⟨o, ho⟩ : ∃ o : Offer w, o = ⟨⟨l.vq.vqDescHeadIdx, sg, readable, cookie⟩, chain⟩ := ⟨_, rfl⟩
  have hstarted : l.started (.addBuffer sg readable writable cookie) = l.adding o := by
    rw [ho]
    rfl
  rw [DriverLocal.body, virtqueueAddBuffer, vqParamChk_of hchk, vqParamChk_of hfull,
    vqueueBusy_of hknows.inuse]
  simp only [Prog.pure_bind, Prog.bind_assoc, if_true, Virtqueue.vqDescHeadIdx_setInuse,
    Virtqueue.vqDescx_setInuse, hstarted]
  have hnentries : (l.vq.setInuse debug).vqNentries = UInt16.ofNat n := hknows.nentries
  rw [vqassert_of (by simpa using hcookie), validIdx_of hn hnentries hbound,
    inTable_of hn hnentries hbound, vqassert_of (by simpa using hfresh), vqRingAddBuffer, hneeded,
    Int.toNat_natCast, ← hlength, ofInt_natCast]
  simp only [Prog.pure_bind]
  refine wp_ringAddBufferFrom (i := 0) hn (by exact hnentries) h (hknows.adding o).2 hfirst hlength
    (Nat.zero_add _).symm ?_ ?_ fun desc t hsame hlinks hlaid ht => ?_
  · exact (htable.nodup hn).sublist
      ((List.sublist_append_left ..).trans (List.sublist_append_left ..))
  · exact fun x hx => htable.bound hn (List.mem_append_left _ hx)
  · subst ho
    exact ht.wp_enqueue hn hknows htable hhead hheads hlaid hlinks hfirst rfl

theorem DriverAt.wp_addSingleBuffer (hn : IsRingSize n) (h : DriverAt n k s)
    (hknows : DriverKnows n l k) {cookie : BitVec w} {sg : MetalSg w} {writable : Bool}
    (hlegal : l.Legal (.addSingleBuffer cookie sg writable)) :
    wp (driverKeeps n (l.started (.addSingleBuffer cookie sg writable))) (DriverIdle n)
      (l.body debug (.addSingleBuffer cookie sg writable)) s := by
  obtain ⟨hroom, hcookie⟩ := hlegal
  obtain ⟨free, htable⟩ := hknows.table
  have hfull : (l.vq.vqFreeCnt == 0) = false := by
    rw [beq_eq_false_iff_ne]
    intro hzero
    rw [hzero] at hroom
    exact absurd hroom (by decide)
  obtain ⟨chain, rest, b, rfl, hlength, hfirst, hhead⟩ := htable.front hn le_rfl hroom
  obtain ⟨x, rfl⟩ := List.length_eq_one_iff.mp hlength
  obtain rfl : l.vq.vqDescHeadIdx = x := hfirst.1
  obtain rfl : _ = b := hfirst.2
  have hbound := htable.bound hn (List.mem_append_left rest List.mem_cons_self)
  have hheads : ∀ o ∈ k.underWay, o.chain.head? = some o.head := h.outstanding ▸ h.inv.heads
  obtain ⟨o, ho⟩ : ∃ o : Offer w, o = ⟨⟨l.vq.vqDescHeadIdx, [sg], if writable then 0 else 1, cookie⟩,
    [l.vq.vqDescHeadIdx]⟩ := ⟨_, rfl⟩
  have hstarted : l.started (.addSingleBuffer cookie sg writable) = l.adding o := by
    rw [ho]
    rfl
  have hlogs := (hknows.adding o).2
  rw [DriverLocal.body, virtqueueAddSingleBuffer, vqParamChk_of hfull, vqueueBusy_of hknows.inuse]
  simp only [Prog.pure_bind, Prog.bind_assoc, if_true, Virtqueue.vqDescHeadIdx_setInuse, hstarted]
  have hnentries : (l.vq.setInuse debug).vqNentries = UInt16.ofNat n := hknows.nentries
  rw [vqassert_of (by simpa using hcookie), inTable_of hn hnentries hbound.1]
  simp only [Prog.pure_bind]
  refine h.wp_modifyDesc hlogs hbound.2 fun t ht => ?_
  refine ht.wp_modifyDesc (hlogs.setDesc _ _) hbound.2 fun t ht => ?_
  refine ht.wp_modifyDesc ((hlogs.setDesc _ _).setDesc _ _) hbound.2 fun t ht => ?_
  simp only [DriverView.setDesc_setDesc, DriverView.setDesc_desc_self] at ht
  refine ht.wp_load (hlogs.setDesc _ _) fun t ht => ?_
  have hnext : (t.1.desc l.vq.vqDescHeadIdx).next = (k.desc l.vq.vqDescHeadIdx).next := by
    simp [ht.desc]
  rw [hnext]
  refine ht.wp_orDescFlags (hlogs.setDesc _ _) hbound.2 fun t ht => ?_
  refine ht.wp_orDescFlags ((hlogs.setDesc _ _).setDesc _ _) hbound.2 fun t ht => ?_
  simp only [DriverView.setDesc_setDesc, DriverView.setDesc_desc_self] at ht
  obtain ⟨d, hd⟩ : ∃ d, d = filled (k.desc l.vq.vqDescHeadIdx) sg false writable := ⟨_, rfl⟩
  have ht : DriverAt n (k.setDesc l.vq.vqDescHeadIdx d) t := by simpa [hd, filled] using ht
  have hself : Function.update k.desc l.vq.vqDescHeadIdx d l.vq.vqDescHeadIdx = d :=
    Function.update_self ..
  subst ho
  refine DriverAt.wp_enqueue hn hknows ht htable hhead hheads ?_ ?_ hfirst rfl
  · refine ⟨by rw [hself, hd, filled], by rw [hself, hd, filled], ?_, by simp, rfl⟩
    rw [hself, hd, filled]
    cases writable <;> rfl
  · intro x
    by_cases heq : x = l.vq.vqDescHeadIdx
    · rw [heq, hself, hd, filled]
    · exact congrArg VringDesc.next (Function.update_of_ne heq _ _)

end Calls

end Lininoio
