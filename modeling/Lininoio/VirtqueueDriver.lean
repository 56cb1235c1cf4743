import Lininoio.VirtqueueFree

/-! What the driver knows of the ring, between its calls and within them. -/

namespace Lininoio

open SharedMemory CircularBuffers FreeChains

variable {w n : Nat}

/-- What a collected answer tells the driver. -/
def Answers (n : Nat) (added : List (Request w)) (place : Nat) (f : Nat × UInt32)
    (u : UsedBuffer w) : Prop :=
  ∃ r, added[f.1]? = some r ∧ u = ⟨r.cookie, f.2, UInt16.ofNat (place % n)⟩

def AnsweredBy (n : Nat) (l : DriverLocal w) (finished : List (Nat × UInt32)) : Prop :=
  ∀ i (h : i < l.collected.length), ∃ f, finished[i]? = some f ∧ Answers n l.added i f l.collected[i]

structure DriverEver (n : Nat) (l : DriverLocal w) (s : Vring × VqGhost w) : Prop where
  inv : RingInv n s
  added : s.2.offered.map Offer.toRequest <+: l.added
  collected : l.collected.length ≤ s.2.collected
  answered : AnsweredBy n l s.2.finished

structure DriverView (w : Nat) where
  desc : UInt16 → VringDesc
  ring : UInt16 → UInt16
  offered : List (Offer w)
  collected : Nat
  finished : List (Nat × UInt32)

def DriverView.underWay (k : DriverView w) : List (Offer w) :=
  Exchange.outstanding ⟨k.offered, 0, k.finished, k.collected⟩

structure DriverAt (n : Nat) (k : DriverView w) (s : Vring × VqGhost w) : Prop where
  inv : RingInv n s
  desc : s.1.desc = k.desc
  ring : s.1.availRing = k.ring
  offered : s.2.offered = k.offered
  collected : s.2.collected = k.collected
  finished : k.finished <+: s.2.finished
  le : k.collected ≤ k.finished.length

/-- What the driver's own data say between two of its calls. -/
structure DriverKnows (n : Nat) (l : DriverLocal w) (k : DriverView w) : Prop where
  nentries : l.vq.vqNentries = UInt16.ofNat n
  inuse : l.vq.vqInuse = false
  consIdx : l.vq.vqUsedConsIdx = UInt16.ofNat k.collected
  table : ∃ free, FreeTable n l.vq k.desc k.underWay free
  added : k.offered.map Offer.toRequest = l.added
  collected : l.collected.length = k.collected
  answered : AnsweredBy n l k.finished
  kicked : l.kicked ≤ l.added.length
  queuedCnt : l.vq.vqQueuedCnt = UInt16.ofNat (l.added.length - l.kicked)

def DriverIdle (n : Nat) (l : DriverLocal w) (s : Vring × VqGhost w) : Prop :=
  ∃ k, DriverAt n k s ∧ DriverKnows n l k

section At

variable {k : DriverView w} {s t : Vring × VqGhost w}

theorem outstanding_eq {e : VqGhost w} (hoffered : e.offered = k.offered)
    (hcollected : e.collected = k.collected) (hfinished : k.finished <+: e.finished)
    (hle : k.collected ≤ k.finished.length) : e.outstanding = k.underWay := by
  obtain ⟨rest, hrest⟩ := hfinished
  have hreturned : e.returned = Exchange.returned ⟨k.offered, 0, k.finished, k.collected⟩ := by
    rw [Exchange.returned, ← hrest, hcollected, List.take_append_of_le_length hle]
    rfl
  rw [DriverView.underWay, Exchange.outstanding, Exchange.outstanding, Exchange.live, hreturned,
    hoffered]
  rfl

theorem DriverAt.outstanding (h : DriverAt n k s) : s.2.outstanding = k.underWay :=
  outstanding_eq h.offered h.collected h.finished h.le

theorem DriverAt.underWay_offer (h : DriverAt n k s) (o : Offer w) :
    DriverView.underWay { k with offered := k.offered ++ [o] } = k.underWay ++ [o] := by
  have hoffered : (s.2.offer o).offered = k.offered ++ [o] := by
    rw [Exchange.offered_offer, h.offered]
  rw [← h.outstanding, ← h.inv.valid.outstanding_offer]
  exact (outstanding_eq (k := { k with offered := k.offered ++ [o] }) hoffered h.collected h.finished
    h.le).symm

theorem DriverAt.rely (h : DriverAt n k s) (hst : DeviceStep n s t) : DriverAt n k t :=
  ⟨hst.inv h.inv, hst.desc.trans h.desc, hst.availRing.trans h.ring, hst.offered.trans h.offered,
    hst.collected.trans h.collected, h.finished.trans hst.finished, h.le⟩

def DriverView.setDesc (k : DriverView w) (i : UInt16) (d : VringDesc) : DriverView w :=
  { k with desc := Function.update k.desc i d }

@[simp] theorem DriverView.setDesc_desc_self (k : DriverView w) (i : UInt16) (d : VringDesc) :
    (k.setDesc i d).desc i = d := Function.update_self ..

@[simp] theorem DriverView.setDesc_setDesc (k : DriverView w) (i : UInt16) (d d' : VringDesc) :
    (k.setDesc i d).setDesc i d' = k.setDesc i d' := by
  simp [DriverView.setDesc]

theorem DriverAt.modifyDesc (h : DriverAt n k s) {i : UInt16} (hi : i ∉ chains k.underWay)
    (f : VringDesc → VringDesc) :
    DriverAt n (k.setDesc i (f (k.desc i))) (s.1.modifyDesc i f, s.2) := by
  refine ⟨h.inv.modifyDesc (h.outstanding ▸ hi) f, ?_, h.ring, h.offered, h.collected, h.finished,
    h.le⟩
  simp only [Vring.modifyDesc, DriverView.setDesc, h.desc]

end At

theorem AnsweredBy.mono {l : DriverLocal w} {finished finished' : List (Nat × UInt32)}
    (h : AnsweredBy n l finished) (hpre : finished <+: finished') : AnsweredBy n l finished' := by
  intro i hi
  obtain ⟨f, hf, hanswer⟩ := h i hi
  obtain ⟨rest, rfl⟩ := hpre
  exact ⟨f, by rw [List.getElem?_append_left (List.getElem?_eq_some_iff.mp hf).1, hf], hanswer⟩

theorem DriverIdle.rely {l : DriverLocal w} {s t : Vring × VqGhost w} (h : DriverIdle n l s)
    (hst : DeviceStep n s t) : DriverIdle n l t := by
  obtain ⟨k, hat, hknows⟩ := h
  exact ⟨k, hat.rely hst, hknows⟩

theorem DriverEver.rely {l : DriverLocal w} {s t : Vring × VqGhost w} (h : DriverEver n l s)
    (hst : DeviceStep n s t) : DriverEver n l t :=
  ⟨hst.inv h.inv, hst.offered ▸ h.added, hst.collected ▸ h.collected, h.answered.mono hst.finished⟩

structure DriverLogs (n : Nat) (l : DriverLocal w) (k : DriverView w) : Prop where
  added : k.offered.map Offer.toRequest <+: l.added
  collected : l.collected.length ≤ k.collected
  answered : AnsweredBy n l k.finished

theorem DriverAt.ever {l : DriverLocal w} {k : DriverView w} {s : Vring × VqGhost w}
    (h : DriverAt n k s) (hl : DriverLogs n l k) : DriverEver n l s :=
  ⟨h.inv, h.offered ▸ hl.added, h.collected ▸ hl.collected, hl.answered.mono h.finished⟩

theorem DriverKnows.logs {l : DriverLocal w} {k : DriverView w} (h : DriverKnows n l k) :
    DriverLogs n l k := ⟨h.added ▸ List.prefix_rfl, h.collected.le, h.answered⟩

abbrev driverKeeps (n : Nat) (l : DriverLocal w) : Contract Vring (VqGhost w) :=
  (driverContract n w).keeping (DriverEver n l)

section Accesses

variable {l : DriverLocal w} {k : DriverView w} {s : Vring × VqGhost w} {α β : Type}
  {Q : β → Vring × VqGhost w → Prop}

theorem driverAt_stable (n : Nat) (l : DriverLocal w) (k : DriverView w) :
    Stable (driverKeeps n l) (DriverAt n k) := fun _ _ hst h => h.rely hst

theorem DriverAt.wp_load (h : DriverAt n k s) (hl : DriverLogs n l k) {g : Vring → α}
    {f : α → VqProg β} (hnext : ∀ t, DriverAt n k t → wp (driverKeeps n l) Q (f (g t.1)) t) :
    wp (driverKeeps n l) Q (Prog.load g >>= f) s :=
  SharedMemory.wp_load (driverAt_stable n l k) h
    (fun t ht => ⟨driverContract_self n t, ht.ever hl⟩) hnext

theorem DriverAt.wp_modifyDesc (h : DriverAt n k s) (hl : DriverLogs n l k) {i : UInt16}
    (hi : i ∉ chains k.underWay) {f : VringDesc → VringDesc} {p : Unit → VqProg β}
    (hnext : ∀ t, DriverAt n (k.setDesc i (f (k.desc i))) t → wp (driverKeeps n l) Q (p ()) t) :
    wp (driverKeeps n l) Q (Prog.store (Vring.modifyDesc i f) >>= p) s := by
  refine wp_store (driverAt_stable n l k) h (fun t ht => ?_) fun t ht => hnext _ (ht.modifyDesc hi f)
  have hafter := ht.modifyDesc hi f
  refine ⟨⟨⟨rfl, rfl, fun _ => hafter.inv, rfl, rfl, List.prefix_rfl⟩, .none _⟩, hafter.ever ?_⟩
  exact ⟨hl.added, hl.collected, hl.answered⟩

theorem DriverLogs.setDesc (hl : DriverLogs n l k) (i : UInt16) (d : VringDesc) :
    DriverLogs n l (k.setDesc i d) := ⟨hl.added, hl.collected, hl.answered⟩

theorem DriverAt.wp_orDescFlags (h : DriverAt n k s) (hl : DriverLogs n l k) {i flag : UInt16}
    (hi : i ∉ chains k.underWay) {c : Bool} {p : Unit → VqProg β}
    (hnext : ∀ t, DriverAt n (k.setDesc i { k.desc i with
      flags := (k.desc i).flags ||| if c then flag else 0 }) t → wp (driverKeeps n l) Q (p ()) t) :
    wp (driverKeeps n l) Q (orDescFlags c i flag >>= p) s := by
  cases c with
  | false =>
    refine hnext s ?_
    have hsame : k.setDesc i { k.desc i with flags := (k.desc i).flags ||| 0 } = k := by
      simp [DriverView.setDesc]
    simpa only [Bool.false_eq_true, if_false, hsame] using h
  | true =>
    rw [orDescFlags, if_pos rfl, Prog.bind_assoc]
    refine h.wp_load hl fun t ht => ?_
    rw [ht.desc]
    exact ht.wp_modifyDesc hl hi hnext

end Accesses

end Lininoio
