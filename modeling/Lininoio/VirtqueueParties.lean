import Lininoio.CircularBuffers
import Lininoio.Exchange
import Lininoio.FreeChains
import Lininoio.Virtqueue

/-! The two sides of a virtqueue, each making any calls, one access to the ring at a time, and what
holds of the ring in between. -/

namespace Lininoio

open SharedMemory CircularBuffers FreeChains

variable {w : Nat}

structure Request (w : Nat) where
  head : UInt16
  sg : List (MetalSg w)
  readable : Nat
  cookie : BitVec w

inductive DriverCall (w : Nat)
  | addBuffer (sg : List (MetalSg w)) (readable writable : Nat) (cookie : BitVec w)
  | addSingleBuffer (cookie : BitVec w) (sg : MetalSg w) (writable : Bool)
  | getBuffer
  | kick
  | enableCb
  | disableCb

/-- `added` and `collected` are the buffers in the order of the calls, `kicked` is how many had been
enqueued at the last `virtqueue_kick`. -/
structure DriverLocal (w : Nat) where
  vq : Virtqueue w
  added : List (Request w)
  collected : List (UsedBuffer w)
  kicked : Nat

namespace DriverLocal

/-- A caller has to know that there are enough descriptors: the functions do not check it. -/
def Legal (l : DriverLocal w) : DriverCall w → Prop
  | .addBuffer sg readable writable cookie => 1 ≤ sg.length ∧ sg.length = readable + writable ∧
      sg.length ≤ l.vq.vqFreeCnt.toNat ∧ cookie ≠ 0
  | .addSingleBuffer cookie _ _ => 1 ≤ l.vq.vqFreeCnt.toNat ∧ cookie ≠ 0
  | _ => True

def started (l : DriverLocal w) : DriverCall w → DriverLocal w
  | .addBuffer sg readable _ cookie =>
    { l with added := l.added ++ [⟨l.vq.vqDescHeadIdx, sg, readable, cookie⟩] }
  | .addSingleBuffer cookie sg writable =>
    { l with added := l.added ++ [⟨l.vq.vqDescHeadIdx, [sg], if writable then 0 else 1, cookie⟩] }
  | _ => l

def body (debug : Bool) (l : DriverLocal w) : DriverCall w → VqProg (DriverLocal w)
  | .addBuffer sg readable writable cookie => do
    let r ← virtqueueAddBuffer debug l.vq sg readable writable cookie
    pure { l.started (.addBuffer sg readable writable cookie) with vq := r.1 }
  | .addSingleBuffer cookie sg writable => do
    let r ← virtqueueAddSingleBuffer debug l.vq cookie sg writable false
    pure { l.started (.addSingleBuffer cookie sg writable) with vq := r.1 }
  | .getBuffer => do
    let r ← virtqueueGetBuffer debug l.vq
    pure { l with vq := r.1, collected := l.collected ++ r.2.toList }
  | .kick => do
    let r ← virtqueueKick debug l.vq
    pure { l with vq := r.1, kicked := l.added.length }
  | .enableCb => do
    let _ ← virtqueueEnableCb debug l.vq
    pure l
  | .disableCb => do
    let vq ← virtqueueDisableCb debug l.vq
    pure { l with vq := vq }

end DriverLocal

def driver (debug : Bool) (w : Nat) : Party VqFault Vring where
  Local := DriverLocal w
  Call := DriverCall w
  Legal := DriverLocal.Legal
  started := DriverLocal.started
  body := DriverLocal.body debug

/-- `addConsumedBuffer p len` gives back the `p`-th buffer that the device has taken; the device
gives them back in any order. -/
inductive DeviceCall
  | getAvailableBuffer
  | getDescSize
  | addConsumedBuffer (p : Nat) (len : UInt32)

structure DeviceLocal (w : Nat) where
  vq : Virtqueue w
  taken : List (AvailableBuffer w)
  completed : List (Nat × UInt32)

namespace DeviceLocal

def Legal (l : DeviceLocal w) : DeviceCall → Prop
  | .addConsumedBuffer p _ => p < l.taken.length ∧ p ∉ l.completed.map Prod.fst
  | _ => True

def started (l : DeviceLocal w) : DeviceCall → DeviceLocal w
  | .addConsumedBuffer p len => { l with completed := l.completed ++ [(p, len)] }
  | _ => l

def headOf (l : DeviceLocal w) (p : Nat) : UInt16 := (l.taken[p]?).elim 0 AvailableBuffer.availIdx

def body (debug : Bool) (l : DeviceLocal w) : DeviceCall → VqProg (DeviceLocal w)
  | .getAvailableBuffer => do
    let r ← virtqueueGetAvailableBuffer debug l.vq
    pure { l with vq := r.1, taken := l.taken ++ r.2.toList }
  | .getDescSize => do
    let r ← virtqueueGetDescSize debug l.vq
    pure { l with vq := r.1 }
  | .addConsumedBuffer p len => do
    let r ← virtqueueAddConsumedBuffer debug l.vq (l.headOf p) len
    pure { l.started (.addConsumedBuffer p len) with vq := r.1 }

end DeviceLocal

def device (debug : Bool) (w : Nat) : Party VqFault Vring where
  Local := DeviceLocal w
  Call := DeviceCall
  Legal := DeviceLocal.Legal
  started := DeviceLocal.started
  body := DeviceLocal.body debug

/-- A buffer that the device can see, with all its descriptors. -/
structure Offer (w : Nat) extends Request w where
  chain : List UInt16

abbrev VqGhost (w : Nat) := Exchange (Offer w) UInt32

/-- The descriptors of the chain describe the segments, the first `readable` of which are for
reading. -/
def Laid (desc : UInt16 → VringDesc) : Nat → List UInt16 → List (MetalSg w) → Prop
  | _, [], sg => sg = []
  | _, _ :: _, [] => False
  | readable, i :: chain, s :: sg =>
    (desc i).addr = (metalIoVirtToPhys s.io s.virt).setWidth 64 ∧
    (desc i).len = s.len.toUInt32 ∧
    (desc i).flags = (if chain = [] then 0 else vringDescFNext) |||
      (if readable = 0 then vringDescFWrite else 0) ∧
    (∀ j ∈ chain.head?, (desc i).next = j) ∧ Laid desc (readable - 1) chain sg

def usedElem (offered : List (Offer w)) (f : Nat × UInt32) : VringUsedElem :=
  ⟨((offered[f.1]?).elim 0 fun o => o.head).toUInt32, f.2⟩

def chains (os : List (Offer w)) : List UInt16 := os.flatMap Offer.chain

structure RingInv (n : Nat) (s : Vring × VqGhost w) : Prop where
  valid : s.2.Valid
  heads : ∀ o ∈ s.2.outstanding, o.chain.head? = some o.head
  laid : ∀ o ∈ s.2.outstanding, Laid s.1.desc o.readable o.chain o.sg
  nodup : (chains s.2.outstanding).Nodup
  bound : ∀ i ∈ chains s.2.outstanding, i.toNat < n
  availIdx : s.1.availIdx = UInt16.ofNat s.2.offered.length
  usedIdx : s.1.usedIdx = UInt16.ofNat s.2.finished.length
  avail : Window (fun j => s.1.availRing (UInt16.ofNat j)) n s.2.taken
    (s.2.offered.map fun o => o.head)
  used : Window (fun j => s.1.usedRing (UInt16.ofNat j)) n s.2.collected
    (s.2.finished.map (usedElem s.2.offered))

/-- What the driver may do to the ring, while the device looks. -/
structure DriverStep (n : Nat) (s t : Vring × VqGhost w) : Prop where
  usedIdx : t.1.usedIdx = s.1.usedIdx
  usedRing : t.1.usedRing = s.1.usedRing
  inv : RingInv n s → RingInv n t
  taken : t.2.taken = s.2.taken
  finished : t.2.finished = s.2.finished
  offered : s.2.offered <+: t.2.offered

/-- What the device may do to the ring, while the driver looks. -/
structure DeviceStep (n : Nat) (s t : Vring × VqGhost w) : Prop where
  desc : t.1.desc = s.1.desc
  availRing : t.1.availRing = s.1.availRing
  inv : RingInv n s → RingInv n t
  offered : t.2.offered = s.2.offered
  collected : t.2.collected = s.2.collected
  finished : s.2.finished <+: t.2.finished

theorem DriverStep.refl (n : Nat) (s : Vring × VqGhost w) : DriverStep n s s :=
  ⟨rfl, rfl, id, rfl, rfl, List.prefix_rfl⟩

theorem DeviceStep.refl (n : Nat) (s : Vring × VqGhost w) : DeviceStep n s s :=
  ⟨rfl, rfl, id, rfl, rfl, List.prefix_rfl⟩

theorem DriverStep.trans {n : Nat} {s t u : Vring × VqGhost w} (h : DriverStep n s t)
    (h' : DriverStep n t u) : DriverStep n s u :=
  ⟨h'.usedIdx.trans h.usedIdx, h'.usedRing.trans h.usedRing, h'.inv ∘ h.inv,
    h'.taken.trans h.taken, h'.finished.trans h.finished, h.offered.trans h'.offered⟩

theorem DeviceStep.trans {n : Nat} {s t u : Vring × VqGhost w} (h : DeviceStep n s t)
    (h' : DeviceStep n t u) : DeviceStep n s u :=
  ⟨h'.desc.trans h.desc, h'.availRing.trans h.availRing, h'.inv ∘ h.inv,
    h'.offered.trans h.offered, h'.collected.trans h.collected, h.finished.trans h'.finished⟩

/-- A single access changes the exchange by one operation at most. -/
def driverContract (n : Nat) (w : Nat) : Contract Vring (VqGhost w) :=
  ⟨DeviceStep n, fun s t => DriverStep n s t ∧ Exchange.Act s.2 t.2, DeviceStep.refl n,
    fun _ _ _ => DeviceStep.trans⟩

def deviceContract (n : Nat) (w : Nat) : Contract Vring (VqGhost w) :=
  ⟨DriverStep n, fun s t => DeviceStep n s t ∧ Exchange.Act s.2 t.2, DriverStep.refl n,
    fun _ _ _ => DriverStep.trans⟩

theorem driverContract_self (n : Nat) (s : Vring × VqGhost w) : (driverContract n w).guar s s :=
  ⟨DriverStep.refl n s, .none _⟩

theorem deviceContract_self (n : Nat) (s : Vring × VqGhost w) : (deviceContract n w).guar s s :=
  ⟨DeviceStep.refl n s, .none _⟩

end Lininoio
