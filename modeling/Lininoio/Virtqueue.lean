import Lininoio.MetalIo
import Lininoio.SharedMemory

/-! The virtqueues of util/virtqueue.c: the ring in shared memory, which the functions access one
load or store at a time, and the control block that each side has for itself. -/

namespace Lininoio

open SharedMemory

def errorVringFull : Int := -3001

def errorNoMem : Int := -3004

def errorVringAlign : Int := -3006

def errorVringNoBuff : Int := -3007

def errorVqueueInvldParam : Int := -3008

def vqueueSuccess : Int := 0

def vqRingDescChainEnd : UInt16 := 32768

def virtqueueFlagEventIdx : UInt32 := 0x0002

def vringDescFNext : UInt16 := 1

def vringDescFWrite : UInt16 := 2

def vringDescFIndirect : UInt16 := 4

def vringUsedFNoNotify : UInt16 := 1

def vringAvailFNoInterrupt : UInt16 := 1

structure VringDesc where
  addr : BitVec 64
  len : UInt32
  flags : UInt16
  next : UInt16
deriving DecidableEq

structure VringUsedElem where
  id : UInt32
  len : UInt32
deriving DecidableEq

/-- The memory of a ring. Entry `num` of the available ring is `vring_used_event`, the id of entry
`num` of the used ring `vring_avail_event`. -/
structure Vring where
  desc : UInt16 → VringDesc
  availFlags : UInt16
  availIdx : UInt16
  availRing : UInt16 → UInt16
  usedFlags : UInt16
  usedIdx : UInt16
  usedRing : UInt16 → VringUsedElem

structure MetalSg (w : Nat) where
  virt : BitVec w
  io : MetalIoRegion w
  len : Int32

structure VqDescExtra (w : Nat) where
  cookie : BitVec w
  ndescs : UInt16

/-- `struct virtqueue`; `callback` and `notify` tell whether the functions are set. -/
structure Virtqueue (w : Nat) where
  vqNentries : UInt16
  vqFlags : UInt32
  vqInuse : Bool
  callback : Bool
  notify : Bool
  vqFreeCnt : UInt16
  vqQueuedCnt : UInt16
  shmIo : MetalIoRegion w
  vqDescHeadIdx : UInt16
  vqUsedConsIdx : UInt16
  vqAvailableIdx : UInt16
  vqDescx : UInt16 → VqDescExtra w

structure VringAllocInfo where
  align : UInt32
  numDescs : UInt16

/-- `assertion` stops the program in a loop, in the debug build only. -/
inductive VqFault
  | wildAccess
  | endless
  | assertion (msg : String)
deriving DecidableEq

abbrev VqProg (α : Type) := Prog VqFault Vring α

def Vring.modifyDesc (i : UInt16) (f : VringDesc → VringDesc) (r : Vring) : Vring :=
  { r with desc := Function.update r.desc i (f (r.desc i)) }

@[simp] theorem Vring.desc_modifyDesc_self (i : UInt16) (f : VringDesc → VringDesc) (r : Vring) :
    (r.modifyDesc i f).desc i = f (r.desc i) := Function.update_self ..

theorem Vring.desc_modifyDesc_of_ne {i j : UInt16} (h : j ≠ i) (f : VringDesc → VringDesc) (r : Vring) :
    (r.modifyDesc i f).desc j = r.desc j := Function.update_of_ne h ..

def Vring.setAvailRing (i x : UInt16) (r : Vring) : Vring :=
  { r with availRing := Function.update r.availRing i x }

def Vring.modifyUsedRing (i : UInt16) (f : VringUsedElem → VringUsedElem) (r : Vring) : Vring :=
  { r with usedRing := Function.update r.usedRing i (f (r.usedRing i)) }

variable {w : Nat}

def Virtqueue.setDescx (vq : Virtqueue w) (i : UInt16) (dx : VqDescExtra w) : Virtqueue w :=
  { vq with vqDescx := Function.update vq.vqDescx i dx }

def Virtqueue.setInuse (vq : Virtqueue w) (inuse : Bool) : Virtqueue w := { vq with vqInuse := inuse }

/-- `cnt` descriptors have been taken, and `idx` is the first that is free now. -/
def Virtqueue.takeFree (vq : Virtqueue w) (idx cnt : UInt16) : Virtqueue w :=
  { vq with vqDescHeadIdx := idx, vqFreeCnt := vq.vqFreeCnt - cnt }

/-- `cnt` descriptors come back, the first of which is `idx`. -/
def Virtqueue.putFree (vq : Virtqueue w) (idx cnt : UInt16) : Virtqueue w :=
  { vq with vqFreeCnt := vq.vqFreeCnt + cnt, vqDescHeadIdx := idx }

def Virtqueue.nextUsed (vq : Virtqueue w) : Virtqueue w :=
  { vq with vqUsedConsIdx := vq.vqUsedConsIdx + 1 }

def Virtqueue.nextAvailable (vq : Virtqueue w) : Virtqueue w :=
  { vq with vqAvailableIdx := vq.vqAvailableIdx + 1 }

@[simp] theorem Virtqueue.vqDescHeadIdx_setInuse (vq : Virtqueue w) (b : Bool) :
    (vq.setInuse b).vqDescHeadIdx = vq.vqDescHeadIdx := rfl

@[simp] theorem Virtqueue.vqDescx_setInuse (vq : Virtqueue w) (b : Bool) :
    (vq.setInuse b).vqDescx = vq.vqDescx := rfl

section

variable (debug : Bool)

def vqassert (c : Bool) (msg : String) : VqProg Unit :=
  if debug && !c then .fail (.assertion msg) else pure ()

def vqRingAssertValidIdx (vq : Virtqueue w) (idx : UInt16) : VqProg Unit :=
  vqassert debug (idx < vq.vqNentries) "invalid ring index"

def vqRingAssertChainTerm (vq : Virtqueue w) : VqProg Unit :=
  vqassert debug (vq.vqDescHeadIdx == vqRingDescChainEnd)
    "full ring terminated incorrectly: invalid head"

def vqParamChk (condition : Bool) (statusErr status : Int) : Int :=
  if debug && status == 0 && condition then statusErr else status

def vqueueBusy (vq : Virtqueue w) : VqProg (Virtqueue w) :=
  if debug then
    if vq.vqInuse = false then pure (vq.setInuse true)
    else do
      vqassert debug (vq.vqInuse == false) "VirtQueue already in use"
      pure vq
  else pure vq

def vqueueIdle (vq : Virtqueue w) : Virtqueue w :=
  if debug then vq.setInuse false else vq

def vqRingAssertIfFull (vq : Virtqueue w) : VqProg Unit :=
  if vq.vqFreeCnt = 0 then vqRingAssertChainTerm debug vq else pure ()

def vqRingAssertHead (vq : Virtqueue w) (idx : UInt16) : VqProg Unit :=
  if vq.vqFreeCnt = 0 then vqRingAssertChainTerm debug vq else vqRingAssertValidIdx debug vq idx

end

/-- The entries of the descriptor table, and those of `vq_descx`, are those below `vq_nentries`. -/
def inTable (vq : Virtqueue w) (idx : UInt16) : VqProg Unit :=
  if idx < vq.vqNentries then pure () else .fail .wildAccess

def vringNeedEvent (eventIdx newIdx old : UInt16) : Bool :=
  newIdx - eventIdx - 1 < newIdx - old

/-- The loop of `vq_ring_init` from `i` on. -/
def ringInitFrom (vq : Virtqueue w) : Nat → UInt16 → VqProg Unit
  | 0, i => do
    inTable vq i
    .store (Vring.modifyDesc i fun d => { d with next := vqRingDescChainEnd })
  | rest + 1, i => do
    inTable vq i
    .store (Vring.modifyDesc i fun d => { d with next := i + 1 })
    ringInitFrom vq rest (i + 1)

def vqRingInit (vq : Virtqueue w) : VqProg Unit := ringInitFrom vq (vq.vqNentries.toNat - 1) 0

section

variable (debug : Bool)

def orDescFlags (c : Bool) (idx flag : UInt16) : VqProg Unit :=
  if c then do
    let flags ← .load fun r => (r.desc idx).flags
    .store (Vring.modifyDesc idx fun d => { d with flags := flags ||| flag })
  else pure ()

/-- The loop of `vq_ring_add_buffer`, with `rest` rounds to go. -/
def ringAddBufferFrom (vq : Virtqueue w) (readable needed : Int) :
    Nat → Int → UInt16 → List (MetalSg w) → VqProg UInt16
  | 0, _, idx, _ => pure idx
  | _ + 1, _, _, [] => .fail .wildAccess
  | rest + 1, i, idx, sg :: sgs => do
    vqassert debug (idx != vqRingDescChainEnd) "premature end of free desc chain"
    inTable vq idx
    .store (Vring.modifyDesc idx fun d =>
      { d with addr := (metalIoVirtToPhys sg.io sg.virt).setWidth 64 })
    .store (Vring.modifyDesc idx fun d => { d with len := sg.len.toUInt32 })
    .store (Vring.modifyDesc idx fun d => { d with flags := 0 })
    orDescFlags (i < needed - 1) idx vringDescFNext
    -- the readable buffers come before the writable ones
    orDescFlags (readable ≤ i) idx vringDescFWrite
    let next ← .load fun r => (r.desc idx).next
    ringAddBufferFrom vq readable needed rest (i + 1) next sgs

def vqRingAddBuffer (vq : Virtqueue w) (headIdx : UInt16) (sg : List (MetalSg w))
    (readable writable : Int) : VqProg UInt16 :=
  ringAddBufferFrom debug vq readable (readable + writable) (readable + writable).toNat 0 headIdx sg

def vqRingUpdateAvail (vq : Virtqueue w) (descIdx : UInt16) : VqProg (Virtqueue w) := do
  let idx ← .load Vring.availIdx
  .store (Vring.setAvailRing (idx &&& (vq.vqNentries - 1)) descIdx)
  let idx ← .load Vring.availIdx
  .store fun r => { r with availIdx := idx + 1 }
  pure { vq with vqQueuedCnt := vq.vqQueuedCnt + 1 }

/-- The loop of `vq_ring_free_chain` along the chain: its last descriptor, and what is left of
`ndescs`. -/
def ringFreeChainFrom (vq : Virtqueue w) : Nat → UInt16 → UInt16 → VqProg (UInt16 × UInt16)
  | 0, _, _ => .fail .endless
  | rounds + 1, dp, ndescs => do
    let flags ← .load fun r => (r.desc dp).flags
    if flags &&& vringDescFNext ≠ 0 then do
      let next ← .load fun r => (r.desc dp).next
      vqRingAssertValidIdx debug vq next
      inTable vq next
      ringFreeChainFrom vq rounds next (ndescs - 1)
    else pure (dp, ndescs)

def vqRingFreeChain (vq : Virtqueue w) (descIdx : UInt16) : VqProg (Virtqueue w) := do
  vqRingAssertValidIdx debug vq descIdx
  inTable vq descIdx
  let dx := vq.vqDescx descIdx
  vqRingAssertIfFull debug vq
  let flags ← .load fun r => (r.desc descIdx).flags
  let chain ← if flags &&& vringDescFIndirect = 0 then
      ringFreeChainFrom debug vq vq.vqNentries.toNat descIdx (dx.ndescs - 1)
    else pure (descIdx, dx.ndescs - 1)
  vqassert debug (chain.2 == 0) "failed to free entire desc chain, remaining"
  .store (Vring.modifyDesc chain.1 fun d => { d with next := vq.vqDescHeadIdx })
  pure ((vq.setDescx descIdx { dx with ndescs := chain.2 }).putFree descIdx dx.ndescs)

def virtqueueNused (vq : Virtqueue w) : VqProg UInt16 := do
  let usedIdx ← .load Vring.usedIdx
  vqassert debug (usedIdx - vq.vqUsedConsIdx ≤ vq.vqNentries) "used more than available"
  pure (usedIdx - vq.vqUsedConsIdx)

def vqRingEnableInterrupt (vq : Virtqueue w) (ndesc : UInt16) : VqProg Int := do
  if vq.vqFlags &&& virtqueueFlagEventIdx ≠ 0 then
    .store (Vring.setAvailRing vq.vqNentries (vq.vqUsedConsIdx + ndesc))
  else do
    let flags ← .load Vring.availFlags
    .store fun r => { r with availFlags := flags &&& ~~~vringAvailFNoInterrupt }
  -- what has been consumed meanwhile does not interrupt
  let nused ← virtqueueNused debug vq
  pure (if nused > ndesc then 1 else 0)

def vqRingMustNotifyHost (vq : Virtqueue w) : VqProg Bool :=
  if vq.vqFlags &&& virtqueueFlagEventIdx ≠ 0 then do
    let newIdx ← .load Vring.availIdx
    let eventIdx ← .load fun r => (r.usedRing vq.vqNentries).id &&& 0xFFFF
    pure (vringNeedEvent eventIdx.toUInt16 newIdx (newIdx - vq.vqQueuedCnt))
  else do
    let flags ← .load Vring.usedFlags
    pure (flags &&& vringUsedFNoNotify == 0)

def virtqueueDisableCb (vq : Virtqueue w) : VqProg (Virtqueue w) := do
  let vq ← vqueueBusy debug vq
  if vq.vqFlags &&& virtqueueFlagEventIdx ≠ 0 then
    .store (Vring.setAvailRing vq.vqNentries (vq.vqUsedConsIdx - vq.vqNentries - 1))
  else do
    let flags ← .load Vring.availFlags
    .store fun r => { r with availFlags := flags ||| vringAvailFNoInterrupt }
  pure (vqueueIdle debug vq)

def virtqueueEnableCb (vq : Virtqueue w) : VqProg Int := vqRingEnableInterrupt debug vq 0

/-- `mem` tells whether the allocation succeeds. The control block is `none` where the function
does not write to `*v_queue`. -/
def virtqueueCreate (ring : VringAllocInfo) (callback notify : Bool) (shmIo : MetalIoRegion w)
    (mem : Bool) : VqProg (Option (Virtqueue w) × Int) :=
  let status := vqParamChk debug (ring.numDescs == 0) errorVqueueInvldParam vqueueSuccess
  let status := vqParamChk debug (ring.numDescs &&& (ring.numDescs - 1) != 0) errorVringAlign status
  if status = vqueueSuccess then
    if mem then do
      let vq : Virtqueue w := ⟨ring.numDescs, 0, false, callback, notify, ring.numDescs, 0, shmIo,
        0, 0, 0, fun _ => ⟨0, 0⟩⟩
      vqRingInit vq
      let vq ← virtqueueDisableCb debug vq
      pure (some vq, status)
    else pure (none, errorNoMem)
  else pure (none, status)

def virtqueueAddBuffer (vq : Virtqueue w) (sg : List (MetalSg w)) (readable writable : Int)
    (cookie : BitVec w) : VqProg (Virtqueue w × Int) := do
  let needed := readable + writable
  let status := vqParamChk debug (needed < 1) errorVqueueInvldParam vqueueSuccess
  let status := vqParamChk debug (vq.vqFreeCnt == 0) errorVringFull status
  let vq ← vqueueBusy debug vq
  if status = vqueueSuccess then do
    vqassert debug (cookie != 0) "enqueuing with no cookie"
    let headIdx := vq.vqDescHeadIdx
    vqRingAssertValidIdx debug vq headIdx
    inTable vq headIdx
    vqassert debug ((vq.vqDescx headIdx).cookie == 0) "cookie already exists for index"
    let vq := vq.setDescx headIdx ⟨cookie, UInt16.ofInt needed⟩
    let idx ← vqRingAddBuffer debug vq headIdx sg readable writable
    let vq := vq.takeFree idx (UInt16.ofInt needed)
    vqRingAssertHead debug vq idx
    let vq ← vqRingUpdateAvail vq headIdx
    pure (vqueueIdle debug vq, status)
  else pure (vqueueIdle debug vq, status)

def virtqueueAddSingleBuffer (vq : Virtqueue w) (cookie : BitVec w) (sg : MetalSg w)
    (writable hasNext : Bool) : VqProg (Virtqueue w × Int) := do
  let status := vqParamChk debug (vq.vqFreeCnt == 0) errorVringFull vqueueSuccess
  let vq ← vqueueBusy debug vq
  if status = vqueueSuccess then do
    vqassert debug (cookie != 0) "enqueuing with no cookie"
    let headIdx := vq.vqDescHeadIdx
    inTable vq headIdx
    let vq := vq.setDescx headIdx ⟨cookie, 1⟩
    .store (Vring.modifyDesc headIdx fun d =>
      { d with addr := (metalIoVirtToPhys sg.io sg.virt).setWidth 64 })
    .store (Vring.modifyDesc headIdx fun d => { d with len := sg.len.toUInt32 })
    .store (Vring.modifyDesc headIdx fun d => { d with flags := 0 })
    let idx ← .load fun r => (r.desc headIdx).next
    orDescFlags hasNext headIdx vringDescFNext
    orDescFlags writable headIdx vringDescFWrite
    let vq := vq.takeFree idx 1
    vqRingAssertHead debug vq idx
    let vq ← vqRingUpdateAvail vq headIdx
    pure (vqueueIdle debug vq, status)
  else pure (vqueueIdle debug vq, status)

/-- What `virtqueue_get_buffer` returns, and stores in `*len` and `*idx`. -/
structure UsedBuffer (w : Nat) where
  cookie : BitVec w
  len : UInt32
  idx : UInt16

/-- There is no buffer where the function returns NULL at once. -/
def virtqueueGetBuffer (vq : Virtqueue w) : VqProg (Virtqueue w × Option (UsedBuffer w)) := do
  let usedIdx ← .load Vring.usedIdx
  if vq.vqUsedConsIdx = usedIdx then pure (vq, none)
  else do
    let vq ← vqueueBusy debug vq
    let slot := vq.vqUsedConsIdx &&& (vq.vqNentries - 1)
    let vq := vq.nextUsed
    let id ← .load fun r => (r.usedRing slot).id
    let len ← .load fun r => (r.usedRing slot).len
    let descIdx := id.toUInt16
    let vq ← vqRingFreeChain debug vq descIdx
    let dx := vq.vqDescx descIdx
    let vq := vq.setDescx descIdx { dx with cookie := 0 }
    pure (vqueueIdle debug vq, some ⟨dx.cookie, len, slot⟩)

def virtqueueGetBufferLength (vq : Virtqueue w) (idx : UInt16) : VqProg UInt32 := do
  inTable vq idx
  .load fun r => (r.desc idx).len

/-- What `virtqueue_get_available_buffer` returns, and stores in `*avail_idx` and `*len`. -/
structure AvailableBuffer (w : Nat) where
  buffer : BitVec w
  availIdx : UInt16
  len : UInt32
deriving DecidableEq

def virtqueueGetAvailableBuffer (vq : Virtqueue w) :
    VqProg (Virtqueue w × Option (AvailableBuffer w)) := do
  let idx ← .load Vring.availIdx
  if vq.vqAvailableIdx = idx then pure (vq, none)
  else do
    let vq ← vqueueBusy debug vq
    let slot := vq.vqAvailableIdx &&& (vq.vqNentries - 1)
    let vq := vq.nextAvailable
    let availIdx ← .load fun r => r.availRing slot
    inTable vq availIdx
    let addr ← .load fun r => (r.desc availIdx).addr
    match metalIoPhysToVirt vq.shmIo (addr.setWidth w) with
    | none => .fail .endless
    | some buffer => do
      let len ← .load fun r => (r.desc availIdx).len
      pure (vqueueIdle debug vq, some ⟨buffer, availIdx, len⟩)

def virtqueueAddConsumedBuffer (vq : Virtqueue w) (headIdx : UInt16) (len : UInt32) :
    VqProg (Virtqueue w × Int) :=
  if headIdx > vq.vqNentries then pure (vq, errorVringNoBuff)
  else do
    let vq ← vqueueBusy debug vq
    let idx ← .load Vring.usedIdx
    let slot := idx &&& (vq.vqNentries - 1)
    .store (Vring.modifyUsedRing slot fun e => { e with id := headIdx.toUInt32 })
    .store (Vring.modifyUsedRing slot fun e => { e with len := len })
    let idx ← .load Vring.usedIdx
    .store fun r => { r with usedIdx := idx + 1 }
    pure (vqueueIdle debug vq, vqueueSuccess)

/-- The answer tells whether the other side has been notified. -/
def virtqueueKick (vq : Virtqueue w) : VqProg (Virtqueue w × Bool) := do
  let vq ← vqueueBusy debug vq
  let must ← vqRingMustNotifyHost vq
  pure (vqueueIdle debug { vq with vqQueuedCnt := 0 }, must && vq.notify)

def virtqueueGetDescSize (vq : Virtqueue w) : VqProg (Virtqueue w × UInt32) := do
  let idx ← .load Vring.availIdx
  if vq.vqAvailableIdx = idx then pure (vq, 0)
  else do
    let vq ← vqueueBusy debug vq
    let slot := vq.vqAvailableIdx &&& (vq.vqNentries - 1)
    let availIdx ← .load fun r => r.availRing slot
    inTable vq availIdx
    let len ← .load fun r => (r.desc availIdx).len
    pure (vqueueIdle debug vq, len)

end

end Lininoio
