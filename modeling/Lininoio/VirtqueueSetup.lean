import Lininoio.VirtqueueDevice
import Lininoio.VirtqueueNotify

/-! Creating a virtqueue, and the runs that start there. -/

namespace Lininoio

open SharedMemory CircularBuffers FreeChains

variable {w n : Nat}

theorem run_ringInitFrom (hn : IsRingSize n) {vq : Virtqueue w} (hvq : vq.vqNentries = UInt16.ofNat n)
    {i rest : Nat} (hi : i + rest + 1 = n) (m : Vring) : ∃ desc,
      (ringInitFrom vq rest (UInt16.ofNat i)).run m = .ok ((), { m with desc := desc }) ∧
      (∀ j < i, desc (UInt16.ofNat j) = m.desc (UInt16.ofNat j)) ∧
      Chain (fun j => (desc j).next) (UInt16.ofNat i)
        ((List.range' i (rest + 1)).map UInt16.ofNat) vqRingDescChainEnd := by
  have hle := hn.le
  induction rest generalizing i m with
  | zero =>
    have hbound : (UInt16.ofNat i).toNat < n := by
      rw [UInt16.toNat_ofNat', Nat.mod_eq_of_lt (by omega)]
      omega
    rw [ringInitFrom, inTable_of hn hvq hbound]
    refine ⟨(m.modifyDesc (UInt16.ofNat i) fun d => { d with next := vqRingDescChainEnd }).desc, rfl,
      fun j hj => ?_, rfl, ?_⟩
    · exact Vring.desc_modifyDesc_of_ne (ofNat_ne (n := n) hle (by omega) (by omega) hj.ne) _ m
    · change ((m.modifyDesc (UInt16.ofNat i) _).desc (UInt16.ofNat i)).next = vqRingDescChainEnd
      rw [Vring.desc_modifyDesc_self]
  | succ rest ih =>
    have hbound : (UInt16.ofNat i).toNat < n := by
      rw [UInt16.toNat_ofNat', Nat.mod_eq_of_lt (by omega)]
      omega
    rw [ringInitFrom, inTable_of hn hvq hbound]
    simp only [Prog.pure_bind, Prog.run_store_bind, ofNat_succ]
    obtain ⟨desc, hrun, hsame, hchain⟩ := ih (i := i + 1) (by omega)
      (m.modifyDesc (UInt16.ofNat i) fun d => { d with next := UInt16.ofNat (i + 1) })
    refine ⟨desc, hrun, fun j hj => ?_, rfl, ?_⟩
    · rw [hsame j (by omega)]
      exact Vring.desc_modifyDesc_of_ne (ofNat_ne (n := n) hle (by omega) (by omega) hj.ne) _ m
    · have hnext : (desc (UInt16.ofNat i)).next = UInt16.ofNat (i + 1) := by
        rw [hsame i (by omega), Vring.desc_modifyDesc_self]
      change Chain _ (desc (UInt16.ofNat i)).next _ _
      rwa [hnext]

def created (ring : VringAllocInfo) (callback notify : Bool) (io : MetalIoRegion w) : Virtqueue w :=
  ⟨ring.numDescs, 0, false, callback, notify, ring.numDescs, 0, io, 0, 0, 0, fun _ => ⟨0, 0⟩⟩

theorem run_virtqueueCreate (hn : IsRingSize n) (debug : Bool) {ring : VringAllocInfo}
    (hring : ring.numDescs = UInt16.ofNat n) (callback notify : Bool) (io : MetalIoRegion w)
    (m : Vring) : ∃ desc, Chain (fun j => (desc j).next) 0 ((List.range n).map UInt16.ofNat)
        vqRingDescChainEnd ∧
      (virtqueueCreate debug ring callback notify io true).run m =
        .ok ((some (created ring callback notify io), vqueueSuccess),
          { m with desc := desc, availFlags := m.availFlags ||| vringAvailFNoInterrupt }) := by
  have hpos := hn.pos
  have hnum : (ring.numDescs == 0) = false := by
    rw [hring, beq_eq_false_iff_ne]
    exact (ofNat_ne hn.le hpos le_rfl hpos.ne).symm
  have hpower : (ring.numDescs &&& (ring.numDescs - 1) != 0) = false := by
    rw [hring, hn.slot, Nat.mod_self]
    rfl
  have hall : 0 + (n - 1) + 1 = n := by omega
  have hentries : (created ring callback notify io).vqNentries = UInt16.ofNat n := hring
  obtain ⟨desc, hrun, -, hchain⟩ := run_ringInitFrom hn hentries hall m
  refine ⟨desc, ?_, ?_⟩
  · rw [List.range_eq_range']
    rwa [Nat.sub_add_cancel hpos] at hchain
  · have hinit : (vqRingInit (created ring callback notify io)).run m =
        .ok ((), { m with desc := desc }) := by
      rw [vqRingInit, ← hrun]
      congr 2
      rw [← hn.toNat_ofNat, ← hring]
      rfl
    have hbusy : vqueueBusy debug (created ring callback notify io) =
        pure ((created ring callback notify io).setInuse debug) := vqueueBusy_of rfl
    rw [virtqueueCreate, vqParamChk_of hnum, vqParamChk_of hpower, if_pos rfl, if_pos rfl]
    refine (Prog.run_bind hinit).trans ?_
    have hflags : ¬(((created ring callback notify io).setInuse debug).vqFlags &&&
        virtqueueFlagEventIdx ≠ 0) := by
      change ¬((0 : UInt32) &&& virtqueueFlagEventIdx ≠ 0)
      decide
    have hidle : vqueueIdle debug ((created ring callback notify io).setInuse debug) =
        created ring callback notify io := vqueueIdle_of rfl
    have hcb : (virtqueueDisableCb debug (created ring callback notify io)).run
        { m with desc := desc } = .ok (created ring callback notify io,
          { m with desc := desc, availFlags := m.availFlags ||| vringAvailFNoInterrupt }) := by
      rw [virtqueueDisableCb, hbusy, Prog.pure_bind, if_neg hflags, hidle]
      rfl
    exact Prog.run_bind hcb

theorem created_of_run (hn : IsRingSize n) {debug : Bool} {ring : VringAllocInfo}
    (hring : ring.numDescs = UInt16.ofNat n) {callback notify : Bool} {io : MetalIoRegion w}
    {vq : Virtqueue w} {status : Int} {m m' : Vring}
    (h : (virtqueueCreate debug ring callback notify io true).run m = .ok ((some vq, status), m')) :
    vq = created ring callback notify io ∧ m'.availIdx = m.availIdx ∧ m'.usedIdx = m.usedIdx ∧
    Chain (fun j => (m'.desc j).next) 0 ((List.range n).map UInt16.ofNat) vqRingDescChainEnd := by
  obtain ⟨desc, hchain, hrun⟩ := run_virtqueueCreate hn debug hring callback notify io m
  rw [hrun, Except.ok.injEq, Prod.mk.injEq, Prod.mk.injEq, Option.some.injEq] at h
  obtain ⟨⟨rfl, -⟩, rfl⟩ := h
  exact ⟨rfl, rfl, rfl, hchain⟩

abbrev VqPair (debug : Bool) (w : Nat) := Pair (driver debug w) (device debug w)

/-- The two sides have created their virtqueues of `n` descriptors on the same ring, one after the
other. The indices of the ring were zero; whoever uses the driver's virtqueue may have set
`vq_flags`. -/
def Started (n : Nat) (debug : Bool) (p : VqPair debug w) : Prop :=
  ∃ (ring ring' : VringAllocInfo) (callback notify callback' notify' : Bool)
    (io io' : MetalIoRegion w) (vq vq' : Virtqueue w) (flags : UInt32) (m m' : Vring),
    ring.numDescs = UInt16.ofNat n ∧ ring'.numDescs = UInt16.ofNat n ∧ Finds io' ∧
    m.availIdx = 0 ∧ m.usedIdx = 0 ∧
    (virtqueueCreate debug ring callback notify io true).run m = .ok ((some vq, vqueueSuccess), m') ∧
    (virtqueueCreate debug ring' callback' notify' io' true).run m' =
      .ok ((some vq', vqueueSuccess), p.memory) ∧
    p.first = .idle ⟨{ vq with vqFlags := flags }, [], [], 0⟩ ∧ p.second = .idle ⟨vq', [], []⟩

def VqReached (n : Nat) (debug : Bool) (p : VqPair debug w) : Prop :=
  ∃ p₀ : VqPair debug w, Started n debug p₀ ∧ Relation.ReflTransGen Pair.Step p₀ p

def VqSound (hn : IsRingSize n) (debug : Bool) (p : VqPair debug w) (g : VqGhost w) : Prop :=
  (driverSpec hn debug w).Sound p.first (p.memory, g) ∧
    (deviceSpec hn debug w).Sound p.second (p.memory, g)

variable {debug : Bool} {p : VqPair debug w}

theorem Started.sound (hn : IsRingSize n) (h : Started n debug p) :
    VqSound hn debug p Exchange.start := by
  obtain ⟨ring, ring', callback, notify, callback', notify', io, io', vq, vq', flags, m, m', hring,
    hring', hfinds, havail, hused, hrun, hrun', hfirst, hsecond⟩ := h
  obtain ⟨rfl, havail₁, hused₁, -⟩ := created_of_run hn hring hrun
  obtain ⟨rfl, havail₂, hused₂, hchain⟩ := created_of_run hn hring' hrun'
  have hinv : RingInv n (p.memory, (Exchange.start : VqGhost w)) := by
    refine ⟨Exchange.valid_start, by simp, by simp, List.nodup_nil, by simp, ?_, ?_, window_nil,
      window_nil⟩
    · exact havail₂.trans (havail₁.trans havail)
    · exact hused₂.trans (hused₁.trans hused)
  refine ⟨?_, ?_⟩
  · rw [hfirst]
    refine ⟨⟨p.memory.desc, p.memory.availRing, [], 0, []⟩,
      ⟨hinv, rfl, rfl, rfl, rfl, List.prefix_rfl, le_rfl⟩, ?_⟩
    refine ⟨hring, rfl, rfl, ⟨(List.range n).map UInt16.ofNat, ?_⟩, rfl, rfl, ?_, le_rfl, rfl⟩
    · have hnone : DriverView.underWay (⟨p.memory.desc, p.memory.availRing, [], 0, []⟩ :
          DriverView w) = [] := rfl
      rw [hnone]
      refine ⟨hchain, by simp, ?_, fun o ho => absurd ho List.not_mem_nil, fun _ _ _ => rfl⟩
      rw [List.length_map, List.length_range]
      exact hring
    · exact fun i hi => absurd hi (Nat.not_lt_zero _)
  · rw [hsecond]
    refine ⟨⟨p.memory.usedRing, 0, [], []⟩, ⟨hinv, rfl, rfl, rfl, List.prefix_rfl⟩, ?_⟩
    exact ⟨hring', rfl, hfinds, rfl, rfl, fun i hi => absurd hi (Nat.not_lt_zero _), rfl⟩

theorem VqSound.step (hn : IsRingSize n) {p' : VqPair debug w} {g : VqGhost w}
    (h : VqSound hn debug p g) (hstep : Pair.Step p p') :
    ∃ g', VqSound hn debug p' g' ∧ Exchange.Act g g' := by
  obtain ⟨g', hguar, hsound⟩ := sound_of_step (S := driverSpec hn debug w)
    (T := deviceSpec hn debug w) (fun _ _ h => h.1) (fun _ _ h => h.1) (driverContract_self n)
    (deviceContract_self n) hstep h.1 h.2
  exact ⟨g', hsound, hguar.elim And.right And.right⟩

theorem VqReached.sound (hn : IsRingSize n) (h : VqReached n debug p) : ∃ g, VqSound hn debug p g := by
  obtain ⟨p₀, hstart, hsteps⟩ := h
  exact sound_of_reached (S := driverSpec hn debug w) (T := deviceSpec hn debug w)
    (fun _ _ h => h.1) (fun _ _ h => h.1) (driverContract_self n) (deviceContract_self n) hsteps
    ⟨_, hstart.sound hn⟩

theorem MetalIoRegion.Mapped.finds {io : MetalIoRegion w} (h : io.Mapped) : Finds io :=
  h.physToVirt_ends

def zeroRing : Vring := ⟨fun _ => ⟨0, 0, 0, 0⟩, 0, 0, fun _ => 0, 0, 0, fun _ => ⟨0, 0⟩⟩

def twoDescs : VringAllocInfo := ⟨4096, 2⟩

theorem twoDescs_ringSize : IsRingSize 2 := ⟨1, by decide, rfl⟩

def ranTo {α : Type} (c : VqProg α) (l : α) (m : Vring) : α × Vring := (c.run m).toOption.getD (l, m)

def createTwoDescs : VqProg (Option (Virtqueue 32) × Int) :=
  virtqueueCreate true twoDescs true true twoPages true

def driverCreated : Vring := (ranTo createTwoDescs (none, 0) zeroRing).2

def bothCreated : Vring := (ranTo createTwoDescs (none, 0) driverCreated).2

def driverStart : DriverLocal 32 :=
  ⟨{ created twoDescs true true twoPages with vqFlags := virtqueueFlagEventIdx }, [], [], 0⟩

def deviceStart : DeviceLocal 32 := ⟨created twoDescs true true twoPages, [], []⟩

def firstAdded : DriverLocal 32 × Vring :=
  ranTo (driverStart.body true (.addBuffer [⟨0x1000, twoPages, 8⟩] 1 0 7)) driverStart bothCreated

def secondAdded : DriverLocal 32 × Vring :=
  ranTo (firstAdded.1.body true (.addSingleBuffer 9 ⟨0x1018, twoPages, 4⟩ true)) driverStart
    firstAdded.2

def firstTaken : DeviceLocal 32 × Vring :=
  ranTo (deviceStart.body true .getAvailableBuffer) deviceStart secondAdded.2

def secondTaken : DeviceLocal 32 × Vring :=
  ranTo (firstTaken.1.body true .getAvailableBuffer) deviceStart firstTaken.2

def secondGiven : DeviceLocal 32 × Vring :=
  ranTo (secondTaken.1.body true (.addConsumedBuffer 1 4)) deviceStart secondTaken.2

def secondCollected : DriverLocal 32 × Vring :=
  ranTo (secondAdded.1.body true .getBuffer) driverStart secondGiven.2

def twoBuffers : VqPair true 32 := ⟨secondCollected.2, .idle secondCollected.1, .idle secondGiven.1⟩

theorem bothCreated_started :
    Started 2 true (⟨bothCreated, .idle driverStart, .idle deviceStart⟩ : VqPair true 32) :=
  ⟨twoDescs, twoDescs, true, true, true, true, twoPages, twoPages, created twoDescs true true twoPages,
    created twoDescs true true twoPages, virtqueueFlagEventIdx, zeroRing, driverCreated, rfl, rfl,
    twoPages_mapped.finds, rfl, rfl, rfl, rfl, rfl, rfl⟩

theorem twoBuffers_reached : VqReached 2 true twoBuffers := by
  have hadd : ((driver true 32).body driverStart
      (DriverCall.addBuffer [⟨0x1000, twoPages, 8⟩] 1 0 7)).run bothCreated =
      .ok (firstAdded.1, firstAdded.2) := rfl
  have hadd' : ((driver true 32).body firstAdded.1
      (DriverCall.addSingleBuffer 9 ⟨0x1018, twoPages, 4⟩ true)).run firstAdded.2 =
      .ok (secondAdded.1, secondAdded.2) := rfl
  have htake : ((device true 32).body deviceStart DeviceCall.getAvailableBuffer).run secondAdded.2 =
      .ok (firstTaken.1, firstTaken.2) := rfl
  have htake' : ((device true 32).body firstTaken.1 DeviceCall.getAvailableBuffer).run firstTaken.2 =
      .ok (secondTaken.1, secondTaken.2) := rfl
  have hgive : ((device true 32).body secondTaken.1
      (DeviceCall.addConsumedBuffer 1 4)).run secondTaken.2 =
      .ok (secondGiven.1, secondGiven.2) := rfl
  have hcollect : ((driver true 32).body secondAdded.1 DriverCall.getBuffer).run secondGiven.2 =
      .ok (secondCollected.1, secondCollected.2) := rfl
  have hlegal : (driver true 32).Legal driverStart
      (DriverCall.addBuffer [⟨0x1000, twoPages, 8⟩] 1 0 7) :=
    ⟨by decide, by decide, by decide, by decide⟩
  have hlegal' : (driver true 32).Legal firstAdded.1
      (DriverCall.addSingleBuffer 9 ⟨0x1018, twoPages, 4⟩ true) :=
    ⟨Nat.le_refl 1, by decide⟩
  have hheld : (device true 32).Legal secondTaken.1 (DeviceCall.addConsumedBuffer 1 4) :=
    ⟨Nat.lt_succ_self 1, List.not_mem_nil⟩
  refine ⟨_, bothCreated_started, ?_⟩
  refine (called_first (A := driver true 32) hlegal hadd).trans ?_
  refine (called_first (A := driver true 32) hlegal' hadd').trans ?_
  refine (called_second (B := device true 32) (by trivial) htake).trans ?_
  refine (called_second (B := device true 32) (by trivial) htake').trans ?_
  refine (called_second (B := device true 32) hheld hgive).trans ?_
  exact called_first (A := driver true 32) (by trivial) hcollect

def addingFirst : VqPair true 32 :=
  ⟨bothCreated, .busy (driverStart.started (.addBuffer [⟨0x1000, twoPages, 8⟩] 1 0 7))
    (driverStart.body true (.addBuffer [⟨0x1000, twoPages, 8⟩] 1 0 7)), .idle deviceStart⟩

theorem addingFirst_reached : VqReached 2 true addingFirst := by
  have hlegal : (driver true 32).Legal driverStart
      (DriverCall.addBuffer [⟨0x1000, twoPages, 8⟩] 1 0 7) :=
    ⟨by decide, by decide, by decide, by decide⟩
  exact ⟨_, bothCreated_started, .single (.first (.call _ hlegal))⟩

end Lininoio
