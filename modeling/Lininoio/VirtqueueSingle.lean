import Lininoio.VirtqueueRuns

/-! `virtqueue_add_single_buffer`, beside the function for any number of segments, and with the flag
for a buffer that goes on in the next call. -/

namespace Lininoio

open SharedMemory CircularBuffers FreeChains

variable {w n : Nat}

theorem vqassert_cases (debug c : Bool) (msg : String) :
    vqassert debug c msg = pure () ∨ vqassert debug c msg = .fail (.assertion msg) := by
  cases debug <;> cases c <;> simp [vqassert]

theorem inTable_cases (vq : Virtqueue w) (idx : UInt16) :
    inTable vq idx = pure () ∨ inTable vq idx = .fail .wildAccess := by
  rw [inTable]
  exact (em _).imp (if_pos ·) (if_neg ·)

theorem vqueueBusy_cases (debug : Bool) (vq : Virtqueue w) :
    (∃ vq', vqueueBusy debug vq = pure vq') ∨
      vqueueBusy debug vq = .fail (.assertion "VirtQueue already in use") := by
  cases debug with
  | false => exact .inl ⟨vq, rfl⟩
  | true =>
    cases hinuse : vq.vqInuse with
    | false => exact .inl ⟨_, vqueueBusy_of hinuse⟩
    | true =>
      right
      simp [vqueueBusy, hinuse, vqassert]

theorem Vring.modifyDesc_modifyDesc (i : UInt16) (f g : VringDesc → VringDesc) (r : Vring) :
    (r.modifyDesc i f).modifyDesc i g = r.modifyDesc i (g ∘ f) := by
  simp [Vring.modifyDesc]

theorem run_orDescFlags_bind {α : Type} (c : Bool) (i flag : UInt16) (f : Unit → VqProg α)
    (m : Vring) : (orDescFlags c i flag >>= f).run m =
      (f ()).run (m.modifyDesc i fun d => { d with flags := d.flags ||| if c then flag else 0 }) := by
  cases c with
  | true => rfl
  | false =>
    have hsame : (m.modifyDesc i fun d => { d with flags := d.flags ||| 0 }) = m := by
      simp [Vring.modifyDesc]
    simp only [Bool.false_eq_true, if_false, hsame]
    rfl

section Segment

variable {α : Type} (sg : MetalSg w) (head : UInt16) (hasNext writable : Bool) (f : UInt16 → VqProg α)
  (m : Vring)

theorem run_addSegment : Prog.run (do
      .store (Vring.modifyDesc head fun d =>
        { d with addr := (metalIoVirtToPhys sg.io sg.virt).setWidth 64 })
      .store (Vring.modifyDesc head fun d => { d with len := sg.len.toUInt32 })
      .store (Vring.modifyDesc head fun d => { d with flags := 0 })
      let idx ← .load fun r => (r.desc head).next
      orDescFlags hasNext head vringDescFNext
      orDescFlags writable head vringDescFWrite
      f idx) m =
    (f (m.desc head).next).run (m.modifyDesc head fun d => filled d sg hasNext writable) := by
  simp only [Prog.run_store_bind, Prog.run_load_bind, run_orDescFlags_bind,
    Vring.modifyDesc_modifyDesc, Vring.desc_modifyDesc_self]
  congr 2
  funext d
  simp [filled]

theorem run_ringAddBufferFrom_one {debug : Bool} {vq : Virtqueue w} {readable : Int}
    (hend : vqassert debug (head != vqRingDescChainEnd) "premature end of free desc chain" = pure ())
    (htable : inTable vq head = pure ()) :
    (ringAddBufferFrom debug vq readable 1 1 0 head [sg] >>= f).run m =
      (f (m.desc head).next).run (m.modifyDesc head fun d => filled d sg false (readable ≤ 0)) := by
  simp only [ringAddBufferFrom, hend, htable, Prog.pure_bind, Prog.bind_assoc, Prog.run_store_bind,
    Prog.run_load_bind, run_orDescFlags_bind, Vring.modifyDesc_modifyDesc, Vring.desc_modifyDesc_self]
  congr 2
  funext d
  simp [filled]

end Segment

/-- For a single segment the function without a loop does what the other does, unless that one stops
at an assertion. -/
theorem virtqueue_single_agrees (debug : Bool) (vq : Virtqueue w) (cookie : BitVec w)
    (sg : MetalSg w) (writable : Bool) (m : Vring) :
    (virtqueueAddSingleBuffer debug vq cookie sg writable false).run m =
        (virtqueueAddBuffer debug vq [sg] (if writable then 0 else 1) (if writable then 1 else 0)
          cookie).run m ∨
    ∃ msg, (virtqueueAddBuffer debug vq [sg] (if writable then 0 else 1) (if writable then 1 else 0)
      cookie).run m = .error (.assertion msg) := by
  have hneeded : (if writable then (0 : Int) else 1) + (if writable then 1 else 0) = 1 := by
    cases writable <;> rfl
  have hcount : vqParamChk debug ((1 : Int) < 1) errorVqueueInvldParam vqueueSuccess = vqueueSuccess :=
    vqParamChk_of (by decide)
  rw [virtqueueAddSingleBuffer, virtqueueAddBuffer]
  simp only [vqRingAddBuffer, hneeded, hcount]
  obtain ⟨vq', hbusy⟩ | hbusy := vqueueBusy_cases debug vq
  swap
  · exact .inl (by rw [hbusy, Prog.fail_bind, Prog.fail_bind])
  rw [hbusy]
  simp only [Prog.pure_bind]
  by_cases hstatus : vqParamChk debug (vq.vqFreeCnt == 0) errorVringFull vqueueSuccess = vqueueSuccess
  swap
  · exact .inl (by simp only [if_neg hstatus])
  simp only [if_pos hstatus]
  obtain hcookie | hcookie := vqassert_cases debug (cookie != 0) "enqueuing with no cookie"
  swap
  · exact .inl (by simp only [hcookie, Prog.fail_bind])
  simp only [hcookie, Prog.pure_bind, vqRingAssertValidIdx]
  obtain hidx | hidx := vqassert_cases debug (vq'.vqDescHeadIdx < vq'.vqNentries) "invalid ring index"
  swap
  · exact .inr ⟨_, by simp only [hidx, Prog.fail_bind]; rfl⟩
  simp only [hidx, Prog.pure_bind]
  obtain htable | htable := inTable_cases vq' vq'.vqDescHeadIdx
  swap
  · exact .inl (by simp only [htable, Prog.fail_bind])
  simp only [htable, Prog.pure_bind]
  obtain hfresh | hfresh := vqassert_cases debug ((vq'.vqDescx vq'.vqDescHeadIdx).cookie == 0)
    "cookie already exists for index"
  swap
  · exact .inr ⟨_, by simp only [hfresh, Prog.fail_bind]; rfl⟩
  simp only [hfresh, Prog.pure_bind]
  obtain hend | hend := vqassert_cases debug (vq'.vqDescHeadIdx != vqRingDescChainEnd)
    "premature end of free desc chain"
  swap
  · exact .inr ⟨_, by simp only [Int.toNat_one, ringAddBufferFrom, hend, Prog.fail_bind]; rfl⟩
  left
  have hwritable : decide ((if writable then (0 : Int) else 1) ≤ 0) = writable := by
    cases writable <;> rfl
  refine (run_addSegment ..).trans ?_
  refine Eq.trans ?_ (run_ringAddBufferFrom_one sg _ _ m hend htable).symm
  rw [hwritable]
  rfl

section Chained

variable {debug : Bool} {vq : Virtqueue w} {m : Vring} {os : List (Offer w)} {i : UInt16}
  {rest : List UInt16}

theorem run_vqRingUpdateAvail (vq : Virtqueue w) (descIdx : UInt16) (m : Vring) :
    (vqRingUpdateAvail vq descIdx).run m =
      .ok ({ vq with vqQueuedCnt := vq.vqQueuedCnt + 1 },
      { m.setAvailRing (m.availIdx &&& (vq.vqNentries - 1)) descIdx with
        availIdx := m.availIdx + 1 }) :=
  rfl

variable (debug) in
theorem FreeTable.run_addSingle (hn : IsRingSize n) (h : FreeTable n vq m.desc os (i :: rest))
    (hheads : ∀ o ∈ os, o.chain.head? = some o.head) (hvq : vq.vqNentries = UInt16.ofNat n)
    (hinuse : vq.vqInuse = false) {cookie : BitVec w} (hcookie : cookie ≠ 0) (sg : MetalSg w)
    (writable hasNext : Bool) : ∃ vq' m' o,
      (virtqueueAddSingleBuffer debug vq cookie sg writable hasNext).run m =
        .ok ((vq', vqueueSuccess), m') ∧
      o.head = i ∧ o.chain = [i] ∧ o.cookie = cookie ∧
      FreeTable n vq' m'.desc (os ++ [o]) rest ∧
      m'.desc = Function.update m.desc i (filled (m.desc i) sg hasNext writable) ∧
      vq'.vqNentries = UInt16.ofNat n ∧ vq'.vqInuse = false := by
  obtain ⟨hi, -⟩ := h.chain
  have hbound := (h.bound hn List.mem_cons_self).1
  have hfull : (vq.vqFreeCnt == 0) = false := by
    rw [beq_eq_false_iff_ne, Ne, h.freeCnt_eq_zero hn]
    exact List.cons_ne_nil _ _
  obtain ⟨o, ho⟩ : ∃ o : Offer w, o = ⟨⟨i, [sg], if writable then 0 else 1, cookie⟩, [i]⟩ := ⟨_, rfl⟩
  obtain ⟨vq', hvq'⟩ : ∃ vq', vq' = ((vq.setInuse debug).setDescx i ⟨cookie, 1⟩).takeFree
    (m.desc i).next 1 := ⟨_, rfl⟩
  obtain ⟨m', hm'⟩ : ∃ m', m' = m.modifyDesc i fun d => filled d sg hasNext writable := ⟨_, rfl⟩
  have hlinks : ∀ x ∈ rest, (m'.desc x).next = (m.desc x).next := by
    intro x _
    by_cases heq : x = i
    · rw [hm', heq, Vring.desc_modifyDesc_self, filled]
    · rw [hm', Vring.desc_modifyDesc_of_ne heq]
  have htable : FreeTable n vq' m'.desc (os ++ [o]) rest := by
    have hbefore : FreeTable n vq m.desc os (o.chain ++ rest) := by
      rw [ho]
      exact h
    refine hbefore.take hn (by rw [ho]; rfl) hheads hlinks ?_ ?_ ?_
    · rw [ho, hvq']
      exact ⟨hi, rfl⟩
    · rw [ho, hvq']
      rfl
    · rw [ho, hvq']
      rfl
  have hassert : vqRingAssertHead debug vq' (m.desc i).next = pure () := by
    have hh := htable.headAsserts debug hn (by rw [hvq']; exact hvq)
    rw [hvq'] at hh ⊢
    exact hh
  refine ⟨{ vq'.setInuse false with vqQueuedCnt := vq'.vqQueuedCnt + 1 },
    { m'.setAvailRing (m'.availIdx &&& (vq'.vqNentries - 1)) i with availIdx := m'.availIdx + 1 }, o,
    ?_, by rw [ho], by rw [ho], by rw [ho], ?_, ?_, ?_, rfl⟩
  · rw [virtqueueAddSingleBuffer, vqParamChk_of hfull, vqueueBusy_of hinuse]
    simp only [Prog.pure_bind, if_true, Virtqueue.vqDescHeadIdx_setInuse, hi]
    rw [vqassert_of (by simpa using hcookie), inTable_of hn (by exact hvq) hbound]
    simp only [Prog.pure_bind]
    refine (run_addSegment ..).trans ?_
    rw [← hvq', hassert, Prog.pure_bind, ← hm', Prog.run_bind (run_vqRingUpdateAvail vq' i m'),
      vqueueIdle_of (by rw [hvq']; rfl)]
    rfl
  · exact ⟨htable.chain, htable.perm, htable.freeCnt, htable.used, htable.unused⟩
  · rw [hm']
    rfl
  · rw [hvq']
    exact hvq

theorem filled_flags (d : VringDesc) (sg : MetalSg w) (hasNext writable : Bool) :
    (filled d sg hasNext writable).flags &&& vringDescFIndirect = 0 ∧
    ((filled d sg hasNext writable).flags &&& vringDescFNext ≠ 0 ↔ hasNext = true) := by
  cases hasNext <;> cases writable <;> simp only [filled] <;> decide

/-- Two buffers of one segment, the descriptor of the first of which is flagged to go on in that of
the second. -/
structure TwoChained (n : Nat) (debug : Bool) (vq : Virtqueue w) (desc : UInt16 → VringDesc)
    (i j : UInt16) (cookie cookie' : BitVec w) : Prop where
  nentries : vq.vqNentries = UInt16.ofNat n
  ne : i ≠ j
  first_lt : i.toNat < n
  second_lt : j.toNat < n
  full : vqRingAssertIfFull debug vq = pure ()
  first : vq.vqDescx i = ⟨cookie, 1⟩
  second : vq.vqDescx j = ⟨cookie', 1⟩
  direct : (desc i).flags &&& vringDescFIndirect = 0
  more : (desc i).flags &&& vringDescFNext ≠ 0
  next : (desc i).next = j
  last : ¬ (desc j).flags &&& vringDescFNext ≠ 0

theorem TwoChained.run_vqRingFreeChain {j : UInt16} {cookie cookie' : BitVec w} (hn : IsRingSize n)
    (h : TwoChained n debug vq m.desc i j cookie cookie') : (vqRingFreeChain debug vq i).run m =
      if debug then .error (.assertion "failed to free entire desc chain, remaining")
      else .ok ((vq.setDescx i ⟨cookie, 65535⟩).putFree i 1,
        m.modifyDesc j fun d => { d with next := vq.vqDescHeadIdx }) := by
  have htwo : 2 ≤ n := by
    have hne : i.toNat ≠ j.toNat := fun hh => h.ne (UInt16.toNat_inj.mp hh)
    have hi := h.first_lt
    have hj := h.second_lt
    omega
  obtain ⟨r, hr⟩ : ∃ r, vq.vqNentries.toNat = r + 1 + 1 :=
    ⟨n - 2, by rw [h.nentries, hn.toNat_ofNat]; omega⟩
  have hwalk : ∀ c, (ringFreeChainFrom debug vq (r + 1 + 1) i c).run m = .ok ((j, c - 1), m) := by
    intro c
    rw [ringFreeChainFrom, Prog.run_load_bind, if_pos h.more, Prog.run_load_bind, h.next,
      validIdx_of hn h.nentries h.second_lt, inTable_of hn h.nentries h.second_lt, Prog.pure_bind,
      Prog.pure_bind, ringFreeChainFrom, Prog.run_load_bind, if_neg h.last]
    rfl
  rw [vqRingFreeChain, validIdx_of hn h.nentries h.first_lt, inTable_of hn h.nentries h.first_lt,
    h.full]
  simp only [Prog.pure_bind, Prog.run_load_bind, if_pos h.direct, h.first, hr]
  rw [Prog.run_bind (hwalk _)]
  cases debug <;> rfl

/-- What becomes of the buffers when the first is given back. -/
def MixedUp (debug : Bool) (vq : Virtqueue w) (m : Vring) (i j : UInt16) (cookie cookie' : BitVec w) :
    Prop :=
  if debug then (virtqueueGetBuffer debug vq).run m =
    .error (.assertion "failed to free entire desc chain, remaining")
  else ∃ vq' u m', (virtqueueGetBuffer debug vq).run m = .ok ((vq', some u), m') ∧
    u.cookie = cookie ∧ vq'.vqDescHeadIdx = i ∧ (m'.desc i).next = j ∧
    (vq'.vqDescx j).cookie = cookie'

theorem TwoChained.mixedUp {j : UInt16} {cookie cookie' : BitVec w} (hn : IsRingSize n)
    (h : TwoChained n debug vq m.desc i j cookie cookie') (hinuse : vq.vqInuse = false)
    (hne : m.usedIdx ≠ vq.vqUsedConsIdx)
    (hid : (m.usedRing (vq.vqUsedConsIdx &&& (vq.vqNentries - 1))).id.toUInt16 = i) :
    MixedUp debug vq m i j cookie cookie' := by
  have hbusy : TwoChained n debug (vq.setInuse debug).nextUsed m.desc i j cookie cookie' :=
    ⟨h.nentries, h.ne, h.first_lt, h.second_lt, h.full, h.first, h.second, h.direct, h.more, h.next,
      h.last⟩
  have hfree := hbusy.run_vqRingFreeChain hn
  have hget : (virtqueueGetBuffer debug vq).run m =
      (vqRingFreeChain debug (vq.setInuse debug).nextUsed i >>= fun vq' => pure
        (vqueueIdle debug (vq'.setDescx i { vq'.vqDescx i with cookie := 0 }),
          some ⟨(vq'.vqDescx i).cookie, (m.usedRing (vq.vqUsedConsIdx &&& (vq.vqNentries - 1))).len,
            vq.vqUsedConsIdx &&& (vq.vqNentries - 1)⟩)).run m := by
    rw [virtqueueGetBuffer, Prog.run_load_bind, if_neg hne.symm, vqueueBusy_of hinuse, ← hid]
    rfl
  rw [MixedUp, hget]
  cases debug with
  | true =>
    rw [if_pos rfl] at hfree ⊢
    exact Prog.run_bind_error _ hfree
  | false =>
    rw [if_neg Bool.false_ne_true] at hfree ⊢
    refine ⟨_, _, _, Prog.run_bind hfree, ?_, rfl, ?_, ?_⟩
    · change (Function.update vq.vqDescx i _ i).cookie = cookie
      rw [Function.update_self]
    · rw [Vring.desc_modifyDesc_of_ne h.ne, h.next]
    · change (Function.update (Function.update vq.vqDescx i _) i _ j).cookie = cookie'
      rw [Function.update_of_ne h.ne.symm, Function.update_of_ne h.ne.symm, h.second]

/-- A buffer that is enqueued in two calls, chained by `has_next`, does not come back: when the device
gives it back, the debug build stops, and otherwise the second descriptor is free while its
buffer is still enqueued. -/
theorem virtqueue_chained_singles {p : VqPair debug w} (hn : IsRingSize n) (h : VqReached n debug p)
    {d : DriverLocal w} (hd : p.first = .idle d) (hroom : 2 ≤ d.vq.vqFreeCnt.toNat)
    {cookie cookie' : BitVec w} (hcookie : cookie ≠ 0) (hcookie' : cookie' ≠ 0) (sg sg' : MetalSg w)
    (writable writable' : Bool) : ∃ vq₁ m₁ vq₂ m₂,
    (virtqueueAddSingleBuffer debug d.vq cookie sg writable true).run p.memory =
      .ok ((vq₁, vqueueSuccess), m₁) ∧
    (virtqueueAddSingleBuffer debug vq₁ cookie' sg' writable' false).run m₁ =
      .ok ((vq₂, vqueueSuccess), m₂) ∧
    ∀ m, m.desc = m₂.desc → m.usedIdx ≠ vq₂.vqUsedConsIdx →
      (m.usedRing (vq₂.vqUsedConsIdx &&& (vq₂.vqNentries - 1))).id.toUInt16 = d.vq.vqDescHeadIdx →
      MixedUp debug vq₂ m d.vq.vqDescHeadIdx vq₁.vqDescHeadIdx cookie cookie' := by
  obtain ⟨g, hfirst, -⟩ := h.sound hn
  rw [hd] at hfirst
  obtain ⟨k, hat, hknows⟩ := hfirst
  obtain ⟨free, htable⟩ := hknows.table
  have hheads : ∀ o ∈ k.underWay, o.chain.head? = some o.head := hat.outstanding ▸ hat.inv.heads
  rw [← hat.desc] at htable
  obtain ⟨i, j, rest, rfl⟩ : ∃ i j rest, free = i :: j :: rest := by
    rw [htable.toNat_freeCnt hn] at hroom
    obtain _ | ⟨i, _ | ⟨j, rest⟩⟩ := free
    · simp at hroom
    · simp at hroom
    · exact ⟨i, j, rest, rfl⟩
  obtain ⟨hfirstIdx, hlink, -⟩ := htable.chain
  obtain ⟨vq₁, m₁, o, hrun, hhead, hchain, hck, htable₁, hdesc, hvq₁, hinuse₁⟩ :=
    htable.run_addSingle debug hn hheads hknows.nentries hknows.inuse hcookie sg writable true
  have hheads₁ : ∀ o' ∈ k.underWay ++ [o], o'.chain.head? = some o'.head := by
    intro o' ho'
    rcases List.mem_append.mp ho' with ho' | ho'
    · exact hheads o' ho'
    · rw [List.mem_singleton.mp ho', hchain, hhead]
      rfl
  obtain ⟨vq₂, m₂, o', hrun', hhead', hchain', hck', htable₂, hdesc', hvq₂, hinuse₂⟩ :=
    htable₁.run_addSingle debug hn hheads₁ hvq₁ hinuse₁ hcookie' sg' writable' false
  refine ⟨vq₁, m₁, vq₂, m₂, hrun, hrun', fun m hm hne hid => ?_⟩
  have hij : i ≠ j := by
    have hnodup := (List.nodup_append.mp (htable.nodup hn)).1
    exact fun hh => (List.nodup_cons.mp hnodup).1 (hh ▸ List.mem_cons_self)
  have hmi : m.desc i = filled (p.memory.desc i) sg true writable := by
    rw [hm, hdesc', Function.update_of_ne hij, hdesc, Function.update_self]
  have hmj : m.desc j = filled (m₁.desc j) sg' false writable' := by
    rw [hm, hdesc', Function.update_self]
  rw [hfirstIdx] at hid ⊢
  rw [htable₁.chain.head]
  refine TwoChained.mixedUp hn ⟨hvq₂, hij, ?_, ?_, htable₂.chainTerm debug hn, ?_, ?_, ?_, ?_, ?_, ?_⟩
    hinuse₂ hne hid
  · exact (htable.bound hn List.mem_cons_self).1
  · exact (htable₁.bound hn List.mem_cons_self).1
  · have hh := htable₂.used o (by simp)
    rwa [hhead, hck, hchain] at hh
  · have hh := htable₂.used o' (by simp)
    rwa [hhead', hck', hchain'] at hh
  · rw [hmi]
    exact (filled_flags _ _ _ _).1
  · rw [hmi]
    exact (filled_flags _ _ _ _).2.mpr rfl
  · rw [hmi]
    exact hlink
  · rw [hmj]
    exact fun hh => Bool.false_ne_true ((filled_flags _ _ _ _).2.mp hh)

def chainedFirst : (Virtqueue 32 × Int) × Vring :=
  ranTo (virtqueueAddSingleBuffer true driverStart.vq 7 ⟨0x1000, twoPages, 8⟩ false true)
    (driverStart.vq, 0) bothCreated

def chainedSecond : (Virtqueue 32 × Int) × Vring :=
  ranTo (virtqueueAddSingleBuffer true chainedFirst.1.1 9 ⟨0x1018, twoPages, 4⟩ true false)
    (driverStart.vq, 0) chainedFirst.2

def chainedTaken : DeviceLocal 32 × Vring :=
  ranTo (deviceStart.body true .getAvailableBuffer) deviceStart chainedSecond.2

def chainedGiven : DeviceLocal 32 × Vring :=
  ranTo (chainedTaken.1.body true (.addConsumedBuffer 0 12)) deviceStart chainedTaken.2

/-- Two buffers of 8 and 4 bytes that are chained, of which the device gives back the first. -/
theorem chainedGiven_mixedUp : chainedSecond.1.2 = vqueueSuccess ∧
    chainedGiven.1.completed = [(0, 12)] ∧
    MixedUp true chainedSecond.1.1 chainedGiven.2 0 1 7 9 := by
  have hcookies : (7 : BitVec 32) ≠ 0 ∧ (9 : BitVec 32) ≠ 0 := by decide
  obtain ⟨vq₁, m₁, vq₂, m₂, hfirst, hsecond, hmixed⟩ :=
    virtqueue_chained_singles twoDescs_ringSize ⟨_, bothCreated_started, .refl⟩ rfl (by decide)
      hcookies.1 hcookies.2 ⟨0x1000, twoPages, 8⟩ ⟨0x1018, twoPages, 4⟩ false true
  obtain ⟨hvq₁, rfl⟩ : chainedFirst.1 = (vq₁, vqueueSuccess) ∧ chainedFirst.2 = m₁ :=
    Prod.ext_iff.mp (Except.ok.inj hfirst)
  obtain rfl := congrArg Prod.fst hvq₁
  obtain ⟨hvq₂, rfl⟩ : chainedSecond.1 = (vq₂, vqueueSuccess) ∧ chainedSecond.2 = m₂ :=
    Prod.ext_iff.mp (Except.ok.inj hsecond)
  obtain rfl := congrArg Prod.fst hvq₂
  exact ⟨congrArg Prod.snd hvq₂, rfl, hmixed chainedGiven.2 rfl (by decide) rfl⟩

end Chained

end Lininoio
