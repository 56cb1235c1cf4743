import Lininoio.VirtqueueCollect
import Lininoio.VirtqueueEnqueue

/-! Kicks and interrupts, and with them all the calls of the driver. -/

namespace Lininoio

open SharedMemory CircularBuffers FreeChains

variable {w n : Nat}

section Calls

variable {debug : Bool} {l : DriverLocal w} {k : DriverView w} {s : Vring × VqGhost w}

theorem DriverAt.wp_kick (h : DriverAt n k s) (hknows : DriverKnows n l k) :
    wp (driverKeeps n l) (DriverIdle n) (l.body debug .kick) s := by
  have hdone : ∀ t, DriverAt n k t → wp (driverKeeps n l) (DriverIdle n)
      (pure { l with
        vq := vqueueIdle debug { l.vq.setInuse debug with vqQueuedCnt := 0 }
        kicked := l.added.length } : VqProg (DriverLocal w)) t := by
    intro t ht
    refine wp_pure (driverAt_stable n l k) ht fun t ht => ⟨k, ht, ?_⟩
    obtain ⟨free, htable⟩ := hknows.table
    rw [vqueueIdle_of (by rfl)]
    refine ⟨hknows.nentries, rfl, hknows.consIdx, ⟨free, ?_⟩, hknows.added, hknows.collected,
      hknows.answered, le_rfl, by rw [Nat.sub_self]; rfl⟩
    exact ⟨htable.chain, htable.perm, htable.freeCnt, htable.used, htable.unused⟩
  rw [DriverLocal.body, virtqueueKick, vqueueBusy_of hknows.inuse]
  simp only [Prog.pure_bind, Prog.bind_assoc, vqRingMustNotifyHost]
  by_cases hevent : (l.vq.setInuse debug).vqFlags &&& virtqueueFlagEventIdx ≠ 0
  · rw [if_pos hevent]
    simp only [Prog.pure_bind, Prog.bind_assoc]
    refine h.wp_load hknows.logs fun t ht => ?_
    refine ht.wp_load hknows.logs fun t ht => ?_
    exact hdone t ht
  · rw [if_neg hevent]
    simp only [Prog.pure_bind, Prog.bind_assoc]
    refine h.wp_load hknows.logs fun t ht => ?_
    exact hdone t ht

theorem DriverKnows.ring (hknows : DriverKnows n l k) (ring : UInt16 → UInt16) :
    DriverKnows n l { k with ring := ring } :=
  ⟨hknows.nentries, hknows.inuse, hknows.consIdx, hknows.table, hknows.added, hknows.collected,
    hknows.answered, hknows.kicked, hknows.queuedCnt⟩

section Interrupts

variable {β : Type} {Q : β → Vring × VqGhost w → Prop} {p : Unit → VqProg β}

theorem DriverAt.wp_usedEvent (hn : IsRingSize n) (h : DriverAt n k s) (hl : DriverLogs n l k)
    {j x : UInt16} (hj : j = UInt16.ofNat n)
    (hnext : ∀ ring t, DriverAt n { k with ring := ring } t → wp (driverKeeps n l) Q (p ()) t) :
    wp (driverKeeps n l) Q (Prog.store (Vring.setAvailRing j x) >>= p) s := by
  have hset : ∀ t, DriverAt n k t → DriverAt n { k with ring := Function.update k.ring j x }
      (t.1.setAvailRing j x, t.2) := by
    intro t ht
    refine ⟨ht.inv.setAvailRing x fun i _ _ => ?_, ht.desc, ?_, ht.offered, ht.collected, ht.finished,
      ht.le⟩
    · have hslot := Nat.mod_lt i hn.pos
      rw [hj]
      exact ofNat_ne hn.le hslot le_rfl hslot.ne
    · simp only [Vring.setAvailRing, ht.ring]
  refine wp_store (driverAt_stable n l k) h (fun t ht => ?_) fun t ht => hnext _ _ (hset t ht)
  have hafter := hset t ht
  exact ⟨⟨⟨rfl, rfl, fun _ => hafter.inv, rfl, rfl, List.prefix_rfl⟩, .none _⟩,
    hafter.ever ⟨hl.added, hl.collected, hl.answered⟩⟩

theorem DriverAt.wp_availFlags (h : DriverAt n k s) (hl : DriverLogs n l k) {flags : UInt16}
    (hnext : ∀ t, DriverAt n k t → wp (driverKeeps n l) Q (p ()) t) :
    wp (driverKeeps n l) Q (Prog.store (fun r => { r with availFlags := flags }) >>= p) s := by
  have hset : ∀ t, DriverAt n k t → DriverAt n k ({ t.1 with availFlags := flags }, t.2) :=
    fun t ht => ⟨ht.inv.frame (fun _ _ => rfl) rfl rfl ht.inv.avail ht.inv.used, ht.desc, ht.ring,
      ht.offered, ht.collected, ht.finished, ht.le⟩
  refine wp_store (driverAt_stable n l k) h (fun t ht => ?_) fun t ht => hnext _ (hset t ht)
  have hafter := hset t ht
  exact ⟨⟨⟨rfl, rfl, fun _ => hafter.inv, rfl, rfl, List.prefix_rfl⟩, .none _⟩, hafter.ever hl⟩

end Interrupts

theorem DriverAt.wp_disableCb (hn : IsRingSize n) (h : DriverAt n k s) (hknows : DriverKnows n l k) :
    wp (driverKeeps n l) (DriverIdle n) (l.body debug .disableCb) s := by
  have hsame : vqueueIdle debug (l.vq.setInuse debug) = l.vq := by
    rw [vqueueIdle_of (by rfl), ← hknows.inuse]
    rfl
  rw [DriverLocal.body, virtqueueDisableCb, vqueueBusy_of hknows.inuse]
  simp only [Prog.pure_bind, hsame]
  by_cases hevent : (l.vq.setInuse debug).vqFlags &&& virtqueueFlagEventIdx ≠ 0
  · rw [if_pos hevent]
    simp only [Prog.pure_bind, Prog.bind_assoc]
    refine h.wp_usedEvent hn hknows.logs hknows.nentries fun ring t ht => ?_
    exact wp_pure (driverAt_stable n l _) ht fun t ht => ⟨_, ht, hknows.ring ring⟩
  · rw [if_neg hevent]
    simp only [Prog.pure_bind, Prog.bind_assoc]
    refine h.wp_load hknows.logs fun t ht => ?_
    refine ht.wp_availFlags hknows.logs fun t ht => ?_
    exact wp_pure (driverAt_stable n l k) ht fun t ht => ⟨k, ht, hknows⟩

theorem DriverAt.nused (hn : IsRingSize n) (h : DriverAt n k s) (hknows : DriverKnows n l k) :
    s.1.usedIdx - l.vq.vqUsedConsIdx = UInt16.ofNat (s.2.finished.length - k.collected) ∧
    decide (s.1.usedIdx - l.vq.vqUsedConsIdx ≤ l.vq.vqNentries) = true := by
  have hle : k.collected ≤ s.2.finished.length := h.collected ▸ h.inv.valid.collected_le
  have hroom : s.2.finished.length ≤ k.collected + n := h.collected ▸ h.inv.uncollected_le
  have hcount : s.1.usedIdx - l.vq.vqUsedConsIdx =
      UInt16.ofNat (s.2.finished.length - k.collected) := by
    rw [h.inv.usedIdx, hknows.consIdx, UInt16.ofNat_sub hle]
  have hnle := hn.le
  refine ⟨hcount, ?_⟩
  rw [hcount, hknows.nentries, decide_eq_true_iff, UInt16.le_iff_toNat_le, hn.toNat_ofNat,
    UInt16.toNat_ofNat', Nat.mod_eq_of_lt (by omega)]
  omega

theorem DriverAt.wp_virtqueueNused {β : Type} {Q : β → Vring × VqGhost w → Prop}
    {p : UInt16 → VqProg β} (hn : IsRingSize n) (h : DriverAt n k s) (hknows : DriverKnows n l k)
    (hnext : ∀ t, DriverAt n k t → ∀ c, wp (driverKeeps n l) Q (p c) t) :
    wp (driverKeeps n l) Q (virtqueueNused debug l.vq >>= p) s := by
  rw [virtqueueNused]
  simp only [Prog.bind_assoc]
  refine h.wp_load hknows.logs fun t ht => ?_
  rw [vqassert_of (ht.nused hn hknows).2]
  exact hnext t ht _

theorem DriverAt.wp_enableCb (hn : IsRingSize n) (h : DriverAt n k s) (hknows : DriverKnows n l k) :
    wp (driverKeeps n l) (DriverIdle n) (l.body debug .enableCb) s := by
  rw [DriverLocal.body, virtqueueEnableCb, vqRingEnableInterrupt]
  by_cases hevent : l.vq.vqFlags &&& virtqueueFlagEventIdx ≠ 0
  · rw [if_pos hevent]
    simp only [Prog.pure_bind, Prog.bind_assoc]
    refine h.wp_usedEvent hn hknows.logs hknows.nentries fun ring t ht => ?_
    refine ht.wp_virtqueueNused hn (hknows.ring ring) fun t ht c => ?_
    exact wp_pure (driverAt_stable n l _) ht fun t ht => ⟨_, ht, hknows.ring ring⟩
  · rw [if_neg hevent]
    simp only [Prog.pure_bind, Prog.bind_assoc]
    refine h.wp_load hknows.logs fun t ht => ?_
    refine ht.wp_availFlags hknows.logs fun t ht => ?_
    refine ht.wp_virtqueueNused hn hknows fun t ht c => ?_
    exact wp_pure (driverAt_stable n l k) ht fun t ht => ⟨k, ht, hknows⟩

end Calls

theorem DriverIdle.started {l : DriverLocal w} {c : DriverCall w} {s : Vring × VqGhost w}
    (h : DriverIdle n l s) : DriverEver n (l.started c) s := by
  obtain ⟨k, hat, hknows⟩ := h
  have hpre : l.added <+: (l.started c).added ∧ (l.started c).collected = l.collected := by
    cases c with
    | addBuffer => exact ⟨List.prefix_append _ _, rfl⟩
    | addSingleBuffer => exact ⟨List.prefix_append _ _, rfl⟩
    | _ => exact ⟨List.prefix_rfl, rfl⟩
  have hanswered : AnsweredBy n { l with added := (l.started c).added } k.finished :=
    hknows.answered.added hpre.1
  refine hat.ever ⟨hknows.logs.added.trans hpre.1, ?_, ?_⟩
  · rw [hpre.2]
    exact hknows.collected.le
  · intro i hi
    have hi' : i < l.collected.length := hpre.2 ▸ hi
    simpa only [hpre.2] using hanswered i hi'

theorem DriverIdle.wp_body (hn : IsRingSize n) {debug : Bool} {l : DriverLocal w} {c : DriverCall w}
    {s : Vring × VqGhost w} (h : DriverIdle n l s) (hlegal : l.Legal c) :
    wp (driverKeeps n (l.started c)) (DriverIdle n) (l.body debug c) s := by
  obtain ⟨k, hat, hknows⟩ := h
  cases c with
  | addBuffer sg readable writable cookie => exact hat.wp_addBuffer hn hknows hlegal
  | addSingleBuffer cookie sg writable => exact hat.wp_addSingleBuffer hn hknows hlegal
  | getBuffer => exact wp_mono (fun _ _ hh => hh.1) (hat.wp_getBuffer hn hknows)
  | kick => exact hat.wp_kick hknows
  | enableCb => exact hat.wp_enableCb hn hknows
  | disableCb => exact hat.wp_disableCb hn hknows

def driverSpec (hn : IsRingSize n) (debug : Bool) (w : Nat) :
    Spec (driver debug w) (driverContract n w) where
  Idle := DriverIdle n
  Ever := DriverEver n
  stable _ _ _ hst h := h.rely hst
  ever _ _ h := by
    obtain ⟨k, hat, hknows⟩ := h
    exact hat.ever hknows.logs
  stable_idle _ _ _ hst h := h.rely hst
  called _ _ _ h _ := h.started
  body _ _ _ h hlegal := h.wp_body hn hlegal

end Lininoio
