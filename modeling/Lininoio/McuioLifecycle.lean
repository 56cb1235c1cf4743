import Lininoio.McuioDevices

/-! The life of a bus of the mcuio handler, over sequences of connect calls that return 0
and of disconnect calls for channels that are connected. -/

namespace Lininoio

section

variable {σ : Type} (api : McuiodApi σ) {r : McuioRun σ}

/-- Connect returns 0, and disconnect is called for channels that are connected. -/
def McuioCall.Legal (r : McuioRun σ) : McuioCall → Prop
  | .connect c => connectStatus api r c = 0
  | .disconnect c => r.live c = true

def EveryCall (P : McuioCall → McuioRun σ → McuioRun σ → Prop) : List McuioCall → McuioRun σ → Prop
  | [], _ => True
  | call :: calls, r => P call r (r.call api call) ∧ EveryCall P calls (r.call api call)

/-- The device of the channel is free again, unless its bus is gone. -/
def Releases (c : ChanPtr) (r r' : McuioRun σ) : Prop :=
  ∃ (b : BusPtr) (dev : Nat), r.Attached b c ∧ dev < 8 ∧ r.held c = dev ∧
    (b ∈ r'.mcuio.busses → (r'.mcuio.bus b).IsFree dev)

/-- No bus is gone that a channel points to, and none is left whose devices are all free. -/
structure BussesInUse (r : McuioRun σ) : Prop where
  pointed : ∀ b c, r.Attached b c → b ∈ r.mcuio.busses
  used : ∀ b ∈ r.mcuio.busses, ∃ dev < 8, ¬ (r.mcuio.bus b).IsFree dev

/-- Connect removes no bus. Disconnect releases the device of its channel, and removes the
bus of the channel, and no other, when it was the last one. -/
def LifecycleStep (r r' : McuioRun σ) : McuioCall → Prop
  | .connect _ => r.mcuio.busses ⊆ r'.mcuio.busses ∧ BussesInUse r'
  | .disconnect c => Releases c r r' ∧ BussesInUse r' ∧ ∀ b ∈ r.mcuio.busses,
      b ∉ r'.mcuio.busses ↔ r.Attached b c ∧ ∀ d, ¬ r'.Attached b d

/-- The state after connect calls only: the devices are held that they have reserved. -/
structure OnlyConnected (r : McuioRun σ) : Prop extends BussesInUse r where
  ok : McuioOk r.mcuio
  attached : ∀ c, r.live c = true → ∃ b, r.Attached b c
  held : ∀ b c, ∀ dev < 8, r.Attached b c → r.held c = (dev : Nat) → ¬ (r.mcuio.bus b).IsFree dev
  advertised : ∀ c, r.live c = true → (r.chan c).data.adata.chanData = [0xff]

theorem onlyConnected_start (w : σ) (chan : ChanPtr → Channel) : OnlyConnected (.start w chan) where
  pointed _ _ hc := absurd hc.1 Bool.false_ne_true
  used _ hb := absurd hb List.not_mem_nil
  ok := mcuioOk_start
  attached _ hc := absurd hc Bool.false_ne_true
  held _ _ _ _ hc := absurd hc.1 Bool.false_ne_true
  advertised _ hc := absurd hc Bool.false_ne_true

def McuioRun.connected (r : McuioRun σ) (c : ChanPtr) (b : BusPtr) (d : Int) (w : σ) (m : McuioState) :
    McuioRun σ where
  world := w
  mcuio := m
  chan := Function.update r.chan c { r.chan c with data :=
    { (r.chan c).data with priv := some b, adata := ⟨lininoioEncodeCdlen 1 (r.chan c).id, [0xff]⟩ } }
  live := Function.update r.live c true
  held := Function.update r.held c d

theorem connect_zero (h : McuioOk r.mcuio) {c : ChanPtr} (hstat : connectStatus api r c = 0) :
    ∃ (b : BusPtr) (d : Int) (w : σ) (m : McuioState), r.call api (.connect c) = r.connected c b d w m ∧
      b ∈ m.busses ∧ (d = -1 ∧ m = r.mcuio ∨ ∃ dev : Nat, d = dev ∧ Takes b dev r.mcuio m) := by
  have hcall : ∀ {b d w m}, acquire api r.world r.mcuio = (some (b, d), w, m) →
      r.call api (.connect c) = r.connected c b d (api.malloc .adata w).2 m := by
    intro b d w m heq
    have hmem : (api.malloc .adata w).1 = true := by
      by_contra hmem
      rw [(connect_bus api c heq).1, if_neg hmem] at hstat
      omega
    simp [McuioRun.call, McuioRun.connected, lininoioMcuioConnect, heq, hmem]
  rcases acquire_cases api h with ⟨-, w, m, heq, -⟩ | ⟨-, -, b, hb, heq⟩ |
    ⟨-, -, b, dev, m, heq, htakes, -⟩
  · rw [(connect_noBus api c heq).1] at hstat
    omega
  · exact ⟨b, -1, _, _, hcall heq, hb, .inl ⟨rfl, rfl⟩⟩
  · exact ⟨b, dev, _, _, hcall heq, htakes.bus, .inr ⟨dev, rfl, htakes⟩⟩

theorem attached_connected {c d : ChanPtr} {b b' : BusPtr} {dev : Int} {w : σ} {m : McuioState}
    (h : (r.connected c b dev w m).Attached b' d) : d = c ∧ b' = b ∨ d ≠ c ∧ r.Attached b' d := by
  by_cases hd : d = c
  · subst hd
    have hpriv := h.2
    simp only [McuioRun.connected, Function.update_self, Option.some.injEq] at hpriv
    exact .inl ⟨rfl, hpriv.symm⟩
  · have hlive := h.1
    have hpriv := h.2
    simp only [McuioRun.connected, Function.update_of_ne hd] at hlive hpriv
    exact .inr ⟨hd, hlive, hpriv⟩

theorem OnlyConnected.connect (h : OnlyConnected r) {c : ChanPtr} (hstat : connectStatus api r c = 0) :
    OnlyConnected (r.call api (.connect c)) ∧
      r.mcuio.busses ⊆ (r.call api (.connect c)).mcuio.busses := by
  have hok : McuioOk (r.call api (.connect c)).mcuio := (keeps_connect api r.world (r.chan c) h.ok).ok
  obtain ⟨b, d, w, m, heq, hb, hcase⟩ := connect_zero api h.ok hstat
  rw [heq] at hok ⊢
  have hkept : r.mcuio.busses ⊆ m.busses := by
    rcases hcase with ⟨-, rfl⟩ | ⟨dev, -, htakes⟩
    · exact fun _ hx => hx
    · exact htakes.kept
  -- a device that is reserved stays reserved
  have hnot : ∀ b' ∈ r.mcuio.busses, ∀ dev < 8, ¬ (r.mcuio.bus b').IsFree dev →
      ¬ (m.bus b').IsFree dev := by
    intro b' hb' dev hdev hfree
    rcases hcase with ⟨-, rfl⟩ | ⟨dev', -, htakes⟩
    · exact hfree
    · rw [htakes.taken b' (hkept hb') dev hdev]
      exact fun hh => hfree (hh.1 hb')
  refine ⟨⟨⟨fun b' x hx => ?_, fun b' hb' => ?_⟩, hok, fun x hx => ?_, fun b' x dev hdev hx hheld => ?_,
    fun x hx => ?_⟩, hkept⟩
  · rcases attached_connected hx with ⟨-, rfl⟩ | ⟨-, hx⟩
    · exact hb
    · exact hkept (h.pointed b' x hx)
  · rcases hcase with ⟨-, rfl⟩ | ⟨dev, -, htakes⟩
    · exact h.used b' hb'
    · rcases htakes.added b' hb' with rfl | hold
      · exact ⟨dev, htakes.lt, fun hfree => ((htakes.taken _ hb' dev htakes.lt).mp hfree).2 ⟨rfl, rfl⟩⟩
      · obtain ⟨dev', hdev', hfree⟩ := h.used b' hold
        exact ⟨dev', hdev', hnot b' hold dev' hdev' hfree⟩
  · by_cases hxc : x = c
    · subst hxc
      exact ⟨b, by simp [McuioRun.connected], by simp [McuioRun.connected]⟩
    · obtain ⟨b', hb'⟩ := h.attached x (by simpa [McuioRun.connected, hxc] using hx)
      exact ⟨b', by simpa [McuioRun.Attached, McuioRun.connected, hxc] using hb'⟩
  · rcases attached_connected hx with ⟨rfl, rfl⟩ | ⟨hne, hx⟩
    · simp only [McuioRun.connected, Function.update_self] at hheld
      rcases hcase with ⟨rfl, -⟩ | ⟨dev', rfl, htakes⟩
      · omega
      · obtain rfl := Int.ofNat.inj hheld
        exact fun hfree => ((htakes.taken _ hb _ hdev).mp hfree).2 ⟨rfl, rfl⟩
    · simp only [McuioRun.connected, Function.update_of_ne hne] at hheld
      exact hnot b' (h.pointed b' x hx) dev hdev (h.held b' x dev hdev hx hheld)
  · by_cases hxc : x = c
    · subst hxc
      simp [McuioRun.connected]
    · simpa [McuioRun.connected, hxc] using h.advertised x (by simpa [McuioRun.connected, hxc] using hx)

theorem OnlyConnected.not_releases (h : OnlyConnected r) {c : ChanPtr} (hlive : r.live c = true) :
    ¬ Releases c r (r.call api (.disconnect c)) := by
  rintro ⟨b, dev, hb, hdev, hheld, hfree⟩
  have hsame : (r.call api (.disconnect c)).mcuio = r.mcuio := by
    simp [McuioRun.call, lininoioMcuioDisconnect, hb.2, h.advertised c hlive]
  rw [hsame] at hfree
  exact h.held b c dev hdev hb hheld (hfree (h.pointed b c hb))

theorem OnlyConnected.lifecycle_iff (h : OnlyConnected r) {calls : List McuioCall}
    (hlegal : EveryCall api (fun call r _ => call.Legal api r) calls r) :
    EveryCall api (fun call r r' => LifecycleStep r r' call) calls r ↔
      ∀ c, McuioCall.disconnect c ∉ calls := by
  induction calls generalizing r with
  | nil => exact iff_of_true trivial fun _ => List.not_mem_nil
  | cons call calls ih =>
    obtain ⟨hcall, hrest⟩ := hlegal
    cases call with
    | connect c =>
      obtain ⟨hnext, hkept⟩ := h.connect api hcall
      rw [EveryCall, ih hnext hrest]
      simp [LifecycleStep, hkept, hnext.toBussesInUse]
    | disconnect c =>
      refine iff_of_false (fun hh => ?_) fun hh => hh c List.mem_cons_self
      exact h.not_releases api hcall hh.1.1

/-- In a sequence of calls the busses live as long as they should exactly as long as nothing
is disconnected. -/
theorem mcuio_lifecycle_iff (w : σ) (chan : ChanPtr → Channel) {calls : List McuioCall}
    (hlegal : EveryCall api (fun call r _ => call.Legal api r) calls (.start w chan)) :
    EveryCall api (fun call r r' => LifecycleStep r r' call) calls (.start w chan) ↔
      ∀ c, McuioCall.disconnect c ∉ calls :=
  (onlyConnected_start w chan).lifecycle_iff api hlegal

end

theorem legal_connect_disconnect : EveryCall mcuiodHost (fun call r _ => call.Legal mcuiodHost r)
    [.connect 0, .disconnect 0] mcuioStartRun :=
  ⟨rfl, rfl, trivial⟩

theorem connect_disconnect_lifecycle : EveryCall mcuiodHost (fun call r r' => LifecycleStep r r' call)
      [.connect 0, .disconnect 0] mcuioStartRun ↔
    ∀ c, McuioCall.disconnect c ∉ [.connect 0, .disconnect 0] :=
  mcuio_lifecycle_iff mcuiodHost () _ legal_connect_disconnect

/-- The first device of a bus is not given back. -/
theorem first_device_not_released : ¬ EveryCall mcuiodHost (fun call r r' => LifecycleStep r r' call)
    [.connect 0, .disconnect 0] mcuioStartRun := by
  intro hh
  have hconn := ((onlyConnected_start () _).connect mcuiodHost legal_connect_disconnect.1).1
  exact hconn.not_releases mcuiodHost legal_connect_disconnect.2.1 hh.2.1.1

end Lininoio
