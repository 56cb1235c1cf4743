import Lininoio.Isolation

/-! The console protocol handler of lininoio-protocol-handlers/console.c, and the daemon with
both of its protocol handlers. -/

namespace Lininoio

/-- The allocator of the console handler, and the `struct console_channel_resources` that
its connect method fills in, as long as `sizeof` says. -/
structure ConsoleApi (σ : Type) where
  malloc : σ → Option Nat × σ
  free : Option Nat → σ → σ
  resources : List UInt8

section

variable {σ : Type} (con : ConsoleApi σ)

def lininoioConsoleConnect (c : Channel) (w : σ) : (Int × ChannelData) × σ :=
  let mem := con.malloc w
  match mem.1 with
  | none => ((-1, c.data), mem.2)
  | some cc => ((0, { c.data with priv := some cc, resources := some con.resources }), mem.2)

/-- A data packet is only reported to the log. -/
def lininoioConsoleInboundPacket (_c : Channel) (_p : Memory) (w : σ) : σ := w

def lininoioConsoleDisconnect (c : Channel) (w : σ) : σ := con.free c.data.priv w

def consoleOps : LininoioProtoOps σ where
  connect := some fun c _ w => lininoioConsoleConnect con c w
  inboundPacket := some lininoioConsoleInboundPacket
  disconnect := some fun c _ w => lininoioConsoleDisconnect con c w

end

/-- The addresses of `mcuio_ops` and `console_ops`. -/
def mcuioOpsPtr : OpsPtr := 0

def consoleOpsPtr : OpsPtr := 1

section

variable {σ : Type} (env : Env σ) (api : McuiodApi σ) (con : ConsoleApi σ)

def Env.withProtocols : Env (σ × McuioState) :=
  ({ env with ops := fun o => if o = consoleOpsPtr then consoleOps con else ⟨none, none, none⟩ } :
    Env σ).withMcuio api mcuioOpsPtr

theorem mcuioConnect_resources (c : Channel) (w : σ) (m : McuioState) :
    (lininoioMcuioConnect api c w m).1.2.resources = c.data.resources := by
  unfold lininoioMcuioConnect
  generalize acquire api w m = r
  obtain ⟨found, w', m'⟩ := r
  cases found with
  | none => rfl
  | some found => cases hmem : (api.malloc .adata w').1 <;> simp [hmem]

theorem withProtocols_connect {o : OpsPtr} {f : Channel → Node → σ × McuioState →
      (Int × ChannelData) × σ × McuioState}
    (hf : ((env.withProtocols api con).ops o).connect = some f) (ch : Channel) (n : Node)
    (w : σ × McuioState) (h0 : (f ch n w).1.1 = 0) :
    (f ch n w).1.2.resources = if o = consoleOpsPtr then some con.resources else ch.data.resources := by
  by_cases hm : o = mcuioOpsPtr
  · have hne : o ≠ consoleOpsPtr := by
      subst hm
      decide
    have hconnect : f = fun c _ s => lininoioMcuioConnect api c s.1 s.2 := by
      simpa [Env.withProtocols, Env.withMcuio, hm, mcuioOps] using hf.symm
    subst hconnect
    rw [if_neg hne]
    exact mcuioConnect_resources api ch w.1 w.2
  · by_cases hc : o = consoleOpsPtr
    · subst hc
      have hconnect : f = fun c _ s => let r := lininoioConsoleConnect con c s.1; (r.1, r.2, s.2) := by
        simpa [Env.withProtocols, Env.withMcuio, hm, LininoioProtoOps.beside, consoleOps] using hf.symm
      subst hconnect
      rw [if_pos rfl]
      simp only [lininoioConsoleConnect] at h0 ⊢
      cases hmem : (con.malloc w.1).1 with
      | none => simp [hmem] at h0
      | some cc => simp
    · simp [Env.withProtocols, Env.withMcuio, hm, hc, LininoioProtoOps.beside] at hf

end

end Lininoio
