import Lininoio.ChannelGroups
import Lininoio.Console
import Lininoio.FirmwareImage

/-! What `setup_remoteproc_fw` copies for the cores of an association request when the channels
have been connected by the two protocol handlers. -/

namespace Lininoio

open StateFault CircularLinks

/-- Only resources that have been set are copied, and the cursor stays within the page. -/
structure CopiesSafe (pageSize : Nat) (E : List Effect) : Prop where
  set : ∀ x, .readUnset x ∉ E
  within : ∀ fd image r, .sys (.write fd image) r ∈ E → image.length ≤ pageSize

section Core

variable {L σ : Type} (env : Env σ) (s : Daemon L σ) (c : CorePtr)

def ConsoleOnly : Prop :=
  ∀ x ∈ (s.core c).channels, ∀ ch, s.chan x = some ch → ch.ops = some consoleOpsPtr

/-- The resources of a channel are set when its handler is that of the console. -/
def SetByConsole (resources : List UInt8) (s : Daemon L σ) (x : ChanPtr) : Prop :=
  ∃ ch, s.chan x = some ch ∧
    ch.data.resources = if ch.ops = some consoleOpsPtr then some resources else none

variable {s c}

theorem ResourcesRead.setByConsole {resources : List UInt8} {cs : List ChanPtr} {U : List Effect}
    {blocks : List (List UInt8)} (h : ResourcesRead env s cs U blocks)
    (hset : ∀ x ∈ cs, SetByConsole resources s x) :
    ((∀ x ∈ cs, ∀ ch, s.chan x = some ch → ch.ops = some consoleOpsPtr) ↔ ∀ x, .readUnset x ∉ U) ∧
      ((∀ x, .readUnset x ∉ U) → U = [] ∧ blocks = List.replicate cs.length resources) := by
  induction h with
  | nil => simp
  | @set x cs U block blocks hx _ ih =>
    obtain ⟨hiff, heq⟩ := ih fun y hy => hset y (List.mem_cons_of_mem _ hy)
    obtain ⟨ch, hch, hres⟩ := hx
    obtain ⟨ch', hch', hres'⟩ := hset x List.mem_cons_self
    obtain rfl := Option.some.inj (hch.symm.trans hch')
    have hops : ch.ops = some consoleOpsPtr := by
      by_contra hne
      rw [if_neg hne, hres] at hres'
      cases hres'
    rw [if_pos hops, hres] at hres'
    obtain rfl := Option.some.inj hres'
    refine ⟨?_, fun hU => ?_⟩
    · rw [← hiff]
      simp [hch, hops]
    · obtain ⟨rfl, rfl⟩ := heq hU
      exact ⟨rfl, rfl⟩
  | @unset x cs U blocks ch hch hres _ ih =>
    have hne : ch.ops ≠ some consoleOpsPtr := by
      intro hops
      obtain ⟨ch', hch', hres'⟩ := hset x List.mem_cons_self
      obtain rfl := Option.some.inj (hch.symm.trans hch')
      simp [hops, hres] at hres'
    refine ⟨⟨fun hall => absurd (hall x List.mem_cons_self ch hch) hne, fun hU => ?_⟩, fun hU => ?_⟩
    all_goals exact absurd List.mem_cons_self (hU x)

theorem imageSize_replicate (k : Nat) (b : List UInt8) :
    imageSize (List.replicate k b) = r2pHdrSize + resourceTableSize + (4 + b.length) * k := by
  simp only [imageSize, Blocks.total, List.length_replicate, List.map_replicate, List.sum_replicate,
    smul_eq_mul, Nat.add_mul, Nat.mul_comm k]
  omega

theorem wp_setupRemoteprocFw_copies (resources : List UInt8) (pageSize : Nat)
    (hname : (s.core c).rprocName ≠ [])
    (hcount : (s.core c).nchannels = (s.core c).channels.length)
    (hset : ∀ x ∈ (s.core c).channels, SetByConsole resources s x) :
    wp (setupRemoteprocFw env c) (fun _ t => CopiesSafe pageSize (s.effectsSince t) ↔
      (ReachesCopy env s c → ConsoleOnly s c ∧ r2pHdrSize + resourceTableSize +
        (4 + resources.length) * (s.core c).nchannels ≤ pageSize)) (fun _ _ => False) s := by
  refine wp_mono (wp_setupRemoteprocFw_trace env s c) ?_ fun _ _ hf => ?_
  rotate_left
  · obtain ⟨y, hy, hnone⟩ := hf
    obtain ⟨ch, hch, -⟩ := hset y hy
    rw [hch] at hnone
    cases hnone
  intro r t ht
  obtain ⟨F, hrun, htrace, hpositive⟩ := ht
  rw [effectsSince_eq hrun.trace]
  have hreach : ReachesCopy env s c ↔ r.isSome := by rw [hpositive, and_iff_right hname]
  rw [hreach]
  cases htrace with
  | unnamed => exact iff_of_true ⟨by simp, by simp⟩ (by simp)
  | noFile => exact iff_of_true ⟨by simp, by simp⟩ (by simp)
  | noPage => exact iff_of_true ⟨by simp, by simp⟩ (by simp)
  | @written fd m U blocks w x hfd hm hread =>
    obtain ⟨hiff, heq⟩ := hread.setByConsole env hset
    have hlen : (∀ x, .readUnset x ∉ U) →
        (firmwareImage env.bigEndian env.simpleFirmwareMagic (s.core c).nchannels blocks).length =
          r2pHdrSize + resourceTableSize + (4 + resources.length) * (s.core c).nchannels := by
      intro hU
      obtain ⟨-, rfl⟩ := heq hU
      rw [← imageSize_replicate, ← length_firmwareImage env.bigEndian env.simpleFirmwareMagic,
        hcount, List.length_replicate]
    constructor
    · intro hsafe _
      have hU : ∀ x, .readUnset x ∉ U := fun x hx => hsafe.set x (by simp [hx])
      refine ⟨hiff.mpr hU, ?_⟩
      rw [← hlen hU]
      exact hsafe.within _ _ _ (List.mem_append_right _ List.mem_cons_self)
    · intro hh
      obtain ⟨honly, hfits⟩ := hh rfl
      have hU := hiff.mp honly
      obtain ⟨rfl, -⟩ := heq hU
      rw [← hlen hU] at hfits
      refine ⟨by simp, fun fd' image r hwrite => ?_⟩
      obtain ⟨⟨-, himage⟩, -⟩ : (fd' = fd ∧ image = firmwareImage env.bigEndian
          env.simpleFirmwareMagic (s.core c).nchannels blocks) ∧ r = w := by simpa using hwrite
      rwa [himage]

end Core

section Loop

variable {L σ : Type} (env : Env σ) (api : McuiodApi σ) (con : ConsoleApi σ) {n : Slot}
  {packet : Memory} {base : ChanPtr} {t : Daemon L (σ × McuioState)} {i : Nat}

theorem connect_isSome_of_console {o : OpsPtr}
    (h : ((env.withProtocols api con).ops o).connect = none) : o ≠ consoleOpsPtr := by
  intro ho
  subst ho
  simp [Env.withProtocols, Env.withMcuio, consoleOpsPtr, mcuioOpsPtr, LininoioProtoOps.beside,
    consoleOps] at h

theorem wp_addChannel_set (h : Grouped env.bigEndian packet n base t i) :
    wp (addChannel (env.withProtocols api con) n packet i)
      (fun stat u => stat = 0 → SetByConsole con.resources u (base + i)) (fun _ _ => True) t := by
  simp only [Lininoio.addChannel, wp_bind]
  refine wp_mono (wp_newChannel (env.withProtocols api con) h.holds i _) ?_ (fun _ _ _ => trivial)
  intro x u hu
  obtain ⟨E, -, -, -, hsome⟩ := hu
  cases x with
  | none => trivial
  | some x =>
    obtain ⟨rfl, -, -, -⟩ := hsome x rfl
    rw [← h.freshChan]
    simp only [wp_bind]
    refine wp_mono (wp_lininoioFindProtoOps (env.withProtocols api con) _) ?_ (fun _ _ hf => hf.elim)
    intro ops _ hh
    obtain ⟨w, table, rfl⟩ := hh
    simp only [wp_writeChannel]
    cases ops with
    | none =>
      intro _
      exact ⟨_, Function.update_self .., rfl⟩
    | some o =>
      cases ho : ((env.withProtocols api con).ops o).connect with
      | none =>
        have hne := connect_isSome_of_console env api con ho
        simp only [ho]
        intro _
        exact ⟨_, Function.update_self .., by simp [hne]⟩
      | some connect =>
        simp only [ho, wp_bind, wp_get, wp_set, wp_writeChannel, wp_emit, wp_pure]
        intro h0
        refine ⟨_, Function.update_self .., ?_⟩
        simpa using withProtocols_connect env api con ho _ _ _ h0

theorem wp_addChannels_set {m : Nat} (h : Grouped env.bigEndian packet n base t i)
    (hset : ∀ k < i, SetByConsole con.resources t (base + k)) :
    wp (addChannels (env.withProtocols api con) n packet (List.range' i m))
      (fun stat u => stat = 0 → ∀ k < i + m, SetByConsole con.resources u (base + k))
      (fun _ _ => True) t := by
  induction m generalizing i t with
  | zero => exact fun _ => hset
  | succ m ih =>
    simp only [List.range'_succ, Lininoio.addChannels, wp_bind]
    refine wp_mono (wp_and (Grouped.addChannel (env.withProtocols api con) h)
      (wp_addChannel_set env api con h)) ?_ (fun _ _ _ => trivial)
    intro stat u hu
    obtain ⟨⟨E, hrun, hgroup, -, -⟩, hnew⟩ := hu
    by_cases hstat : stat = 0
    · rw [if_neg (not_not.mpr hstat)]
      have hset' : ∀ k < i + 1, SetByConsole con.resources u (base + k) := by
        intro k hk
        rcases Nat.lt_succ_iff_lt_or_eq.mp hk with hk | rfl
        · have hold : u.chan (base + k) = t.chan (base + k) :=
            hrun.chan _ (by rw [h.freshChan]; exact Nat.add_lt_add_left hk base)
          rw [SetByConsole, hold]
          exact hset k hk
        · exact hnew hstat
      have hrest := ih hgroup hset'
      rwa [Nat.succ_add_eq_add_succ] at hrest
    · rw [if_pos hstat]
      exact fun h0 => absurd h0 hstat

end Loop

section Request

variable {L σ : Type} [NodeLists L] (env : Env σ) (api : McuiodApi σ) (con : ConsoleApi σ)

/-- For every core of an accepted request, in every state that the setup of the remote
processors comes to: the image is built safely exactly when the firmware file cannot be opened,
there is no page, or all channels of the core have the console handler and their resources
fit in the page. -/
theorem firmware_copies_safe_iff {sender : SockaddrLl} {packet : Memory} {n : Slot}
    {s : Daemon L (σ × McuioState)} (h : Accepted sender packet n s) (pageSize : Nat) :
    wp (recycleAndLoop (env.withProtocols api con) sender packet) (fun r t => r = some 0 →
      ∀ u, SetupFrame t u → ∀ j c, (u.node n).cores j = some c →
        (wp (setupRemoteprocFw (env.withProtocols api con) c)
          (fun _ v => CopiesSafe pageSize (u.effectsSince v)) (fun _ _ => False) u ↔
        (ReachesCopy (env.withProtocols api con) u c → ConsoleOnly u c ∧
          r2pHdrSize + resourceTableSize + (4 + con.resources.length) * (u.core c).nchannels ≤
            pageSize)))
      (fun f _ => f = .nullDeref ∧ MallocFails (env.withProtocols api con)) s := by
  obtain ⟨env', henv⟩ : ∃ env', env' = env.withProtocols api con := ⟨_, rfl⟩
  have hstart : ∀ j, ((loopStart env' n packet (handOut n sender s)).node n).cores j = none := by
    simp [loopStart, handOut, Node.begun, Node.recycled]
  have hzero : Grouped env'.bigEndian packet n _ (loopStart env' n packet (handOut n sender s)) 0 :=
    grouped_zero env' hstart
  have hloop := wp_and (hzero.addChannels env' (m := (ArequestPacket.nchannels packet).toNat))
    (henv ▸ wp_addChannels_set env api con (m := (ArequestPacket.nchannels packet).toNat)
      (henv ▸ hzero) fun k hk => absurd hk (Nat.not_lt_zero k))
  rw [← List.range_eq_range'] at hloop
  simp only [Nat.zero_add] at hloop
  rw [← henv]
  unfold wp
  rw [recycleAndLoop_apply env' h.free]
  refine (wp_map _ _ _ _ _).mpr (wp_mono hloop ?_ fun _ _ hf => ⟨hf.1.1, hf.1.2.1⟩)
  intro stat t ht hzero u hframe j c hc
  obtain ⟨⟨E, -, ⟨k, -, hgroup, hdone⟩, -, -, -⟩, hset⟩ := ht
  obtain rfl := Option.some.inj hzero
  obtain rfl := hdone rfl
  have hcore := (hgroup.setup hframe).holds
  have hcount : (u.core c).nchannels = (u.core c).channels.length := by
    rw [hcore.channels j c hc, hcore.nchannels j c hc]
  have hmember : ∀ x ∈ (u.core c).channels, SetByConsole con.resources u x := by
    intro x hx
    rw [hcore.channels j c hc] at hx
    obtain ⟨l, hl, rfl⟩ := List.mem_map.mp hx
    rw [SetByConsole, hframe.chan]
    exact hset rfl l (List.mem_range.mp (List.mem_of_mem_filter hl))
  have hcopies := wp_setupRemoteprocFw_copies env' con.resources pageSize (hcore.name j c hc)
    hcount hmember
  exact wp_iff (wp_mono hcopies (fun _ _ hh => hh) fun _ _ hf => hf.elim)

end Request

def consoleHost : ConsoleApi Unit := ⟨fun w => (some 0, w), fun _ w => w, List.replicate 40 1⟩

def loadingHost : Env Unit :=
  { driverHost with loadProtoHandler := fun proto w =>
      (if proto = 1 then some mcuioOpsPtr else if proto = 2 then some consoleOpsPtr else none, w) }

def protocolsHost : Env (Unit × McuioState) := loadingHost.withProtocols mcuiodHost consoleHost

def protocolsDaemon : Daemon (Links Cell) (Unit × McuioState) := daemonInit ((), mcuioStart) 3 4

-- the run itself is not to be evaluated here
attribute [local irreducible] wp in
theorem console_core_copies_safe_iff :
    wp (recycleAndLoop (loadingHost.withProtocols mcuiodHost consoleHost)
      boardAddr (atPointer (requestFrame 2 [2, 0, 2, 0]))) (fun r t => r = some 0 →
    ∀ u, SetupFrame t u → ∀ j c, (u.node 0).cores j = some c →
      (wp (setupRemoteprocFw (loadingHost.withProtocols mcuiodHost consoleHost) c)
        (fun _ v => CopiesSafe 4096 (u.effectsSince v)) (fun _ _ => False) u ↔
      (ReachesCopy (loadingHost.withProtocols mcuiodHost consoleHost) u c → ConsoleOnly u c ∧
        r2pHdrSize + resourceTableSize + (4 + consoleHost.resources.length) * (u.core c).nchannels ≤
          4096)))
    (fun f _ => f = .nullDeref ∧ MallocFails (loadingHost.withProtocols mcuiodHost consoleHost))
    protocolsDaemon :=
  firmware_copies_safe_iff loadingHost mcuiodHost consoleHost
    (request_accepted ((), mcuioStart) (by decide)) 4096

/-- The resources of an mcuio channel are read although nothing has set them. -/
theorem mcuio_channel_copied_unset : ∃ t : Daemon (Links Cell) (Unit × McuioState),
    etherRxArequest protocolsHost boardAddr (atPointer (requestFrame 1 [1, 0])) 20 protocolsDaemon =
      .ok () t ∧ ¬ CopiesSafe 4096 (protocolsDaemon.effectsSince t) := by
  have hreturns : returnsIn
      (etherRxArequest protocolsHost boardAddr (atPointer (requestFrame 1 [1, 0])) 20)
      (fun t => (protocolsDaemon.effectsSince t).any fun
        | .readUnset _ => true
        | _ => false) protocolsDaemon = true := by decide +kernel
  obtain ⟨_, t, hrun, ht⟩ := exists_of_returnsIn hreturns
  refine ⟨t, hrun, fun hsafe => ?_⟩
  obtain ⟨e, he, hunset⟩ := List.any_eq_true.mp ht
  cases e with
  | readUnset x => exact hsafe.set x he
  | _ => simp at hunset

end Lininoio
