import Lininoio.ChannelTable
import Lininoio.Isolation
import Lininoio.ListsSound

/-! What of the receive buffer decides what the daemon does with a frame. The length of
the frame is never looked at, so that a frame may be completed by what is behind it. -/

namespace Lininoio

open StateFault CircularLinks

/-- The data length in the header of a data packet, as a protocol handler reads it. -/
def hostDlen (bigEndian : Bool) (p : Memory) : Nat :=
  (lininoioDecodeCdlen (DataPacket.cdlen bigEndian p)).1.toNat

/-- Protocol handlers read a data packet as far as its header says. -/
def InboundLocal {σ : Type} (env : Env σ) : Prop :=
  ∀ o f, (env.ops o).inboundPacket = some f → ∀ (p p' : Memory),
    (∀ i < 3 + hostDlen env.bigEndian p, p i = p' i) → ∀ ch w, f ch p w = f ch p' w

theorem hostDlen_congr {bigEndian : Bool} {p p' : Memory} (h : ∀ i < 3, p i = p' i) :
    hostDlen bigEndian p = hostDlen bigEndian p' := by
  have hcdlen : DataPacket.cdlen bigEndian p = DataPacket.cdlen bigEndian p' := by
    simp only [DataPacket.cdlen, loadU16, h 1 (by omega), h 2 (by omega)]
  rw [hostDlen, hcdlen, hostDlen]

theorem hostDlen_eq (bigEndian : Bool) (p : Memory) : hostDlen bigEndian p =
    (if bigEndian then (p 1).toNat * 256 + (p 2).toNat else (p 2).toNat * 256 + (p 1).toNat) %
      2 ^ 12 := by
  have h1 := (p 1).toNat_lt
  have h2 := (p 2).toNat_lt
  rw [hostDlen, (toNat_decodeCdlen _).1, DataPacket.cdlen, loadU16, show (1 + 1 : Nat) = 2 from rfl]
  cases bigEndian <;> simp only [Bool.false_eq_true, if_false, if_true, UInt16.toNat_ofNat'] <;> omega

def inboundData (bigEndian : Bool) (p : Memory) : List UInt8 :=
  (List.range (hostDlen bigEndian p)).map (DataPacket.data p)

theorem inboundData_congr {bigEndian : Bool} {p p' : Memory} (h : ∀ i < 3 + hostDlen bigEndian p,
    p i = p' i) :
    inboundData bigEndian p = inboundData bigEndian p' := by
  have hlen : hostDlen bigEndian p = hostDlen bigEndian p' := hostDlen_congr fun i hi => h i (by omega)
  rw [inboundData, inboundData, ← hlen]
  apply List.map_congr_left
  intro i hi
  exact h (3 + i) (Nat.add_lt_add_left (List.mem_range.mp hi) 3)

theorem inboundLocal_mcuio {σ : Type} {env : Env σ} (h : InboundLocal env) (api : McuiodApi σ)
    (mcuio : OpsPtr) :
    InboundLocal (env.withMcuio api mcuio) := by
  intro o f hf p p' hagree ch w
  by_cases ho : o = mcuio
  · have hinbound : f = fun c p s => lininoioMcuioInboundPacket api env.bigEndian c p s.1 s.2 := by
      simpa [Env.withMcuio, ho, mcuioOps] using hf.symm
    subst hinbound
    have hdata : inboundData env.bigEndian p = inboundData env.bigEndian p' := inboundData_congr hagree
    show lininoioMcuioInboundPacket api env.bigEndian ch p w.1 w.2 =
      lininoioMcuioInboundPacket api env.bigEndian ch p' w.1 w.2
    cases hpriv : ch.data.priv with
    | none => simp only [lininoioMcuioInboundPacket, hpriv]
    | some bus =>
      have hwrite : ∀ p, lininoioMcuioInboundPacket api env.bigEndian ch p w.1 w.2 =
          ((api.write (w.2.bus bus).fd (inboundData env.bigEndian p) w.1).2, w.2) := by
        intro p
        simp only [lininoioMcuioInboundPacket, hpriv]
        rfl
      rw [hwrite, hwrite, hdata]
  · obtain ⟨g, hg, rfl⟩ : ∃ g, (env.ops o).inboundPacket = some g ∧
      (fun c p s => (g c p s.1, s.2)) = f := by
      simpa [Env.withMcuio, ho, LininoioProtoOps.beside] using hf
    exact congrArg (·, w.2) (h o g hg p p' hagree ch w.1)

/-- What a frame of `len` bytes does is decided by these bytes. -/
def FrameIndependent (bigEndian : Bool) (len : Nat) (p : Memory) : Prop :=
  ∀ (σ : Type) (env : Env σ), env.bigEndian = bigEndian → InboundLocal env →
    ∀ (s : Daemon (Links Cell) σ) (sender : SockaddrLl) (p' : Memory), (∀ i < len, p i = p' i) →
      etherRxCb env sender p len s = etherRxCb env sender p' len s

structure CompleteFrame (bigEndian : Bool) (len : Nat) (p : Memory) : Prop where
  type : 1 ≤ len
  arequest : p 0 = 1 → 18 ≤ len ∧
    ((ArequestPacket.nchannels p).toNat ≤ lininoioMaxNchannels →
      18 + 2 * (ArequestPacket.nchannels p).toNat ≤ len)
  data : p 0 = 3 → 2 ≤ len ∧ ((p 1).toNat < lininoioMaxNchannels → 3 + hostDlen bigEndian p ≤ len)

section Complete

variable {L σ : Type} [NodeLists L] {env : Env σ} {p p' : Memory} {len : Nat}

omit [NodeLists L] in
theorem addChannels_congr (n : Slot) {is : List Nat} (h : ∀ i ∈ is,
    ArequestPacket.chanDescr env.bigEndian p i = ArequestPacket.chanDescr env.bigEndian p' i) :
    (addChannels env n p is : EtherM L σ Int) = addChannels env n p' is := by
  induction is with
  | nil => rfl
  | cons i rest ih =>
    have hone : (addChannel env n p i : EtherM L σ Int) = addChannel env n p' i := by
      simp only [addChannel, h i List.mem_cons_self]
    simp only [addChannels, hone, ih fun j hj => h j (List.mem_cons_of_mem _ hj)]

theorem etherRxArequest_congr (sender : SockaddrLl) (h18 : ∀ i < 18, p i = p' i)
    (hdescr : (ArequestPacket.nchannels p).toNat ≤ lininoioMaxNchannels →
      ∀ i < 18 + 2 * (ArequestPacket.nchannels p).toNat, p i = p' i) :
    (etherRxArequest env sender p len : EtherM L σ Unit) = etherRxArequest env sender p' len := by
  have hn : ArequestPacket.nchannels p = ArequestPacket.nchannels p' := h18 17 (by omega)
  have hname : ArequestPacket.slaveName p = ArequestPacket.slaveName p' := by
    apply List.map_congr_left
    intro i hi
    have hlt := List.mem_range.mp hi
    exact h18 (1 + i) (by omega)
  by_cases hbig : lininoioMaxNchannels < (ArequestPacket.nchannels p).toNat
  · rw [etherRxArequest, etherRxArequest, if_pos hbig, if_pos (hn ▸ hbig)]
  · have hassoc : ∀ n, (associate env n p : EtherM L σ Unit) = associate env n p' := by
      intro n
      have hloop :
          (addChannels env n p (List.range (ArequestPacket.nchannels p).toNat) : EtherM L σ Int) =
            addChannels env n p' (List.range (ArequestPacket.nchannels p).toNat) := by
        apply addChannels_congr
        intro i hi
        have hlt := List.mem_range.mp hi
        have hbytes := hdescr (not_lt.mp hbig)
        simp only [ArequestPacket.chanDescr, loadU16, hbytes (18 + 2 * i) (by omega),
          hbytes (18 + 2 * i + 1) (by omega)]
      rw [hn] at hloop
      simp only [associate, hloop, hname, hn]
    simp only [etherRxArequest, hassoc, hn]

theorem toUInt8_cdlen (bigEndian : Bool) (p : Memory) :
    (lininoioDecodeCdlen (le16toh bigEndian (DataPacket.cdlen bigEndian p))).1.toUInt8 = p 1 := by
  have hload := le16toh_loadU16 bigEndian p 1
  have h1 := (p 1).toNat_lt
  apply UInt8.toNat.inj
  rw [UInt16.toNat_toUInt8, (toNat_decodeCdlen _).1]
  simp only [DataPacket.cdlen, hload]
  omega

theorem etherDataPacket_congr (hlocal : InboundLocal env) (mac : Vector UInt8 8)
    (h2 : ∀ i < 2, p i = p' i)
    (hdata : (p 1).toNat < lininoioMaxNchannels → ∀ i < 3 + hostDlen env.bigEndian p, p i = p' i) :
    (etherDataPacket env mac p : EtherM L σ Unit) = etherDataPacket env mac p' := by
  have hid : p' 1 = p 1 := (h2 1 (by omega)).symm
  by_cases hlt : (p 1).toNat < lininoioMaxNchannels
  · have hbytes := hdata hlt
    simp only [etherDataPacket, toUInt8_cdlen, hid, hlt, dite_true]
    apply bind_congr
    intro found
    cases found with
    | none => rfl
    | some n =>
      apply bind_congr
      intro node
      cases node.channels ⟨(p 1).toNat, hlt⟩ with
      | none => rfl
      | some c =>
        apply bind_congr
        intro node'
        apply bind_congr
        intro _
        apply bind_congr
        intro aliveTo
        apply bind_congr
        intro _
        apply bind_congr
        intro ch
        cases hf : ch.ops.bind (fun o => (env.ops o).inboundPacket) with
        | none => rfl
        | some f =>
          obtain ⟨o, -, ho⟩ := Option.bind_eq_some_iff.mp hf
          have hsame : f ch p = f ch p' := funext fun w => hlocal o f ho p p' hbytes ch w
          simp only [hsame]
  · simp only [etherDataPacket, toUInt8_cdlen, hid, hlt, dite_false]

theorem CompleteFrame.congr {bigEndian : Bool} (h : CompleteFrame bigEndian len p)
    (hbe : env.bigEndian = bigEndian)
    (hlocal : InboundLocal env) (hagree : ∀ i < len, p i = p' i) (sender : SockaddrLl) :
    (etherRxCb env sender p len : EtherM L σ Unit) = etherRxCb env sender p' len := by
  subst hbe
  have htype : p' 0 = p 0 := (hagree 0 h.type).symm
  unfold etherRxCb
  rw [htype]
  by_cases hreq : p 0 = 1
  · obtain ⟨hlen, hdescr⟩ := h.arequest hreq
    rw [ofByte_eq_arequest.mpr hreq]
    apply etherRxArequest_congr
    · exact fun i hi => hagree i (by omega)
    · intro hn i hi
      have hh := hdescr hn
      exact hagree i (by omega)
  by_cases hdata : p 0 = 3
  · obtain ⟨hlen, hdlen⟩ := h.data hdata
    rw [ofByte_eq_data.mpr hdata]
    apply etherDataPacket_congr hlocal
    · exact fun i hi => hagree i (by omega)
    · intro hid i hi
      have hh := hdlen hid
      exact hagree i (by omega)
  cases htype : LininoioPacketType.ofByte (p 0) with
  | none => rfl
  | some type =>
    cases type with
    | arequest => exact absurd (ofByte_eq_arequest.mp htype) hreq
    | areply => rfl
    | data => exact absurd (ofByte_eq_data.mp htype) hdata

end Complete

/-- A host without the remote processor driver, and with protocol handlers that record
the data they get. -/
def recordingHost (bigEndian : Bool) : Env (List UInt8) where
  bigEndian := bigEndian
  ulong := .bits64
  sys call w := match call with
    | .openMiscDev => (-1, w)
    | _ => (3, w)
  loadProtoHandler _ w := (none, w)
  ops _ := ⟨none, some fun _ p _ => inboundData bigEndian p, none⟩
  firmwarePrefix := []
  simpleFirmwareMagic := 0
  fwNameSize := 64
  pdNameSize := 64
  aliveToHead _ := 0
  pastAliveTo _ := []
  unset _ := []

theorem inboundLocal_recordingHost (bigEndian : Bool) : InboundLocal (recordingHost bigEndian) := by
  rintro o f hf p p' hagree ch w
  obtain rfl := Option.some.inj hf
  exact inboundData_congr hagree

section Incomplete

variable {bigEndian : Bool} {len : Nat} {p p' : Memory}

theorem not_frameIndependent {s t t' : Daemon (Links Cell) (List UInt8)}
    (hagree : ∀ i < len, p i = p' i)
    (hrun : etherRxCb (recordingHost bigEndian) boardAddr p len s = .ok () t)
    (hrun' : etherRxCb (recordingHost bigEndian) boardAddr p' len s = .ok () t') (hne : t ≠ t') :
    ¬ FrameIndependent bigEndian len p := by
  intro hind
  have heq := hind _ _ rfl (inboundLocal_recordingHost bigEndian) s boardAddr p' hagree
  rw [hrun, hrun'] at heq
  cases heq
  exact hne rfl

def idle : Daemon (Links Cell) (List UInt8) := daemonInit [] 3 4

theorem not_mallocFails_recordingHost : ¬ MallocFails (recordingHost bigEndian) :=
  not_mallocFails fun _ _ => by simp [recordingHost]

theorem idle_request (bigEndian : Bool) (len : Nat) (h : RequestsNode p) :
    ∃ t, etherRxCb (recordingHost bigEndian) boardAddr p len idle = .ok () t ∧ t.trace ≠ idle.trace ∧
      ∀ k < (ArequestPacket.nchannels p).toNat, ∃ ch, t.chan k = some ch ∧
        ch.protocol = protocolAt bigEndian p k ∧ ch.coreId.toNat = coreIdAt bigEndian p k := by
  have hacc : Accepted boardAddr p 0 idle := ⟨h.2, search_init _, firstFree_init⟩
  obtain ⟨_, t, hrun, s₁, s₂, u, mem, stat, C, S, R, q, hassoc, rfl⟩ :=
    exists_ok_of_wp (wp_etherRxCb_accepted (recordingHost bigEndian) hacc h.1
      not_mallocFails_recordingHost len)
  refine ⟨_, hrun, ?_, ?_⟩
  · rw [hassoc.trace]
    simp
  · intro k hk
    have hstat := hassoc.granted _ (by omega) (not_connectReturns fun _ => rfl)
    have hanswer := hassoc.answer (q := q)
    obtain ⟨ch, hch, -, hproto, hcore⟩ := (hanswer.grouped hstat).chan k hk
    have hbase : idle.freshChan + k = k := Nat.zero_add k
    exact ⟨ch, hbase ▸ hch, hproto, hcore⟩

theorem untouched_idle : Untouched idle := ⟨rfl, rfl, rfl⟩

theorem idle_ignored (bigEndian : Bool) (len : Nat) (h : ¬ RequestsNode p) :
    etherRxCb (recordingHost bigEndian) boardAddr p len idle = .ok () idle := by
  obtain ⟨_, t, hrun, rfl⟩ :=
    exists_ok_of_wp (untouched_idle.wp_etherRxCb (recordingHost bigEndian) h boardAddr len)
  exact hrun

theorem not_frameIndependent_of_accepts (hagree : ∀ i < len, p i = p' i)
    (h : RequestsNode p ↔ ¬ RequestsNode p') : ¬ FrameIndependent bigEndian len p := by
  by_cases hp : RequestsNode p
  · obtain ⟨t, hrun, htrace, -⟩ := idle_request bigEndian len hp
    exact not_frameIndependent hagree hrun (idle_ignored _ _ (h.mp hp)) fun heq => htrace (heq ▸ rfl)
  · have hp' := not_not.mp fun h' => hp (h.mpr h')
    obtain ⟨t, hrun, htrace, -⟩ := idle_request bigEndian len hp'
    exact not_frameIndependent hagree (idle_ignored _ _ hp) hrun fun heq => htrace (heq ▸ rfl)

theorem not_frameIndependent_empty : ¬ FrameIndependent bigEndian 0 p := by
  have hagree : ∀ p' : Memory, ∀ i < 0, p i = p' i := fun p' i hi => absurd hi (Nat.not_lt_zero i)
  by_cases hp : RequestsNode p
  · apply not_frameIndependent_of_accepts (hagree fun _ => 2)
    exact ⟨fun _ h' => absurd h'.1 (by decide), fun _ => hp⟩
  · apply not_frameIndependent_of_accepts (hagree fun i => if i = 0 then 1 else 0)
    exact ⟨fun h => absurd h hp, fun h => absurd ⟨rfl, by decide⟩ h⟩

theorem not_frameIndependent_header (htype : p 0 = 1) (hlen : len < 18) :
    ¬ FrameIndependent bigEndian len p := by
  have hagree : ∀ v, ∀ i < len, p i = Function.update p 17 v i :=
    fun v i hi => (Function.update_of_ne (by omega) _ _).symm
  have hn : ∀ v, ArequestPacket.nchannels (Function.update p 17 v) = v :=
    fun v => Function.update_self _ _ _
  by_cases hp : (ArequestPacket.nchannels p).toNat ≤ lininoioMaxNchannels
  · apply not_frameIndependent_of_accepts (hagree 17)
    simp [RequestsNode, htype, hp, hn]
  · apply not_frameIndependent_of_accepts (hagree 0)
    simp [RequestsNode, htype, hp, hn]

theorem not_frameIndependent_descriptors (htype : p 0 = 1)
    (hn : (ArequestPacket.nchannels p).toNat ≤ lininoioMaxNchannels) (h18 : 18 ≤ len)
    (hlen : len < 18 + 2 * (ArequestPacket.nchannels p).toNat) :
      ¬ FrameIndependent bigEndian len p := by
  obtain ⟨k, hk⟩ : ∃ k, (ArequestPacket.nchannels p).toNat = k + 1 :=
    ⟨_, (Nat.succ_pred (by omega)).symm⟩
  -- the high byte of the last descriptor has not been received
  obtain ⟨p', hp'⟩ : ∃ p', p' = Function.update p (19 + 2 * k) (p (19 + 2 * k) + 1) := ⟨_, rfl⟩
  have hother : ∀ i, i ≠ 19 + 2 * k → p' i = p i := fun i hi => by rw [hp', Function.update_of_ne hi]
  have hn' : ArequestPacket.nchannels p' = ArequestPacket.nchannels p := hother 17 (by omega)
  obtain ⟨t, hrun, -, hchan⟩ := idle_request bigEndian len ⟨htype, hn⟩
  obtain ⟨t', hrun', -, hchan'⟩ := idle_request bigEndian len (p := p')
    ⟨by rw [hother 0 (by omega), htype], by rwa [hn']⟩
  refine not_frameIndependent (fun i hi => (hother i (by omega)).symm) hrun hrun' ?_
  rintro rfl
  obtain ⟨ch, hch, hproto, hcore⟩ := hchan k (by omega)
  obtain ⟨ch', hch', hproto', hcore'⟩ := hchan' k (by rw [hn']; omega)
  obtain rfl := Option.some.inj (hch.symm.trans hch')
  have hdescr : ∀ p : Memory, (le16toh bigEndian (ArequestPacket.chanDescr bigEndian p k)).toNat =
      (p (18 + 2 * k)).toNat + 256 * (p (19 + 2 * k)).toNat := by
    intro p
    have hload := le16toh_loadU16 bigEndian p (18 + 2 * k)
    rwa [show 18 + 2 * k + 1 = 19 + 2 * k by omega] at hload
  have hcores := hcore.symm.trans hcore'
  have hprotos := congrArg UInt16.toNat (hproto.symm.trans hproto')
  simp only [coreIdAt, protocolAt, toNat_cdescrToCoreId, toNat_cdescrToProtoId, hdescr,
    hother (18 + 2 * k) (by omega)]
    at hcores hprotos
  have hsame : (p (19 + 2 * k)).toNat = (p' (19 + 2 * k)).toNat := by omega
  rw [hp', Function.update_self] at hsame
  have hsucc := UInt8.toNat.inj hsame
  simp at hsucc

/-- A daemon with one node, all of whose channel ids stand for one channel with a handler. -/
def listening : Daemon (Links Cell) (List UInt8) :=
  { idle with
    lists := linksAssociated
    node := fun _ => ⟨List.replicate 16 0, some 0, fun _ => none, 0, fun _ => some 0, boardAddr⟩
    chan := fun _ => some ⟨0, 0, 0, some 0, ⟨none, ⟨0, []⟩, none⟩⟩
    timeouts := ⟨[⟨0, ⟨2, 0⟩, some .killNode, 0, true⟩], none, 1⟩ }

theorem search_listening :
    NodeLists.search (fun n => (listening.node n).addr.sllAddr = boardAddr.sllAddr)
      listening.lists = .found 0 := by
  have hh := search_linksAssociated (fun n => (listening.node n).addr.sllAddr = boardAddr.sllAddr)
  rwa [if_pos (by decide)] at hh

theorem listening_data (bigEndian : Bool) (len : Nat) (htype : p 0 = 3)
    (hid : (p 1).toNat < lininoioMaxNchannels) :
    ∃ t, etherRxCb (recordingHost bigEndian) boardAddr p len listening = .ok () t ∧
      t.world = inboundData bigEndian p ∧ t.trace ≠ listening.trace := by
  have hwp : wp (etherRxCb (recordingHost bigEndian) boardAddr p len)
      (fun _ t => t.world = inboundData bigEndian p ∧ t.trace ≠ listening.trace)
      (fun _ _ => False) listening := by
    simp only [etherRxCb, ofByte_eq_data.mpr htype, etherDataPacket, wp_bind, macToNode, wp_get,
      wp_ofNodeSearch,
      search_listening, toUInt8_cdlen, hid, dite_true, wp_readNode]
    refine ⟨?_, by simp, by simp, by simp⟩
    rintro n hn
    obtain rfl := NodeSearch.found.inj hn
    have hchannel : ∀ id, (listening.node 0).channels id = some 0 := fun _ => rfl
    have halive : (listening.node 0).aliveTo = some 0 := rfl
    have hlive : listening.timeouts.Live 0 := .inl List.mem_cons_self
    have hsys : ∀ w, ((recordingHost bigEndian).sys (.malloc .timeout) w) = (3, w) := fun _ => rfl
    have hchan : ∀ s : Daemon (Links Cell) (List UInt8), s.chan = listening.chan →
        s.chan 0 = some ⟨0, 0, 0, some 0, ⟨none, ⟨0, []⟩, none⟩⟩ := by
      intro s hs
      rw [hs]
      rfl
    simp only [hchannel, wp_bind, wp_readNode, halive, cancelAliveTimeout, wp_get, cancelTimeout,
      hlive, if_true,
      wp_setTimeouts, scheduleAliveTimeout, wp_sys, hsys, wp_pure, wp_modifyNode]
    refine (wp_readChannel _ _ (hchan _ ?_) _).mpr ?_
    · rfl
    refine ⟨rfl, ?_⟩
    show listening.trace ++ [.sys (.malloc .timeout) 3] ++ [.inboundPacket 0] ≠ listening.trace
    simp
  obtain ⟨_, t, hrun, hworld, htrace⟩ := exists_ok_of_wp hwp
  exact ⟨t, hrun, hworld, htrace⟩

theorem listening_ignored (bigEndian : Bool) (len : Nat) (htype : p 0 = 3)
    (hid : ¬ (p 1).toNat < lininoioMaxNchannels) :
    etherRxCb (recordingHost bigEndian) boardAddr p len listening = .ok () listening := by
  have hwp : wp (etherRxCb (recordingHost bigEndian) boardAddr p len) (fun _ t => t = listening)
      (fun _ _ => False) listening := by
    simp only [etherRxCb, ofByte_eq_data.mpr htype, etherDataPacket, wp_bind, macToNode, wp_get,
      wp_ofNodeSearch,
      search_listening, toUInt8_cdlen, hid, dite_false, wp_pure]
    exact ⟨fun _ _ => trivial, by simp, by simp, by simp⟩
  obtain ⟨_, t, hrun, rfl⟩ := exists_ok_of_wp hwp
  exact hrun

theorem not_frameIndependent_type (htype : p 0 = 3) : ¬ FrameIndependent bigEndian 1 p := by
  have hagree : ∀ v, ∀ i < 1, p i = Function.update p 1 v i :=
    fun v i hi => (Function.update_of_ne (by omega) _ _).symm
  have hzero : ∀ v, Function.update p 1 v 0 = 3 :=
    fun v => by rw [Function.update_of_ne (by decide), htype]
  by_cases hid : (p 1).toNat < lininoioMaxNchannels
  · obtain ⟨t, hrun, -, htrace⟩ := listening_data bigEndian 1 htype hid
    have hother := listening_ignored bigEndian 1 (hzero 16) (by simp)
    exact not_frameIndependent (hagree 16) hrun hother fun heq => htrace (heq ▸ rfl)
  · obtain ⟨t, hrun, -, htrace⟩ := listening_data bigEndian 1 (hzero 0) (by simp)
    have hother := listening_ignored bigEndian 1 htype hid
    exact not_frameIndependent (hagree 0) hother hrun fun heq => htrace (heq ▸ rfl)

theorem not_frameIndependent_of_data (htype : p 0 = 3) (hid : (p 1).toNat < lininoioMaxNchannels)
    (h2 : ∀ i < 2, p i = p' i) (hagree : ∀ i < len, p i = p' i)
    (hdata : inboundData bigEndian p ≠ inboundData bigEndian p') :
      ¬ FrameIndependent bigEndian len p := by
  obtain ⟨t, hrun, hworld, -⟩ := listening_data bigEndian len htype hid
  obtain ⟨t', hrun', hworld', -⟩ := listening_data bigEndian len (p := p')
    (by rw [← h2 0 (by omega), htype]) (by rwa [← h2 1 (by omega)])
  apply not_frameIndependent hagree hrun hrun'
  rintro rfl
  exact hdata (hworld.symm.trans hworld')

theorem not_frameIndependent_data (htype : p 0 = 3) (hid : (p 1).toNat < lininoioMaxNchannels)
    (h2 : 2 ≤ len)
    (hlen : len < 3 + hostDlen bigEndian p) : ¬ FrameIndependent bigEndian len p := by
  have hlength : ∀ p : Memory, (inboundData bigEndian p).length = hostDlen bigEndian p := fun p => by
    simp [inboundData]
  by_cases h3 : 3 ≤ len
  · obtain ⟨k, hk⟩ : ∃ k, hostDlen bigEndian p = k + 1 := ⟨_, (Nat.succ_pred (by omega)).symm⟩
    -- the last byte of the data has not been received
    obtain ⟨p', hp'⟩ : ∃ p', p' = Function.update p (3 + k) (p (3 + k) + 1) := ⟨_, rfl⟩
    have hother : ∀ i, i ≠ 3 + k → p i = p' i := fun i hi => by rw [hp', Function.update_of_ne hi]
    refine not_frameIndependent_of_data htype hid (fun i hi => hother i (by omega))
      (fun i hi => hother i (by omega)) ?_
    intro heq
    have hlast : ∀ p : Memory, hostDlen bigEndian p = k + 1 → (inboundData bigEndian p)[k]? =
      some (p (3 + k)) := by
      intro p hp
      simp [inboundData, hp, DataPacket.data]
    have hdlen : hostDlen bigEndian p' = k + 1 := by
      rw [← hk]
      exact (hostDlen_congr fun i hi => hother i (by omega)).symm
    have hbyte := (hlast p hk).symm.trans ((congrArg (·[k]?) heq).trans (hlast p' hdlen))
    rw [hp', Function.update_self] at hbyte
    simp at hbyte
  -- byte 2 has not been received, and another one changes the length
  · obtain ⟨p', hp'⟩ : ∃ p', p' = Function.update p 2 (p 2 + 1) := ⟨_, rfl⟩
    have hother : ∀ i, i ≠ 2 → p i = p' i := fun i hi => by rw [hp', Function.update_of_ne hi]
    refine not_frameIndependent_of_data htype hid (fun i hi => hother i (by omega))
      (fun i hi => hother i (by omega)) ?_
    intro heq
    have hdlen := congrArg List.length heq
    rw [hlength, hlength, hostDlen_eq, hostDlen_eq, ← hother 1 (by omega), hp', Function.update_self,
      UInt8.toNat_add] at hdlen
    have h1 := (p 1).toNat_lt
    have h2 := (p 2).toNat_lt
    have hone : (1 : UInt8).toNat = 1 := rfl
    rw [hone] at hdlen
    cases bigEndian <;> simp only [Bool.false_eq_true, if_false, if_true] at hdlen <;> omega

end Incomplete

/-- The length and the first bytes of a frame decide what it does, whatever is behind
them, exactly when all that is read of it has been received. -/
theorem frame_independent_iff (bigEndian : Bool) (len : Nat) (p : Memory) :
    FrameIndependent bigEndian len p ↔ CompleteFrame bigEndian len p := by
  constructor
  · intro hind
    refine ⟨?_, ?_, ?_⟩
    · by_contra hlen
      obtain rfl : len = 0 := by omega
      exact not_frameIndependent_empty hind
    · intro htype
      by_cases h18 : len < 18
      · exact absurd hind (not_frameIndependent_header htype h18)
      · refine ⟨not_lt.mp h18, fun hn => ?_⟩
        by_contra hlen
        exact not_frameIndependent_descriptors htype hn (not_lt.mp h18) (not_le.mp hlen) hind
    · intro htype
      have hpos : len ≠ 0 := by
        rintro rfl
        exact not_frameIndependent_empty hind
      by_cases h2 : len < 2
      · obtain rfl : len = 1 := by omega
        exact absurd hind (not_frameIndependent_type htype)
      · refine ⟨not_lt.mp h2, fun hid => ?_⟩
        by_contra hlen
        exact not_frameIndependent_data htype hid (not_lt.mp h2) (not_le.mp hlen) hind
  · intro hcomplete σ env hbe hlocal s sender p' hagree
    exact congrFun (hcomplete.congr hbe hlocal hagree sender) s

/-- A request for one channel that ends before its descriptor. -/
theorem shortRequest_completed_by_leftovers :
    ¬ FrameIndependent false 18 (atPointer (1 :: List.replicate 16 0 ++ [1])) :=
  not_frameIndependent_descriptors rfl (by decide) le_rfl (by decide)

end Lininoio
