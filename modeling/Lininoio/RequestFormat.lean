import Lininoio.ChannelLoop
import Lininoio.MainLoop

/-! The association request as the structure that the daemon lays over it has it, and as
Documentation/lininoio.txt has it, with a slave id that the structure has no field for. -/

namespace Lininoio

structure SlaveName where
  text : List UInt8
  nonzero : 0 ∉ text
  short : text.length ≤ 16

def SlaveName.bytes (name : SlaveName) : List UInt8 :=
  name.text ++ List.replicate (16 - name.text.length) 0

structure ChanDescr where
  coreId : Fin lininoioMaxNcores
  protoId : Fin lininoioNProtos

/-- The core id in the top 3 bits, the protocol id in the low 13. -/
def ChanDescr.encode (d : ChanDescr) : UInt16 := UInt16.ofNat (d.coreId * 2 ^ 13 + d.protoId)

def descrBytes (descrs : List ChanDescr) : List UInt8 :=
  descrs.flatMap (fun d => u16Bytes false d.encode)

def documentedRequest (slaveId : UInt16) (name : SlaveName) (descrs : List ChanDescr) : List UInt8 :=
  1 :: (u16Bytes false slaveId ++ (name.bytes ++ UInt8.ofNat descrs.length :: descrBytes descrs))

/-- The request of `struct lininoio_arequest_packet`, which has no slave id. -/
def packedRequest (name : SlaveName) (descrs : List ChanDescr) : List UInt8 :=
  1 :: (name.bytes ++ UInt8.ofNat descrs.length :: descrBytes descrs)

structure DecodesTo (bigEndian : Bool) (packet : Memory) (name : SlaveName) (descrs : List ChanDescr) :
    Prop where
  slaveName : ArequestPacket.slaveName packet = name.bytes
  nchannels : (ArequestPacket.nchannels packet).toNat = descrs.length
  descr : ∀ i d, descrs[i]? = some d → coreIdAt bigEndian packet i = d.coreId ∧
    (protocolAt bigEndian packet i).toNat = d.protoId

/-- Read two bytes early, the request is still the same. -/
structure RepeatsSlaveId (slaveId : UInt16) (name : SlaveName) (descrs : List ChanDescr) : Prop where
  name : name.bytes = (List.replicate 8 (u16Bytes false slaveId)).flatten
  count : descrs.length = slaveId.toNat % 256
  descr : ∀ d ∈ descrs, d.encode.toNat = slaveId.toNat / 256 + 256 * descrs.length

theorem length_bytes (name : SlaveName) : name.bytes.length = 16 := by
  have hh := name.short
  simp only [SlaveName.bytes, List.length_append, List.length_replicate]
  omega

theorem toNat_encode (d : ChanDescr) : d.encode.toNat = d.coreId.val * 2 ^ 13 + d.protoId.val := by
  have hc : d.coreId.val < 8 := d.coreId.isLt
  have hp : d.protoId.val < 2 ^ 13 := d.protoId.isLt
  simp only [ChanDescr.encode, UInt16.toNat_ofNat']
  omega

theorem length_descrBytes (descrs : List ChanDescr) :
    (descrBytes descrs).length = 2 * descrs.length := by
  induction descrs with
  | nil => rfl
  | cons d descrs ih =>
    simp only [descrBytes, List.flatMap_cons, List.length_append, length_u16Bytes] at ih ⊢
    rw [ih, List.length_cons]
    omega

theorem getElem?_descrBytes {descrs : List ChanDescr} {i : Nat} {d : ChanDescr}
    (h : descrs[i]? = some d) :
    (descrBytes descrs)[2 * i]? = some (UInt8.ofNat (d.encode.toNat % 256)) ∧
      (descrBytes descrs)[2 * i + 1]? = some (UInt8.ofNat (d.encode.toNat / 256)) := by
  induction descrs generalizing i with
  | nil => simp at h
  | cons e descrs ih =>
    cases i with
    | zero =>
      obtain rfl : e = d := by simpa using h
      simp [descrBytes, u16Bytes]
    | succ i =>
      have hh := ih (by simpa using h)
      have h2 : 2 * (i + 1) = 2 + 2 * i := by omega
      have h3 : 2 * (i + 1) + 1 = 2 + (2 * i + 1) := by omega
      rw [h2]
      rw [show 2 + 2 * i + 1 = 2 + (2 * i + 1) by omega]
      simpa [descrBytes, List.getElem?_append, Nat.not_lt.mpr (Nat.le_add_right 2 _)] using hh

theorem eq_replicate_iff (a b : UInt8) (n : Nat) (l : List UInt8) (h : l.length = 2 * n + 2) :
    a :: b :: l.take (2 * n) = l ↔ l = (List.replicate (n + 1) [a, b]).flatten := by
  induction n generalizing l with
  | zero =>
    simp only [Nat.mul_zero, List.take_zero]
    exact eq_comm
  | succ n ih =>
    obtain ⟨x, y, l, rfl⟩ : ∃ x y l', l = x :: y :: l' := by
      match l, h with
      | x :: y :: l, _ => exact ⟨x, y, l, rfl⟩
    have hl : l.length = 2 * n + 2 := by
      simp only [List.length_cons] at h
      omega
    have htake : (x :: y :: l).take (2 * (n + 1)) = x :: y :: l.take (2 * n) := by
      rw [show 2 * (n + 1) = 2 * n + 1 + 1 by omega, List.take_succ_cons, List.take_succ_cons]
    rw [htake, List.replicate_succ, List.flatten_cons, List.cons_append, List.cons_append,
      List.nil_append]
    simp only [List.cons.injEq]
    constructor
    · intro hpost
      obtain ⟨rfl, rfl, hh⟩ := hpost
      exact ⟨rfl, rfl, (ih l hl).mp hh⟩
    · intro hpost
      obtain ⟨rfl, rfl, hh⟩ := hpost
      exact ⟨rfl, rfl, (ih l hl).mpr hh⟩

section Layout

variable {slaveId : UInt16} {name : SlaveName} {descrs : List ChanDescr} {bigEndian : Bool} {p : Memory}

def PointsAt (p : Memory) (bytes : List UInt8) : Prop := ∀ i b, bytes[i]? = some b → p i = b

theorem received_pointsAt (buf : Memory) {payload : List UInt8} (h : payload.length ≤ recvBufSize) :
    PointsAt (received buf payload) payload := by
  intro i b hb
  obtain ⟨hi, rfl⟩ := List.getElem?_eq_some_iff.mp hb
  simp [received, memcpy, List.take_of_length_le h, hi]

theorem length_packedRequest (name : SlaveName) (descrs : List ChanDescr) :
    (packedRequest name descrs).length = 18 + 2 * descrs.length := by
  simp only [packedRequest, List.length_append, List.length_cons, length_bytes, length_descrBytes]
  omega

theorem PointsAt.packed_slaveName (h : PointsAt p (packedRequest name descrs)) :
    ArequestPacket.slaveName p = name.bytes := by
  have hlen := length_bytes name
  apply List.ext_getElem
  · simp [ArequestPacket.slaveName, hlen]
  · intro i hi hi'
    simp only [ArequestPacket.slaveName, List.getElem_map, List.getElem_range]
    apply h
    rw [Nat.add_comm, packedRequest, List.getElem?_cons_succ, List.getElem?_append_left hi',
      List.getElem?_eq_getElem hi']

theorem PointsAt.packed_tail (h : PointsAt p (packedRequest name descrs)) {i : Nat} {b : UInt8}
    (hb : (UInt8.ofNat descrs.length :: descrBytes descrs)[i]? = some b) : p (17 + i) = b := by
  apply h
  rw [show 17 + i = name.bytes.length + i + 1 by rw [length_bytes]; omega, packedRequest,
    List.getElem?_cons_succ, List.getElem?_append_right (Nat.le_add_right _ _),
    Nat.add_sub_cancel_left, hb]

theorem PointsAt.packed_nchannels (h : PointsAt p (packedRequest name descrs))
    (hk : descrs.length ≤ lininoioMaxNchannels) :
    (ArequestPacket.nchannels p).toNat = descrs.length := by
  have hlt : descrs.length < 256 := by simp only [lininoioMaxNchannels] at hk; omega
  rw [ArequestPacket.nchannels, h.packed_tail (i := 0) rfl, UInt8.toNat_ofNat', Nat.mod_eq_of_lt hlt]

theorem chanDescr_of_bytes {i : Nat} {d : ChanDescr}
    (hlo : p (18 + 2 * i) = UInt8.ofNat (d.encode.toNat % 256))
    (hhi : p (18 + 2 * i + 1) = UInt8.ofNat (d.encode.toNat / 256)) :
    (le16toh bigEndian (ArequestPacket.chanDescr bigEndian p i)).toNat = d.encode.toNat := by
  have hlt : d.encode.toNat < 65536 := d.encode.toNat_lt
  rw [ArequestPacket.chanDescr, le16toh_loadU16, hlo, hhi, UInt8.toNat_ofNat', UInt8.toNat_ofNat']
  omega

theorem PointsAt.packed_descr (h : PointsAt p (packedRequest name descrs)) {i : Nat} {d : ChanDescr}
    (hd : descrs[i]? = some d) :
    (le16toh bigEndian (ArequestPacket.chanDescr bigEndian p i)).toNat = d.encode.toNat := by
  obtain ⟨hlow, hhigh⟩ := getElem?_descrBytes hd
  apply chanDescr_of_bytes
  · rw [show 18 + 2 * i = 17 + (2 * i + 1) by omega]
    exact h.packed_tail (by simpa using hlow)
  · rw [show 18 + 2 * i + 1 = 17 + (2 * i + 1 + 1) by omega]
    exact h.packed_tail (by simpa using hhigh)

theorem length_documentedRequest (slaveId : UInt16) (name : SlaveName) (descrs : List ChanDescr) :
    (documentedRequest slaveId name descrs).length = 20 + 2 * descrs.length := by
  simp only [documentedRequest, List.length_append, List.length_cons, length_bytes, length_descrBytes,
    length_u16Bytes]
  omega

theorem PointsAt.slaveName (h : PointsAt p (documentedRequest slaveId name descrs)) :
    ArequestPacket.slaveName p =
      UInt8.ofNat (slaveId.toNat % 256) :: UInt8.ofNat (slaveId.toNat / 256) :: name.bytes.take 14 := by
  have hlen := length_bytes name
  apply List.ext_getElem
  · simp [ArequestPacket.slaveName, hlen]
  · intro i hi hi'
    have h16 : i < 16 := by simpa [ArequestPacket.slaveName] using hi
    simp only [ArequestPacket.slaveName, List.getElem_map, List.getElem_range]
    apply h
    rw [← List.getElem?_eq_getElem]
    match i with
    | 0 => rfl
    | 1 => rfl
    | i + 2 =>
      have hlt : i < 14 := by omega
      rw [show 1 + (i + 2) = i + 3 by omega]
      simp [documentedRequest, u16Bytes, List.getElem?_append, hlen, hlt, Nat.lt_trans hlt]

theorem PointsAt.tail (h : PointsAt p (documentedRequest slaveId name descrs)) {i : Nat} {b : UInt8}
    (hb : (UInt8.ofNat descrs.length :: descrBytes descrs)[i]? = some b) : p (19 + i) = b := by
  apply h
  have hlen := length_bytes name
  rw [show 19 + i = 16 + i + 2 + 1 by omega]
  simpa [documentedRequest, u16Bytes, List.getElem?_append, hlen] using hb

theorem PointsAt.nameByte (h : PointsAt p (documentedRequest slaveId name descrs)) {i : Nat} {b : UInt8}
    (hb : name.bytes[i]? = some b) : p (3 + i) = b := by
  apply h
  have hi := (List.getElem?_eq_some_iff.mp hb).1
  rw [show 3 + i = i + 2 + 1 by omega]
  simpa [documentedRequest, u16Bytes, List.getElem?_append, hi] using hb

theorem PointsAt.descr_zero (h : PointsAt p (documentedRequest slaveId name descrs)) {b : UInt8}
    (hb : name.bytes[15]? = some b) (hk : descrs.length ≤ lininoioMaxNchannels) :
    (le16toh bigEndian (ArequestPacket.chanDescr bigEndian p 0)).toNat =
      b.toNat + 256 * descrs.length := by
  have hcount : p 19 = UInt8.ofNat descrs.length := h.tail (i := 0) rfl
  have hlt : descrs.length < 256 := by simp only [lininoioMaxNchannels] at hk; omega
  rw [ArequestPacket.chanDescr, le16toh_loadU16, h.nameByte hb, hcount, UInt8.toNat_ofNat',
    Nat.mod_eq_of_lt hlt]

theorem PointsAt.descr_succ (h : PointsAt p (documentedRequest slaveId name descrs))
    {i : Nat} {d : ChanDescr}
    (hd : descrs[i]? = some d) :
    (le16toh bigEndian (ArequestPacket.chanDescr bigEndian p (i + 1))).toNat = d.encode.toNat := by
  obtain ⟨hlow, hhigh⟩ := getElem?_descrBytes hd
  apply chanDescr_of_bytes
  · rw [show 18 + 2 * (i + 1) = 19 + (2 * i + 1) by omega]
    exact h.tail (by simpa using hlow)
  · rw [show 18 + 2 * (i + 1) + 1 = 19 + (2 * i + 1 + 1) by omega]
    exact h.tail (by simpa using hhigh)

theorem descr_decodes_iff (i : Nat) (d : ChanDescr) :
    (coreIdAt bigEndian p i = d.coreId ∧ (protocolAt bigEndian p i).toNat = d.protoId) ↔
      (le16toh bigEndian (ArequestPacket.chanDescr bigEndian p i)).toNat = d.encode.toNat := by
  have hp : d.protoId.val < 8192 := d.protoId.isLt
  have hcore : (coreIdAt bigEndian p i).val =
      (le16toh bigEndian (ArequestPacket.chanDescr bigEndian p i)).toNat / 8192 :=
        toNat_cdescrToCoreId _
  have hproto : (protocolAt bigEndian p i).toNat =
      (le16toh bigEndian (ArequestPacket.chanDescr bigEndian p i)).toNat % 8192 :=
        toNat_cdescrToProtoId _
  have henc : d.encode.toNat = d.coreId.val * 8192 + d.protoId.val := toNat_encode d
  rw [henc, hproto]
  constructor
  · intro hh
    obtain ⟨hc, hm⟩ := hh
    rw [hc] at hcore
    omega
  · intro hv
    exact ⟨Fin.ext (by omega), by omega⟩

theorem toNat_lowByte (v : UInt16) : (UInt8.ofNat (v.toNat % 256)).toNat = v.toNat % 256 := by
  rw [UInt8.toNat_ofNat']
  omega

theorem toNat_highByte (v : UInt16) : (UInt8.ofNat (v.toNat / 256)).toNat = v.toNat / 256 := by
  have hv : v.toNat < 65536 := v.toNat_lt
  rw [UInt8.toNat_ofNat']
  omega

theorem PointsAt.slaveName_eq_iff (h : PointsAt p (documentedRequest slaveId name descrs)) :
    ArequestPacket.slaveName p = name.bytes ↔
      name.bytes = (List.replicate 8 (u16Bytes false slaveId)).flatten := by
  rw [h.slaveName]
  exact eq_replicate_iff _ _ 7 name.bytes (length_bytes name)

theorem PointsAt.nchannels (h : PointsAt p (documentedRequest slaveId name descrs))
    (hrep : name.bytes = (List.replicate 8 (u16Bytes false slaveId)).flatten) :
    (ArequestPacket.nchannels p).toNat = slaveId.toNat % 256 := by
  have hlast : name.bytes[14]? = some (UInt8.ofNat (slaveId.toNat % 256)) := by
    rw [hrep]
    rfl
  rw [ArequestPacket.nchannels, h.nameByte hlast, toNat_lowByte]

theorem PointsAt.first_descr (h : PointsAt p (documentedRequest slaveId name descrs))
    (hrep : name.bytes = (List.replicate 8 (u16Bytes false slaveId)).flatten)
    (hk : descrs.length ≤ lininoioMaxNchannels) :
    (le16toh bigEndian (ArequestPacket.chanDescr bigEndian p 0)).toNat =
      slaveId.toNat / 256 + 256 * descrs.length := by
  have hlast : name.bytes[15]? = some (UInt8.ofNat (slaveId.toNat / 256)) := by
    rw [hrep]
    rfl
  rw [h.descr_zero hlast hk, toNat_highByte]

theorem PointsAt.descrs_iff (h : PointsAt p (documentedRequest slaveId name descrs))
    (hrep : name.bytes = (List.replicate 8 (u16Bytes false slaveId)).flatten)
    (hk : descrs.length ≤ lininoioMaxNchannels) :
    (∀ i d, descrs[i]? = some d →
      (le16toh bigEndian (ArequestPacket.chanDescr bigEndian p i)).toNat = d.encode.toNat) ↔
      ∀ d ∈ descrs, d.encode.toNat = slaveId.toNat / 256 + 256 * descrs.length := by
  constructor
  · intro hread
    -- every descriptor is read from the one before it
    have hall : ∀ (i : Nat) (d : ChanDescr), descrs[i]? = some d →
        d.encode.toNat = slaveId.toNat / 256 + 256 * descrs.length := by
      intro i
      induction i with
      | zero =>
        intro d hd
        rw [← hread 0 d hd, h.first_descr hrep hk]
      | succ i ih =>
        intro d hd
        obtain ⟨hi, -⟩ := List.getElem?_eq_some_iff.mp hd
        have hprev : descrs[i]? = some descrs[i] := List.getElem?_eq_getElem (Nat.lt_of_succ_lt hi)
        rw [← hread (i + 1) d hd, h.descr_succ hprev]
        exact ih _ hprev
    intro d hd
    obtain ⟨i, hi⟩ := List.mem_iff_getElem?.mp hd
    exact hall i d hi
  · intro hall i d hd
    rw [hall d (List.mem_of_getElem? hd)]
    cases i with
    | zero => rw [h.first_descr hrep hk]
    | succ i =>
      obtain ⟨hi, -⟩ := List.getElem?_eq_some_iff.mp hd
      have hprev : descrs[i]? = some descrs[i] := List.getElem?_eq_getElem (Nat.lt_of_succ_lt hi)
      rw [h.descr_succ hprev]
      exact hall _ (List.mem_of_getElem? hprev)

end Layout

/-- A request is read as it was sent only if reading it two bytes early makes no difference. -/
theorem request_decodes_iff (slaveId : UInt16) (name : SlaveName) (descrs : List ChanDescr)
    (hk : descrs.length ≤ lininoioMaxNchannels) (bigEndian : Bool) (buf : Memory) :
    DecodesTo bigEndian (received buf (documentedRequest slaveId name descrs)) name descrs ↔
      RepeatsSlaveId slaveId name descrs := by
  have hlen := length_documentedRequest slaveId name descrs
  have hfits : (documentedRequest slaveId name descrs).length ≤ recvBufSize := by
    simp only [lininoioMaxNchannels, recvBufSize] at hk ⊢
    omega
  have hp := received_pointsAt buf hfits
  constructor
  · intro h
    have hrep := hp.slaveName_eq_iff.mp h.slaveName
    refine ⟨hrep, ?_, ?_⟩
    · rw [← h.nchannels, hp.nchannels hrep]
    · apply (hp.descrs_iff hrep hk).mp
      exact fun i d hd => (descr_decodes_iff i d).mp (h.descr i d hd)
  · intro h
    refine ⟨hp.slaveName_eq_iff.mpr h.name, ?_, ?_⟩
    · rw [h.count, hp.nchannels h.name]
    · intro i d hd
      apply (descr_decodes_iff i d).mpr
      exact (hp.descrs_iff h.name hk).mpr h.descr i d hd

theorem packedRequest_decodes (name : SlaveName) (descrs : List ChanDescr)
    (hk : descrs.length ≤ lininoioMaxNchannels) (bigEndian : Bool) (buf : Memory) :
    DecodesTo bigEndian (received buf (packedRequest name descrs)) name descrs := by
  have hfits : (packedRequest name descrs).length ≤ recvBufSize := by
    rw [length_packedRequest]
    simp only [lininoioMaxNchannels, recvBufSize] at hk ⊢
    omega
  have hp := received_pointsAt buf hfits
  refine ⟨hp.packed_slaveName, hp.packed_nchannels hk, fun i d hd => ?_⟩
  exact (descr_decodes_iff i d).mpr (hp.packed_descr hd)

/-- A request without a slave id is read as it was sent. With the slave id it is only if
reading it two bytes early makes no difference. -/
theorem request_decodes (name : SlaveName) (descrs : List ChanDescr)
    (hk : descrs.length ≤ lininoioMaxNchannels) (bigEndian : Bool) (buf : Memory) :
    DecodesTo bigEndian (received buf (packedRequest name descrs)) name descrs ∧
      ∀ slaveId,
        (DecodesTo bigEndian (received buf (documentedRequest slaveId name descrs)) name descrs ↔
          RepeatsSlaveId slaveId name descrs) :=
  ⟨packedRequest_decodes name descrs hk bigEndian buf,
    fun slaveId => request_decodes_iff slaveId name descrs hk bigEndian buf⟩

/-- A name that repeats the slave id 0x4101. -/
def repeatingName : SlaveName := ⟨(List.replicate 8 [1, 0x41]).flatten, by decide, by decide⟩

theorem repeatingRequest_decodes :
    DecodesTo false (received (fun _ => 0) (packedRequest repeatingName [⟨0, 0x141⟩])) repeatingName
      [⟨0, 0x141⟩] ∧
    DecodesTo false (received (fun _ => 0) (documentedRequest 0x4101 repeatingName [⟨0, 0x141⟩]))
      repeatingName [⟨0, 0x141⟩] := by
  have hdecodes := request_decodes repeatingName [⟨0, 0x141⟩] (by decide) false fun _ => 0
  exact ⟨hdecodes.1, (hdecodes.2 0x4101).mpr ⟨by decide, by decide, by simp; decide⟩⟩

/-- A board with slave id 1, named "yun", with one mcuio channel. -/
theorem namedRequest_misread : ¬ DecodesTo false
    (received (fun _ => 0) (documentedRequest 1 ⟨[121, 117, 110], by decide, by decide⟩ [⟨0, 1⟩]))
    ⟨[121, 117, 110], by decide, by decide⟩ [⟨0, 1⟩] := by
  intro h
  exact absurd h.nchannels (by decide)

end Lininoio
