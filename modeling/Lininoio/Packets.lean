import Mathlib.Data.Nat.Bitwise

/-! The packet formats of include/lininoio.h, read from the bytes a packet
pointer points at, on a host of either byte order. -/

namespace Lininoio

abbrev lininoioMaxNchannels : Nat := 16

abbrev lininoioMaxNcores : Nat := 8

abbrev lininoioNProtos : Nat := 2 ^ 13

/-- The bytes from a pointer on. -/
abbrev Memory := Nat → UInt8

def loadU16 (bigEndian : Bool) (p : Memory) (off : Nat) : UInt16 :=
  if bigEndian then UInt16.ofNat ((p off).toNat * 256 + (p (off + 1)).toNat)
  else UInt16.ofNat ((p (off + 1)).toNat * 256 + (p off).toNat)

def u16Bytes (bigEndian : Bool) (v : UInt16) : List UInt8 :=
  let le := [UInt8.ofNat (v.toNat % 256), UInt8.ofNat (v.toNat / 256)]
  if bigEndian then le.reverse else le

@[simp] theorem length_u16Bytes (bigEndian : Bool) (v : UInt16) :
    (u16Bytes bigEndian v).length = 2 := by
  cases bigEndian <;> rfl

def le16toh (bigEndian : Bool) (v : UInt16) : UInt16 :=
  if bigEndian then UInt16.ofNat (v.toNat % 256 * 256 + v.toNat / 256) else v

/-- `htole32`, of which only the low byte is kept by its one user. -/
def htole32 (bigEndian : Bool) (v : UInt8) : UInt32 :=
  if bigEndian then UInt32.ofNat (v.toNat * 2 ^ 24) else v.toUInt32

theorem le16toh_loadU16 (bigEndian : Bool) (p : Memory) (off : Nat) :
    (le16toh bigEndian (loadU16 bigEndian p off)).toNat =
      (p off).toNat + 256 * (p (off + 1)).toNat := by
  have h0 := (p off).toNat_lt
  have h1 := (p (off + 1)).toNat_lt
  cases bigEndian with
  | false =>
    simp only [le16toh, loadU16, Bool.false_eq_true, if_false, UInt16.toNat_ofNat']
    omega
  | true =>
    have hload : (loadU16 true p off).toNat = (p off).toNat * 256 + (p (off + 1)).toNat := by
      simp only [loadU16, if_true, UInt16.toNat_ofNat']
      omega
    have hdiv : ((p off).toNat * 256 + (p (off + 1)).toNat) / 256 = (p off).toNat := by omega
    have hmod : ((p off).toNat * 256 + (p (off + 1)).toNat) % 256 = (p (off + 1)).toNat := by omega
    simp only [le16toh, if_true, UInt16.toNat_ofNat', hload, hdiv, hmod]
    clear hload hdiv hmod
    omega

inductive LininoioPacketType
  | arequest
  | areply
  | data

/-- The switch on the type byte. -/
def LininoioPacketType.ofByte (b : UInt8) : Option LininoioPacketType :=
  if b = 1 then some .arequest
  else if b = 2 then some .areply
  else if b = 3 then some .data
  else none

theorem ofByte_eq_arequest {b : UInt8} : LininoioPacketType.ofByte b = some .arequest ↔ b = 1 := by
  unfold LininoioPacketType.ofByte
  by_cases h1 : b = 1
  · simp [h1]
  · by_cases h2 : b = 2 <;> by_cases h3 : b = 3 <;> simp [h1, h2, h3]

theorem ofByte_eq_data {b : UInt8} : LininoioPacketType.ofByte b = some .data ↔ b = 3 := by
  unfold LininoioPacketType.ofByte
  by_cases h3 : b = 3
  · simp [h3]
  · by_cases h1 : b = 1 <;> by_cases h2 : b = 2 <;> simp [h1, h2, h3]

namespace ArequestPacket

def slaveName (p : Memory) : List UInt8 := (List.range 16).map (fun i => p (1 + i))

def nchannels (p : Memory) : UInt8 := p 17

/-- `chan_descr[i]`, in the byte order of the host. -/
def chanDescr (bigEndian : Bool) (p : Memory) (i : Nat) : UInt16 :=
  loadU16 bigEndian p (18 + 2 * i)

end ArequestPacket

namespace DataPacket

def cdlen (bigEndian : Bool) (p : Memory) : UInt16 := loadU16 bigEndian p 1

def data (p : Memory) : Memory := fun i => p (3 + i)

end DataPacket

def lininoioCdescrToCoreId (chanDescr : UInt16) : UInt8 := (chanDescr >>> 13).toUInt8

def lininoioCdescrToProtoId (chanDescr : UInt16) : UInt16 := chanDescr &&& 0x1fff

/-- The returned length, and what is stored through a `chan_id` that is not NULL. -/
def lininoioDecodeCdlen (cdlen : UInt16) : UInt16 × UInt8 :=
  (cdlen &&& 0xfff, (cdlen >>> 12).toUInt8)

def lininoioEncodeCdlen (dlen : UInt16) (chanId : UInt8) : UInt16 :=
  (chanId.toUInt16 <<< 12) ||| (dlen &&& 0xfff)

theorem toNat_cdescrToCoreId (d : UInt16) :
    (lininoioCdescrToCoreId d).toNat = d.toNat / 2 ^ 13 := by
  have hd : d.toNat < 65536 := d.toNat_lt
  have hshift : (lininoioCdescrToCoreId d).toNat = d.toNat / 2 ^ 13 % 256 := by
    simp [lininoioCdescrToCoreId, Nat.shiftRight_eq_div_pow]
  rw [hshift]
  omega

theorem cdescrToCoreId_lt (d : UInt16) : (lininoioCdescrToCoreId d).toNat < lininoioMaxNcores := by
  have hd : d.toNat < 65536 := d.toNat_lt
  rw [toNat_cdescrToCoreId, lininoioMaxNcores]
  omega

theorem toNat_cdescrToProtoId (d : UInt16) :
    (lininoioCdescrToProtoId d).toNat = d.toNat % 2 ^ 13 := by
  simp only [lininoioCdescrToProtoId, UInt16.toNat_and]
  exact Nat.and_two_pow_sub_one_eq_mod _ 13

theorem toNat_encodeCdlen (dlen : UInt16) (chanId : UInt8) :
    (lininoioEncodeCdlen dlen chanId).toNat = 2 ^ 12 * (chanId.toNat % 2 ^ 4) + dlen.toNat %
      2 ^ 12 := by
  have hid : chanId.toNat <<< 12 % 2 ^ 16 = 2 ^ 12 * (chanId.toNat % 2 ^ 4) := by
    rw [Nat.shiftLeft_eq]
    omega
  have hlen : dlen.toNat &&& 0xfff = dlen.toNat % 2 ^ 12 := Nat.and_two_pow_sub_one_eq_mod _ 12
  have hor := Nat.two_pow_add_eq_or_of_lt (Nat.mod_lt dlen.toNat (Nat.two_pow_pos 12))
    (chanId.toNat % 2 ^ 4)
  rw [hor, ← hid, ← hlen]
  rfl

theorem toNat_decodeCdlen (cdlen : UInt16) : (lininoioDecodeCdlen cdlen).1.toNat =
    cdlen.toNat % 2 ^ 12 ∧
    (lininoioDecodeCdlen cdlen).2.toNat = cdlen.toNat / 2 ^ 12 := by
  have hc : cdlen.toNat < 65536 := cdlen.toNat_lt
  have hshift : (lininoioDecodeCdlen cdlen).2.toNat = cdlen.toNat / 2 ^ 12 % 256 := by
    simp [lininoioDecodeCdlen, Nat.shiftRight_eq_div_pow]
  refine ⟨?_, by rw [hshift]; omega⟩
  simp only [lininoioDecodeCdlen, UInt16.toNat_and]
  exact Nat.and_two_pow_sub_one_eq_mod _ 12

theorem decodeCdlen_encodeCdlen {dlen : UInt16} {chanId : UInt8} (hlen : dlen.toNat < 2 ^ 12)
    (hid : chanId.toNat < 2 ^ 4) : lininoioDecodeCdlen (lininoioEncodeCdlen dlen chanId) =
    (dlen, chanId) := by
  obtain ⟨hl, hc⟩ := toNat_decodeCdlen (lininoioEncodeCdlen dlen chanId)
  rw [toNat_encodeCdlen] at hl hc
  have hdlen : (lininoioDecodeCdlen (lininoioEncodeCdlen dlen chanId)).1.toNat = dlen.toNat := by omega
  have hchan : (lininoioDecodeCdlen (lininoioEncodeCdlen dlen chanId)).2.toNat =
    chanId.toNat := by omega
  exact Prod.ext (UInt16.toNat_inj.mp hdlen) (UInt8.toNat_inj.mp hchan)

end Lininoio
