import Lininoio.FrameContents

/-! What the mcuio handler writes to its bus for a data frame, on hosts of both byte orders
and with the receive buffer as recvfrom leaves it. -/

namespace Lininoio

/-- A data packet on the wire, where the length field is little endian. -/
def dataFrame (chanId : UInt8) (cargo : List UInt8) : List UInt8 :=
  3 :: u16Bytes false (lininoioEncodeCdlen (UInt16.ofNat cargo.length) chanId) ++ cargo

def wireDlen (bigEndian : Bool) (p : Memory) : Nat :=
  (lininoioDecodeCdlen (le16toh bigEndian (DataPacket.cdlen bigEndian p))).1.toNat

/-- The handler of every channel with a bus writes the cargo of the frame, which has been
received as a whole, with the length that has been decoded before. -/
structure CargoWritten (bigEndian : Bool) (buf : Memory) (frame cargo : List UInt8) : Prop where
  written : ∀ (σ : Type) (api : McuiodApi σ) (c : Channel) (bus : BusPtr) (w : σ) (m : McuioState),
    c.data.priv = some bus → lininoioMcuioInboundPacket api bigEndian c (received buf frame) w m =
      ((api.write (m.bus bus).fd cargo w).2, m)
  decoded : hostDlen bigEndian (received buf frame) = wireDlen bigEndian (received buf frame)
  received : (frame.take recvBufSize).length = frame.length

section

variable {chanId : UInt8} {cargo : List UInt8} {bigEndian : Bool} {buf : Memory}

theorem length_dataFrame (chanId : UInt8) (cargo : List UInt8) :
    (dataFrame chanId cargo).length = 3 + cargo.length := by
  simp only [dataFrame, List.cons_append, List.length_cons, List.length_append, length_u16Bytes]
  omega

theorem received_eq {frame : List UInt8} {i : Nat} (hi : i < frame.length) (hbuf : i < recvBufSize) :
    received buf frame i = frame[i] := by
  simp [received, memcpy, hbuf, hi]

variable (buf chanId) in
theorem received_cdlen (hlen : 3 + cargo.length ≤ 1500) :
    (received buf (dataFrame chanId cargo) 1).toNat = cargo.length % 256 ∧
      (received buf (dataFrame chanId cargo) 2).toNat =
        16 * (chanId.toNat % 16) + cargo.length / 256 := by
  have henc := toNat_encodeCdlen (UInt16.ofNat cargo.length) chanId
  rw [UInt16.toNat_ofNat'] at henc
  have hframe := length_dataFrame chanId cargo
  constructor
  · rw [received_eq (by omega) (by decide)]
    simp only [dataFrame, u16Bytes, Bool.false_eq_true, if_false, List.cons_append, List.nil_append,
      List.getElem_cons_succ, List.getElem_cons_zero, UInt8.toNat_ofNat', henc]
    omega
  · rw [received_eq (by omega) (by decide)]
    simp only [dataFrame, u16Bytes, Bool.false_eq_true, if_false, List.cons_append, List.nil_append,
      List.getElem_cons_succ, List.getElem_cons_zero, UInt8.toNat_ofNat', henc]
    omega

theorem wireDlen_received (hlen : 3 + cargo.length ≤ 1500) :
    wireDlen bigEndian (received buf (dataFrame chanId cargo)) = cargo.length := by
  obtain ⟨hlo, hhi⟩ := received_cdlen chanId buf hlen
  rw [wireDlen, (toNat_decodeCdlen _).1, DataPacket.cdlen, le16toh_loadU16, hlo,
    show (1 + 1 : Nat) = 2 from rfl, hhi]
  omega

theorem hostDlen_received_iff (hlen : 3 + cargo.length ≤ 1500) :
    hostDlen bigEndian (received buf (dataFrame chanId cargo)) = cargo.length ↔
      bigEndian = false ∨ cargo.length % 256 = 16 * (chanId.toNat % 16) + cargo.length / 256 := by
  obtain ⟨hlo, hhi⟩ := received_cdlen chanId buf hlen
  rw [hostDlen_eq, hlo, hhi]
  cases bigEndian with
  | false =>
    simp only [Bool.false_eq_true, if_false, true_or, iff_true]
    omega
  | true =>
    simp only [if_true, Bool.true_eq_false, false_or]
    omega

theorem inboundData_received (hbuf : 3 + cargo.length ≤ recvBufSize)
    (hlen : hostDlen bigEndian (received buf (dataFrame chanId cargo)) = cargo.length) :
    inboundData bigEndian (received buf (dataFrame chanId cargo)) = cargo := by
  have hframe := length_dataFrame chanId cargo
  rw [inboundData, hlen]
  apply List.ext_getElem
  · simp
  · intro i hi hi'
    rw [List.getElem_map, List.getElem_range, DataPacket.data, received_eq (by omega) (by omega)]
    simp [dataFrame, u16Bytes, Nat.add_comm 3 i]

/-- For every frame that the link can carry the handler writes exactly its cargo on hosts
that are little endian, or when the two bytes of the length field are equal, as long as
the frame fits in the receive buffer. -/
theorem inbound_cargo_written_iff (bigEndian : Bool) (buf : Memory) (chanId : UInt8)
    {cargo : List UInt8} (hlen : 3 + cargo.length ≤ 1500) :
    CargoWritten bigEndian buf (dataFrame chanId cargo) cargo ↔
      (bigEndian = false ∨ cargo.length % 256 = 16 * (chanId.toNat % 16) + cargo.length / 256) ∧
        3 + cargo.length ≤ recvBufSize := by
  have hframe := length_dataFrame chanId cargo
  constructor
  · intro hh
    have hdecoded := hh.decoded
    have hreceived := hh.received
    rw [wireDlen_received hlen, hostDlen_received_iff hlen] at hdecoded
    rw [List.length_take, hframe] at hreceived
    exact ⟨hdecoded, by omega⟩
  · rintro ⟨horder, hbuf⟩
    have hdlen : hostDlen bigEndian (received buf (dataFrame chanId cargo)) = cargo.length :=
      (hostDlen_received_iff hlen).mpr horder
    refine ⟨fun σ api c bus w m hpriv => ?_, by rw [hdlen, wireDlen_received hlen], ?_⟩
    · have hwrite : lininoioMcuioInboundPacket api bigEndian c (received buf (dataFrame chanId cargo))
          w m = ((api.write (m.bus bus).fd
            (inboundData bigEndian (received buf (dataFrame chanId cargo))) w).2, m) := by
        simp only [lininoioMcuioInboundPacket, hpriv, inboundData, hostDlen]
      rw [hwrite, inboundData_received hbuf hdlen]
    · rw [List.length_take, hframe]
      omega

end

theorem short_frame_written_iff : CargoWritten true (fun _ => 0) (dataFrame 0 [7]) [7] ↔
    (true = false ∨ 1 % 256 = 16 * ((0 : UInt8).toNat % 16) + 1 / 256) ∧ 3 + 1 ≤ recvBufSize :=
  inbound_cargo_written_iff true (fun _ => 0) 0 (by decide)

/-- On a big endian host the length 1 is read as 256, and on any host a frame of 1025 bytes
is cut. -/
theorem cargo_not_written : ¬ CargoWritten true (fun _ => 0) (dataFrame 0 [7]) [7] ∧
    ¬ CargoWritten false (fun _ => 0) (dataFrame 0 (List.replicate 1022 7))
      (List.replicate 1022 7) := by
  constructor
  · intro hh
    have hdecoded := hh.decoded
    rw [wireDlen_received (by decide), hostDlen_received_iff (by decide)] at hdecoded
    exact absurd hdecoded (by decide)
  · intro hh
    have hreceived := hh.received
    rw [List.length_take, length_dataFrame, List.length_replicate] at hreceived
    exact absurd hreceived (by decide)

end Lininoio
