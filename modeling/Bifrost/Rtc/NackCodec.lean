/-
  `FeedbackRtpItemsPacket<FeedbackRtpNackItem>::Serialize` (`feedback_rtp_item.cpp`,
  `feedback_packet.cpp`, `nack_packet.cpp`) and back through `RtcpPacket::Parse`.

  An item points to four bytes in network order, and its getters turn them round, except
  `CountRequestedPackets`, which counts the bits of the bitmask as it lies there. The number
  of bits is the same (`countSetBits_rawBitmask`).
-/
import Bifrost.Rtc.CompoundBudget
import Bifrost.Rtc.RetransmissionNack

namespace Bifrost.Rtc

namespace Rtcp

open Bytes

/-! ## Writing -/

namespace FeedbackRtpNackItem

def serialize (item : FeedbackRtpNackItem) : List UInt8 :=
  put16be item.packetId ++ put16be item.lostPacketBitmask

def getSize (_ : FeedbackRtpNackItem) : Nat := 4

/-- The member `lost_packet_bitmask`, without `ntohs`. -/
def rawBitmask (item : FeedbackRtpNackItem) : UInt16 :=
  u16le (put16be item.lostPacketBitmask) 0 (Nat.le_refl 2)

/-- `Bits::CountSetBits`. -/
def countSetBits (mask : UInt16) : Nat :=
  ((List.range 16).filter fun i => mask.toNat.testBit i).length

def countRequestedPackets (item : FeedbackRtpNackItem) : Nat := countSetBits item.rawBitmask + 1

end FeedbackRtpNackItem

namespace FeedbackRtpNackPacket

/-- `FeedbackRtp::MessageType::NACK`. -/
def messageType : Nat := 1

def getCount (_ : FeedbackRtpNackPacket) : Nat := messageType

def getSize (p : FeedbackRtpNackPacket) : Nat :=
  4 + 8 + (p.items.map FeedbackRtpNackItem.getSize).sum

/-- `FeedbackPacket::Serialize`, and the items behind. -/
def serialize (p : FeedbackRtpNackPacket) : List UInt8 :=
  serializeHeader .rtpfb p.getCount p.getSize ++ (put32be p.senderSsrc ++ put32be p.mediaSsrc) ++
    p.items.flatMap FeedbackRtpNackItem.serialize

end FeedbackRtpNackPacket

/-! ## The items -/

namespace FeedbackRtpNackItem

theorem length_serialize (item : FeedbackRtpNackItem) : item.serialize.length = 4 := rfl

theorem parse_serialize (item : FeedbackRtpNackItem) (rest : List UInt8) :
    parse (item.serialize ++ rest) = some item := by
  have hid : ∀ h, u16be (item.serialize ++ rest) 0 h = item.packetId :=
    fun _ => u16be_put16be item.packetId (put16be item.lostPacketBitmask ++ rest)
  have hmask : ∀ h, u16be (item.serialize ++ rest) 2 h = item.lostPacketBitmask :=
    fun _ => u16be_put16be item.lostPacketBitmask rest
  unfold parse
  rw [dif_pos (by rw [List.length_append, length_serialize]; omega), hid, hmask]

/-- The bytes of the mask are the other way round. -/
theorem testBit_rawBitmask (item : FeedbackRtpNackItem) {i : Nat} (hi : i < 16) :
    item.rawBitmask.toNat.testBit i = item.lostPacketBitmask.toNat.testBit ((i + 8) % 16) := by
  have hraw : item.rawBitmask = (item.lostPacketBitmask >>> 8).toUInt8.toUInt16 |||
      (item.lostPacketBitmask.toUInt8.toUInt16 <<< 8) := rfl
  rw [hraw]
  simp only [UInt16.toNat_or, UInt16.toNat_shiftLeft, UInt8.toNat_toUInt16, UInt16.toNat_toUInt8,
    UInt16.toNat_shiftRight, UInt16.reduceToNat, Nat.reduceMod, Nat.testBit_or,
    Nat.testBit_shiftLeft, Nat.testBit_mod_two_pow, Nat.testBit_shiftRight]
  by_cases hlow : i < 8
  · rw [Nat.mod_eq_of_lt (show i + 8 < 16 by omega), Nat.add_comm 8 i]
    simp [hlow, hi]
  · rw [show (i + 8) % 16 = i - 8 by omega]
    simp [hlow, hi, show 8 ≤ i by omega, show i - 8 < 8 by omega]

/-- So many bits are set in them. -/
theorem countSetBits_rawBitmask (item : FeedbackRtpNackItem) :
    countSetBits item.rawBitmask = countSetBits item.lostPacketBitmask := by
  have hturn : ((List.range 16).map fun i => (i + 8) % 16).Perm (List.range 16) := by decide
  have hbits : ∀ i ∈ List.range 16, item.rawBitmask.toNat.testBit i =
      item.lostPacketBitmask.toNat.testBit ((i + 8) % 16) := fun i hi =>
    item.testBit_rawBitmask (List.mem_range.mp hi)
  unfold countSetBits
  rw [List.filter_congr hbits]
  have := (hturn.filter fun i => item.lostPacketBitmask.toNat.testBit i).length_eq
  rw [List.filter_map, List.length_map] at this
  exact this

/-- An item counts the numbers it asks for. -/
theorem countRequestedPackets_eq (item : FeedbackRtpNackItem) :
    item.countRequestedPackets =
      (RtpStreamSender.requestedNumbers item.packetId item.lostPacketBitmask).length := by
  rw [countRequestedPackets, countSetBits_rawBitmask, RtpStreamSender.requestedNumbers,
    List.length_cons, List.length_map, countSetBits]

end FeedbackRtpNackItem

/-- The loop gives back all items, when it has the rounds. -/
theorem parseItems_serialize (items : List FeedbackRtpNackItem) : ∀ (fuel : Nat),
    items.length ≤ fuel →
    parseItems fuel (items.flatMap FeedbackRtpNackItem.serialize) = items := by
  induction items with
  | nil =>
      intro fuel _
      cases fuel <;> rfl
  | cons item items ih =>
      intro fuel hfuel
      cases fuel with
      | zero => cases hfuel
      | succ fuel =>
          rw [List.length_cons] at hfuel
          rw [List.flatMap_cons, parseItems, FeedbackRtpNackItem.parse_serialize,
            List.drop_left' item.length_serialize, ih fuel (by omega)]

/-! ## The packet -/

namespace FeedbackRtpNackPacket

theorem getSize_eq (p : FeedbackRtpNackPacket) : p.getSize = 12 + 4 * p.items.length := by
  unfold getSize
  rw [@sum_map_const _ FeedbackRtpNackItem.getSize 4 fun _ => rfl]

theorem length_serialize (p : FeedbackRtpNackPacket) : p.serialize.length = p.getSize := by
  unfold serialize
  rw [List.length_append, List.length_append, length_serializeHeader, List.length_flatMap,
    sum_map_const FeedbackRtpNackItem.length_serialize, getSize_eq]
  rfl

theorem readCommonHeader_serialize (p : FeedbackRtpNackPacket) (h : 4 ≤ p.serialize.length) :
    readCommonHeader p.serialize h = serializedHeader .rtpfb p.getCount p.getSize :=
  readCommonHeader_serializeHeader .rtpfb p.getCount p.getSize (put32be p.senderSsrc ++
    put32be p.mediaSsrc ++ p.items.flatMap FeedbackRtpNackItem.serialize) h

/-- The inner parser gives the packet back. -/
theorem parse_serialize (p : FeedbackRtpNackPacket) : parse p.serialize = some p := by
  have hsize := p.getSize_eq
  have hlen := p.length_serialize
  have hcount : (serializedHeader .rtpfb p.getCount p.getSize).count = 1 := by
    show (UInt8.ofNat 1).toBitVec.setWidth 5 = 1
    decide
  have hsender : ∀ h, u32be p.serialize 4 h = p.senderSsrc :=
    fun _ => u32be_put32be p.senderSsrc []
  have hmedia : ∀ h, u32be p.serialize 8 h = p.mediaSsrc :=
    fun _ => u32be_put32be p.mediaSsrc []
  have hitems : p.serialize.drop 12 = p.items.flatMap FeedbackRtpNackItem.serialize :=
    List.drop_left' (by rw [List.length_append, length_serializeHeader]; rfl)
  unfold parse
  rw [dif_pos (by omega), readCommonHeader_serialize, if_pos hcount, hsender, hmedia, hitems,
    parseItems_serialize _ _ (by omega)]

theorem isRtcp_serialize (p : FeedbackRtpNackPacket) : RtcpPacket.isRtcp p.serialize = true := by
  have hsize := p.getSize_eq
  have hlen := p.length_serialize
  have hbyte : ∀ h, u8 p.serialize 0 h = 129 := fun _ => by
    show UInt8.ofBitVec ((2 : BitVec 2) ++ (0 : BitVec 1) ++ (UInt8.ofNat 1).toBitVec.setWidth 5) =
      129
    decide
  unfold RtcpPacket.isRtcp
  rw [dif_pos (by omega), hbyte, readCommonHeader_serialize]
  rfl

/-- The loop of `Parse` takes the whole packet in its first round. -/
theorem parseLoop_serialize {p : FeedbackRtpNackPacket} (hitems : p.items.length ≤ 65533)
    (fuel : Nat) :
    RtcpPacket.parseLoop (fuel + 1) none p.serialize = some (.feedbackRtpNack p) := by
  have hsize := p.getSize_eq
  have hextent : RtcpPacket.packetLen (serializedHeader .rtpfb p.getCount p.getSize) =
      p.serialize.length := by
    rw [p.length_serialize]
    exact packetLen_serialize rfl (by omega) (by omega) (by omega)
  have htype : RtcpType.ofByte (serializedHeader .rtpfb p.getCount p.getSize).packetType =
      .rtpfb := by
    show RtcpType.ofByte 205 = .rtpfb
    decide
  rw [parseLoop_succ p.isRtcp_serialize]
  dsimp only
  rw [readCommonHeader_serialize, hextent, if_neg (Nat.lt_irrefl _), htype, List.take_length,
    List.drop_length, RtcpPacket.parseByType, p.parse_serialize]
  cases fuel <;> rfl

/-- **A NACK packet is read back as it was written.** -/
theorem roundTrip (p : FeedbackRtpNackPacket) (hitems : p.items.length ≤ 65533) :
    p.serialize.length = p.getSize ∧ RtcpPacket.isRtcp p.serialize = true ∧
    RtcpPacket.parse p.serialize = some (.feedbackRtpNack p) ∧
    (p.items.map FeedbackRtpNackItem.countRequestedPackets).sum =
      (p.items.flatMap fun item =>
        RtpStreamSender.requestedNumbers item.packetId item.lostPacketBitmask).length := by
  have hsize := p.getSize_eq
  have hlen := p.length_serialize
  refine ⟨hlen, p.isRtcp_serialize, ?_, ?_⟩
  · have hsome : p.serialize.length = (p.serialize.length - 1) + 1 := by omega
    rw [RtcpPacket.parse, hsome]
    exact parseLoop_serialize hitems _
  · rw [List.length_flatMap]
    exact congrArg List.sum (List.map_congr_left fun item _ => item.countRequestedPackets_eq)

/-- Numbers 5 to 7, and 9. -/
theorem roundTrip_items :
    let p : FeedbackRtpNackPacket :=
      { senderSsrc := 1, mediaSsrc := 2, items := [⟨5, 3⟩, ⟨9, 0⟩] }
    p.serialize.length = p.getSize ∧ RtcpPacket.isRtcp p.serialize = true ∧
    RtcpPacket.parse p.serialize = some (.feedbackRtpNack p) ∧
    (p.items.map FeedbackRtpNackItem.countRequestedPackets).sum =
      (p.items.flatMap fun item =>
        RtpStreamSender.requestedNumbers item.packetId item.lostPacketBitmask).length :=
  roundTrip { senderSsrc := 1, mediaSsrc := 2, items := [⟨5, 3⟩, ⟨9, 0⟩] } (by decide)

end FeedbackRtpNackPacket

end Rtcp

end Bifrost.Rtc
