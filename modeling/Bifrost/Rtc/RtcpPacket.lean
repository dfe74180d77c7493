/-
  `RTC::RTCP::RtcpPacket` and the packets its `Parse` makes: sender reports, receiver
  reports and generic NACKs (`rtc/rtcp/rtcp_packet.h`, `rtcp_packet.cpp`,
  `sender_report_packet.h`, `receiver_report_packet.h`, `feedback_packet.h`,
  `feedback_rtp_item.h`, `nack_packet.h` and their sources).

  A parsed packet points into the datagram and its getters read there. Here a report keeps
  its own 24 bytes, with the proof that they are 24, so that no getter can read elsewhere.

  `ReceiverReportPacket::Parse` calls `report->GetSize()` on a report it has just moved
  from. The function reads no member and gives `sizeof(Header)`, 24; so it is taken here.
-/
import Bifrost.Lib.Bytes

namespace Bifrost.Rtc

namespace Rtcp

/-- `RTCP::Type`; the cast from a byte of the wire gives values without a name too. -/
inductive RtcpType where
  | sr
  | rr
  | sdes
  | bye
  | app
  | rtpfb
  | psfb
  | xr
  | nat
  | unnamed (value : UInt8)
  deriving DecidableEq

def RtcpType.ofByte (value : UInt8) : RtcpType :=
  if value = 200 then .sr
  else if value = 201 then .rr
  else if value = 202 then .sdes
  else if value = 203 then .bye
  else if value = 204 then .app
  else if value = 205 then .rtpfb
  else if value = 206 then .psfb
  else if value = 207 then .xr
  else if value = 211 then .nat
  else .unnamed value

/-- `RtcpPacket::CommonHeader`. -/
structure CommonHeader where
  count : BitVec 5
  padding : BitVec 1
  version : BitVec 2
  packetType : UInt8
  length : UInt16
  deriving DecidableEq

/-- The members of `CommonHeader` in the first four bytes, `length` after `ntohs`. -/
def readCommonHeader (data : List UInt8) (h : 4 ≤ data.length) : CommonHeader :=
  let byte0 := (Bytes.u8 data 0 (by omega)).toBitVec
  { count := byte0.extractLsb' 0 5
    padding := byte0.extractLsb' 5 1
    version := byte0.extractLsb' 6 2
    packetType := Bytes.u8 data 1 (by omega)
    length := Bytes.u16be data 2 (by omega) }

/-! ## Sender reports -/

/-- A `SenderReport`: the bytes of its `Header`. -/
structure SenderReport where
  header : List UInt8
  size : header.length = 24
  deriving DecidableEq

namespace SenderReport

def parse (data : List UInt8) : Option SenderReport :=
  if h : 24 ≤ data.length then some ⟨data.take 24, by rw [List.length_take]; omega⟩ else none

def getSsrc (r : SenderReport) : UInt32 := Bytes.u32be r.header 0 (by have := r.size; omega)
def getNtpSec (r : SenderReport) : UInt32 := Bytes.u32be r.header 4 (by have := r.size; omega)
def getNtpFrac (r : SenderReport) : UInt32 := Bytes.u32be r.header 8 (by have := r.size; omega)
def getRtpTs (r : SenderReport) : UInt32 := Bytes.u32be r.header 12 (by have := r.size; omega)

end SenderReport

structure SenderReportPacket where
  reports : List SenderReport
  deriving DecidableEq

/-- At most one report is parsed, and a packet too short for one is accepted without. -/
def SenderReportPacket.parse (data : List UInt8) : SenderReportPacket :=
  ⟨(SenderReport.parse (data.drop 4)).toList⟩

/-! ## Receiver reports -/

/-- A `ReceiverReport`: the bytes of its `Header`. -/
structure ReceiverReport where
  header : List UInt8
  size : header.length = 24
  deriving DecidableEq

namespace ReceiverReport

def parse (data : List UInt8) : Option ReceiverReport :=
  if h : 24 ≤ data.length then some ⟨data.take 24, by rw [List.length_take]; omega⟩ else none

def getSsrc (r : ReceiverReport) : UInt32 := Bytes.u32be r.header 0 (by have := r.size; omega)

def getFractionLost (r : ReceiverReport) : UInt8 := Bytes.u8 r.header 4 (by have := r.size; omega)

/-- `GetTotalLost`, as the 32 bits of the `int32_t`. -/
def getTotalLost (r : ReceiverReport) : UInt32 :=
  let value := Bytes.u24be r.header 5 (by have := r.size; omega)
  if (value >>> 23) &&& 1 = 0 then value
  else if value ≠ 0x0800000 then -(value &&& ~~~((1 : UInt32) <<< 23))
  else -value

def getLastSeq (r : ReceiverReport) : UInt32 := Bytes.u32be r.header 8 (by have := r.size; omega)
def getJitter (r : ReceiverReport) : UInt32 := Bytes.u32be r.header 12 (by have := r.size; omega)

def getLastSenderReport (r : ReceiverReport) : UInt32 :=
  Bytes.u32be r.header 16 (by have := r.size; omega)

def getDelaySinceLastSenderReport (r : ReceiverReport) : UInt32 :=
  Bytes.u32be r.header 20 (by have := r.size; omega)

end ReceiverReport

structure ReceiverReportPacket where
  ssrc : UInt32
  reports : List ReceiverReport
  deriving DecidableEq

/-- The loop over the report blocks, `count` of them at most. -/
def parseReports : Nat → List UInt8 → List ReceiverReport
  | 0, _ => []
  | count + 1, data =>
    match ReceiverReport.parse data with
    | some report => report :: parseReports count (data.drop 24)
    | none => []

def ReceiverReportPacket.parse (data : List UInt8) : Option ReceiverReportPacket :=
  if h : 8 ≤ data.length then
    some
      { ssrc := Bytes.u32be data 4 (by omega)
        reports := parseReports (readCommonHeader data (by omega)).count.toNat (data.drop 8) }
  else none

/-! ## Feedback -/

/-- A `FeedbackRtpNackItem`. -/
structure FeedbackRtpNackItem where
  packetId : UInt16
  lostPacketBitmask : UInt16
  deriving DecidableEq

def FeedbackRtpNackItem.parse (data : List UInt8) : Option FeedbackRtpNackItem :=
  if h : 4 ≤ data.length then
    some ⟨Bytes.u16be data 0 (by omega), Bytes.u16be data 2 (by omega)⟩
  else none

structure FeedbackRtpNackPacket where
  senderSsrc : UInt32
  mediaSsrc : UInt32
  items : List FeedbackRtpNackItem
  deriving DecidableEq

/-- The loop over the items. Every item takes four bytes, so the length is enough rounds. -/
def parseItems : Nat → List UInt8 → List FeedbackRtpNackItem
  | 0, _ => []
  | fuel + 1, data =>
    match FeedbackRtpNackItem.parse data with
    | some item => item :: parseItems fuel (data.drop 4)
    | none => []

/-- `FeedbackRtpPacket::Parse`: of the message types only NACK (1) is parsed. -/
def FeedbackRtpNackPacket.parse (data : List UInt8) : Option FeedbackRtpNackPacket :=
  if h : 12 ≤ data.length then
    if (readCommonHeader data (by omega)).count = 1 then
      some
        { senderSsrc := Bytes.u32be data 4 (by omega)
          mediaSsrc := Bytes.u32be data 8 (by omega)
          items := parseItems data.length (data.drop 12) }
    else none
  else none

end Rtcp

open Rtcp

/-- What `RtcpPacket::Parse` returns a pointer to. -/
inductive RtcpPacket where
  | senderReport (packet : SenderReportPacket)
  | receiverReport (packet : ReceiverReportPacket)
  | feedbackRtpNack (packet : FeedbackRtpNackPacket)
  deriving DecidableEq

namespace RtcpPacket

def getType : RtcpPacket → RtcpType
  | senderReport _ => .sr
  | receiverReport _ => .rr
  | feedbackRtpNack _ => .rtpfb

def isRtcp (data : List UInt8) : Bool :=
  if h : 4 ≤ data.length then
    let byte0 := Bytes.u8 data 0 (by omega)
    let header := readCommonHeader data h
    decide (byte0 > 127) && decide (byte0 < 192) && header.version == 2 &&
      decide (header.packetType ≥ 192) && decide (header.packetType ≤ 223)
  else false

/-- The `switch` of `Parse`: what `current` is after a packet of the compound. The types
    that are not parsed leave it as it is. -/
def parseByType (type : RtcpType) (packet : List UInt8) (current : Option RtcpPacket) :
    Option RtcpPacket :=
  match type with
  | .sr => some (.senderReport (.parse packet))
  | .rr => (ReceiverReportPacket.parse packet).map .receiverReport
  | .rtpfb => (FeedbackRtpNackPacket.parse packet).map .feedbackRtpNack
  | _ => current

/-- `(ntohs(header->length) + 1) * 4`. -/
def packetLen (header : CommonHeader) : Nat := (header.length.toNat + 1) * 4

/-- The loop of `Parse` over the packets of a compound. Every round takes at least four
    bytes, so the length is enough rounds. -/
def parseLoop : Nat → Option RtcpPacket → List UInt8 → Option RtcpPacket
  | _, current, [] => current
  | 0, _, _ :: _ => none
  | fuel + 1, current, data =>
    if h : 4 ≤ data.length then
      if isRtcp data then
        let header := readCommonHeader data h
        if data.length < packetLen header then none
        else
          match parseByType (.ofByte header.packetType) (data.take (packetLen header)) current with
          | none => none
          | some packet => parseLoop fuel (some packet) (data.drop (packetLen header))
      else none
    else none

/-- `Parse`: `none` is the null pointer, otherwise the last packet of the compound that is
    of a parsed type. -/
def parse (data : List UInt8) : Option RtcpPacket := parseLoop data.length none data

/-- The fuel of `parse` is enough: more rounds change nothing. -/
theorem parseLoop_fuel (fuel : Nat) : ∀ current data, data.length ≤ fuel →
    parseLoop (fuel + 1) current data = parseLoop fuel current data := by
  induction fuel with
  | zero =>
      intro current data hlen
      rw [List.eq_nil_of_length_eq_zero (Nat.le_zero.mp hlen)]
      rfl
  | succ fuel ih =>
      intro current data hlen
      cases data with
      | nil => rfl
      | cons byte rest =>
          rw [parseLoop.eq_def, parseLoop.eq_def (fuel + 1)]
          dsimp only
          split
          · split
            · split
              · rfl
              · split
                · rfl
                · apply ih
                  rw [List.length_drop]
                  unfold packetLen
                  omega
            · rfl
          · rfl

end RtcpPacket

end Bifrost.Rtc
