/-
  `RTC::RTCP::CompoundPacket` (`rtc/rtcp/compound_packet.h`, `compound_packet.cpp`) and the
  `Serialize` of what it is made of (`rtcp_packet.cpp`, `sender_report_packet.cpp`,
  `receiver_report_packet.cpp`).

  The compound keeps pointers, and `RemoveReport` looks for an equal pointer, not for an
  equal report. So a pointer is an address with the report there. A report does not change
  while it is in a compound. Nothing sets the SSRC of the compound's receiver report packet.
-/
import Bifrost.Rtc.RtcpPacket

namespace Bifrost.Rtc

namespace Rtcp

/-- The value of a `Type` on the wire. -/
def RtcpType.toByte : RtcpType → UInt8
  | .sr => 200
  | .rr => 201
  | .sdes => 202
  | .bye => 203
  | .app => 204
  | .rtpfb => 205
  | .psfb => 206
  | .xr => 207
  | .nat => 211
  | .unnamed value => value

/-- The four bytes of a `CommonHeader`, `length` after `htons`. -/
def writeCommonHeader (header : CommonHeader) : List UInt8 :=
  [.ofBitVec (header.version ++ header.padding ++ header.count), header.packetType] ++
    Bytes.put16be header.length

/-- `RtcpPacket::Serialize`, from what `GetType`, `GetCount` and `GetSize` answer. The count
    is cut to the five bits of its member. -/
def serializeHeader (type : RtcpType) (count size : Nat) : List UInt8 :=
  let length := size / 4 - 1
  writeCommonHeader
    { version := 2
      padding := 0
      count := (UInt8.ofNat count).toBitVec.setWidth 5
      packetType := type.toByte
      length := UInt16.ofNat length }

def SenderReport.serialize (r : SenderReport) : List UInt8 := r.header
def SenderReport.getSize (_ : SenderReport) : Nat := 24

def ReceiverReport.serialize (r : ReceiverReport) : List UInt8 := r.header
def ReceiverReport.getSize (_ : ReceiverReport) : Nat := 24

namespace SenderReportPacket

def getCount (p : SenderReportPacket) : Nat := p.reports.length

def getSize (p : SenderReportPacket) : Nat := 4 + (p.reports.map SenderReport.getSize).sum

def serialize (p : SenderReportPacket) : List UInt8 :=
  serializeHeader .sr p.getCount p.getSize ++ p.reports.flatMap SenderReport.serialize

end SenderReportPacket

namespace ReceiverReportPacket

def getCount (p : ReceiverReportPacket) : Nat := p.reports.length

def getSize (p : ReceiverReportPacket) : Nat := 4 + 4 + (p.reports.map ReceiverReport.getSize).sum

def serialize (p : ReceiverReportPacket) : List UInt8 :=
  serializeHeader .rr p.getCount p.getSize ++ Bytes.put32be p.ssrc ++
    p.reports.flatMap ReceiverReport.serialize

end ReceiverReportPacket

/-- A `std::shared_ptr`. -/
structure SharedPtr (α : Type) where
  address : Nat
  object : α
  deriving DecidableEq

/-- `AddReport` of either packet. -/
def addReport {α : Type} (report : SharedPtr α) (reports : List (SharedPtr α)) :
    List (SharedPtr α) := reports ++ [report]

/-- `RemoveReport`: the first pointer that `std::find` finds. -/
def removeReport {α : Type} [DecidableEq α] (report : SharedPtr α)
    (reports : List (SharedPtr α)) : List (SharedPtr α) := reports.erase report

structure CompoundPacket where
  senderReports : List (SharedPtr SenderReport) := []
  receiverReports : List (SharedPtr ReceiverReport) := []
  deriving DecidableEq

namespace CompoundPacket

def kMtuSize : Nat := 1500
def kMaxSize : Nat := kMtuSize - 40 - 20 - 148

def senderReportPacket (c : CompoundPacket) : SenderReportPacket :=
  { reports := c.senderReports.map SharedPtr.object }

def receiverReportPacket (c : CompoundPacket) : ReceiverReportPacket :=
  { ssrc := 0, reports := c.receiverReports.map SharedPtr.object }

def getSize (c : CompoundPacket) : Nat :=
  (if c.senderReportPacket.getCount > 0 then c.senderReportPacket.getSize else 0) +
    (if c.receiverReportPacket.getCount > 0 then c.receiverReportPacket.getSize else 0)

/-- `Serialize`: the bytes it writes. -/
def serialize (c : CompoundPacket) : List UInt8 :=
  (if c.senderReportPacket.getCount > 0 then c.senderReportPacket.serialize else []) ++
    (if c.receiverReportPacket.getCount > 0 then c.receiverReportPacket.serialize else [])

def addSenderReport (c : CompoundPacket) (report : SharedPtr SenderReport) :
    CompoundPacket × Bool :=
  let c := { c with senderReports := addReport report c.senderReports }
  if c.getSize ≤ kMaxSize then (c, true)
  else ({ c with senderReports := removeReport report c.senderReports }, false)

def addReceiverReport (c : CompoundPacket) (report : SharedPtr ReceiverReport) :
    CompoundPacket × Bool :=
  let c := { c with receiverReports := addReport report c.receiverReports }
  if c.getSize ≤ kMaxSize then (c, true)
  else ({ c with receiverReports := removeReport report c.receiverReports }, false)

/-! ## Runs -/

/-- The calls that add. -/
inductive Add where
  | sender (report : SharedPtr SenderReport)
  | receiver (report : SharedPtr ReceiverReport)
  deriving DecidableEq

def add (c : CompoundPacket) : Add → CompoundPacket × Bool
  | .sender report => c.addSenderReport report
  | .receiver report => c.addReceiverReport report

/-- A call, with itself as the output when it returns true. -/
def step (c : CompoundPacket) (a : Add) : CompoundPacket × List Add :=
  let (c, accepted) := c.add a
  (c, if accepted then [a] else [])

end CompoundPacket

end Rtcp

end Bifrost.Rtc
