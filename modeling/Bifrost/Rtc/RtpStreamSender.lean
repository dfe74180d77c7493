/-
  `RTC::RtpStreamSender` (`rtc/rtp_stream_sender.h`, `rtc/rtp_stream_sender.cpp`): the
  packets it takes, the receiver reports it hears and the sender reports it makes. The
  listener is told of a packet exactly when `ReceivePacket` returns true.

  `ReceiveNack` is in `Rtc/Retransmission`.
-/
import Bifrost.Rtc.DataCalculator
import Bifrost.Rtc.ReportFields
import Bifrost.Rtc.RtpRetransmissionBuffer
import Bifrost.Rtc.RtpStream

namespace Bifrost.Rtc

structure RtpStreamSender extends RtpStream where
  /-- `none` is the null pointer. -/
  retransmissionBuffer : Option RtpRetransmissionBuffer
  waitTransmissionCounter : RtpDataCounter

namespace RtpStreamSender

def kRetransmissionBufferMaxItems : UInt16 := 2500
def kMaxRetransmissionDelayForAudioMs : UInt32 := 1000
def kMtuSize : UInt32 := 1500

/-- The constructor, and the remote address its caller sets. -/
def create (params : Params) (udpRemoteAddr : SockAddr) : RtpStreamSender :=
  { params
    udpRemoteAddr
    retransmissionBuffer :=
      if params.useNack then
        some (.create kRetransmissionBufferMaxItems kMaxRetransmissionDelayForAudioMs
          params.clockRate)
      else none
    waitTransmissionCounter := .create RtpDataCounter.kDefaultWindowSize }

theorem create_retransmissionBuffer (params : Params) (addr : SockAddr) :
    (create params addr).retransmissionBuffer =
      if params.useNack then
        some (.create kRetransmissionBufferMaxItems kMaxRetransmissionDelayForAudioMs
          params.clockRate)
      else none := rfl

theorem create_counter (params : Params) (addr : SockAddr) :
    (create params addr).waitTransmissionCounter =
      .create RtpDataCounter.kDefaultWindowSize := rfl

/-- `StorePacket`, on the buffer it stores into. -/
def storePacket (buffer : RtpRetransmissionBuffer) (p : RtpPacket) :
    Except Fault RtpRetransmissionBuffer :=
  if p.getSize > kMtuSize then .ok buffer else buffer.insert p

/-- `if (this->retransmission_buffer_) StorePacket(rtp_packet);` -/
def storeIfNack (s : RtpStreamSender) (p : RtpPacket) :
    Except Fault (Option RtpRetransmissionBuffer) :=
  match s.retransmissionBuffer with
  | none => .ok none
  | some buffer => do .ok (some (← storePacket buffer p))

/-- `ReceivePacket`. The stream reads the clock at most three times, and the counter reads
    it last. -/
def receivePacket (s : RtpStreamSender) (p : RtpPacket) (clock : Clock) :
    Except Fault (RtpStreamSender × Bool) :=
  let (stream, accepted) := s.toRtpStream.receiveStreamPacket p clock
  let s := { s with toRtpStream := stream }
  if !accepted then .ok (s, false)
  else do
    let retransmissionBuffer ← s.storeIfNack p
    let waitTransmissionCounter ← s.waitTransmissionCounter.update p.getSize (clock 3)
    .ok ({ s with retransmissionBuffer, waitTransmissionCounter }, true)

/-- The round-trip time in units of `2^-16` seconds. -/
def compactRtt (report : Rtcp.ReceiverReport) (nowMs : UInt64) : UInt32 :=
  let ntp := timeMs2Ntp nowMs
  let compactNtp :=
    ((ntp.seconds &&& 0x0000FFFF) <<< 16) ||| ((ntp.fractions &&& 0xFFFF0000) >>> 16)
  let lastSr := report.getLastSenderReport
  let dlsr := report.getDelaySinceLastSenderReport
  if lastSr ≠ 0 ∧ dlsr ≠ 0 ∧ compactNtp > dlsr + lastSr then compactNtp - dlsr - lastSr else 0

/-- The `rtt_` that a receiver report gives, in milliseconds. -/
def reportedRtt (report : Rtcp.ReceiverReport) (nowMs : UInt64) : Float32 :=
  let rtt := compactRtt report nowMs
  let rttMs := Float32.ofNat (rtt >>> 16).toNat * 1000 +
    Float32.ofNat (rtt &&& 0x0000FFFF).toNat / 65536 * 1000
  if rttMs ≤ 0 then 0 else rttMs

/-- The members that a receiver report sets. -/
def setReported (s : RtpStreamSender) (rtt : Float32) (packetsLost : UInt32)
    (fractionLost : UInt8) : RtpStreamSender :=
  { s with rtt, packetsLost, fractionLost }

def receiveRtcpReceiverReport (s : RtpStreamSender) (report : Rtcp.ReceiverReport)
    (clock : Clock) : RtpStreamSender :=
  s.setReported (reportedRtt report (clock 0)) report.getTotalLost report.getFractionLost

/-- `GetRtcpSenderReport`. -/
def getRtcpSenderReport (s : RtpStreamSender) (nowMs : UInt64) :
    RtpStreamSender × Rtcp.SenderReport :=
  let ntp := timeMs2Ntp nowMs
  let diffMs := nowMs - s.maxPacketMs
  let diffTs := diffMs * s.params.clockRate.toUInt64 / 1000
  let rtpTs := (s.maxPacketTs.toUInt64 + diffTs).toUInt32
  let report := Rtcp.SenderReport.create.setSsrc s.getSsrc
  let report := report.setPacketCount s.waitTransmissionCounter.getPacketCount.toUInt32
  let report := report.setOctetCount s.waitTransmissionCounter.getBytes.toUInt32
  let report := report.setNtpSec ntp.seconds
  let report := report.setNtpFrac ntp.fractions
  ({ s with lastSenderReportNtpMs := nowMs, lastSenderReportTs := rtpTs }, report.setRtpTs rtpTs)

def setUdpRemoteTargetAddr (s : RtpStreamSender) (addr : SockAddr) : RtpStreamSender :=
  { s with toRtpStream := s.toRtpStream.setUdpRemoteTargetAddr addr }

end RtpStreamSender

end Bifrost.Rtc
