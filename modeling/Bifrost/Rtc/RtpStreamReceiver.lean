/-
  `RTC::RtpStreamReceiver` (`rtc/rtp_stream_receiver.h`, `rtc/rtp_stream_receiver.cpp`).

  The receiver's own `OnNackGeneratorNackRequired` and `OnNackGeneratorKeyFrameRequired`
  are empty and so is `PacketRetransmitted`, so the outputs of the generator end here. The
  listener is told of a packet exactly when `ReceivePacket` returns true.

  `jitter_` is never written, so that `GetRtcpReceiverReport` always reports 0.
-/
import Bifrost.Rtc.DataCalculator
import Bifrost.Rtc.NackGenerator
import Bifrost.Rtc.ReportFields

namespace Bifrost.Rtc

structure RtpStreamReceiver extends RtpStream where
  /-- `none` is the null pointer. -/
  nackGenerator : Option NackGenerator
  mediaTransmissionCounter : RtpDataCounter
  expectedPrior : UInt32 := 0
  receivedPrior : UInt32 := 0
  reportedPacketLost : UInt32 := 0
  lastSrReceived : UInt64 := 0
  lastSrTimestamp : UInt32 := 0

namespace RtpStreamReceiver

/-- The constructor, and the remote address its caller sets. -/
def create (params : Params) (sendNackDelayMs : UInt32) (udpRemoteAddr : SockAddr) :
    RtpStreamReceiver :=
  { params
    udpRemoteAddr
    nackGenerator := if params.useNack then some (.create sendNackDelayMs) else none
    mediaTransmissionCounter := .create RtpDataCounter.kDefaultWindowSize }

theorem create_nackGenerator (params : Params) (sendNackDelayMs : UInt32) (addr : SockAddr) :
    (create params sendNackDelayMs addr).nackGenerator =
      if params.useNack then some (.create sendNackDelayMs) else none := rfl

theorem create_counter (params : Params) (sendNackDelayMs : UInt32) (addr : SockAddr) :
    (create params sendNackDelayMs addr).mediaTransmissionCounter =
      .create RtpDataCounter.kDefaultWindowSize := rfl

/-- The generator after a packet that the stream has accepted. -/
def passToNackGenerator (r : RtpStreamReceiver) (p : RtpPacket) (clock : Clock) :
    Except Fault (Option NackGenerator) :=
  if r.params.useNack then do
    let nackGenerator ← deref r.nackGenerator
    .ok (some (nackGenerator.receivePacket p false clock).1)
  else .ok r.nackGenerator

/-- `ReceivePacket`. The stream reads the clock at most three times before the generator
    does, and the counter reads it last. -/
def receivePacket (r : RtpStreamReceiver) (p : RtpPacket) (clock : Clock) :
    Except Fault (RtpStreamReceiver × Bool) :=
  let (stream, accepted) := r.toRtpStream.receiveStreamPacket p clock
  let r := { r with toRtpStream := stream }
  if !accepted then .ok (r, false)
  else do
    let nackGenerator ← r.passToNackGenerator p (clock.from 3)
    let mediaTransmissionCounter ← r.mediaTransmissionCounter.update p.getSize (clock 65540)
    .ok ({ r with nackGenerator, mediaTransmissionCounter }, true)

/-- The state after a call that completes. -/
def receive (r : RtpStreamReceiver) (a : RtpStream.Arrival) : Except Fault RtpStreamReceiver := do
  let (r, _) ← r.receivePacket a.packet a.clock
  .ok r

/-- The members that a sender report sets. -/
def setLastSenderReport (r : RtpStreamReceiver) (lastSrReceived : UInt64)
    (lastSrTimestamp : UInt32) (lastSenderReportNtpMs : UInt64) (lastSenderReportTs : UInt32) :
    RtpStreamReceiver :=
  { r with lastSrReceived, lastSrTimestamp, lastSenderReportNtpMs, lastSenderReportTs }

def receiveRtcpSenderReport (r : RtpStreamReceiver) (report : Rtcp.SenderReport)
    (clock : Clock) : RtpStreamReceiver :=
  r.setLastSenderReport (clock 0) ((report.getNtpSec <<< 16) + (report.getNtpFrac >>> 16))
    (ntp2TimeMs { seconds := report.getNtpSec, fractions := report.getNtpFrac }) report.getRtpTs

def setUdpRemoteTargetAddr (r : RtpStreamReceiver) (addr : SockAddr) : RtpStreamReceiver :=
  { r with toRtpStream := r.toRtpStream.setUdpRemoteTargetAddr addr }

/-! ## Receiver reports -/

/-- `std::round` of the exact quotient: halves away from zero. The code divides in `double`,
    which is exact enough for a fraction of at most 256. -/
def roundQuotient (a : Int) (b : Nat) : Int :=
  if 0 ≤ a then (2 * a + b) / (2 * b) else -((2 * -a + b) / (2 * b))

/-- The fraction of an interval that was lost, in 256ths. The conversion to `uint8_t` keeps
    the low byte. -/
def fractionLostOf (expectedInterval receivedInterval : UInt32) : UInt8 :=
  let lostInterval := (expectedInterval - receivedInterval).toInt32
  if expectedInterval = 0 ∨ lostInterval ≤ 0 then 0
  else UInt8.ofInt (roundQuotient (lostInterval <<< 8).toInt expectedInterval.toNat)

/-- The counters of `GetRtcpReceiverReport`, brought up to date. -/
def updateLost (r : RtpStreamReceiver) : RtpStreamReceiver :=
  let prevPacketsLost := r.packetsLost
  let expected := r.getExpectedPackets
  let packetCount := r.mediaTransmissionCounter.getPacketCount
  let packetsLost := if expected.toUInt64 > packetCount then expected - packetCount.toUInt32 else 0
  let expectedInterval := expected - r.expectedPrior
  let receivedInterval := packetCount.toUInt32 - r.receivedPrior
  { r with
    packetsLost
    expectedPrior := expected
    receivedPrior := packetCount.toUInt32
    fractionLost := fractionLostOf expectedInterval receivedInterval
    reportedPacketLost := r.reportedPacketLost + (packetsLost - prevPacketsLost) }

/-- The delay since the last sender report in units of `2^-16` seconds. -/
def dlsrOf (delayMs : UInt32) : UInt32 :=
  ((delayMs / 1000) <<< 16) ||| ((delayMs % 1000) * 65536 / 1000)

/-- `GetRtcpReceiverReport`. The clock is read for the delay only. -/
def getRtcpReceiverReport (r : RtpStreamReceiver) (clock : Clock) :
    RtpStreamReceiver × Rtcp.ReceiverReport :=
  let report := Rtcp.ReceiverReport.create.setSsrc r.getSsrc
  let r := r.updateLost
  let report := report.setTotalLost r.reportedPacketLost.toInt32
  let report := report.setFractionLost r.fractionLost
  let report := report.setLastSeq (r.maxSeq.toUInt32 + r.cycles)
  let report := report.setJitter 0
  if r.lastSrReceived ≠ 0 then
    let delayMs := (clock 0 - r.lastSrReceived).toUInt32
    let report := report.setDelaySinceLastSenderReport (dlsrOf delayMs)
    (r, report.setLastSenderReport r.lastSrTimestamp)
  else
    let report := report.setDelaySinceLastSenderReport 0
    (r, report.setLastSenderReport 0)

/-! ## Runs -/

/-- What a receiver does between two sender reports. -/
inductive Event where
  | receivePacket (p : RtpPacket) (clock : Clock)
  | getRtcpReceiverReport (clock : Clock)

def step (r : RtpStreamReceiver) : Event → Except Fault RtpStreamReceiver
  | .receivePacket p clock => do
    let (r, _) ← r.receivePacket p clock
    .ok r
  | .getRtcpReceiverReport clock => .ok (r.getRtcpReceiverReport clock).1

end RtpStreamReceiver

end Bifrost.Rtc
