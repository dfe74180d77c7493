/-
  `RTCApi::RtcFactory` (`api/rtc_factory.h`, `api/rtc_factory.cpp`) between the transport and
  the application: a packet that a receiver accepts goes into the reorder queue
  (`OnPacketReceived`), and the callback thread (`CallBackQueueThread::TryCallData`) hands
  what the queue gives out to the application (`HasContinuousPacketCall`).

  The network thread and the callback thread meet in the queue only, under its mutex, so a
  run is any interleaving of calls of the transport and `Pop`s.

  Left out: the WebSocket client and the UDP socket that the constructor makes, the counter
  `wait_pop_frames_`, which nothing reads, and `DecodedSmoothPCMQueue`.
-/
import Bifrost.Rtc.RtcTransport
import Bifrost.Rtc.ThreadRtpPacketQueue

namespace Bifrost.Api

open Bifrost.Rtc

/-- A `CopyOnWriteBuffer`: its `size()` bytes. -/
abbrev CopyOnWriteBuffer := List UInt8

structure RtcFactory where
  rtcTransport : RtcTransport := {}
  threadQueue : ThreadRtpPacketQueue CopyOnWriteBuffer := {}

/-- A call of `OnReceiveAudio(data, len)`, with all bytes of the buffer that `data` points
    to the start of. -/
structure AudioCall where
  data : CopyOnWriteBuffer
  len : UInt32
  deriving DecidableEq

namespace RtcFactory

/-- `OpusFileHeader`, laid over the start of a buffer. -/
structure OpusFileHeader where
  totalLen : UInt16
  tagLen : UInt16
  deriving DecidableEq

def readOpusFileHeader (data : List UInt8) (h : 4 ≤ data.length) : OpusFileHeader :=
  { totalLen := Bytes.u16le data 0 (Bytes.two_le_of_four_le h), tagLen := Bytes.u16le data 2 h }

def onPacketReceived (f : RtcFactory) (seq : UInt16) (buffer : CopyOnWriteBuffer) : RtcFactory :=
  { f with threadQueue := f.threadQueue.push seq buffer }

/-- `HasContinuousPacketCall`: the call it makes, if the buffer has 20 bytes. -/
def hasContinuousPacketCall (buffer : CopyOnWriteBuffer) : Option AudioCall :=
  if h : buffer.length < 20 then none
  else some { data := buffer, len := (readOpusFileHeader buffer (by omega)).totalLen.toUInt32 }

/-- A round of `TryCallData`. -/
def tryCallData (f : RtcFactory) : RtcFactory × List AudioCall :=
  let (threadQueue, buffers) := f.threadQueue.pop
  ({ f with threadQueue }, buffers.filterMap hasContinuousPacketCall)

/-- `OnRtpStreamReceiveRtpPacket` of the transport, if a receiver has accepted a packet. -/
def onRtpStreamReceiveRtpPacket (f : RtcFactory) : Option RtpPacket → RtcFactory
  | none => f
  | some p => f.onPacketReceived p.getSequenceNumber p.payloadBytes

/-! ## Streams

  A factory that failed to connect has no transport: the four calls then return false and do
  nothing. Here there is one. -/

def createRtpSenderStream (f : RtcFactory) (ssrc : UInt32) (target : Option SockAddr) :
    RtcFactory × Bool :=
  ({ f with rtcTransport := f.rtcTransport.createRtpStream ssrc .streamSender target }, true)

def deleteRtpSenderStream (f : RtcFactory) (ssrc : UInt32) : RtcFactory × Bool :=
  ({ f with rtcTransport := f.rtcTransport.deleteRtpStream ssrc }, true)

def createRtpReceiverStream (f : RtcFactory) (ssrc : UInt32) (target : Option SockAddr) :
    RtcFactory × Bool :=
  ({ f with rtcTransport := f.rtcTransport.createRtpStream ssrc .streamReceiver target }, true)

def deleteRtpReceiverStream (f : RtcFactory) (ssrc : UInt32) : RtcFactory × Bool :=
  ({ f with rtcTransport := f.rtcTransport.deleteRtpStream ssrc }, true)

/-! ## Runs -/

/-- What the two threads do. -/
inductive Event where
  | transport (e : RtcTransport.Event) (clock : Clock)
  | pop

def step (f : RtcFactory) : Event → Except Fault (RtcFactory × List AudioCall)
  | .transport (.dispatch data closed protocol addr) clock => do
    let (rtcTransport, received) ←
      f.rtcTransport.dispatchOut data closed protocol addr clock
    .ok ({ f with rtcTransport }.onRtpStreamReceiveRtpPacket received, [])
  | .transport e clock => do
    .ok ({ f with rtcTransport := ← f.rtcTransport.step e clock }, [])
  | .pop => .ok f.tryCallData

@[simp] theorem onRtpStreamReceiveRtpPacket_rtcTransport (f : RtcFactory)
    (received : Option RtpPacket) :
    (f.onRtpStreamReceiveRtpPacket received).rtcTransport = f.rtcTransport := by
  cases received <;> rfl

/-- A call of the transport does to it what it does without the factory. -/
theorem step_transport (f : RtcFactory) (e : RtcTransport.Event) (clock : Clock) :
    (f.step (.transport e clock)).map (fun r => r.1.rtcTransport) =
      f.rtcTransport.step e clock := by
  cases e with
  | createRtpStream ssrc streamType target => rfl
  | deleteRtpStream ssrc => rfl
  | onSendPacket ssrc data =>
      show Except.map _ (f.rtcTransport.onSendPacket ssrc data clock >>= _) =
        f.rtcTransport.onSendPacket ssrc data clock
      cases f.rtcTransport.onSendPacket ssrc data clock <;> rfl
  | dispatch data closed protocol addr =>
      show Except.map _ (f.rtcTransport.dispatchOut data closed protocol addr clock >>= _) =
        f.rtcTransport.dispatch data closed protocol addr clock
      rw [← RtcTransport.dispatchOut_fst]
      cases f.rtcTransport.dispatchOut data closed protocol addr clock with
      | error fault => rfl
      | ok out => exact congrArg Except.ok (onRtpStreamReceiveRtpPacket_rtcTransport _ _)

end RtcFactory

end Bifrost.Api
