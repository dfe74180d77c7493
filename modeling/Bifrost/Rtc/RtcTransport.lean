/-
  `RTC::RtcTransport` (`rtc/rtc_transport.h`, `rtc/rtc_transport.cpp`): the tables of
  streams, `Dispatch` and `OnSendPacket`.

  A table is the list of its entries in the order an iterator meets them, so `begin()` is
  the head. That order is up to the hash table. `Reachable` lets it change at any time.

  Left out: the protocol `WEBSOCKET_TEXT`, which reads an event text and touches no stream;
  `SendRtcpPacket`, which nothing calls; the listener and the thread.
-/
import Bifrost.Rtc.RtpStreamReceiver
import Bifrost.Rtc.RtpStreamSender

namespace Bifrost.Rtc

inductive StreamType where
  | streamSender
  | streamReceiver
  deriving DecidableEq

inductive Protocol where
  | udp
  | tcp
  | websocket
  deriving DecidableEq

structure RtcTransport where
  rtpSendStreams : List (UInt32 × RtpStreamSender) := []
  rtpReceiveStreams : List (UInt32 × RtpStreamReceiver) := []
  testSeq : UInt16 := 0
  timestamp : UInt32 := 2000

/-! ## Tables -/

namespace Table

variable {α : Type}

/-- `find`. -/
def find (ssrc : UInt32) (table : List (UInt32 × α)) : Option (UInt32 × α) :=
  table.find? fun entry => entry.1 == ssrc

/-- What the entry of a stream becomes when the stream changes. -/
def store (ssrc : UInt32) (stream : α) (table : List (UInt32 × α)) : List (UInt32 × α) :=
  table.map fun entry => if entry.1 = ssrc then (ssrc, stream) else entry

def erase (ssrc : UInt32) (table : List (UInt32 × α)) : List (UInt32 × α) :=
  table.filter fun entry => entry.1 != ssrc

end Table

namespace RtcTransport

def kRtpMinHeaderLength : Nat := 12
def kRtcpMinHeaderLength : Nat := 4
def kExpectedVersion : UInt8 := 2
def kSendNackDelay : UInt32 := 10

def isRtp (data : List UInt8) : Bool :=
  if h : kRtpMinHeaderLength ≤ data.length then
    let byte0 := Bytes.u8 data 0 (RtpPacket.byte0_lt h)
    decide (byte0 > 127) && decide (byte0 < 192) && byte0 >>> 6 == kExpectedVersion
  else false

def isRtcp (data : List UInt8) : Bool :=
  if h : kRtcpMinHeaderLength ≤ data.length then
    let byte0 := Bytes.u8 data 0 (Bytes.zero_lt_of_four_le h)
    let byte1 := Bytes.u8 data 1 (Bytes.one_lt_of_four_le h)
    decide (byte0 > 127) && decide (byte0 < 192) && byte0 >>> 6 == kExpectedVersion &&
      (decide (byte1 ≥ 192) && decide (byte1 ≤ 223))
  else false

/-- `GetStreamSenderBySsrc`; `none` is the null pointer. -/
def getStreamSenderBySsrc (t : RtcTransport) (ssrc : UInt32) :
    Option (UInt32 × RtpStreamSender) := Table.find ssrc t.rtpSendStreams

/-- `GetStreamReceiverBySsrc`: the stream, or the first of all when there is none. -/
def getStreamReceiverBySsrc (t : RtcTransport) (ssrc : UInt32) :
    Except Fault (UInt32 × RtpStreamReceiver) :=
  match Table.find ssrc t.rtpReceiveStreams with
  | some entry => .ok entry
  | none =>
    match t.rtpReceiveStreams with
    | [] => .error .pastTheEnd
    | entry :: _ => .ok entry

def storeSender (t : RtcTransport) (ssrc : UInt32) (stream : RtpStreamSender) : RtcTransport :=
  { t with rtpSendStreams := Table.store ssrc stream t.rtpSendStreams }

def storeReceiver (t : RtcTransport) (ssrc : UInt32) (stream : RtpStreamReceiver) :
    RtcTransport :=
  { t with rtpReceiveStreams := Table.store ssrc stream t.rtpReceiveStreams }

/-! ## Streams -/

/-- `CreateRtpStream`. `target` is what `uv_ip4_addr` makes of the address, `none` where it
    fails. -/
def createRtpStream (t : RtcTransport) (ssrc : UInt32) (streamType : StreamType)
    (target : Option SockAddr) : RtcTransport :=
  match target with
  | none => t
  | some targetAddr =>
    let params : Params := { ssrc, payloadType := 100, clockRate := 16000, useNack := true }
    match streamType with
    | .streamReceiver =>
      if (Table.find ssrc t.rtpReceiveStreams).isSome then t
      else
        { t with rtpReceiveStreams :=
            (ssrc, .create params kSendNackDelay targetAddr) :: t.rtpReceiveStreams }
    | .streamSender =>
      if (Table.find ssrc t.rtpSendStreams).isSome then t
      else { t with rtpSendStreams := (ssrc, .create params targetAddr) :: t.rtpSendStreams }

def deleteRtpStream (t : RtcTransport) (ssrc : UInt32) : RtcTransport :=
  if (Table.find ssrc t.rtpSendStreams).isSome then
    { t with rtpSendStreams := Table.erase ssrc t.rtpSendStreams }
  else if (Table.find ssrc t.rtpReceiveStreams).isSome then
    { t with rtpReceiveStreams := Table.erase ssrc t.rtpReceiveStreams }
  else t

/-! ## Packets -/

/-- `if (addr) rtp_stream->SetUdpRemoteTargetAddr(..)` for a receiver. -/
def updateReceiverAddr (stream : RtpStreamReceiver) : Option SockAddr → RtpStreamReceiver
  | none => stream
  | some addr => stream.setUdpRemoteTargetAddr addr

/-- The same for a sender. -/
def updateSenderAddr (stream : RtpStreamSender) : Option SockAddr → RtpStreamSender
  | none => stream
  | some addr => stream.setUdpRemoteTargetAddr addr

/-- The loop over the reports of a sender report packet, a reading of the clock for each. -/
def receiveSenderReports (addr : Option SockAddr) :
    List Rtcp.SenderReport → Clock → RtcTransport → Except Fault RtcTransport
  | [], _, t => .ok t
  | report :: reports, clock, t => do
    let (ssrc, stream) ← t.getStreamReceiverBySsrc report.getSsrc
    receiveSenderReports addr reports (clock.from 1)
      (t.storeReceiver ssrc
        (updateReceiverAddr (stream.receiveRtcpSenderReport report clock) addr))

/-- The loop over the reports of a receiver report packet. -/
def receiveReceiverReports (addr : Option SockAddr) :
    List Rtcp.ReceiverReport → Clock → RtcTransport → RtcTransport
  | [], _, t => t
  | report :: reports, clock, t =>
    match t.getStreamSenderBySsrc report.getSsrc with
    | none => receiveReceiverReports addr reports clock t
    | some (ssrc, stream) =>
      receiveReceiverReports addr reports (clock.from 1)
        (t.storeSender ssrc
          (updateSenderAddr (stream.receiveRtcpReceiverReport report clock) addr))

/-- `ReceiveRtcpPacket`, the pointer already read. -/
def receiveRtcpPacket (t : RtcTransport) (rtcpPacket : RtcpPacket) (addr : Option SockAddr)
    (clock : Clock) : Except Fault RtcTransport :=
  match rtcpPacket with
  | .senderReport packet => receiveSenderReports addr packet.reports clock t
  | .receiverReport packet => .ok (receiveReceiverReports addr packet.reports clock t)
  | .feedbackRtpNack _ => .ok t

/-- The part of `ReceiveRtpPacket` for a sender of the packet's stream. -/
def passToSender (t : RtcTransport) (p : RtpPacket) (clock : Clock) : Except Fault RtcTransport :=
  match t.getStreamSenderBySsrc p.getSsrc with
  | none => .ok t
  | some (ssrc, stream) => do
    let (stream, _) ← stream.receivePacket p clock
    .ok (t.storeSender ssrc stream)

/-- The part of `ReceiveRtpPacket` for the receiver. -/
def passToReceiver (t : RtcTransport) (p : RtpPacket) (clock : Clock) :
    Except Fault RtcTransport := do
  let (ssrc, stream) ← t.getStreamReceiverBySsrc p.getSsrc
  let (stream, _) ← stream.receivePacket p clock
  .ok (t.storeReceiver ssrc stream)

/-- `ReceiveRtpPacket`, the pointer already read. -/
def receiveRtpPacket (t : RtcTransport) (p : RtpPacket) (clock : Clock) :
    Except Fault RtcTransport := do
  (← t.passToSender p clock).passToReceiver p (clock.from 4)

/-- `Dispatch`; `closed` is what `socket->IsClosed()` answers. -/
def dispatch (t : RtcTransport) (data : List UInt8) (closed : Bool) (protocol : Protocol)
    (addr : Option SockAddr) (clock : Clock) : Except Fault RtcTransport :=
  match protocol with
  | .udp =>
    if isRtcp data then do
      t.receiveRtcpPacket (← deref (RtcpPacket.parse data)) addr clock
    else if isRtp data then do
      t.receiveRtpPacket (← deref (RtpPacket.parse data)) clock
    else .ok t
  | .tcp => .ok t
  | .websocket =>
    if closed then .ok t
    else
      match RtpPacket.parse data with
      | none => .ok t
      | some rtpPacket => t.receiveRtpPacket rtpPacket clock

/-- `passToReceiver` with the packet that goes to the listener's `OnPacketReceived`: the
    receiver hands it on when it accepts it. -/
def passToReceiverOut (t : RtcTransport) (p : RtpPacket) (clock : Clock) :
    Except Fault (RtcTransport × Option RtpPacket) := do
  let (ssrc, stream) ← t.getStreamReceiverBySsrc p.getSsrc
  let (stream, accepted) ← stream.receivePacket p clock
  .ok (t.storeReceiver ssrc stream, if accepted then some p else none)

/-- `ReceiveRtpPacket` with it. -/
def receiveRtpPacketOut (t : RtcTransport) (p : RtpPacket) (clock : Clock) :
    Except Fault (RtcTransport × Option RtpPacket) := do
  (← t.passToSender p clock).passToReceiverOut p (clock.from 4)

/-- `Dispatch` with it. -/
def dispatchOut (t : RtcTransport) (data : List UInt8) (closed : Bool) (protocol : Protocol)
    (addr : Option SockAddr) (clock : Clock) : Except Fault (RtcTransport × Option RtpPacket) :=
  match protocol with
  | .udp =>
    if isRtcp data then do
      .ok (← t.receiveRtcpPacket (← deref (RtcpPacket.parse data)) addr clock, none)
    else if isRtp data then do
      t.receiveRtpPacketOut (← deref (RtpPacket.parse data)) clock
    else .ok (t, none)
  | .tcp => .ok (t, none)
  | .websocket =>
    if closed then .ok (t, none)
    else
      match RtpPacket.parse data with
      | none => .ok (t, none)
      | some rtpPacket => t.receiveRtpPacketOut rtpPacket clock

theorem receiveRtpPacketOut_fst (t : RtcTransport) (p : RtpPacket) (clock : Clock) :
    (t.receiveRtpPacketOut p clock).map Prod.fst = t.receiveRtpPacket p clock := by
  unfold receiveRtpPacketOut receiveRtpPacket
  cases t.passToSender p clock with
  | error f => rfl
  | ok t₁ =>
      show (t₁.passToReceiverOut p (clock.from 4)).map Prod.fst = t₁.passToReceiver p (clock.from 4)
      unfold passToReceiverOut passToReceiver
      cases t₁.getStreamReceiverBySsrc p.getSsrc with
      | error f => rfl
      | ok entry =>
          simp only [bind, Except.bind]
          cases entry.2.receivePacket p (clock.from 4) <;> rfl

/-- They are the calls, with their output. -/
theorem dispatchOut_fst (t : RtcTransport) (data : List UInt8) (closed : Bool)
    (protocol : Protocol) (addr : Option SockAddr) (clock : Clock) :
    (t.dispatchOut data closed protocol addr clock).map Prod.fst =
      t.dispatch data closed protocol addr clock := by
  unfold dispatchOut dispatch
  cases protocol with
  | tcp => rfl
  | websocket =>
      dsimp only
      split
      · rfl
      · cases RtpPacket.parse data with
        | none => rfl
        | some p => exact receiveRtpPacketOut_fst t p clock
  | udp =>
      dsimp only
      split
      · cases RtcpPacket.parse data with
        | none => rfl
        | some packet =>
            show Except.map Prod.fst (t.receiveRtcpPacket packet addr clock >>= _) =
              t.receiveRtcpPacket packet addr clock
            cases t.receiveRtcpPacket packet addr clock <;> rfl
      · split
        · cases RtpPacket.parse data with
          | none => rfl
          | some p => exact receiveRtpPacketOut_fst t p clock
        · rfl

/-- The header `OnSendPacket` builds, all other members zero. -/
def sendHeader (ssrc : UInt32) (sequenceNumber : UInt16) (timestamp : UInt32) : Header :=
  { csrcCount := 0, extension := 0, padding := 0, version := 2, payloadType := 100, marker := 0,
    sequenceNumber, timestamp, ssrc }

def onSendPacket (t : RtcTransport) (ssrc : UInt32) (data : List UInt8) (clock : Clock) :
    Except Fault RtcTransport :=
  match t.getStreamSenderBySsrc ssrc with
  | none => .ok t
  | some (_, stream) =>
    match (RtpPacket.ofHeader (sendHeader ssrc t.testSeq (t.timestamp + 100))).copyPayload data with
    | none => .error .outOfRange
    | some p => do
      let (stream, _) ← stream.receivePacket p clock
      .ok { t.storeSender ssrc stream with
            testSeq := t.testSeq + 1, timestamp := t.timestamp + 100 }

/-- `OnSendPacket` with the packet that goes to the listener's `OnPacketSent`: the sender
    hands it on when it accepts it. -/
def sendPacket (t : RtcTransport) (ssrc : UInt32) (data : List UInt8) (clock : Clock) :
    Except Fault (RtcTransport × Option RtpPacket) :=
  match t.getStreamSenderBySsrc ssrc with
  | none => .ok (t, none)
  | some (_, stream) =>
    match (RtpPacket.ofHeader (sendHeader ssrc t.testSeq (t.timestamp + 100))).copyPayload data with
    | none => .error .outOfRange
    | some p => do
      let (stream, accepted) ← stream.receivePacket p clock
      .ok ({ t.storeSender ssrc stream with
             testSeq := t.testSeq + 1, timestamp := t.timestamp + 100 },
        if accepted then some p else none)

/-- It is the call, with its output. -/
theorem sendPacket_fst (t : RtcTransport) (ssrc : UInt32) (data : List UInt8) (clock : Clock) :
    (t.sendPacket ssrc data clock).map Prod.fst = t.onSendPacket ssrc data clock := by
  unfold sendPacket onSendPacket
  cases t.getStreamSenderBySsrc ssrc with
  | none => rfl
  | some entry =>
      dsimp only
      split
      · rfl
      · next p _ => cases entry.2.receivePacket p clock <;> rfl

/-! ## Runs -/

/-- The calls from outside. -/
inductive Event where
  | createRtpStream (ssrc : UInt32) (streamType : StreamType) (target : Option SockAddr)
  | deleteRtpStream (ssrc : UInt32)
  | dispatch (data : List UInt8) (closed : Bool) (protocol : Protocol) (addr : Option SockAddr)
  | onSendPacket (ssrc : UInt32) (data : List UInt8)

def step (t : RtcTransport) (e : Event) (clock : Clock) : Except Fault RtcTransport :=
  match e with
  | .createRtpStream ssrc streamType target => .ok (t.createRtpStream ssrc streamType target)
  | .deleteRtpStream ssrc => .ok (t.deleteRtpStream ssrc)
  | .dispatch data closed protocol addr => t.dispatch data closed protocol addr clock
  | .onSendPacket ssrc data => t.onSendPacket ssrc data clock

/-- The states that completed calls lead to, with a time no reading lies after. -/
inductive Reachable : UInt64 → RtcTransport → Prop where
  | init (now : UInt64) : Reachable now {}
  | step {first last : UInt64} {t t' : RtcTransport} {e : Event} {clock : Clock} :
      Reachable first t → clock.Between first last → t.step e clock = .ok t' → Reachable last t'
  | reorder {now : UInt64} {t t' : RtcTransport} : Reachable now t →
      t'.rtpSendStreams.Perm t.rtpSendStreams → t'.rtpReceiveStreams.Perm t.rtpReceiveStreams →
      t'.testSeq = t.testSeq → t'.timestamp = t.timestamp → Reachable now t'

end RtcTransport

end Bifrost.Rtc
