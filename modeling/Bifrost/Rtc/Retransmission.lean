/-
  `RtpStreamSender::ReceiveNack` and `FillRetransmissionContainer`
  (`rtc/rtp_stream_sender.cpp`).

  `kRetransmissionContainer` is thread-local and one for all senders, so what an earlier call
  wrote is still in it. It holds pointers to items of the deque; the model keeps the items as
  they are when they are written, since nothing changes them before they are read. The
  changes that the code makes through the pointer of `Get` go back into the slot it stands
  for (`put`).

  `nack_count_`, `nack_packet_count_` and the debugging variables of the loop are written
  and never read, and `PacketRetransmitted` is empty; they are left out.
-/
import Bifrost.Rtc.RtpStreamSender

namespace Bifrost.Rtc

/-- The slot of number `seq`, after a change to its item. -/
def RtpRetransmissionBuffer.put (b : RtpRetransmissionBuffer) (seq : UInt16) (item : Item) :
    RtpRetransmissionBuffer :=
  match b.getOldest with
  | none => b
  | some oldestItem =>
    { b with buffer := b.buffer.set (seq - oldestItem.sequenceNumber).toNat (some item) }

namespace RtpStreamSender

def kMaxRequestedPackets : Nat := 17
def kDefaultRtt : UInt16 := 100

/-- `kRetransmissionContainer[idx] = item`. -/
def storeAt (container : List (Option Item)) (idx : Nat) (item : Option Item) :
    Except Fault (List (Option Item)) :=
  if idx < container.length then .ok (container.set idx item) else .error .outOfRange

/-- `rtt` of `FillRetransmissionContainer`, in milliseconds. A `uint16_t` has the whole part
    of a number below 65536 only. -/
def rttMs (s : RtpStreamSender) : Except Fault UInt16 :=
  if s.rtt > 0 then
    if s.rtt < 65536 then .ok s.rtt.toUInt16 else .error .unrepresentable
  else .ok kDefaultRtt

/-- `SetSsrc`, `SetSequenceNumber` and `SetTimestamp` with what the item says. -/
def correctPacket (item : Item) (p : RtpPacket) : RtpPacket :=
  { p with
    header :=
      { p.header with
        ssrc := item.ssrc
        sequenceNumber := item.sequenceNumber
        timestamp := item.timestamp } }

/-- The buffer, the container and `container_idx`. -/
structure Filling where
  buffer : RtpRetransmissionBuffer
  container : List (Option Item)
  containerIdx : Nat

/-- The body of `if (requested)`. -/
def request (now : UInt64) (rtt : UInt16) (f : Filling) (currentSeq : UInt16) :
    Except Fault Filling := do
  match ← f.buffer.get currentSeq with
  | none => .ok f
  | some item => do
    let packet ← deref item.rtpPacket
    let item := { item with rtpPacket := some (correctPacket item packet) }
    if item.resentAtMs ≠ 0 ∧ now - item.resentAtMs ≤ rtt.toUInt64 then
      .ok { f with buffer := f.buffer.put currentSeq item }
    else do
      let item := { item with resentAtMs := now, sentTimes := item.sentTimes + 1 }
      .ok
        { buffer := f.buffer.put currentSeq item
          container := ← storeAt f.container f.containerIdx (some item)
          containerIdx := f.containerIdx + 1 }

/-- The loop over the bits. The mask is shifted out after sixteen rounds, and the first
    round is for `seq` itself. -/
def fillLoop (now : UInt64) (rtt : UInt16) :
    Nat → Filling → UInt16 → Bool → UInt16 → Except Fault Filling
  | 0, f, _, requested, bitmask =>
    if requested || bitmask != 0 then .error .endlessLoop else .ok f
  | fuel + 1, f, currentSeq, requested, bitmask =>
    if requested || bitmask != 0 then do
      let f ← if requested then request now rtt f currentSeq else .ok f
      fillLoop now rtt fuel f (currentSeq + 1) (bitmask &&& 1 != 0) (bitmask >>> 1)
    else .ok f

def fillRetransmissionContainer (s : RtpStreamSender) (container : List (Option Item))
    (seq bitmask : UInt16) (now : UInt64) :
    Except Fault (RtpStreamSender × List (Option Item)) := do
  let container ← storeAt container 0 none
  match s.retransmissionBuffer with
  | none => .ok (s, container)
  | some buffer => do
    let f ← fillLoop now (← s.rttMs) kMaxRequestedPackets
      { buffer, container, containerIdx := 0 } seq true bitmask
    let container ← storeAt f.container f.containerIdx none
    .ok ({ s with retransmissionBuffer := some f.buffer }, container)

/-- A sender and the container its thread has. -/
structure NackState where
  sender : RtpStreamSender
  container : List (Option Item)

/-- The body of the loop over the items: the state it leaves, and the packets that go to
    `OnRtpStreamRetransmitRtpPacket`, in order. -/
def receiveNackItem (st : NackState) (nackItem : Rtcp.FeedbackRtpNackItem) (now : UInt64) :
    Except Fault (NackState × List RtpPacket) := do
  let (sender, container) ← st.sender.fillRetransmissionContainer st.container
    nackItem.packetId nackItem.lostPacketBitmask now
  .ok ({ sender, container },
    (container.takeWhile Option.isSome).filterMap fun slot => slot.bind Item.rtpPacket)

/-- `ReceiveNack`; the clock is read once for each item. -/
def receiveNack (st : NackState) : List Rtcp.FeedbackRtpNackItem → Clock →
    Except Fault (NackState × List RtpPacket)
  | [], _ => .ok (st, [])
  | nackItem :: items, clock => do
    let (st, sent) ← receiveNackItem st nackItem (clock 0)
    let (st, more) ← receiveNack st items (clock.from 1)
    .ok (st, sent ++ more)

end RtpStreamSender

end Bifrost.Rtc
