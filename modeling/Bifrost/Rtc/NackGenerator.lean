/-
  `RTC::NackGenerator` (`rtc/nack_generator.h`, `rtc/nack_generator.cpp`).

  `nack_list_` is a `std::map`, `key_frame_list_` and `recovered_list_` are `std::set`s, all
  ordered by `SeqLowerThan`. They are the containers of `OrderedMap`, whose `lower_bound`
  scans from the front. On keys that the comparator orders totally that is what the
  standard containers do. It orders the key frames so except in the middle of a jump of more
  than half the range less the age limit, where the standard leaves the order of the set
  open. Such a jump empties both lists, in whatever order it meets the key frames.

  What the listener is told is an output. A call reads its `Clock` once for every number it
  adds to the list, in order, and once for the batch.
-/
import Bifrost.Lib.OrderedMap
import Bifrost.Lib.Trace
import Bifrost.Rtc.RtpStream

namespace Bifrost.Rtc

open SeqManager

structure NackInfo where
  createdAtMs : UInt64
  seq : UInt16
  sendAtSeq : UInt16
  sentAtMs : UInt64 := 0
  retries : UInt8 := 0
  deriving DecidableEq

inductive NackFilter where
  | seq
  | time
  deriving DecidableEq

/-- The calls on `NackGenerator::Listener`. -/
inductive NackOutput where
  | nackRequired (seqNumbers : List UInt16)
  | keyFrameRequired
  deriving DecidableEq

structure NackGenerator where
  sendNackDelayMs : UInt32
  nackList : List (UInt16 × NackInfo) := []
  keyFrameList : List (UInt16 × Unit) := []
  recoveredList : List (UInt16 × Unit) := []
  started : Bool := false
  lastSeq : UInt16 := 0
  rtt : UInt32 := 100
  deriving DecidableEq

namespace NackGenerator

def kMaxPacketAge : UInt16 := 10000
def kMaxNackPackets : Nat := 1000
def kDefaultRtt : UInt32 := 100
def kMaxNackRetries : UInt8 := 10

/-- The order of the three containers. -/
def seqLt (a b : UInt16) : Bool := isSeqLowerThan a b

/-- `RemoveNackItemsUntilKeyFrame` on the two lists it works on: whether an item was removed,
    and what is left of them. -/
def removeNackItemsUntilKeyFrame (nackList : List (UInt16 × NackInfo)) :
    List (UInt16 × Unit) → Bool × List (UInt16 × NackInfo) × List (UInt16 × Unit)
  | [] => (false, nackList, [])
  | keyFrame :: keyFrameList =>
    let it := OrderedMap.lowerBound seqLt keyFrame.1 nackList
    if it.length ≠ nackList.length then (true, it, keyFrame :: keyFrameList)
    else removeNackItemsUntilKeyFrame nackList keyFrameList

/-- The list and the new numbers are too many; the size is cast to `uint16_t`. -/
def tooMany (nackList : List (UInt16 × NackInfo)) (numNewNacks : UInt16) : Bool :=
  decide ((UInt16.ofNat nackList.length).toNat + numNewNacks.toNat > kMaxNackPackets)

/-- The loop around `RemoveNackItemsUntilKeyFrame`. A round that goes on has removed an item,
    so one round more than there are items is enough. -/
def removeUntilFits (numNewNacks : UInt16) : Nat → List (UInt16 × NackInfo) →
    List (UInt16 × Unit) → List (UInt16 × NackInfo) × List (UInt16 × Unit)
  | 0, nackList, keyFrameList => (nackList, keyFrameList)
  | fuel + 1, nackList, keyFrameList =>
    match removeNackItemsUntilKeyFrame nackList keyFrameList with
    | (removed, nackList, keyFrameList) =>
      if removed && tooMany nackList numNewNacks then
        removeUntilFits numNewNacks fuel nackList keyFrameList
      else (nackList, keyFrameList)

/-- `NackInfo{RTCUtils::Time::GetTimeMs(), seq, seq}`. -/
def newInfo (createdAtMs : UInt64) (seq : UInt16) : NackInfo :=
  { createdAtMs, seq, sendAtSeq := seq }

/-- The insertion loop of `AddPacketsToNackList`, `count` numbers from `seq` on. -/
def addMissing (recoveredList : List (UInt16 × Unit)) (clock : Clock) :
    Nat → UInt16 → List (UInt16 × NackInfo) → List (UInt16 × NackInfo)
  | 0, _, nackList => nackList
  | count + 1, seq, nackList =>
    if (OrderedMap.find? seqLt seq recoveredList).isSome then
      addMissing recoveredList clock count (seq + 1) nackList
    else
      addMissing recoveredList (clock.from 1) count (seq + 1)
        (OrderedMap.emplace seqLt seq (newInfo (clock 0) seq) nackList)

def addPacketsToNackList (g : NackGenerator) (seqStart seqEnd : UInt16) (clock : Clock) :
    NackGenerator × List NackOutput :=
  let nackList := OrderedMap.lowerBound seqLt (seqEnd - kMaxPacketAge) g.nackList
  let numNewNacks := seqEnd - seqStart
  let (nackList, keyFrameList) :=
    if tooMany nackList numNewNacks then
      removeUntilFits numNewNacks (nackList.length + 1) nackList g.keyFrameList
    else (nackList, g.keyFrameList)
  if tooMany nackList numNewNacks then
    ({ g with nackList := [], keyFrameList := keyFrameList }, [.keyFrameRequired])
  else
    ({ g with
       nackList := addMissing g.recoveredList clock numNewNacks.toNat seqStart nackList
       keyFrameList := keyFrameList }, [])

/-- The two conditions under which `GetNackBatch` takes a number into the batch. -/
def isDue (g : NackGenerator) (filter : NackFilter) (nowMs : UInt64) (info : NackInfo) : Bool :=
  if g.sendNackDelayMs > 0 && nowMs - info.createdAtMs < g.sendNackDelayMs.toUInt64 then false
  else
    match filter with
    | .seq => info.sentAtMs == 0 &&
        (info.sendAtSeq == g.lastSeq || isSeqHigherThan g.lastSeq info.sendAtSeq)
    | .time => info.sentAtMs == 0 ||
        decide (nowMs - info.sentAtMs ≥ (if g.rtt > 0 then g.rtt else kDefaultRtt).toUInt64)

/-- The entry of a number that went into a batch. -/
def markSent (nowMs : UInt64) (info : NackInfo) : NackInfo :=
  { info with retries := info.retries + 1, sentAtMs := nowMs }

/-- The loop of `GetNackBatch`: the batch and the list it leaves. -/
def batchLoop (g : NackGenerator) (filter : NackFilter) (nowMs : UInt64) :
    List (UInt16 × NackInfo) → List UInt16 × List (UInt16 × NackInfo)
  | [] => ([], [])
  | (key, info) :: items =>
    let (batch, items') := batchLoop g filter nowMs items
    if g.isDue filter nowMs info then
      if (markSent nowMs info).retries ≥ kMaxNackRetries then (info.seq :: batch, items')
      else (info.seq :: batch, (key, markSent nowMs info) :: items')
    else (batch, (key, info) :: items')

/-- `GetNackBatch` and the call on the listener that follows it in both places. -/
def sendNackBatch (g : NackGenerator) (filter : NackFilter) (nowMs : UInt64) :
    NackGenerator × List NackOutput :=
  let (nackBatch, nackList) := g.batchLoop filter nowMs g.nackList
  ({ g with nackList := nackList },
    if nackBatch.isEmpty then [] else [.nackRequired nackBatch])

/-- The part of `ReceivePacket` for a packet newer than `last_seq_`. -/
def receiveNewer (g : NackGenerator) (seq : UInt16) (isRecovered : Bool) (clock : Clock) :
    NackGenerator × List NackOutput :=
  let keyFrameList := OrderedMap.lowerBound seqLt (seq - kMaxPacketAge)
    (OrderedMap.emplace seqLt seq () g.keyFrameList)
  let g := { g with keyFrameList := keyFrameList }
  if isRecovered then
    ({ g with
       recoveredList := OrderedMap.lowerBound seqLt (seq - kMaxPacketAge)
         (OrderedMap.emplace seqLt seq () g.recoveredList) }, [])
  else
    let (g, out) := g.addPacketsToNackList (g.lastSeq + 1) seq clock
    let g := { g with lastSeq := seq }
    let (g, out') := g.sendNackBatch .seq (clock 65536)
    (g, out ++ out')

/-- `ReceivePacket`: the state, the value returned and the calls on the listener. -/
def receivePacket (g : NackGenerator) (p : RtpPacket) (isRecovered : Bool) (clock : Clock) :
    NackGenerator × Bool × List NackOutput :=
  let seq := p.getSequenceNumber
  if !g.started then
    ({ g with
       started := true
       lastSeq := seq
       keyFrameList := OrderedMap.emplace seqLt seq () g.keyFrameList }, false, [])
  else if seq = g.lastSeq then (g, false, [])
  else if isSeqLowerThan seq g.lastSeq then
    match OrderedMap.find? seqLt seq g.nackList with
    | some (_, info) =>
      ({ g with nackList := OrderedMap.erase seqLt seq g.nackList }, info.retries != 0, [])
    | none => (g, false, [])
  else
    let (g, out) := g.receiveNewer seq isRecovered clock
    (g, false, out)

def onTimer (g : NackGenerator) (clock : Clock) : NackGenerator × List NackOutput :=
  g.sendNackBatch .time (clock 0)

def updateRtt (g : NackGenerator) (rtt : UInt32) : NackGenerator := { g with rtt := rtt }

def reset (g : NackGenerator) : NackGenerator :=
  { g with
    nackList := [], keyFrameList := [], recoveredList := [], started := false, lastSeq := 0 }

/-- The calls on a generator, `ReceivePacket` with `is_recovered` false. -/
inductive Event where
  | receive (p : RtpPacket) (clock : Clock)
  | timer (clock : Clock)
  | updateRtt (rtt : UInt32)
  | reset

def step (g : NackGenerator) : Event → NackGenerator × List NackOutput
  | .receive p clock =>
    ((g.receivePacket p false clock).1, (g.receivePacket p false clock).2.2)
  | .timer clock => g.onTimer clock
  | .updateRtt rtt => (g.updateRtt rtt, [])
  | .reset => (g.reset, [])

/-- A new generator. -/
def create (sendNackDelayMs : UInt32) : NackGenerator := { sendNackDelayMs }

end NackGenerator

end Bifrost.Rtc
