/-
  `RTC::RtpRetransmissionBuffer` (`rtc/rtp_retransmission_buffer.h`,
  `rtc/rtp_retransmission_buffer.cpp`).

  `buffer_` is a deque of `Item*`, a blank slot is a null pointer. Positions carry the
  sequence number: a slot stands as far behind the front as its number is ahead of the
  front's. The code can go wrong by reading through a null item, by an index outside the
  deque (`at` throws, `[]` is undefined), and by the division by a `clock_rate_` of zero.

  The deque owns its items; `Reset` and `delete` on removal have no counterpart, since
  nothing reads an item that left the deque.
-/
import Bifrost.Lib.Trace
import Bifrost.Rtc.RtpPacket
import Bifrost.Rtc.Runtime
import Bifrost.Rtc.SeqManager

namespace Bifrost.Rtc

open SeqManager

structure Item where
  rtpPacket : Option RtpPacket
  ssrc : UInt32
  sequenceNumber : UInt16
  timestamp : UInt32
  resentAtMs : UInt64
  sentTimes : UInt8
  deriving DecidableEq

structure RtpRetransmissionBuffer where
  buffer : List (Option Item) := []
  maxItems : UInt16
  maxRetransmissionDelayMs : UInt32
  clockRate : UInt32
  deriving DecidableEq

/-- `buffer_.at(i)`. -/
def slotAt (buffer : List (Option Item)) (i : Nat) : Except Fault (Option Item) :=
  match buffer[i]? with
  | some slot => .ok slot
  | none => .error .outOfRange

namespace RtpRetransmissionBuffer

/-- `new Item(rtp_packet, ssrc, seq, timestamp, 0, 0)`. -/
def newItem (p : RtpPacket) : Item :=
  { rtpPacket := some p
    ssrc := p.getSsrc
    sequenceNumber := p.getSequenceNumber
    timestamp := p.getTimestamp
    resentAtMs := 0
    sentTimes := 0 }

def getOldest (b : RtpRetransmissionBuffer) : Option Item := b.buffer.head?.join

def getNewest (b : RtpRetransmissionBuffer) : Option Item := b.buffer.getLast?.join

def clear (b : RtpRetransmissionBuffer) : RtpRetransmissionBuffer := { b with buffer := [] }

def pushBack (b : RtpRetransmissionBuffer) (slot : Option Item) : RtpRetransmissionBuffer :=
  { b with buffer := b.buffer ++ [slot] }

/-- `RemoveOldest()`: the front slot and the blank slots behind it. -/
def removeOldest (b : RtpRetransmissionBuffer) : Except Fault RtpRetransmissionBuffer :=
  match b.buffer with
  | [] => .ok b
  | none :: _ => .error .nullPointer
  | some _ :: rest => .ok { b with buffer := rest.dropWhile Option.isNone }

/-- `RemoveOldest(uint16_t numItems)`; the subtraction is in `size_t`. -/
def removeOldestItems (b : RtpRetransmissionBuffer) (numItems : UInt16) :
    Except Fault RtpRetransmissionBuffer :=
  let intendedBufferSize := (b.buffer.length + 2 ^ 64 - numItems.toNat) % 2 ^ 64
  if b.buffer.length > intendedBufferSize then b.removeOldest else .ok b

def isTooOldTimestamp (b : RtpRetransmissionBuffer) (timestamp newestTimestamp : UInt32) :
    Except Fault Bool :=
  if isSeqHigherThan timestamp newestTimestamp then .ok false
  else if b.clockRate = 0 then .error .divisionByZero
  else
    let diffTs := (newestTimestamp - timestamp).toNat
    .ok (decide (UInt32.ofNat (diffTs * 1000 / b.clockRate.toNat) > b.maxRetransmissionDelayMs))

/-- The loop of `ClearTooOldByTimestamp`. Every round removes a slot, so one round for
    each slot is enough. -/
def clearTooOldLoop (newestTimestamp : UInt32) :
    Nat → RtpRetransmissionBuffer → Bool → Except Fault (RtpRetransmissionBuffer × Bool)
  | 0, b, itemsRemoved => .ok (b, itemsRemoved)
  | fuel + 1, b, itemsRemoved =>
    match b.getOldest with
    | none => .ok (b, itemsRemoved)
    | some oldestItem => do
      if ← b.isTooOldTimestamp oldestItem.timestamp newestTimestamp then
        clearTooOldLoop newestTimestamp fuel (← b.removeOldest) true
      else .ok (b, itemsRemoved)

def clearTooOldByTimestamp (b : RtpRetransmissionBuffer) (newestTimestamp : UInt32) :
    Except Fault (RtpRetransmissionBuffer × Bool) :=
  clearTooOldLoop newestTimestamp b.buffer.length b false

def get (b : RtpRetransmissionBuffer) (seq : UInt16) : Except Fault (Option Item) :=
  match b.getOldest with
  | none => .ok none
  | some oldestItem =>
    if isSeqLowerThan seq oldestItem.sequenceNumber then .ok none
    else
      let idx := seq - oldestItem.sequenceNumber
      if idx.toNat > b.buffer.length - 1 then .ok none else slotAt b.buffer idx.toNat

/-! ## `Insert` -/

/-- Branch 4: the packet is newer than the newest one. -/
def insertInOrder (b : RtpRetransmissionBuffer) (p : RtpPacket) (newestItem : Item) :
    Except Fault RtpRetransmissionBuffer :=
  if isSeqLowerThan p.getTimestamp newestItem.timestamp then .ok b
  else
    let numBlankSlots := p.getSequenceNumber - newestItem.sequenceNumber - 1
    if b.buffer.length + numBlankSlots.toNat + 1 > b.maxItems.toNat then
      let numItemsToRemove :=
        UInt16.ofNat (b.buffer.length + numBlankSlots.toNat + 1 - b.maxItems.toNat)
      if numItemsToRemove.toNat > b.buffer.length - 1 then
        .ok (b.clear.pushBack (newItem p))
      else do
        let b ← b.removeOldestItems numItemsToRemove
        .ok { b with
              buffer := b.buffer ++ List.replicate numBlankSlots.toNat none ++ [some (newItem p)] }
    else
      .ok { b with
            buffer := b.buffer ++ List.replicate numBlankSlots.toNat none ++ [some (newItem p)] }

/-- Branch 5: the packet is older than the oldest one. -/
def insertOlder (b : RtpRetransmissionBuffer) (p : RtpPacket) (oldestItem newestItem : Item) :
    Except Fault RtpRetransmissionBuffer := do
  if ← b.isTooOldTimestamp p.getTimestamp newestItem.timestamp then .ok b
  else if isSeqHigherThan p.getTimestamp oldestItem.timestamp then .ok b
  else
    let numBlankSlots := oldestItem.sequenceNumber - p.getSequenceNumber - 1
    if b.buffer.length + numBlankSlots.toNat + 1 > b.maxItems.toNat then .ok b
    else
      .ok { b with
            buffer := some (newItem p) :: (List.replicate numBlankSlots.toNat none ++ b.buffer) }

/-- The loop over the slots before `idx`, downwards: does the nearest item let the
    timestamp in? -/
def olderAllows (buffer : List (Option Item)) (timestamp : UInt32) : Nat → Except Fault Bool
  | 0 => .ok true
  | idx2 + 1 => do
    match ← slotAt buffer idx2 with
    | none => olderAllows buffer timestamp idx2
    | some olderItem => .ok (decide (timestamp ≥ olderItem.timestamp))

/-- The loop over the slots after `idx`, upwards and bounded by the size. -/
def newerAllows (timestamp : UInt32) : List (Option Item) → Bool
  | [] => true
  | none :: slots => newerAllows timestamp slots
  | some newerItem :: _ => decide (timestamp ≤ newerItem.timestamp)

/-- Branch 6: the packet lies between the oldest and the newest one. -/
def insertBetween (b : RtpRetransmissionBuffer) (p : RtpPacket) (oldestItem : Item) :
    Except Fault RtpRetransmissionBuffer := do
  match ← b.get p.getSequenceNumber with
  | some _ => .ok b
  | none =>
    let idx := (p.getSequenceNumber - oldestItem.sequenceNumber).toNat
    if !(← olderAllows b.buffer p.getTimestamp idx) then .ok b
    else if !newerAllows p.getTimestamp (b.buffer.drop (idx + 1)) then .ok b
    else if idx < b.buffer.length then
      .ok { b with buffer := b.buffer.set idx (some (newItem p)) }
    else .error .outOfRange

/-- Branches 4 to 6, once the outdated items are gone. -/
def insertLive (b : RtpRetransmissionBuffer) (p : RtpPacket) :
    Except Fault RtpRetransmissionBuffer := do
  let newestItem ← deref b.getNewest
  if isSeqHigherThan p.getSequenceNumber newestItem.sequenceNumber then
    b.insertInOrder p newestItem
  else
    let oldestItem ← deref b.getOldest
    if isSeqLowerThan p.getSequenceNumber oldestItem.sequenceNumber then
      b.insertOlder p oldestItem newestItem
    else b.insertBetween p oldestItem

/-- The later of the packet's timestamp and the newest stored one. -/
def newestTimestamp (p : RtpPacket) (newestItem : Item) : UInt32 :=
  if isSeqHigherThan p.getTimestamp newestItem.timestamp then p.getTimestamp
  else newestItem.timestamp

def insert (b : RtpRetransmissionBuffer) (p : RtpPacket) :
    Except Fault RtpRetransmissionBuffer :=
  if b.buffer.isEmpty then .ok (b.pushBack (newItem p))
  else do
    let newestItem ← deref b.getNewest
    if isSeqLowerThan p.getSequenceNumber newestItem.sequenceNumber &&
        isSeqHigherThan p.getTimestamp newestItem.timestamp then
      .ok (b.clear.pushBack (newItem p))
    else
      let (b, itemsRemoved) ← b.clearTooOldByTimestamp (newestTimestamp p newestItem)
      if itemsRemoved && b.buffer.isEmpty then .ok (b.pushBack (newItem p))
      else b.insertLive p

/-- The calls that change a buffer. -/
inductive Call where
  | insert (p : RtpPacket)
  | clear
  deriving DecidableEq

def step (b : RtpRetransmissionBuffer) : Call → Except Fault RtpRetransmissionBuffer
  | .insert p => b.insert p
  | .clear => .ok b.clear

/-- A new buffer. -/
def create (maxItems : UInt16) (maxRetransmissionDelayMs clockRate : UInt32) :
    RtpRetransmissionBuffer :=
  { maxItems, maxRetransmissionDelayMs, clockRate }

end RtpRetransmissionBuffer

end Bifrost.Rtc
