/-
  `RTC::RateCalculator` and `RTC::RtpDataCounter` (`rtc/data_calculator.h`,
  `rtc/data_calculator.cpp`).

  The window is a ring of items. `RemoveOldData` walks it from the oldest item until an item
  young enough, and nothing in its loop says that there is one: after a whole turn every
  item is zero and the loop goes on for ever, which is the fault `endlessLoop`.

  The member `scale_` is an argument of `getRate`: nothing else reads it. The cast of the rate
  to `uint32_t`, which is undefined from 2 ^ 32 on and for a quotient that is no number, has
  there the value of the Lean function; no result reads it.
-/
import Bifrost.Rtc.Runtime

namespace Bifrost.Rtc

structure BufferItem where
  count : UInt64 := 0
  time : UInt64 := 0
  deriving DecidableEq

structure RateCalculator where
  windowSizeMs : UInt64
  windowItems : UInt16
  itemSizeMs : UInt64
  buffer : List BufferItem
  newestItemStartTime : UInt64 := 0
  newestItemIndex : Int := -1
  oldestItemStartTime : UInt64 := 0
  oldestItemIndex : Int := -1
  totalCount : UInt64 := 0
  bytes : UInt64 := 0
  lastRate : UInt32 := 0
  lastTime : UInt64 := 0
  deriving DecidableEq

namespace RateCalculator

def kDefaultWindowItems : UInt16 := 100

def create (windowSizeMs : UInt64) (windowItems : UInt16) : RateCalculator :=
  { windowSizeMs
    windowItems
    itemSizeMs := max (windowSizeMs / windowItems.toUInt64) 1
    buffer := List.replicate windowItems.toNat {} }

/-- `buffer_[i]`. -/
def itemAt (r : RateCalculator) (i : Int) : Except Fault BufferItem :=
  if i < 0 then .error .outOfRange
  else
    match r.buffer[i.toNat]? with
    | some item => .ok item
    | none => .error .outOfRange

def setItem (r : RateCalculator) (i : Int) (item : BufferItem) : RateCalculator :=
  { r with buffer := r.buffer.set i.toNat item }

def reset (r : RateCalculator) : RateCalculator :=
  { r with
    buffer := r.buffer.map fun _ => {}
    newestItemStartTime := 0
    newestItemIndex := -1
    oldestItemStartTime := 0
    oldestItemIndex := -1
    totalCount := 0
    lastRate := 0
    lastTime := 0 }

/-- `++index`, and back to the start of the ring. -/
def nextIndex (r : RateCalculator) (i : Int) : Int :=
  if i + 1 ≥ r.windowItems.toNat then 0 else i + 1

/-- One round of the loop of `RemoveOldData`. -/
def removeOldest (r : RateCalculator) : Except Fault RateCalculator := do
  let oldestItem ← r.itemAt r.oldestItemIndex
  let r := { r.setItem r.oldestItemIndex {} with
    totalCount := r.totalCount - oldestItem.count
    oldestItemIndex := r.nextIndex r.oldestItemIndex }
  let newOldestItem ← r.itemAt r.oldestItemIndex
  .ok { r with oldestItemStartTime := newOldestItem.time }

/-- The loop of `RemoveOldData`. When a round for each item has not ended it, nothing
    will. -/
def removeOldLoop (newOldestTime : UInt64) : Nat → RateCalculator → Except Fault RateCalculator
  | 0, _ => .error .endlessLoop
  | fuel + 1, r =>
    if newOldestTime ≥ r.oldestItemStartTime then do
      removeOldLoop newOldestTime fuel (← r.removeOldest)
    else .ok r

def removeOldData (r : RateCalculator) (nowMs : UInt64) : Except Fault RateCalculator :=
  if r.newestItemIndex < 0 ∨ r.oldestItemIndex < 0 then .ok r
  else
    let newOldestTime := nowMs - r.windowSizeMs
    if newOldestTime < r.oldestItemStartTime then .ok r
    -- a whole window has elapsed since the last entry
    else if newOldestTime ≥ r.newestItemStartTime then .ok r.reset
    else removeOldLoop newOldestTime (r.windowItems.toNat + 1) r

/-- The part of `Update` that puts the bytes into the newest item or a new one. -/
def addToNewest (r : RateCalculator) (size nowMs : UInt64) : Except Fault RateCalculator :=
  if r.newestItemIndex < 0 ∨ nowMs - r.newestItemStartTime ≥ r.itemSizeMs then do
    let r := { r with
      newestItemIndex := r.nextIndex r.newestItemIndex
      newestItemStartTime := nowMs }
    let _ ← r.itemAt r.newestItemIndex
    .ok (r.setItem r.newestItemIndex { count := size, time := nowMs })
  else do
    let item ← r.itemAt r.newestItemIndex
    .ok (r.setItem r.newestItemIndex { item with count := item.count + size })

/-- The last lines of `Update`. -/
def finishUpdate (r : RateCalculator) (size nowMs : UInt64) : RateCalculator :=
  let r := if r.oldestItemIndex < 0 then
      { r with oldestItemIndex := r.newestItemIndex, oldestItemStartTime := nowMs }
    else r
  { r with totalCount := r.totalCount + size, lastRate := 0, lastTime := 0 }

def update (r : RateCalculator) (size nowMs : UInt64) : Except Fault RateCalculator :=
  if nowMs < r.oldestItemStartTime then .ok r
  else do
    let r ← ({ r with bytes := r.bytes + size } : RateCalculator).removeOldData nowMs
    let r ← r.addToNewest size nowMs
    .ok (r.finishUpdate size nowMs)

/-- `GetRate`, with `scale_`. The cast leaves out the digits that `std::trunc` does. What it does
    with a rate that `uint32_t` cannot hold is left out. -/
def getRate (scale : Float32) (r : RateCalculator) (nowMs : UInt64) :
    Except Fault (RateCalculator × UInt32) :=
  if nowMs = r.lastTime then .ok (r, r.lastRate)
  else do
    let r ← r.removeOldData nowMs
    let scale := scale / r.windowSizeMs.toFloat32
    let lastRate := (r.totalCount.toFloat32 * scale + 0.5).toUInt32
    .ok ({ r with lastTime := nowMs, lastRate }, lastRate)

end RateCalculator

structure RtpDataCounter where
  rate : RateCalculator
  packets : UInt64 := 0
  deriving DecidableEq

namespace RtpDataCounter

def create (windowSizeMs : UInt64) : RtpDataCounter :=
  { rate := .create windowSizeMs RateCalculator.kDefaultWindowItems }

/-- The window size of `RtpDataCounter`'s default constructor. -/
def kDefaultWindowSize : UInt64 := 2500

/-- `Update` for a packet of `size` bytes. -/
def update (c : RtpDataCounter) (size : UInt32) (nowMs : UInt64) :
    Except Fault RtpDataCounter := do
  let rate ← c.rate.update size.toUInt64 nowMs
  .ok { rate, packets := c.packets + 1 }

def getPacketCount (c : RtpDataCounter) : UInt64 := c.packets

def getBytes (c : RtpDataCounter) : UInt64 := c.rate.bytes

end RtpDataCounter

end Bifrost.Rtc
