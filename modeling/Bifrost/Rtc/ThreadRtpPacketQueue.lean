/-
  `RTC::ThreadRtpPacketQueue`, the reorder queue between the network thread and the
  callback thread (`rtc/callback_queue_thread.h`).

  `push` and `pop` are the critical sections of `Push` and `Pop` under the queue's mutex.
  The two condition variables only decide when a `Pop` gets to run: `is_disorder_` is
  waited on without a predicate, so a `Pop` may go on after any notification (or a
  spurious one), and what it does then is `pop`. A run is any interleaving of the two.
  The payload (`RTCUtils::CopyOnWriteBuffer`) is opaque to the queue.
-/
import Bifrost.Lib.Trace
import Bifrost.Lib.OrderedMap

namespace Bifrost.Rtc

/-- `IsLargeSeq(small, big, has_routing)`: the result and the flag it sets. -/
def isLargeSeq (small big : UInt16) : Bool × Bool :=
  if big > small then
    -- a jump over more than half the range is not progress
    if big.toNat - small.toNat > 65535 / 2 then (false, false) else (true, false)
  else
    if small.toNat - big.toNat > 65535 / 2 then (true, true) else (false, false)

structure ThreadRtpPacketQueue (β : Type) where
  packetMap : List (UInt32 × β) := []
  isStart : Bool := true
  cycle : UInt32 := 0
  maxSeq : UInt16 := 0
  waitePopSeq : UInt32 := 0

namespace ThreadRtpPacketQueue

variable {β : Type}

/-- The order of `std::map<uint32_t, …>`. -/
def keyLt (a b : UInt32) : Bool := decide (a < b)

def resetPopSeq (q : ThreadRtpPacketQueue β) : ThreadRtpPacketQueue β :=
  { q with waitePopSeq := 0 }

/-- The first half of `Push`: start, running maximum and cycle count. -/
def advance (q : ThreadRtpPacketQueue β) (seq : UInt16) : ThreadRtpPacketQueue β :=
  let q := if q.isStart then { q with maxSeq := seq, isStart := false } else q
  let (large, hasRouting) := isLargeSeq q.maxSeq seq
  let q := if large then { q with maxSeq := seq } else q
  if hasRouting then { q with cycle := q.cycle + 1 } else q

/-- The key `Push` files a packet under, once `cycle_` is up to date. -/
def largeSeq (q : ThreadRtpPacketQueue β) (seq : UInt16) : UInt32 :=
  (q.cycle <<< 16) + seq.toUInt32

def push (q : ThreadRtpPacketQueue β) (seq : UInt16) (buffer : β) : ThreadRtpPacketQueue β :=
  let q := q.advance seq
  { q with packetMap := OrderedMap.emplace keyLt (q.largeSeq seq) buffer q.packetMap }

/-- The loop of `Pop`: payloads out, the next number awaited, what is left. -/
def popLoop : UInt32 → List (UInt32 × β) → List β × UInt32 × List (UInt32 × β)
  | waitePopSeq, [] => ([], waitePopSeq, [])
  | waitePopSeq, (key, buffer) :: rest =>
    if waitePopSeq = key then
      let (buffers, waitePopSeq', rest') := popLoop (waitePopSeq + 1) rest
      (buffer :: buffers, waitePopSeq', rest')
    else ([], waitePopSeq, (key, buffer) :: rest)

def pop (q : ThreadRtpPacketQueue β) : ThreadRtpPacketQueue β × List β :=
  let (buffers, waitePopSeq, packetMap) := popLoop q.waitePopSeq q.packetMap
  ({ q with waitePopSeq := waitePopSeq, packetMap := packetMap }, buffers)

def findContinuousPacket (q : ThreadRtpPacketQueue β) : Bool :=
  match q.packetMap with
  | [] => false
  | (key, _) :: _ => key == q.waitePopSeq

/-- The calls on a queue. -/
inductive Call (β : Type) where
  | push (seq : UInt16) (buffer : β)
  | pop
  deriving DecidableEq

def step (q : ThreadRtpPacketQueue β) : Call β → ThreadRtpPacketQueue β × List β
  | .push seq buffer => (q.push seq buffer, [])
  | .pop => q.pop

/-! ## What one call does -/

@[simp] theorem advance_packetMap (q : ThreadRtpPacketQueue β) (seq : UInt16) :
    (q.advance seq).packetMap = q.packetMap := by
  unfold advance
  dsimp only
  split <;> split <;> split <;> rfl

@[simp] theorem advance_waitePopSeq (q : ThreadRtpPacketQueue β) (seq : UInt16) :
    (q.advance seq).waitePopSeq = q.waitePopSeq := by
  unfold advance
  dsimp only
  split <;> split <;> split <;> rfl

@[simp] theorem advance_isStart (q : ThreadRtpPacketQueue β) (seq : UInt16) :
    (q.advance seq).isStart = false := by
  unfold advance
  dsimp only
  split
  · split <;> split <;> rfl
  · next h => split <;> split <;> simpa using h

@[simp] theorem push_packetMap (q : ThreadRtpPacketQueue β) (seq : UInt16) (b : β) :
    (q.push seq b).packetMap =
      OrderedMap.emplace keyLt ((q.advance seq).largeSeq seq) b q.packetMap := by
  simp only [push, advance_packetMap]

@[simp] theorem push_waitePopSeq (q : ThreadRtpPacketQueue β) (seq : UInt16) (b : β) :
    (q.push seq b).waitePopSeq = q.waitePopSeq := advance_waitePopSeq q seq

@[simp] theorem push_isStart (q : ThreadRtpPacketQueue β) (seq : UInt16) (b : β) :
    (q.push seq b).isStart = false := advance_isStart q seq

/-- A `Pop` that runs delivers something exactly when `FindContinuousPacket`, on which `Push`
    wakes it, has found the awaited packet. -/
theorem findContinuousPacket_iff (q : ThreadRtpPacketQueue β) :
    q.findContinuousPacket = true ↔ q.pop.2 ≠ [] := by
  unfold findContinuousPacket pop
  cases q.packetMap with
  | nil => simp [popLoop]
  | cons e rest =>
      obtain ⟨key, b⟩ := e
      by_cases hw : q.waitePopSeq = key
      · simp [popLoop, hw]
      · have hkey : key ≠ q.waitePopSeq := fun h => hw h.symm
        simp [popLoop, hw, hkey]

theorem strictTotalOn_keyLt : OrderedMap.StrictTotalOn keyLt fun _ => True where
  irrefl a _ := by simp [keyLt]
  trans a b c _ _ _ h h' := by
    simp only [keyLt, decide_eq_true_eq, UInt32.lt_iff_toNat_lt] at *
    omega
  total a b _ _ := by
    simp only [keyLt, decide_eq_true_eq, UInt32.lt_iff_toNat_lt, ← UInt32.toNat_inj]
    omega

/-- The key as a number, while the cycle count is below `2^16`. -/
theorem largeSeq_toNat (q : ThreadRtpPacketQueue β) (seq : UInt16) :
    (q.largeSeq seq).toNat = (q.cycle.toNat % 65536) * 65536 + seq.toNat := by
  have hs := seq.toNat_lt
  unfold largeSeq
  rw [UInt32.toNat_add, UInt32.toNat_shiftLeft, UInt16.toNat_toUInt32]
  simp only [UInt32.reduceToNat, Nat.shiftLeft_eq, Nat.reduceMod, Nat.reducePow]
  omega

end ThreadRtpPacketQueue

end Bifrost.Rtc
