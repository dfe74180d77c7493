/-
  `RTCApi::DecodedSmoothPCMQueue` (`api/rtc_factory.h`, `rtc_factory.cpp`).

  The `data` pointer of a frame is the number of its allocation and the bytes there, so that
  no two frames are the same. The length is not kept with the frame: `frame_size_` is the
  length of the frame pushed last, and all copies take that many bytes. A copy that leaves
  the storage of its frame is a fault. The loops that copy samples count `cp_len` down in
  steps of four as `size_t`.
-/
import Bifrost.Lib.Bytes
import Bifrost.Lib.Text
import Bifrost.Lib.Trace
import Bifrost.Rtc.Runtime

namespace Bifrost.Api

open Rtc (Fault)
open Text (sizeSub)

structure RestoreFrame where
  address : Nat
  data : List UInt8
  smoothFlag : Bool
  deriving DecidableEq

structure DecodedSmoothPCMQueue where
  overlapFrameSize : Nat
  smoothFrameCount : Nat := 0
  frameSize : Nat := 0
  frames : List RestoreFrame := []
  /-- The number of the next allocation. -/
  allocated : Nat := 0
  deriving DecidableEq

namespace DecodedSmoothPCMQueue

def setAllFrameNeedSmooth (q : DecodedSmoothPCMQueue) : DecodedSmoothPCMQueue :=
  { q with
    frames := q.frames.map fun frame => { frame with smoothFlag := true }
    smoothFrameCount := q.smoothFrameCount + q.frames.length }

/-- `Push`, of the `len` bytes at `data`. -/
def push (q : DecodedSmoothPCMQueue) (data : List UInt8) (isNeedSmooth : Bool) :
    DecodedSmoothPCMQueue :=
  { q with
    frames := q.frames ++ [⟨q.allocated, data, isNeedSmooth⟩]
    frameSize := data.length
    smoothFrameCount := if isNeedSmooth then q.smoothFrameCount + 1 else q.smoothFrameCount
    allocated := q.allocated + 1 }

/-! ## Smoothing -/

/-- The loop of `GetOverLapSizeFrameToFloat` over the samples of one frame. -/
def samplesOf : Nat → List UInt8 → Except Fault (List Float32)
  | 0, _ => .ok []
  | cpLen + 1, b₀ :: b₁ :: b₂ :: b₃ :: data => do
    let twoSample := Float32.ofBits (Bytes.u32le [b₀, b₁, b₂, b₃] 0 (Nat.le_refl 4))
    let segment ← samplesOf (sizeSub (cpLen + 1) 4) data
    .ok (twoSample / 32768.0 :: segment)
  | _ + 1, _ => .error .outOfRange

/-- `GetOverLapSizeFrameToFloat`: the samples of so many frames, and the frames left. -/
def getOverLapSizeFrameToFloat (frameSize : Nat) :
    Nat → List RestoreFrame → Except Fault (List Float32 × List RestoreFrame)
  | 0, frames => .ok ([], frames)
  | _ + 1, [] => .ok ([], [])
  | overlap + 1, frame :: frames => do
    let samples ← samplesOf frameSize frame.data
    let (segment, frames) ← getOverLapSizeFrameToFloat frameSize overlap frames
    .ok (samples ++ segment, frames)

/-- `segment[i]`. -/
def sampleAt (segment : List Float32) (i : Nat) : Except Fault Float32 :=
  match segment[i]? with
  | some sample => .ok sample
  | none => .error .outOfRange

def smoothPCM (segmentPre segmentLast : List Float32) : Except Fault (List Float32) :=
  let overlap := segmentPre.length
  let step1 : Float32 := 1.0 / (UInt64.ofNat (sizeSub overlap 1)).toFloat32
  let step2 : Float32 := 1.0 / (UInt64.ofNat (sizeSub overlap 1)).toFloat32
  (List.range overlap).mapM fun i => do
    let weight1 := 1.0 - step1 * (UInt64.ofNat i).toFloat32
    let weight2 := step2 * (UInt64.ofNat i).toFloat32
    let pre ← sampleAt segmentPre i
    let last ← sampleAt segmentLast i
    .ok ((pre * weight1 + last * weight2) / (weight1 + weight2) * 32768.0)

/-- The inner loop that copies back: it fills `room` bytes, and leaves the other samples. -/
def fillFrame : Nat → Nat → List Float32 → Except Fault (List UInt8 × List Float32)
  | 0, _, newData => .ok ([], newData)
  | _ + 1, _, [] => .error .pastTheEnd
  | cpLen + 1, room, sample :: newData =>
    if room < 4 then .error .outOfRange
    else do
      let (bytes, newData) ← fillFrame (sizeSub (cpLen + 1) 4) (room - 4) newData
      .ok (Bytes.put32le sample.toBits ++ bytes, newData)

/-- The outer loop: the frames it makes, the first with allocation `next`. Every round takes a
    sample when frames are not empty, so that there are rounds enough for all samples. -/
def copyBack (frameSize : Nat) : Nat → Nat → List Float32 → Except Fault (List RestoreFrame)
  | _, _, [] => .ok []
  | 0, _, _ :: _ => .error .endlessLoop
  | fuel + 1, next, newData => do
    let (bytes, newData) ← fillFrame frameSize frameSize newData
    let frames ← copyBack frameSize fuel (next + 1) newData
    .ok (⟨next, bytes, false⟩ :: frames)

/-- What `Pop` does when there are twice as many frames to smooth as overlap. -/
def smoothPass (q : DecodedSmoothPCMQueue) : Except Fault DecodedSmoothPCMQueue := do
  let (pre, frames) ← getOverLapSizeFrameToFloat q.frameSize q.overlapFrameSize q.frames
  let (last, frames) ← getOverLapSizeFrameToFloat q.frameSize q.overlapFrameSize frames
  let newData ← smoothPCM pre last
  let smoothFrames ← copyBack q.frameSize newData.length q.allocated newData
  .ok
    { q with
      frames := frames ++ smoothFrames
      allocated := q.allocated + smoothFrames.length }

/-! ## Taking frames out -/

/-- What a call gives when it returns true: the frame it takes, the bytes it has copied from
    there and `len`. -/
structure Copied where
  frame : RestoreFrame
  data : List UInt8
  len : Nat
  deriving DecidableEq

structure Popped where
  returned : Option Copied := none
  rangePop : Bool := false
  deriving DecidableEq

/-- The front frame is copied, deleted and erased. -/
def takeFront (q : DecodedSmoothPCMQueue) (frame : RestoreFrame) (frames : List RestoreFrame) :
    Except Fault (DecodedSmoothPCMQueue × Popped) :=
  if q.frameSize ≤ frame.data.length then
    .ok ({ q with frames },
      { returned := some ⟨frame, frame.data.take q.frameSize, q.frameSize⟩ })
  else .error .outOfRange

/-- `overlap_frame_size_ * 2`, in `size_t`. -/
def bothSegments (q : DecodedSmoothPCMQueue) : Nat := q.overlapFrameSize * 2 % 2 ^ 64

def pop (q : DecodedSmoothPCMQueue) : Except Fault (DecodedSmoothPCMQueue × Popped) :=
  match q.frames with
  | [] => .ok (q, {})
  | frame :: frames =>
    if ¬ frame.smoothFlag then q.takeFront frame frames
    else if q.smoothFrameCount ≥ q.bothSegments then do
      let q ← q.smoothPass
      .ok (q, { rangePop := true })
    else .ok (q, {})

def forcePop (q : DecodedSmoothPCMQueue) : Except Fault (DecodedSmoothPCMQueue × Popped) :=
  match q.frames with
  | [] => .ok (q, {})
  | frame :: frames => q.takeFront frame frames

/-! ## Runs -/

inductive Call where
  | push (data : List UInt8) (isNeedSmooth : Bool)
  | setAllFrameNeedSmooth
  | pop
  | forcePop
  deriving DecidableEq

def call (q : DecodedSmoothPCMQueue) : Call → Except Fault (DecodedSmoothPCMQueue × Popped)
  | .push data isNeedSmooth => .ok (q.push data isNeedSmooth, {})
  | .setAllFrameNeedSmooth => .ok (q.setAllFrameNeedSmooth, {})
  | .pop => q.pop
  | .forcePop => q.forcePop

/-- A call, with what it gives. -/
def step (q : DecodedSmoothPCMQueue) (c : Call) :
    Except Fault (DecodedSmoothPCMQueue × List Copied) := do
  let (q, popped) ← q.call c
  .ok (q, popped.returned.toList)

/-- The state after a call. -/
def next (q : DecodedSmoothPCMQueue) (c : Call) : Except Fault DecodedSmoothPCMQueue := do
  let (q, _) ← q.call c
  .ok q

end DecodedSmoothPCMQueue

end Bifrost.Api
