/-
  Where the copy loops of a smoothing pass end.

  Both inner loops count the bytes of a frame down in steps of four and stop at 0 only. From
  a frame size that is no multiple of four the count wraps below 0 and the loop leaves the
  frame; so does it from a frame that is shorter than the frame size. `covers_iff`: these are
  the only ways. The outer loop then makes whole frames of all samples, since each segment is
  made of whole frames (`fillsFrames_of_divides`). `eachPass_iff` says it for the passes of
  a run, and `eachPass_of_uniform` for runs that push frames of one length.
-/
import Bifrost.Api.SmoothingOrder

namespace Bifrost.Api

open Rtc (Fault)
open Text (sizeSub)

namespace DecodedSmoothPCMQueue

/-! ## What the loops should do -/

/-- The loop over the samples of the frame ends after `frameSize` bytes. -/
def Covers (frameSize : Nat) (frame : RestoreFrame) : Prop :=
  ∃ samples, samplesOf frameSize frame.data = .ok samples ∧ 4 * samples.length = frameSize

def sampleBytes (sample : Float32) : List UInt8 := Bytes.put32le sample.toBits

/-- The loops that copy back end, and the frames made are full and hold just the samples. -/
def FillsFrames (frameSize next : Nat) (newData : List Float32) : Prop :=
  ∃ made, copyBack frameSize newData.length next newData = .ok made ∧
    (∀ frame ∈ made, frame.data.length = frameSize) ∧
    made.flatMap RestoreFrame.data = newData.flatMap sampleBytes

/-- Every copy loop of a pass ends at the end of its frame. -/
structure LoopsEnd (q : DecodedSmoothPCMQueue) : Prop where
  read : ∀ frame ∈ q.frames.take (2 * q.overlapFrameSize), Covers q.frameSize frame
  written (pre last newData : List Float32) (left left' : List RestoreFrame)
    (hpre : getOverLapSizeFrameToFloat q.frameSize q.overlapFrameSize q.frames = .ok (pre, left))
    (hlast : getOverLapSizeFrameToFloat q.frameSize q.overlapFrameSize left = .ok (last, left'))
    (hnew : smoothPCM pre last = .ok newData) : FillsFrames q.frameSize q.allocated newData

/-- The frames of the pass are whole samples and no shorter than the frame size. -/
def WholeFrames (q : DecodedSmoothPCMQueue) : Prop :=
  ∀ frame ∈ q.frames.take (2 * q.overlapFrameSize),
    4 ∣ q.frameSize ∧ q.frameSize ≤ frame.data.length

instance (q : DecodedSmoothPCMQueue) : Decidable q.WholeFrames :=
  inferInstanceAs (Decidable (∀ frame ∈ q.frames.take (2 * q.overlapFrameSize), _ ∧ _))

/-- When a call of `Pop` starts a pass, `P` holds of the queue. -/
def AtPass (P : DecodedSmoothPCMQueue → Prop) (q : DecodedSmoothPCMQueue) (c : Call) : Prop :=
  c = .pop → q.StartsPass → P q

/-! ## Out of the frames -/

theorem le_of_samplesOf {cpLen : Nat} {data : List UInt8} {segment : List Float32}
    (h : samplesOf cpLen data = .ok segment) : cpLen ≤ data.length := by
  induction cpLen, data using samplesOf.induct generalizing segment with
  | case1 data => exact Nat.zero_le _
  | case2 cpLen b₀ b₁ b₂ b₃ data ih =>
      rw [samplesOf] at h
      obtain ⟨rest, hrest, -⟩ := bind_eq_ok.mp h
      have hleft := ih hrest
      have hwhole := sizeSub_four (length_samplesOf hrest)
      rw [sizeSub_of_le (by omega)] at hleft
      simp only [List.length_cons]
      omega
  | case3 data cpLen hshort =>
      rw [samplesOf.eq_3 _ _ hshort] at h
      cases h

theorem covers_iff (frameSize : Nat) (frame : RestoreFrame) :
    Covers frameSize frame ↔ 4 ∣ frameSize ∧ frameSize ≤ frame.data.length := by
  constructor
  · rintro ⟨samples, hok, hlen⟩
    exact ⟨⟨samples.length, hlen.symm⟩, le_of_samplesOf hok⟩
  · rintro ⟨⟨n, rfl⟩, hle⟩
    obtain ⟨samples, hok⟩ := samplesOf_completes n hle
    exact ⟨samples, hok, (length_samplesOf hok).symm⟩

/-! ## Back into frames -/

/-- The bytes that are filled in are those of the samples that are taken. -/
theorem flatMap_fillFrame {cpLen room : Nat} {newData rest : List Float32} {bytes : List UInt8}
    (h : fillFrame cpLen room newData = .ok (bytes, rest)) :
    bytes ++ rest.flatMap sampleBytes = newData.flatMap sampleBytes := by
  induction cpLen, room, newData using fillFrame.induct generalizing bytes rest with
  | case1 room newData =>
      rw [fillFrame] at h
      cases h
      rfl
  | case2 cpLen room =>
      rw [fillFrame] at h
      cases h
  | case3 cpLen room sample newData hfull =>
      rw [fillFrame, if_pos hfull] at h
      cases h
  | case4 cpLen room sample newData hroom ih =>
      rw [fillFrame, if_neg hroom] at h
      obtain ⟨⟨bytes', rest'⟩, hmore, h⟩ := bind_eq_ok.mp h
      cases h
      rw [List.flatMap_cons, ← ih hmore, List.append_assoc]
      rfl

theorem flatMap_copyBack {frameSize fuel next : Nat} {newData : List Float32}
    {made : List RestoreFrame} (h : copyBack frameSize fuel next newData = .ok made) :
    made.flatMap RestoreFrame.data = newData.flatMap sampleBytes := by
  induction fuel, next, newData using copyBack.induct generalizing made with
  | case1 fuel next =>
      rw [copyBack] at h
      cases h
      rfl
  | case2 next sample newData =>
      rw [copyBack] at h
      cases h
  | case3 fuel next newData hsome ih =>
      rw [copyBack.eq_3 _ _ _ _ hsome] at h
      obtain ⟨⟨bytes, rest⟩, hfill, h⟩ := bind_eq_ok.mp h
      obtain ⟨frames, hrest, h⟩ := bind_eq_ok.mp h
      cases h
      rw [List.flatMap_cons, ih rest hrest]
      exact flatMap_fillFrame hfill

/-- As many samples as some frames are made of go back into as many frames. -/
theorem fillsFrames_of_divides {frameSize next count : Nat} {newData : List Float32}
    (hdvd : count ≠ 0 → 4 ∣ frameSize) (hlen : 4 * newData.length = count * frameSize) :
    FillsFrames frameSize next newData := by
  have hmade : ∃ made, copyBack frameSize newData.length next newData = .ok made := by
    by_cases hnone : newData = []
    · rw [hnone, copyBack]
      exact ⟨[], rfl⟩
    · have hsome : 0 < newData.length := List.length_pos_of_ne_nil hnone
      have hcount : count ≠ 0 := by
        rintro rfl
        omega
      obtain ⟨n, rfl⟩ := hdvd hcount
      rw [Nat.mul_left_comm] at hlen
      have hn : 0 < n := by
        apply Nat.pos_of_ne_zero
        rintro rfl
        omega
      obtain ⟨made, hok, -⟩ := @copyBack_completes n hn count newData.length next newData (by omega)
        (by rw [show newData.length = count * n by omega]; exact Nat.le_mul_of_pos_right _ hn)
      exact ⟨made, hok⟩
  obtain ⟨made, hok⟩ := hmade
  exact ⟨made, hok, (madeFrom_copyBack hok).full, flatMap_copyBack hok⟩

/-! ## The passes of a run -/

theorem loopsEnd_iff (q : DecodedSmoothPCMQueue) : q.LoopsEnd ↔ q.WholeFrames := by
  constructor
  · exact fun h frame hframe => (covers_iff _ _).mp (h.read frame hframe)
  · intro h
    refine ⟨fun frame hframe => (covers_iff _ _).mpr (h frame hframe), ?_⟩
    intro pre last newData left left' hpre hlast hnew
    have hsegment := (segment_of_overLap hpre).2
    rw [← length_of_smoothPCM hnew] at hsegment
    apply fillsFrames_of_divides _ hsegment
    intro hsome
    -- a frame that went into the segment
    have hfirst : 0 < (q.frames.take (2 * q.overlapFrameSize)).length := by
      rw [List.length_take]
      omega
    exact (h _ (List.getElem_mem hfirst)).1

/-- **In every run the loops of all passes end at the frame end exactly when, whenever a pass
    starts, its frames are whole samples and as long as the frame pushed last.** -/
theorem eachPass_iff (overlap : Nat) (calls : List Call) :
    Trace.EachStep next (AtPass LoopsEnd) { overlapFrameSize := overlap } calls ↔
      Trace.EachStep next (AtPass WholeFrames) { overlapFrameSize := overlap } calls := by
  have hsame : AtPass LoopsEnd = AtPass WholeFrames := by
    funext q c
    simp only [AtPass, loopsEnd_iff]
  rw [hsame]

/-- Frames of two bytes: the count goes from 2 below 0. -/
theorem not_eachPass : ¬ ∀ (overlap : Nat) (calls : List Call),
    Trace.EachStep next (AtPass LoopsEnd) { overlapFrameSize := overlap } calls := by
  intro h
  obtain ⟨-, hfirst⟩ := h 1 [.push [1, 2] true, .push [3, 4] true, .pop]
  obtain ⟨-, hsecond⟩ := hfirst _ rfl
  have hpass := (hsecond _ rfl).1 rfl (by decide)
  rw [loopsEnd_iff] at hpass
  revert hpass
  decide

/-- Frames of one length are whole frames when it is a multiple of four. -/
theorem eachPass_of_uniform (overlap n : Nat) {calls : List Call}
    (hpush : ∀ data isNeedSmooth, .push data isNeedSmooth ∈ calls → data.length = 4 * n) :
    Trace.EachStep next (AtPass LoopsEnd) { overlapFrameSize := overlap } calls := by
  apply Trace.eachStep_of_invariant (I := Uniform overlap (4 * n))
    (A := fun c : Call => ∀ data isNeedSmooth, c = .push data isNeedSmooth → data.length = 4 * n)
  · exact fun q c q' h hc hok => uniform_next h hc hok
  · intro q c h _ _ hpass
    rw [loopsEnd_iff]
    intro frame hframe
    have hsize := h.size (startsPass_ne_nil hpass)
    have hlen := (h.frames frame (List.mem_of_mem_take hframe)).1
    exact ⟨⟨n, hsize⟩, by rw [hsize, hlen]⟩
  · exact uniform_empty overlap (4 * n)
  · rintro c hc data isNeedSmooth rfl
    exact hpush data isNeedSmooth hc

end DecodedSmoothPCMQueue

end Bifrost.Api
