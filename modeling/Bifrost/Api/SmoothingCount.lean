/-
  `smooth_frame_count_` and the flagged frames.

  `Push` counts a flagged frame and `SetAllFrameNeedSmooth` counts all there are, flagged
  before or not. Nothing counts down: not `ForcePop` that drops a flagged frame, and not the
  pass that takes two segments of them. So the count is right all along a run exactly when
  the run has none of these (`counted_iff`). While it is right, a pass has its two segments
  (`pass_of_counted`); the next one may not (`segment_cut_short`). And the count is compared
  with twice the overlap as a `size_t`, which an overlap of `2^63` wraps to 0 (`NoWrap`).
-/
import Bifrost.Api.SmoothingPass

namespace Bifrost.Api

namespace DecodedSmoothPCMQueue

def flagged (q : DecodedSmoothPCMQueue) : Nat := q.frames.countP RestoreFrame.smoothFlag

def Counted (q : DecodedSmoothPCMQueue) : Prop := q.smoothFrameCount = q.flagged

instance (q : DecodedSmoothPCMQueue) : Decidable q.Counted := inferInstanceAs (Decidable (_ = _))

/-- The two segments of a pass are of one length, and `SmoothPCM` indexes neither out of
    range. -/
def SegmentsAgree (q : DecodedSmoothPCMQueue) : Prop :=
  ∀ pre frames₁ last frames₂,
    getOverLapSizeFrameToFloat q.frameSize q.overlapFrameSize q.frames = .ok (pre, frames₁) →
    getOverLapSizeFrameToFloat q.frameSize q.overlapFrameSize frames₁ = .ok (last, frames₂) →
    pre.length = last.length ∧ ∃ newData, smoothPCM pre last = .ok newData

/-- The call does not put the count out. -/
def Keeps (q : DecodedSmoothPCMQueue) : Call → Prop
  | .push _ _ => True
  | .setAllFrameNeedSmooth => ∀ frame ∈ q.frames, frame.smoothFlag = false
  | .pop => q.StartsPass → q.overlapFrameSize = 0
  | .forcePop => ∀ frame ∈ q.frames.head?, frame.smoothFlag = false

instance (q : DecodedSmoothPCMQueue) : ∀ c : Call, Decidable (q.Keeps c)
  | .push _ _ => isTrue trivial
  | .setAllFrameNeedSmooth =>
    inferInstanceAs (Decidable (∀ frame ∈ q.frames, frame.smoothFlag = false))
  | .pop => inferInstanceAs (Decidable (q.StartsPass → q.overlapFrameSize = 0))
  | .forcePop => inferInstanceAs (Decidable (∀ frame ∈ q.frames.head?, frame.smoothFlag = false))

/-- `Pop` does not take the count for twice the overlap because the product wrapped. -/
def NoWrap (q : DecodedSmoothPCMQueue) : Prop :=
  q.StartsPass → q.overlapFrameSize < 2 ^ 63 ∨ 2 * q.overlapFrameSize ≤ q.smoothFrameCount

instance (q : DecodedSmoothPCMQueue) : Decidable q.NoWrap := inferInstanceAs (Decidable (_ → _))

/-! ## One call -/

/-- **In a counted queue a pass has its two segments**: as many flagged frames, and as many
    samples in the second as in the first. -/
theorem pass_of_counted {q : DecodedSmoothPCMQueue} (h : q.Counted) (hwrap : q.NoWrap)
    (hpass : q.StartsPass) : 2 * q.overlapFrameSize ≤ q.flagged ∧ q.SegmentsAgree := by
  have hmany : 2 * q.overlapFrameSize ≤ q.flagged := by
    rw [← show q.smoothFrameCount = q.flagged from h]
    rcases hwrap hpass with hsmall | hle
    · have hproduct : q.bothSegments = 2 * q.overlapFrameSize := by
        unfold bothSegments
        rw [Nat.mod_eq_of_lt (by omega), Nat.mul_comm]
      exact hproduct ▸ hpass.2
    · exact hle
  refine ⟨hmany, fun pre frames₁ last frames₂ hpre hlast => ?_⟩
  obtain ⟨-, hagree⟩ := segments_agree (Nat.le_trans hmany List.countP_le_length) hpre hlast
  exact ⟨hagree, smoothPCM_completes (Nat.le_of_eq hagree)⟩

theorem counted_push_iff {q : DecodedSmoothPCMQueue} (data : List UInt8) (isNeedSmooth : Bool) :
    (q.push data isNeedSmooth).Counted ↔ q.Counted := by
  unfold Counted flagged push
  dsimp only
  rw [List.countP_append, List.countP_singleton]
  cases isNeedSmooth with
  | true =>
      rw [if_pos rfl, if_pos rfl]
      exact Nat.add_right_cancel_iff
  | false => exact Iff.rfl

theorem counted_setAll_iff {q : DecodedSmoothPCMQueue} (h : q.Counted) :
    q.setAllFrameNeedSmooth.Counted ↔ ∀ frame ∈ q.frames, frame.smoothFlag = false := by
  have hall : q.setAllFrameNeedSmooth.flagged = q.frames.length := by
    unfold flagged setAllFrameNeedSmooth
    rw [List.countP_map]
    exact congrFun List.countP_true q.frames
  have hnone : q.flagged = 0 ↔ ∀ frame ∈ q.frames, frame.smoothFlag = false := by
    unfold flagged
    rw [List.countP_eq_zero]
    exact forall₂_congr fun frame _ => iff_of_eq (Bool.not_eq_true _)
  unfold Counted at h ⊢
  rw [hall, ← hnone]
  show q.smoothFrameCount + q.frames.length = q.frames.length ↔ _
  omega

/-- To take a frame keeps the count when the frame is not flagged. -/
theorem counted_takes_iff {q q' : DecodedSmoothPCMQueue} {frame : RestoreFrame} {popped : Popped}
    (h : q.Counted) (htakes : Takes q frame q' popped) :
    q'.Counted ↔ frame.smoothFlag = false := by
  have hflagged : q.flagged = q'.flagged + if frame.smoothFlag = true then 1 else 0 := by
    rw [flagged, htakes.front, List.countP_cons, flagged]
  have hcount : q'.smoothFrameCount = q.smoothFrameCount := by rw [htakes.left]
  unfold Counted at h ⊢
  rw [hcount, h, hflagged]
  cases frame.smoothFlag with
  | true => simp
  | false => simp

/-- A pass puts no flagged frame back. -/
theorem flagged_afterPass {q : DecodedSmoothPCMQueue} {made : List RestoreFrame}
    (hmade : MadeFrom q.frameSize q.allocated made) : (q.afterPass made).flagged =
      (q.frames.drop (2 * q.overlapFrameSize)).countP RestoreFrame.smoothFlag := by
  have hnone : made.countP RestoreFrame.smoothFlag = 0 :=
    List.countP_eq_zero.mpr fun frame hframe => by rw [hmade.unflagged frame hframe]; decide
  unfold flagged afterPass
  dsimp only
  rw [List.countP_append, hnone, Nat.add_zero]

/-- A pass takes a flagged frame. -/
theorem not_counted_smoothPass {q q' : DecodedSmoothPCMQueue} (h : q.Counted)
    (hpass : q.StartsPass) (hoverlap : 0 < q.overlapFrameSize) (hok : q.smoothPass = .ok q') :
    ¬ q'.Counted := by
  obtain ⟨made, hmade, rfl⟩ := smoothPass_cases hok
  obtain ⟨⟨frame, hhead, hflag⟩, -⟩ := hpass
  have hfewer : (q.frames.drop (2 * q.overlapFrameSize)).countP RestoreFrame.smoothFlag <
      q.flagged := by
    obtain ⟨rest, hframes⟩ := List.head?_eq_some_iff.mp hhead
    rw [flagged, hframes, List.countP_cons, if_pos hflag,
      show 2 * q.overlapFrameSize = (2 * q.overlapFrameSize - 1) + 1 by omega,
      List.drop_succ_cons]
    exact Nat.lt_succ_of_le ((List.drop_sublist _ _).countP_le)
  unfold Counted at h ⊢
  show q.smoothFrameCount ≠ (q.afterPass made).flagged
  rw [flagged_afterPass hmade, h]
  omega

/-- Without an overlap a pass takes nothing. -/
theorem counted_smoothPass_zero {q q' : DecodedSmoothPCMQueue} (h : q.Counted)
    (hoverlap : q.overlapFrameSize = 0) (hok : q.smoothPass = .ok q') : q'.Counted := by
  obtain ⟨made, hmade, rfl⟩ := smoothPass_cases hok
  unfold Counted at h ⊢
  show q.smoothFrameCount = (q.afterPass made).flagged
  rw [flagged_afterPass hmade, h, hoverlap]
  rfl

/-- **A call on a counted queue leaves it counted exactly when it is one of those that do.** -/
theorem counted_next_iff {q q' : DecodedSmoothPCMQueue} {c : Call} (h : q.Counted)
    (hok : q.next c = .ok q') : q'.Counted ↔ q.Keeps c := by
  unfold next at hok
  obtain ⟨⟨q₁, popped⟩, hcall, hok⟩ := bind_eq_ok.mp hok
  cases hok
  cases c with
  | push data isNeedSmooth =>
      cases hcall
      exact (counted_push_iff data isNeedSmooth).trans (iff_of_true h trivial)
  | setAllFrameNeedSmooth =>
      cases hcall
      exact counted_setAll_iff h
  | pop =>
      unfold Keeps
      rcases pop_cases hcall with ⟨hstay, -, rfl, -⟩ | ⟨frame, htakes, hflag⟩ |
        ⟨hpass, hsmooth, -⟩
      · exact iff_of_true h fun hpass => absurd hpass hstay
      · refine iff_of_true ((counted_takes_iff h htakes).mpr hflag) fun hpass => ?_
        obtain ⟨⟨front, hfront, hset⟩, -⟩ := hpass
        rw [htakes.front, List.head?_cons] at hfront
        cases hfront
        rw [hset] at hflag
        cases hflag
      · constructor
        · intro hcounted _
          by_contra hoverlap
          exact not_counted_smoothPass h hpass (Nat.pos_of_ne_zero hoverlap) hsmooth hcounted
        · exact fun hzero => counted_smoothPass_zero h (hzero hpass) hsmooth
  | forcePop =>
      unfold Keeps
      rcases forcePop_cases hcall with ⟨hnone, rfl, -⟩ | ⟨frame, htakes⟩
      · refine iff_of_true h fun frame hframe => ?_
        rw [hnone] at hframe
        cases hframe
      · rw [counted_takes_iff h htakes, htakes.front, List.head?_cons]
        simp

/-! ## Runs -/

/-- What is to hold of the queue between two calls. -/
def CountsFlagged (q : DecodedSmoothPCMQueue) : Prop :=
  q.Counted ∧ (q.StartsPass → 2 * q.overlapFrameSize ≤ q.flagged ∧ q.SegmentsAgree)

theorem countsFlagged_iff (q : DecodedSmoothPCMQueue) :
    q.CountsFlagged ↔ q.Counted ∧ q.NoWrap := by
  constructor
  · rintro ⟨hcounted, hpass⟩
    refine ⟨hcounted, fun hstarts => Or.inr ?_⟩
    rw [show q.smoothFrameCount = q.flagged from hcounted]
    exact (hpass hstarts).1
  · exact fun ⟨hcounted, hwrap⟩ => ⟨hcounted, pass_of_counted hcounted hwrap⟩

/-- **The count is right after every call of a run, and every pass has its segments, exactly
    when every call keeps the count and the product never wraps below it.** -/
theorem counted_iff (overlap : Nat) (calls : List Call) :
    (∀ pre post q, calls = pre ++ post →
      Trace.runE next { overlapFrameSize := overlap } pre = .ok q → q.CountsFlagged) ↔
    (∀ pre c post q q', calls = pre ++ c :: post →
      Trace.runE next { overlapFrameSize := overlap } pre = .ok q → q.next c = .ok q' →
      q.Keeps c) ∧
    (∀ pre post q, calls = pre ++ post →
      Trace.runE next { overlapFrameSize := overlap } pre = .ok q → q.NoWrap) := by
  simp only [countsFlagged_iff, imp_and, forall_and]
  have hempty : Counted { overlapFrameSize := overlap } := rfl
  exact and_congr_left' (Trace.eachState_iff (I := Counted) (J := fun _ => True) trivial hempty
    (fun _ _ _ _ _ => trivial) (fun _ _ _ _ hcounted hok => counted_next_iff hcounted hok) calls)

/-- Two flagged frames are smoothed with overlap 1, and are counted still. -/
theorem not_counted : ∃ q, Trace.runE next { overlapFrameSize := 1 }
    [.push [0, 0, 128, 63] true, .push [0, 0, 0, 64] true, .pop] = .ok q ∧ ¬ q.CountsFlagged := by
  have hout : (Trace.runE next { overlapFrameSize := 1 }
      [.push [0, 0, 128, 63] true, .push [0, 0, 0, 64] true, .pop]).map
        (fun q => decide q.Counted) = .ok false := by
    decide +kernel
  cases hrun : Trace.runE next { overlapFrameSize := 1 }
      [.push [0, 0, 128, 63] true, .push [0, 0, 0, 64] true, .pop] with
  | error f =>
      rw [hrun] at hout
      cases hout
  | ok q =>
      rw [hrun] at hout
      exact ⟨q, rfl, fun h => of_decide_eq_false (Except.ok.inj hout) h.1⟩

/-- And with one more flagged frame the next pass indexes the second segment out of range. -/
theorem segment_cut_short : Trace.runE next { overlapFrameSize := 1 }
    [.push [0, 0, 128, 63] true, .push [0, 0, 0, 64] true, .pop, .pop,
      .push [0, 0, 0, 64] true, .pop] = .error .outOfRange := by
  decide +kernel

end DecodedSmoothPCMQueue

end Bifrost.Api
