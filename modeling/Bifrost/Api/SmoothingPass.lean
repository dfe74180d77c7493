/-
  One smoothing pass of a `DecodedSmoothPCMQueue`: what its loops come to, loop by loop, and
  from it what the pass does to the queue (`smoothPass_cases`, `smoothPass_eq`).

  The loops that count down reach 0 only from a multiple of four, and then have gone over as
  many samples as that says.
-/
import Bifrost.Api.DecodedSmoothPCMQueue

namespace Bifrost.Api

open Rtc (Fault)
open Text (sizeSub)

namespace DecodedSmoothPCMQueue

/-! ## Samples out of a frame -/

theorem sizeSub_of_le {a b : Nat} (h : b ≤ a) : sizeSub a b = a - b := if_pos h

/-- Below four the difference wraps, and is no multiple of four then either. -/
theorem sizeSub_four {a n : Nat} (h : sizeSub (a + 1) 4 = 4 * n) : a + 1 = 4 * (n + 1) := by
  unfold sizeSub at h
  split_ifs at h <;> omega

/-- The loop ends only after `cpLen` bytes. -/
theorem length_samplesOf {cpLen : Nat} {data : List UInt8} {segment : List Float32}
    (h : samplesOf cpLen data = .ok segment) : cpLen = 4 * segment.length := by
  induction cpLen, data using samplesOf.induct generalizing segment with
  | case1 data =>
      rw [samplesOf] at h
      cases h
      rfl
  | case2 cpLen b₀ b₁ b₂ b₃ data ih =>
      rw [samplesOf] at h
      obtain ⟨rest, hrest, h⟩ := bind_eq_ok.mp h
      cases h
      exact sizeSub_four (ih hrest)
  | case3 data cpLen hshort =>
      rw [samplesOf.eq_3 _ _ hshort] at h
      cases h

/-- It does end when these are whole samples and all there. -/
theorem samplesOf_completes (n : Nat) : ∀ {data : List UInt8}, 4 * n ≤ data.length →
    ∃ segment, samplesOf (4 * n) data = .ok segment := by
  induction n with
  | zero =>
      intro data _
      exact ⟨[], by rw [samplesOf]⟩
  | succ n ih =>
      intro data h
      match data, h with
      | b₀ :: b₁ :: b₂ :: b₃ :: data, h =>
          simp only [List.length_cons] at h
          obtain ⟨segment, hsegment⟩ := @ih data (by omega)
          rw [show 4 * (n + 1) = 4 * n + 3 + 1 by omega, samplesOf,
            sizeSub_of_le (show 4 ≤ 4 * n + 3 + 1 by omega),
            show 4 * n + 3 + 1 - 4 = 4 * n by omega,
            hsegment]
          exact ⟨_, rfl⟩

/-- What a segment is made of: the front frames, as many as the overlap, and a quarter of the
    frame size from each. -/
theorem segment_of_overLap {frameSize overlap : Nat} {frames left : List RestoreFrame}
    {segment : List Float32}
    (h : getOverLapSizeFrameToFloat frameSize overlap frames = .ok (segment, left)) :
    left = frames.drop overlap ∧
      4 * segment.length = min overlap frames.length * frameSize := by
  induction overlap, frames using getOverLapSizeFrameToFloat.induct generalizing segment left with
  | case1 frames =>
      rw [getOverLapSizeFrameToFloat] at h
      cases h
      exact ⟨rfl, by rw [Nat.zero_min, Nat.zero_mul]; rfl⟩
  | case2 overlap =>
      rw [getOverLapSizeFrameToFloat] at h
      cases h
      exact ⟨rfl, by simp only [List.length_nil, Nat.min_zero, Nat.zero_mul, Nat.mul_zero]⟩
  | case3 overlap frame frames ih =>
      rw [getOverLapSizeFrameToFloat] at h
      obtain ⟨samples, hsamples, h⟩ := bind_eq_ok.mp h
      obtain ⟨⟨rest, left'⟩, hrest, h⟩ := bind_eq_ok.mp h
      cases h
      obtain ⟨hleft, hlen⟩ := ih hrest
      have hfront := length_samplesOf hsamples
      refine ⟨hleft, ?_⟩
      have hmore := Nat.succ_mul (min overlap frames.length) frameSize
      rw [List.length_append, List.length_cons, Nat.succ_min_succ, hmore, ← hlen]
      omega

/-- The segment is there when all frames are of whole samples and as long as they should be. -/
theorem overLap_completes {n : Nat} (overlap : Nat) : ∀ {frames : List RestoreFrame},
    (∀ frame ∈ frames, frame.data.length = 4 * n) →
    ∃ segment, getOverLapSizeFrameToFloat (4 * n) overlap frames =
      .ok (segment, frames.drop overlap) := by
  induction overlap with
  | zero => exact fun _ => ⟨[], rfl⟩
  | succ overlap ih =>
      intro frames hlen
      cases frames with
      | nil => exact ⟨[], rfl⟩
      | cons frame frames =>
          obtain ⟨hfront, hrest⟩ := List.forall_mem_cons.mp hlen
          obtain ⟨front, hsamples⟩ := samplesOf_completes n (Nat.le_of_eq hfront.symm)
          obtain ⟨segment, hsegment⟩ := ih hrest
          refine ⟨front ++ segment, ?_⟩
          rw [getOverLapSizeFrameToFloat, hsamples, hsegment]
          rfl

/-! ## Blending -/

section MapM

variable {α β ε : Type} {f : α → Except ε β}

theorem length_of_mapM : ∀ {l : List α} {out : List β}, l.mapM f = .ok out →
    out.length = l.length := by
  intro l
  induction l with
  | nil =>
      intro out h
      cases h
      rfl
  | cons a l ih =>
      intro out h
      rw [List.mapM_cons] at h
      cases ha : f a with
      | error e =>
          rw [ha] at h
          cases h
      | ok b =>
          cases hl : l.mapM f with
          | error e =>
              rw [ha, hl] at h
              cases h
          | ok bs =>
              rw [ha, hl] at h
              cases h
              rw [List.length_cons, List.length_cons, ih hl]

theorem mapM_completes {l : List α} (h : ∀ a ∈ l, ∃ b, f a = .ok b) :
    ∃ out, l.mapM f = .ok out := by
  induction l with
  | nil => exact ⟨[], rfl⟩
  | cons a l ih =>
      obtain ⟨⟨b, hb⟩, hrest⟩ := List.forall_mem_cons.mp h
      obtain ⟨bs, hbs⟩ := ih hrest
      refine ⟨b :: bs, ?_⟩
      rw [List.mapM_cons, hb, hbs]
      rfl

end MapM

theorem sampleAt_of_lt {segment : List Float32} {i : Nat} (h : i < segment.length) :
    sampleAt segment i = .ok segment[i] := by
  rw [sampleAt, List.getElem?_eq_getElem h]

theorem length_of_smoothPCM {pre last newData : List Float32}
    (h : smoothPCM pre last = .ok newData) : newData.length = pre.length := by
  rw [length_of_mapM h, List.length_range]

/-- No index is out of range when the second segment is as long as the first. -/
theorem smoothPCM_completes {pre last : List Float32} (h : pre.length ≤ last.length) :
    ∃ newData, smoothPCM pre last = .ok newData := by
  refine mapM_completes fun i hi => ?_
  have hlt := List.mem_range.mp hi
  rw [sampleAt_of_lt hlt, sampleAt_of_lt (Nat.lt_of_lt_of_le hlt h)]
  exact ⟨_, rfl⟩

/-! ## Samples back into frames -/

/-- A frame that is filled is filled to its end. -/
theorem length_of_fillFrame {size : Nat} {newData rest : List Float32} {bytes : List UInt8}
    (h : fillFrame size size newData = .ok (bytes, rest)) : bytes.length = size := by
  have key : ∀ cpLen room, cpLen = room → fillFrame cpLen room newData = .ok (bytes, rest) →
      bytes.length = cpLen := by
    clear h
    intro cpLen room
    induction cpLen, room, newData using fillFrame.induct generalizing bytes rest with
    | case1 room newData =>
        intro _ h
        rw [fillFrame] at h
        cases h
        rfl
    | case2 cpLen room =>
        intro _ h
        rw [fillFrame] at h
        cases h
    | case3 cpLen room sample newData hfull =>
        intro _ h
        rw [fillFrame, if_pos hfull] at h
        cases h
    | case4 cpLen room sample newData hroom ih =>
        intro heq h
        have hsub := sizeSub_of_le (show 4 ≤ cpLen + 1 by omega)
        rw [fillFrame, if_neg hroom] at h
        obtain ⟨⟨bytes', rest'⟩, hmore, h⟩ := bind_eq_ok.mp h
        cases h
        have hlen := ih (by omega) hmore
        rw [List.length_append, hlen, hsub]
        show 4 + (cpLen + 1 - 4) = cpLen + 1
        omega
  exact key size size rfl h

/-- It is filled when there are samples for it. -/
theorem fillFrame_completes (n : Nat) : ∀ {newData : List Float32}, n ≤ newData.length →
    ∃ bytes, fillFrame (4 * n) (4 * n) newData = .ok (bytes, newData.drop n) := by
  induction n with
  | zero =>
      intro newData _
      exact ⟨[], by rw [fillFrame, List.drop_zero]⟩
  | succ n ih =>
      intro newData h
      cases newData with
      | nil => cases h
      | cons sample newData =>
          obtain ⟨bytes, hbytes⟩ := ih (Nat.le_of_succ_le_succ h)
          rw [show 4 * (n + 1) = 4 * n + 3 + 1 by omega, fillFrame, if_neg (by omega),
            sizeSub_of_le (show 4 ≤ 4 * n + 3 + 1 by omega),
            show 4 * n + 3 + 1 - 4 = 4 * n by omega,
            hbytes]
          exact ⟨_, rfl⟩

/-- Frames that a pass has made: unflagged, full, and new from allocation `next` on. -/
structure MadeFrom (frameSize next : Nat) (made : List RestoreFrame) : Prop where
  unflagged : ∀ frame ∈ made, frame.smoothFlag = false
  full : ∀ frame ∈ made, frame.data.length = frameSize
  new : ∀ frame ∈ made, next ≤ frame.address ∧ frame.address < next + made.length

theorem madeFrom_nil (frameSize next : Nat) : MadeFrom frameSize next [] where
  unflagged := List.forall_mem_nil _
  full := List.forall_mem_nil _
  new := List.forall_mem_nil _

theorem MadeFrom.cons {frameSize next : Nat} {made : List RestoreFrame}
    (h : MadeFrom frameSize (next + 1) made) {bytes : List UInt8}
    (hfull : bytes.length = frameSize) :
    MadeFrom frameSize next (⟨next, bytes, false⟩ :: made) where
  unflagged := List.forall_mem_cons.mpr ⟨rfl, h.unflagged⟩
  full := List.forall_mem_cons.mpr ⟨hfull, h.full⟩
  new := by
    rw [List.length_cons]
    refine List.forall_mem_cons.mpr
      ⟨⟨Nat.le_refl next, Nat.lt_add_of_pos_right (Nat.succ_pos _)⟩, fun frame hframe => ?_⟩
    have := h.new frame hframe
    omega

theorem madeFrom_copyBack {frameSize fuel next : Nat} {newData : List Float32}
    {made : List RestoreFrame} (h : copyBack frameSize fuel next newData = .ok made) :
    MadeFrom frameSize next made := by
  induction fuel, next, newData using copyBack.induct generalizing made with
  | case1 fuel next =>
      rw [copyBack] at h
      cases h
      exact madeFrom_nil frameSize next
  | case2 next sample newData =>
      rw [copyBack] at h
      cases h
  | case3 fuel next newData hsome ih =>
      rw [copyBack.eq_3 _ _ _ _ hsome] at h
      obtain ⟨⟨bytes, rest⟩, hfill, h⟩ := bind_eq_ok.mp h
      obtain ⟨frames, hrest, h⟩ := bind_eq_ok.mp h
      cases h
      exact (ih rest hrest).cons (length_of_fillFrame hfill)

/-- So many frames are made as there are samples for. -/
theorem copyBack_completes {n : Nat} (hn : 0 < n) (count : Nat) :
    ∀ {fuel next : Nat} {newData : List Float32}, newData.length = count * n → count ≤ fuel →
    ∃ made, copyBack (4 * n) fuel next newData = .ok made ∧ made.length = count := by
  induction count with
  | zero =>
      intro fuel next newData hlen _
      rw [Nat.zero_mul] at hlen
      rw [List.eq_nil_of_length_eq_zero hlen, copyBack]
      exact ⟨[], rfl, rfl⟩
  | succ count ih =>
      intro fuel next newData hlen hfuel
      rw [Nat.succ_mul] at hlen
      obtain ⟨bytes, hfill⟩ := @fillFrame_completes n newData (by omega)
      cases fuel with
      | zero => cases hfuel
      | succ fuel =>
          obtain ⟨made, hmade, hcount⟩ := @ih fuel (next + 1) (newData.drop n)
            (by rw [List.length_drop]; omega) (Nat.le_of_succ_le_succ hfuel)
          have hsome : newData = [] → False := fun hnil => by
            rw [hnil, List.length_nil] at hlen
            omega
          refine ⟨⟨next, bytes, false⟩ :: made, ?_, by rw [List.length_cons, hcount]⟩
          rw [copyBack.eq_3 _ _ _ _ hsome, hfill]
          show (copyBack (4 * n) fuel (next + 1) (newData.drop n) >>= fun frames =>
            Except.ok (⟨next, bytes, false⟩ :: frames)) = _
          rw [hmade]
          rfl

/-! ## The pass -/

/-- The queue behind a pass that has made the frames `made`. -/
def afterPass (q : DecodedSmoothPCMQueue) (made : List RestoreFrame) : DecodedSmoothPCMQueue :=
  { q with
    frames := q.frames.drop (2 * q.overlapFrameSize) ++ made
    allocated := q.allocated + made.length }

/-- **What a pass does**: it takes the two segments off the front, and puts frames at the end. -/
theorem smoothPass_cases {q q' : DecodedSmoothPCMQueue} (h : q.smoothPass = .ok q') :
    ∃ made, MadeFrom q.frameSize q.allocated made ∧ q' = q.afterPass made := by
  unfold smoothPass at h
  obtain ⟨⟨pre, frames₁⟩, hpre, h⟩ := bind_eq_ok.mp h
  obtain ⟨⟨last, frames₂⟩, hlast, h⟩ := bind_eq_ok.mp h
  obtain ⟨newData, -, h⟩ := bind_eq_ok.mp h
  obtain ⟨made, hmade, h⟩ := bind_eq_ok.mp h
  cases h
  have hfirst := (segment_of_overLap hpre).1
  have hsecond := (segment_of_overLap hlast).1
  refine ⟨made, madeFrom_copyBack hmade, ?_⟩
  rw [afterPass, hsecond, hfirst, List.drop_drop, Nat.two_mul]

/-- Segments of so many frames each are of one length. -/
theorem segments_agree {q : DecodedSmoothPCMQueue}
    (hmany : 2 * q.overlapFrameSize ≤ q.frames.length) {pre last : List Float32}
    {frames₁ frames₂ : List RestoreFrame}
    (hpre : getOverLapSizeFrameToFloat q.frameSize q.overlapFrameSize q.frames =
      .ok (pre, frames₁))
    (hlast : getOverLapSizeFrameToFloat q.frameSize q.overlapFrameSize frames₁ =
      .ok (last, frames₂)) :
    4 * pre.length = q.overlapFrameSize * q.frameSize ∧ pre.length = last.length := by
  obtain ⟨hleft, hfirst⟩ := segment_of_overLap hpre
  obtain ⟨-, hsecond⟩ := segment_of_overLap hlast
  rw [Nat.min_eq_left (by omega)] at hfirst
  rw [hleft, List.length_drop, Nat.min_eq_left (by omega)] at hsecond
  exact ⟨hfirst, by omega⟩

/-- A pass over frames of one length makes as many as the overlap, unless they are empty. -/
theorem smoothPass_eq {q : DecodedSmoothPCMQueue} {n : Nat} (hsize : q.frameSize = 4 * n)
    (hlen : ∀ frame ∈ q.frames, frame.data.length = 4 * n)
    (hmany : 2 * q.overlapFrameSize ≤ q.frames.length) :
    ∃ made, q.smoothPass = .ok (q.afterPass made) ∧ MadeFrom q.frameSize q.allocated made ∧
      made.length = if n = 0 then 0 else q.overlapFrameSize := by
  obtain ⟨pre, hpre⟩ := overLap_completes q.overlapFrameSize hlen
  obtain ⟨last, hlast⟩ := overLap_completes q.overlapFrameSize
    (fun frame hframe => hlen frame (List.mem_of_mem_drop hframe))
  rw [← hsize] at hpre hlast
  obtain ⟨hsamples, hagree⟩ := segments_agree hmany hpre hlast
  obtain ⟨newData, hnew⟩ := smoothPCM_completes (Nat.le_of_eq hagree)
  have hcount : newData.length = q.overlapFrameSize * n := by
    rw [length_of_smoothPCM hnew]
    rw [hsize, Nat.mul_left_comm] at hsamples
    omega
  have hmade : ∃ made, copyBack q.frameSize newData.length q.allocated newData = .ok made ∧
      made.length = if n = 0 then 0 else q.overlapFrameSize := by
    by_cases hn : n = 0
    · rw [hn, Nat.mul_zero] at hcount
      rw [List.eq_nil_of_length_eq_zero hcount, copyBack, if_pos hn]
      exact ⟨[], rfl, rfl⟩
    · rw [hsize, if_neg hn]
      refine copyBack_completes (Nat.pos_of_ne_zero hn) q.overlapFrameSize hcount ?_
      rw [hcount]
      exact Nat.le_mul_of_pos_right _ (Nat.pos_of_ne_zero hn)
  obtain ⟨made, hcopy, hlength⟩ := hmade
  refine ⟨made, ?_, madeFrom_copyBack hcopy, hlength⟩
  simp only [smoothPass, hpre, hlast, hnew, hcopy, bind, Except.bind]
  rw [afterPass, List.drop_drop, Nat.two_mul]

/-! ## What a call does -/

/-- `Pop` gets to the pass. -/
def StartsPass (q : DecodedSmoothPCMQueue) : Prop :=
  (∃ frame ∈ q.frames.head?, frame.smoothFlag = true) ∧
    q.bothSegments ≤ q.smoothFrameCount

instance (q : DecodedSmoothPCMQueue) : Decidable q.StartsPass := inferInstanceAs (Decidable (_ ∧ _))

/-- The call takes the front frame off and gives it to the caller. -/
structure Takes (q : DecodedSmoothPCMQueue) (frame : RestoreFrame) (q' : DecodedSmoothPCMQueue)
    (popped : Popped) : Prop where
  front : q.frames = frame :: q'.frames
  fits : q.frameSize ≤ frame.data.length
  left : q' = { q with frames := q'.frames }
  returned : popped = { returned := some ⟨frame, frame.data.take q.frameSize, q.frameSize⟩ }

theorem takes_of_takeFront {q q' : DecodedSmoothPCMQueue} {frame : RestoreFrame}
    {frames : List RestoreFrame} {popped : Popped} (hframes : q.frames = frame :: frames)
    (h : q.takeFront frame frames = .ok (q', popped)) : Takes q frame q' popped := by
  unfold takeFront at h
  split_ifs at h with hfits
  cases h
  exact ⟨hframes, hfits, rfl, rfl⟩

theorem forcePop_cases {q q' : DecodedSmoothPCMQueue} {popped : Popped}
    (h : q.forcePop = .ok (q', popped)) :
    (q.frames = [] ∧ q' = q ∧ popped = {}) ∨ ∃ frame, Takes q frame q' popped := by
  unfold forcePop at h
  split at h
  · next hnone =>
      cases h
      exact .inl ⟨hnone, rfl, rfl⟩
  · next frame frames hframes => exact .inr ⟨frame, takes_of_takeFront hframes h⟩

theorem pop_cases {q q' : DecodedSmoothPCMQueue} {popped : Popped}
    (h : q.pop = .ok (q', popped)) :
    (¬ q.StartsPass ∧ (∀ frame ∈ q.frames.head?, frame.smoothFlag = true) ∧ q' = q ∧
      popped = {}) ∨
    (∃ frame, Takes q frame q' popped ∧ frame.smoothFlag = false) ∨
    (q.StartsPass ∧ q.smoothPass = .ok q' ∧ popped = { rangePop := true }) := by
  unfold pop at h
  split at h
  · next hnone =>
      cases h
      refine .inl ⟨fun hpass => ?_, ?_, rfl, rfl⟩
      · obtain ⟨⟨frame, hmem, -⟩, -⟩ := hpass
        rw [hnone] at hmem
        cases hmem
      · rw [hnone]
        exact fun frame hmem => by cases hmem
  · next frame frames hframes =>
      have hhead : q.frames.head? = some frame := by rw [hframes, List.head?_cons]
      split_ifs at h with hflag hcount
      · obtain ⟨q₁, hpass, h⟩ := bind_eq_ok.mp h
        cases h
        exact .inr (.inr ⟨⟨⟨frame, hhead, hflag⟩, hcount⟩, hpass, rfl⟩)
      · cases h
        refine .inl ⟨fun hpass => hcount hpass.2, ?_, rfl, rfl⟩
        intro front hfront
        rw [hhead] at hfront
        cases hfront
        exact hflag
      · exact .inr (.inl ⟨frame, takes_of_takeFront hframes h, Bool.eq_false_iff.mpr hflag⟩)

end DecodedSmoothPCMQueue

end Bifrost.Api
