/-
  Frames that are not smoothed, through a `DecodedSmoothPCMQueue`.

  The queue keeps one length, that of the frame pushed last. A shorter frame in front is
  copied past its end and a longer one is cut. So the frames come out as they went in
  exactly when every frame taken out is as long as the frame pushed last
  (`passThrough_iff`).
-/
import Bifrost.Api.SmoothingPass

namespace Bifrost.Api

namespace DecodedSmoothPCMQueue

/-- The calls without smoothing. -/
def Call.Unsmoothed : Call → Prop
  | .push _ isNeedSmooth => isNeedSmooth = false
  | .setAllFrameNeedSmooth => False
  | .pop => True
  | .forcePop => True

instance : ∀ c : Call, Decidable c.Unsmoothed
  | .push _ isNeedSmooth => inferInstanceAs (Decidable (isNeedSmooth = false))
  | .setAllFrameNeedSmooth => isFalse id
  | .pop => isTrue trivial
  | .forcePop => isTrue trivial

/-- The frames that the calls push. -/
def pushed (calls : List Call) : List (List UInt8) :=
  calls.filterMap fun
    | .push data _ => some data
    | _ => none

/-- No copy leaves the storage of its frame, and the frames that come out of `q` are the first of
    those there and those pushed, each with its bytes and its length. -/
def Passes (q : DecodedSmoothPCMQueue) (calls : List Call) : Prop :=
  ∃ q' outs, Trace.runOut step q calls = .ok (q', outs) ∧
    outs.map (fun out => (out.data, out.len)) =
      ((q.frames.map RestoreFrame.data ++ pushed calls).take outs.length).map fun data =>
        (data, data.length)

/-- Whenever a frame is taken out, the oldest of those `waiting` is as long as the one pushed
    last, `last` bytes. -/
def PopsFit : List (List UInt8) → Nat → List Call → Prop
  | _, _, [] => True
  | waiting, _, .push data _ :: calls => PopsFit (waiting ++ [data]) data.length calls
  | waiting, last, .setAllFrameNeedSmooth :: calls => PopsFit waiting last calls
  | waiting, last, .pop :: calls =>
    (∀ data ∈ waiting.head?, data.length = last) ∧ PopsFit waiting.tail last calls
  | waiting, last, .forcePop :: calls =>
    (∀ data ∈ waiting.head?, data.length = last) ∧ PopsFit waiting.tail last calls

instance PopsFit.decidable : ∀ waiting last calls, Decidable (PopsFit waiting last calls)
  | _, _, [] => isTrue trivial
  | waiting, _, .push data _ :: calls => PopsFit.decidable (waiting ++ [data]) data.length calls
  | waiting, last, .setAllFrameNeedSmooth :: calls => PopsFit.decidable waiting last calls
  | waiting, last, .pop :: calls =>
    have := PopsFit.decidable waiting.tail last calls
    inferInstanceAs (Decidable (_ ∧ _))
  | waiting, last, .forcePop :: calls =>
    have := PopsFit.decidable waiting.tail last calls
    inferInstanceAs (Decidable (_ ∧ _))

/-! ## One call -/

/-- Without flags the two ways to take a frame are one. -/
theorem pop_eq_forcePop {q : DecodedSmoothPCMQueue}
    (h : ∀ frame ∈ q.frames, frame.smoothFlag = false) : q.pop = q.forcePop := by
  unfold pop forcePop
  cases hframes : q.frames with
  | nil => rfl
  | cons frame frames =>
      rw [hframes] at h
      have hflag := (List.forall_mem_cons.mp h).1
      dsimp only
      rw [if_pos (by rw [hflag]; decide)]

/-- A call that gives nothing passes its frames on. -/
theorem passes_silent {q q₁ : DecodedSmoothPCMQueue} {c : Call} {calls : List Call}
    (hstep : q.step c = .ok (q₁, []))
    (hsame : q.frames.map RestoreFrame.data ++ pushed (c :: calls) =
      q₁.frames.map RestoreFrame.data ++ pushed calls) :
    Passes q (c :: calls) ↔ Passes q₁ calls := by
  unfold Passes
  rw [hsame]
  constructor
  · rintro ⟨q', outs, hrun, hout⟩
    obtain ⟨q₂, out, rest, hok, hrest, rfl⟩ := Trace.runOut_cons_iff.mp hrun
    cases hstep.symm.trans hok
    exact ⟨q', rest, hrest, hout⟩
  · rintro ⟨q', outs, hrun, hout⟩
    exact ⟨q', outs, Trace.runOut_cons_iff.mpr ⟨q₁, [], outs, hstep, hrun, rfl⟩, hout⟩

theorem step_take {q : DecodedSmoothPCMQueue} {frame : RestoreFrame} {frames : List RestoreFrame}
    {c : Call} (hcall : q.call c = q.takeFront frame frames) :
    q.step c =
      if q.frameSize ≤ frame.data.length then
        .ok ({ q with frames }, [⟨frame, frame.data.take q.frameSize, q.frameSize⟩])
      else .error .outOfRange := by
  unfold step
  rw [hcall, takeFront]
  split_ifs <;> rfl

/-- **A call that takes the front frame**: it must be as long as `frame_size_`, and those behind
    it pass. -/
theorem passes_take {q : DecodedSmoothPCMQueue} {frame : RestoreFrame} {frames : List RestoreFrame}
    {c : Call} {calls : List Call} (hframes : q.frames = frame :: frames)
    (hcall : q.call c = q.takeFront frame frames)
    (hpushed : pushed (c :: calls) = pushed calls) :
    Passes q (c :: calls) ↔
      frame.data.length = q.frameSize ∧ Passes { q with frames } calls := by
  have hstep := step_take hcall
  unfold Passes
  rw [hpushed, hframes, List.map_cons, List.cons_append]
  constructor
  · rintro ⟨q', outs, hrun, hout⟩
    obtain ⟨q₂, out, rest, hok, hrest, rfl⟩ := Trace.runOut_cons_iff.mp hrun
    rw [hstep] at hok
    split_ifs at hok
    cases hok
    rw [List.singleton_append, List.map_cons, List.length_cons, List.take_succ_cons, List.map_cons,
      List.cons.injEq, Prod.mk.injEq] at hout
    exact ⟨hout.1.2.symm, q', rest, hrest, hout.2⟩
  · rintro ⟨hlen, q', outs, hrun, hout⟩
    rw [if_pos (Nat.le_of_eq hlen.symm)] at hstep
    refine ⟨q', _, Trace.runOut_cons_iff.mpr ⟨_, _, outs, hstep, hrun, rfl⟩, ?_⟩
    rw [List.singleton_append, List.map_cons, List.length_cons, List.take_succ_cons, List.map_cons,
      hout, hlen, ← hlen, List.take_length]

/-! ## Runs -/

/-- A call of either kind that takes a frame, where there is one. -/
theorem passes_forcePop {q : DecodedSmoothPCMQueue} {c : Call} {calls : List Call}
    (hcall : q.call c = q.forcePop) (hpushed : pushed (c :: calls) = pushed calls) :
    Passes q (c :: calls) ↔
      (∀ data ∈ (q.frames.map RestoreFrame.data).head?, data.length = q.frameSize) ∧
        Passes { q with frames := q.frames.tail } calls := by
  cases hframes : q.frames with
  | nil =>
      have hstep : q.step c = .ok (q, []) := by
        unfold step
        rw [hcall, forcePop, hframes]
        rfl
      have hq : { q with frames := ([] : List RestoreFrame).tail } = q := by
        cases q
        cases hframes
        rfl
      rw [passes_silent hstep (by rw [hpushed]), hq]
      simp
  | cons frame frames =>
      rw [passes_take hframes (by rw [hcall, forcePop, hframes]) hpushed]
      simp

/-- **The frames pass exactly when every one that is taken out is as long as the last.** -/
theorem passes_iff (calls : List Call) : ∀ {q : DecodedSmoothPCMQueue},
    (∀ frame ∈ q.frames, frame.smoothFlag = false) → (∀ c ∈ calls, c.Unsmoothed) →
    (Passes q calls ↔ PopsFit (q.frames.map RestoreFrame.data) q.frameSize calls) := by
  induction calls with
  | nil =>
      intro q _ _
      exact iff_of_true ⟨q, [], rfl, rfl⟩ trivial
  | cons c calls ih =>
      intro q hflags hcalls
      obtain ⟨hc, hrest⟩ := List.forall_mem_cons.mp hcalls
      have htail : ∀ frame ∈ q.frames.tail, frame.smoothFlag = false :=
        fun frame hframe => hflags frame (List.mem_of_mem_tail hframe)
      cases c with
      | push data isNeedSmooth =>
          have hnew : ∀ frame ∈ (q.push data isNeedSmooth).frames, frame.smoothFlag = false :=
            List.forall_mem_append.mpr ⟨hflags, List.forall_mem_singleton.mpr hc⟩
          have hdata : (q.push data isNeedSmooth).frames.map RestoreFrame.data =
              q.frames.map RestoreFrame.data ++ [data] := List.map_append
          have hsame : q.frames.map RestoreFrame.data ++ pushed (.push data isNeedSmooth :: calls) =
              (q.push data isNeedSmooth).frames.map RestoreFrame.data ++ pushed calls := by
            rw [hdata, List.append_assoc]
            rfl
          rw [passes_silent rfl hsame, ih hnew hrest, hdata]
          rfl
      | setAllFrameNeedSmooth => exact hc.elim
      | pop =>
          have hcall : q.call .pop = q.forcePop := pop_eq_forcePop hflags
          rw [passes_forcePop hcall rfl, ih htail hrest, List.map_tail]
          rfl
      | forcePop =>
          have hcall : q.call .forcePop = q.forcePop := rfl
          rw [passes_forcePop hcall rfl, ih htail hrest, List.map_tail]
          rfl

/-- **Unsmoothed frames come out of the queue as they went in exactly when, whenever a frame is
    taken out, it is as long as the frame pushed last.** -/
theorem passThrough_iff (overlap : Nat) (calls : List Call) (hcalls : ∀ c ∈ calls, c.Unsmoothed) :
    Passes { overlapFrameSize := overlap } calls ↔ PopsFit [] 0 calls :=
  passes_iff calls (List.forall_mem_nil _) hcalls

/-- Two frames of one length. -/
theorem passThrough_iff_two :
    Passes { overlapFrameSize := 1 }
      [.push [1, 2, 3, 4] false, .push [5, 6, 7, 8] false, .pop, .forcePop] ↔
    PopsFit [] 0 [.push [1, 2, 3, 4] false, .push [5, 6, 7, 8] false, .pop, .forcePop] :=
  passThrough_iff 1 [.push [1, 2, 3, 4] false, .push [5, 6, 7, 8] false, .pop, .forcePop]
    (by decide)

/-- A short frame behind a long one cuts it, and a long one makes the copy leave the short. -/
theorem not_passThrough :
    ¬ Passes { overlapFrameSize := 1 }
      [.push [1, 2, 3, 4] false, .push [5, 6] false, .pop] ∧
    Trace.runOut step { overlapFrameSize := 1 }
      [.push [5, 6] false, .push [1, 2, 3, 4] false, .pop] = .error .outOfRange := by
  refine ⟨?_, rfl⟩
  rintro ⟨q, outs, hrun, hout⟩
  cases hrun
  revert hout
  decide

end DecodedSmoothPCMQueue

end Bifrost.Api
