/-
  Where the smoothed frames stand.

  A pass takes its frames off the front and puts the smoothed ones at the end of the vector.
  So what was queued behind the frames that are smoothed comes out before them, and the
  order is kept exactly when nothing was (`inOrder_iff`).
-/
import Bifrost.Api.SmoothingPass

namespace Bifrost.Api

namespace DecodedSmoothPCMQueue

/-- The next calls of `Pop`, as many as the overlap, give the frames that this pass makes, each
    with its bytes, and leave the frames that were queued behind, in their order. -/
def InOrder (q : DecodedSmoothPCMQueue) (behind : List RestoreFrame) : Prop :=
  ∃ q₁ q₂ outs, q.pop = .ok (q₁, { rangePop := true }) ∧
    Trace.runOut step q₁ (List.replicate q.overlapFrameSize .pop) = .ok (q₂, outs) ∧
    outs.length = q.overlapFrameSize ∧
    outs.map Copied.frame = q₁.frames.filter (fun frame => q.allocated ≤ frame.address) ∧
    (∀ out ∈ outs, out.data = out.frame.data) ∧ q₂.frames = behind

/-! ## Frames of one length -/

/-- All frames are `len` bytes long, and none is a later allocation. -/
structure Uniform (overlap len : Nat) (q : DecodedSmoothPCMQueue) : Prop where
  overlap : q.overlapFrameSize = overlap
  size : q.frames ≠ [] → q.frameSize = len
  frames : ∀ frame ∈ q.frames, frame.data.length = len ∧ frame.address < q.allocated

theorem uniform_empty (overlap len : Nat) :
    Uniform overlap len { overlapFrameSize := overlap } where
  overlap := rfl
  size h := absurd rfl h
  frames := List.forall_mem_nil _

section Step

variable {overlap len : Nat} {q q' : DecodedSmoothPCMQueue}

theorem uniform_push (h : Uniform overlap len q) {data : List UInt8} (hdata : data.length = len)
    (isNeedSmooth : Bool) : Uniform overlap len (q.push data isNeedSmooth) where
  overlap := h.overlap
  size _ := hdata
  frames := by
    refine List.forall_mem_append.mpr ⟨fun frame hframe => ?_, ?_⟩
    · exact ⟨(h.frames frame hframe).1, Nat.lt_succ_of_lt (h.frames frame hframe).2⟩
    · exact List.forall_mem_singleton.mpr ⟨hdata, Nat.lt_succ_self _⟩

theorem uniform_setAll (h : Uniform overlap len q) :
    Uniform overlap len q.setAllFrameNeedSmooth where
  overlap := h.overlap
  size hsome := h.size fun hnone => hsome (by rw [setAllFrameNeedSmooth, hnone]; rfl)
  frames := by
    unfold setAllFrameNeedSmooth
    rw [List.forall_mem_map]
    exact h.frames

theorem uniform_takes (h : Uniform overlap len q) {frame : RestoreFrame} {popped : Popped}
    (htakes : Takes q frame q' popped) : Uniform overlap len q' := by
  have hframes := h.frames
  have hsize := h.size (by rw [htakes.front]; exact List.cons_ne_nil _ _)
  rw [htakes.front] at hframes
  rw [htakes.left]
  exact ⟨h.overlap, fun _ => hsize, (List.forall_mem_cons.mp hframes).2⟩

theorem uniform_smoothPass (h : Uniform overlap len q) (hsome : q.frames ≠ [])
    (hok : q.smoothPass = .ok q') : Uniform overlap len q' := by
  obtain ⟨made, hmade, rfl⟩ := smoothPass_cases hok
  refine ⟨h.overlap, fun _ => h.size hsome, ?_⟩
  refine List.forall_mem_append.mpr ⟨fun frame hframe => ?_, fun frame hframe => ?_⟩
  · obtain ⟨hlen, hold⟩ := h.frames frame (List.mem_of_mem_drop hframe)
    exact ⟨hlen, Nat.lt_of_lt_of_le hold (Nat.le_add_right _ _)⟩
  · rw [hmade.full frame hframe, h.size hsome]
    exact ⟨rfl, (hmade.new frame hframe).2⟩

theorem startsPass_ne_nil (hpass : q.StartsPass) : q.frames ≠ [] := by
  obtain ⟨⟨frame, hframe, -⟩, -⟩ := hpass
  intro hnone
  rw [hnone] at hframe
  cases hframe

theorem uniform_next (h : Uniform overlap len q) {c : Call}
    (hpush : ∀ data isNeedSmooth, c = .push data isNeedSmooth → data.length = len)
    (hok : q.next c = .ok q') : Uniform overlap len q' := by
  unfold next at hok
  obtain ⟨⟨q₁, popped⟩, hcall, hok⟩ := bind_eq_ok.mp hok
  cases hok
  cases c with
  | push data isNeedSmooth =>
      cases hcall
      exact uniform_push h (hpush data isNeedSmooth rfl) isNeedSmooth
  | setAllFrameNeedSmooth =>
      cases hcall
      exact uniform_setAll h
  | pop =>
      rcases pop_cases hcall with ⟨-, -, rfl, -⟩ | ⟨frame, htakes, -⟩ | ⟨hpass, hsmooth, -⟩
      · exact h
      · exact uniform_takes h htakes
      · exact uniform_smoothPass h (startsPass_ne_nil hpass) hsmooth
  | forcePop =>
      rcases forcePop_cases hcall with ⟨-, rfl, -⟩ | ⟨frame, htakes⟩
      · exact h
      · exact uniform_takes h htakes

end Step

theorem uniform_run {overlap len : Nat} {calls : List Call}
    (hpush : ∀ data isNeedSmooth, .push data isNeedSmooth ∈ calls → data.length = len)
    {q : DecodedSmoothPCMQueue}
    (hrun : Trace.runE next { overlapFrameSize := overlap } calls = .ok q) :
    Uniform overlap len q :=
  Trace.invariant_along (I := fun _ => Uniform overlap len)
    (Q := fun _ c => ∀ data isNeedSmooth, c = .push data isNeedSmooth → data.length = len)
    (uniform_empty overlap len) (fun _ _ _ _ h hdata hok => uniform_next h hdata hok)
    (fun _ _ _ _ hsplit _ _ data isNeedSmooth hc => hpush data isNeedSmooth (by
      rw [hsplit, hc]
      exact List.mem_append_right _ List.mem_cons_self))
    calls (List.append_nil calls).symm hrun

/-! ## Calls of `Pop` in a row -/

/-- A call that gives a frame gives the front one. -/
theorem step_pop_cases {q q' : DecodedSmoothPCMQueue} {outs : List Copied}
    (h : q.step .pop = .ok (q', outs)) :
    outs = [] ∨ ∃ frame data len, outs = [⟨frame, data, len⟩] ∧ q.frames = frame :: q'.frames := by
  unfold step at h
  obtain ⟨⟨q₁, popped⟩, hcall, h⟩ := bind_eq_ok.mp h
  cases h
  rcases pop_cases hcall with ⟨-, -, -, rfl⟩ | ⟨frame, htakes, -⟩ | ⟨-, -, rfl⟩
  · exact .inl rfl
  · rw [htakes.returned]
    exact .inr ⟨frame, _, _, rfl, htakes.front⟩
  · exact .inl rfl

/-- When every call gives a frame, they are the frames in front. -/
theorem front_of_pops (n : Nat) : ∀ {q q' : DecodedSmoothPCMQueue} {outs : List Copied},
    Trace.runOut step q (List.replicate n .pop) = .ok (q', outs) →
    outs.length ≤ n ∧ (outs.length = n → q.frames = outs.map Copied.frame ++ q'.frames) := by
  induction n with
  | zero =>
      intro q q' outs h
      cases h
      exact ⟨Nat.le_refl 0, fun _ => rfl⟩
  | succ n ih =>
      intro q q' outs h
      rw [List.replicate_succ] at h
      obtain ⟨q₁, out, rest, hstep, hrun, rfl⟩ := Trace.runOut_cons_iff.mp h
      obtain ⟨hle, hall⟩ := ih hrun
      rcases step_pop_cases hstep with rfl | ⟨frame, data, len, rfl, hfront⟩
      · refine ⟨Nat.le_succ_of_le hle, fun heq => ?_⟩
        rw [List.nil_append] at heq
        omega
      · refine ⟨Nat.succ_le_succ hle, fun heq => ?_⟩
        rw [hfront, hall (Nat.succ.inj heq)]
        rfl

/-- Frames in front that are not flagged, and of the size that is copied, come out whole. -/
theorem pops_front (frames : List RestoreFrame) : ∀ {q : DecodedSmoothPCMQueue}
    {behind : List RestoreFrame}, q.frames = frames ++ behind →
    (∀ frame ∈ frames, frame.smoothFlag = false ∧ frame.data.length = q.frameSize) →
    Trace.runOut step q (List.replicate frames.length .pop) =
      .ok ({ q with frames := behind },
        frames.map fun frame => ⟨frame, frame.data, q.frameSize⟩) := by
  induction frames with
  | nil =>
      intro q behind hframes _
      rw [show behind = q.frames from hframes.symm]
      rfl
  | cons frame frames ih =>
      intro q behind hframes hplain
      obtain ⟨⟨hflag, hsize⟩, hrest⟩ := List.forall_mem_cons.mp hplain
      have hpop : q.pop = .ok ({ q with frames := frames ++ behind },
          { returned := some ⟨frame, frame.data, q.frameSize⟩ }) := by
        unfold pop
        rw [hframes, List.cons_append]
        dsimp only
        rw [if_pos (by rw [hflag]; decide), takeFront, if_pos (Nat.le_of_eq hsize.symm), ← hsize,
          List.take_length]
      have hstep : q.step .pop = .ok ({ q with frames := frames ++ behind },
          [⟨frame, frame.data, q.frameSize⟩]) := by
        show (q.pop >>= fun r => Except.ok (r.1, r.2.returned.toList)) = _
        rw [hpop]
        rfl
      rw [List.length_cons, List.replicate_succ]
      exact Trace.runOut_cons_iff.mpr ⟨_, _, _, hstep, ih rfl hrest, rfl⟩

/-! ## The order -/

theorem filter_new {next : Nat} {old made : List RestoreFrame} {size : Nat}
    (hold : ∀ frame ∈ old, frame.address < next) (hmade : MadeFrom size next made) :
    (old ++ made).filter (fun frame => next ≤ frame.address) = made := by
  have hnone : old.filter (fun frame => next ≤ frame.address) = [] :=
    List.filter_eq_nil_iff.mpr fun frame hframe h =>
      Nat.not_le.mpr (hold frame hframe) (of_decide_eq_true h)
  rw [List.filter_append, hnone, List.nil_append]
  exact List.filter_eq_self.mpr fun frame hframe => decide_eq_true (hmade.new frame hframe).1

/-- Two lists that commute, of which one has only later allocations. -/
theorem eq_nil_of_commute {next : Nat} {old made : List RestoreFrame} {size : Nat}
    (hold : ∀ frame ∈ old, frame.address < next) (hmade : MadeFrom size next made)
    (hsome : made ≠ []) (h : old ++ made = made ++ old) : old = [] := by
  cases old with
  | nil => rfl
  | cons frame old =>
      obtain ⟨front, rest, rfl⟩ := List.exists_cons_of_ne_nil hsome
      have hsame : frame = front := (List.cons.inj h).1
      have hlt := hold frame List.mem_cons_self
      have hle := (hmade.new front List.mem_cons_self).1
      rw [hsame] at hlt
      omega

theorem pop_of_startsPass {q q' : DecodedSmoothPCMQueue} (hpass : q.StartsPass)
    (hok : q.smoothPass = .ok q') : q.pop = .ok (q', { rangePop := true }) := by
  obtain ⟨⟨frame, hhead, hflag⟩, hcount⟩ := hpass
  obtain ⟨frames, hframes⟩ := List.head?_eq_some_iff.mp hhead
  unfold pop
  rw [hframes]
  dsimp only
  rw [if_neg (not_not_intro hflag), if_pos hcount, hok]
  rfl

/-- A pass over the frames `front` in a queue of frames of one length. -/
theorem inOrder_iff_of_uniform {overlap n : Nat} {q : DecodedSmoothPCMQueue}
    {front behind : List RestoreFrame} (hoverlap : 1 ≤ overlap) (huni : Uniform overlap (4 * n) q)
    (hframes : q.frames = front ++ behind) (hfront : front.length = 2 * overlap)
    (hpass : q.StartsPass) : InOrder q behind ↔ behind = [] ∧ 0 < 4 * n := by
  have hsize := huni.size (startsPass_ne_nil hpass)
  have hover := huni.overlap
  obtain ⟨made, hok, hmade, hcount⟩ := smoothPass_eq hsize
    (fun frame hframe => (huni.frames frame hframe).1)
    (by rw [hframes, List.length_append, hfront, hover]; exact Nat.le_add_right _ _)
  have hafter : (q.afterPass made).frames = behind ++ made := by
    rw [afterPass, hframes, hover, ← hfront, List.drop_left]
  have hold : ∀ frame ∈ behind, frame.address < q.allocated := fun frame hframe =>
    (huni.frames frame (by rw [hframes]; exact List.mem_append_right _ hframe)).2
  have hpop := pop_of_startsPass hpass hok
  constructor
  · rintro ⟨q₁, q₂, outs, hpop₁, hpops, hlen, hnew, -, hleft⟩
    cases hpop.symm.trans hpop₁
    have hall := (front_of_pops _ hpops).2 hlen
    rw [hafter, filter_new hold hmade] at hnew
    rw [hafter, hnew, hleft] at hall
    have hmany : made.length = overlap := by rw [← hnew, List.length_map, hlen, hover]
    have hsome : made ≠ [] := fun hnone => by
      rw [hnone, List.length_nil] at hmany
      omega
    refine ⟨eq_nil_of_commute hold hmade hsome hall, ?_⟩
    by_contra hzero
    rw [if_pos (by omega)] at hcount
    omega
  · rintro ⟨rfl, hpos⟩
    rw [if_neg (by omega)] at hcount
    have hpops := @pops_front made (q.afterPass made) []
      (by rw [hafter, List.append_nil, List.nil_append]) fun frame hframe =>
        ⟨hmade.unflagged frame hframe, hmade.full frame hframe⟩
    rw [hcount] at hpops
    refine ⟨_, _, _, hpop, hpops, by rw [List.length_map, hcount], ?_, ?_, rfl⟩
    · rw [hafter, filter_new hold hmade, List.map_map]
      exact List.map_id made
    · exact List.forall_mem_map.mpr fun _ _ => rfl

/-- **The smoothed frames come out before those queued behind exactly when nothing was queued
    behind** (and the frames are not empty, for otherwise none are made). -/
theorem inOrder_iff {overlap len : Nat} {calls : List Call} {q : DecodedSmoothPCMQueue}
    {front behind : List RestoreFrame} (hoverlap : 1 ≤ overlap) (hwhole : len % 4 = 0)
    (hpush : ∀ data isNeedSmooth, .push data isNeedSmooth ∈ calls → data.length = len)
    (hrun : Trace.runE next { overlapFrameSize := overlap } calls = .ok q)
    (hframes : q.frames = front ++ behind) (hfront : front.length = 2 * overlap)
    (hpass : q.StartsPass) : InOrder q behind ↔ behind = [] ∧ 0 < len := by
  have huni := uniform_run hpush hrun
  obtain ⟨n, rfl⟩ := Nat.dvd_of_mod_eq_zero hwhole
  exact inOrder_iff_of_uniform hoverlap huni hframes hfront hpass

/-- Two flagged frames of a sample each. -/
theorem inOrder_iff_two :
    InOrder
      { overlapFrameSize := 1, smoothFrameCount := 2, frameSize := 4, allocated := 2
        frames := [⟨0, [0, 0, 128, 63], true⟩, ⟨1, [0, 0, 0, 64], true⟩] } [] ↔
    ([] : List RestoreFrame) = [] ∧ 0 < 4 := by
  have hrun : Trace.runE next { overlapFrameSize := 1 }
      [.push [0, 0, 128, 63] true, .push [0, 0, 0, 64] true] = .ok
        { overlapFrameSize := 1, smoothFrameCount := 2, frameSize := 4, allocated := 2
          frames := [⟨0, [0, 0, 128, 63], true⟩, ⟨1, [0, 0, 0, 64], true⟩] } := rfl
  refine inOrder_iff (Nat.le_refl 1) rfl (fun data isNeedSmooth h => ?_) hrun
    (List.append_nil _).symm rfl (by decide)
  simp only [List.mem_cons, Call.push.injEq, List.not_mem_nil, or_false] at h
  rcases h with ⟨rfl, -⟩ | ⟨rfl, -⟩ <;> rfl

/-- Two flagged frames, and one behind that is not: it is given to the caller before the
    smoothed frame. -/
theorem not_inOrder : ∃ q, Trace.runE next { overlapFrameSize := 1 }
      [.push [0, 0, 128, 63] true, .push [0, 0, 0, 64] true, .push [1, 2, 3, 4] false] = .ok q ∧
    q.StartsPass ∧ ¬ InOrder q [⟨2, [1, 2, 3, 4], false⟩] := by
  have huni : Uniform 1 (4 * 1)
      { overlapFrameSize := 1, smoothFrameCount := 2, frameSize := 4, allocated := 3
        frames := [⟨0, [0, 0, 128, 63], true⟩, ⟨1, [0, 0, 0, 64], true⟩,
          ⟨2, [1, 2, 3, 4], false⟩] } := ⟨rfl, fun _ => rfl, by decide⟩
  refine ⟨_, rfl, by decide, fun h => ?_⟩
  have hiff := @inOrder_iff_of_uniform 1 1 _ [⟨0, [0, 0, 128, 63], true⟩,
    ⟨1, [0, 0, 0, 64], true⟩] _ (Nat.le_refl 1) huni rfl rfl (by decide)
  exact List.cons_ne_nil _ _ (hiff.mp h).1

end DecodedSmoothPCMQueue

end Bifrost.Api
