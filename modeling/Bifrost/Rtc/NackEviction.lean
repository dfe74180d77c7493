/-
  Overflow of the NACK list: what `AddPacketsToNackList` evicts.

  Every packet counts as a key frame, so the newest one is in `key_frame_list_`, and it is
  newer than the whole list. A jump over at most 1000 numbers therefore always finds a key
  frame behind which the list fits (`removeUntilFits_fits`). A longer jump empties both
  lists (`removeUntilFits_clears`).

  * `evicts_removeUntilFits`: the loop ends, whatever the lists.
  * `frames_step`: the key frames stay sorted, at most 10000 behind the last number.
  * `batch_suffix`: what the batch after a jump drops are the oldest entries. It drops any
    only while the clock reads 0, since an entry sent at 0 counts as not sent.
  * `newest_gap_kept`: both cases, for every run.
-/
import Bifrost.Rtc.NackPacing

namespace Bifrost.Rtc.NackGenerator

open SeqManager

/-! ## The eviction loop -/

/-- The loop around `RemoveNackItemsUntilKeyFrame` goes from one pair of lists to another
    and ends there. -/
inductive Evicts (numNewNacks : UInt16) :
    List (UInt16 × NackInfo) × List (UInt16 × Unit) →
    List (UInt16 × NackInfo) × List (UInt16 × Unit) → Prop where
  | stop {nackList nackList' : List (UInt16 × NackInfo)}
      {keyFrameList keyFrameList' : List (UInt16 × Unit)} {removed : Bool}
      (round : removeNackItemsUntilKeyFrame nackList keyFrameList =
        (removed, nackList', keyFrameList'))
      (done : (removed && tooMany nackList' numNewNacks) = false) :
      Evicts numNewNacks (nackList, keyFrameList) (nackList', keyFrameList')
  | again {nackList nackList' : List (UInt16 × NackInfo)}
      {keyFrameList keyFrameList' : List (UInt16 × Unit)}
      {left : List (UInt16 × NackInfo) × List (UInt16 × Unit)} {removed : Bool}
      (round : removeNackItemsUntilKeyFrame nackList keyFrameList =
        (removed, nackList', keyFrameList'))
      (more : (removed && tooMany nackList' numNewNacks) = true)
      (rest : Evicts numNewNacks (nackList', keyFrameList') left) :
      Evicts numNewNacks (nackList, keyFrameList) left

/-- The loop ends: each round that goes on has made the list shorter. -/
theorem evicts_removeUntilFits (n : UInt16) (fuel : Nat) : ∀ nackList keyFrameList,
    nackList.length < fuel →
    Evicts n (nackList, keyFrameList) (removeUntilFits n fuel nackList keyFrameList) := by
  induction fuel with
  | zero => intro _ _ h; omega
  | succ fuel ih =>
      intro nackList keyFrameList hlen
      have hlt := removeNackItemsUntilKeyFrame_lt keyFrameList nackList
      rw [removeUntilFits]
      cases hround : removeNackItemsUntilKeyFrame nackList keyFrameList with
      | mk removed lists =>
          obtain ⟨nackList', keyFrameList'⟩ := lists
          rw [hround] at hlt
          dsimp only at hlt ⊢
          cases hgo : removed && tooMany nackList' n with
          | true =>
              rw [if_pos rfl]
              have := hlt (Bool.and_eq_true_iff.mp hgo).1
              exact .again hround hgo (ih nackList' keyFrameList' (by omega))
          | false =>
              rw [if_neg (by simp)]
              exact .stop hround hgo

theorem removeNackItemsUntilKeyFrame_frames (keyFrameList : List (UInt16 × Unit)) :
    ∀ nackList,
      (removeNackItemsUntilKeyFrame nackList keyFrameList).2.2 <:+ keyFrameList := by
  induction keyFrameList with
  | nil => intro _; exact List.suffix_refl _
  | cons keyFrame keyFrameList ih =>
      intro nackList
      simp only [removeNackItemsUntilKeyFrame]
      split
      · exact List.suffix_refl _
      · exact (ih nackList).trans (List.suffix_cons _ _)

theorem removeUntilFits_frames (n : UInt16) (fuel : Nat) : ∀ nackList keyFrameList,
    (removeUntilFits n fuel nackList keyFrameList).2 <:+ keyFrameList := by
  induction fuel with
  | zero => intro _ _; exact List.suffix_refl _
  | succ fuel ih =>
      intro nackList keyFrameList
      have h := removeNackItemsUntilKeyFrame_frames keyFrameList nackList
      simp only [removeUntilFits]
      split
      · exact (ih _ _).trans h
      · exact h

/-- A round finds a key frame when one of them is newer than the whole list, and keeps it. -/
theorem removeNackItemsUntilKeyFrame_newest {seq : UInt16} (keyFrameList : List (UInt16 × Unit)) :
    ∀ nackList, nackList ≠ [] → (∀ e ∈ nackList, seqLt e.1 seq = true) →
      (seq, ()) ∈ keyFrameList →
      (removeNackItemsUntilKeyFrame nackList keyFrameList).1 = true ∧
        (seq, ()) ∈ (removeNackItemsUntilKeyFrame nackList keyFrameList).2.2 := by
  induction keyFrameList with
  | nil => intro _ _ _ hmem; cases hmem
  | cons keyFrame keyFrameList ih =>
      intro nackList hne hbelow hmem
      simp only [removeNackItemsUntilKeyFrame]
      split
      · exact ⟨rfl, hmem⟩
      · next hsame =>
          refine ih nackList hne hbelow ((List.mem_cons.mp hmem).resolve_left ?_)
          -- the newest one would have removed something
          rintro rfl
          have hnil : OrderedMap.lowerBound seqLt seq nackList = [] := by
            rw [OrderedMap.lowerBound, List.dropWhile_eq_nil_iff]
            exact hbelow
          rw [hnil, List.length_nil, not_not] at hsame
          exact hne (List.eq_nil_of_length_eq_zero hsame.symm)

theorem tooMany_nil {n : UInt16} (h : n.toNat ≤ 1000) : tooMany [] n = false := by
  have hzero : (UInt16.ofNat ([] : List (UInt16 × NackInfo)).length).toNat = 0 := rfl
  have hmax : kMaxNackPackets = 1000 := rfl
  exact decide_eq_false (by omega)

theorem tooMany_of_long {n : UInt16} (h : 1000 < n.toNat) (nackList : List (UInt16 × NackInfo)) :
    tooMany nackList n = true := by
  have hmax : kMaxNackPackets = 1000 := rfl
  exact decide_eq_true (by omega)

/-- A jump over at most 1000 numbers fits when the newest packet is a key frame. -/
theorem removeUntilFits_fits {seq n : UInt16} (hn : n.toNat ≤ 1000) (fuel : Nat) :
    ∀ nackList keyFrameList, nackList.length < fuel →
      (∀ e ∈ nackList, seqLt e.1 seq = true) → (seq, ()) ∈ keyFrameList →
      tooMany nackList n = true →
      tooMany (removeUntilFits n fuel nackList keyFrameList).1 n = false := by
  induction fuel with
  | zero => intro _ _ h; omega
  | succ fuel ih =>
      intro nackList keyFrameList hlen hbelow hmem hmany
      have hne : nackList ≠ [] := by
        rintro rfl
        rw [tooMany_nil hn] at hmany
        cases hmany
      obtain ⟨hremoved, hkeep⟩ :=
        removeNackItemsUntilKeyFrame_newest keyFrameList nackList hne hbelow hmem
      have hlt := removeNackItemsUntilKeyFrame_lt keyFrameList nackList hremoved
      have hsuf := removeNackItemsUntilKeyFrame_suffix keyFrameList nackList
      rw [removeUntilFits]
      generalize removeNackItemsUntilKeyFrame nackList keyFrameList = round at *
      obtain ⟨removed, nackList', keyFrameList'⟩ := round
      dsimp only at hremoved hkeep hlt hsuf ⊢
      rw [hremoved, Bool.true_and]
      split
      · next hgo =>
          exact ih _ _ (by omega) (fun e he => hbelow e (hsuf.mem he)) hkeep hgo
      · next hstop => simpa using hstop

theorem removeNackItemsUntilKeyFrame_none (keyFrameList : List (UInt16 × Unit)) :
    ∀ nackList, (removeNackItemsUntilKeyFrame nackList keyFrameList).1 = false →
      (removeNackItemsUntilKeyFrame nackList keyFrameList).2.2 = [] := by
  induction keyFrameList with
  | nil => intro _ _; rfl
  | cons keyFrame keyFrameList ih =>
      intro nackList h
      simp only [removeNackItemsUntilKeyFrame] at h ⊢
      split at h
      · cases h
      · next hsame =>
          rw [if_neg hsame]
          exact ih nackList h

/-- A longer jump goes through all key frames. -/
theorem removeUntilFits_clears {n : UInt16} (hn : 1000 < n.toNat) (fuel : Nat) :
    ∀ nackList keyFrameList, nackList.length < fuel →
      (removeUntilFits n fuel nackList keyFrameList).2 = [] := by
  induction fuel with
  | zero => intro _ _ h; omega
  | succ fuel ih =>
      intro nackList keyFrameList hlen
      have hlt := removeNackItemsUntilKeyFrame_lt keyFrameList nackList
      have hnone := removeNackItemsUntilKeyFrame_none keyFrameList nackList
      rw [removeUntilFits]
      generalize removeNackItemsUntilKeyFrame nackList keyFrameList = round at *
      obtain ⟨removed, nackList', keyFrameList'⟩ := round
      dsimp only at hlt hnone ⊢
      rw [tooMany_of_long hn, Bool.and_true]
      split
      · next hgo =>
          have := hlt hgo
          exact ih _ _ (by omega)
      · next hstop => exact hnone (by simpa using hstop)

/-! ## `AddPacketsToNackList` -/

section AddPackets

variable (g : NackGenerator) (seqStart seqEnd : UInt16) (clock : Clock)

theorem addPacketsToNackList_frames :
    (g.addPacketsToNackList seqStart seqEnd clock).1.keyFrameList <:+ g.keyFrameList := by
  unfold addPacketsToNackList
  dsimp only
  split
  · split
    · exact removeUntilFits_frames _ _ _ _
    · exact removeUntilFits_frames _ _ _ _
  · exact List.suffix_refl _

theorem addPacketsToNackList_overflow (hn : 1000 < (seqEnd - seqStart).toNat) :
    g.addPacketsToNackList seqStart seqEnd clock =
      ({ g with nackList := [], keyFrameList := [] }, [.keyFrameRequired]) := by
  unfold addPacketsToNackList
  dsimp only
  rw [if_pos (tooMany_of_long hn _), if_pos (tooMany_of_long hn _),
    removeUntilFits_clears hn _ _ _ (Nat.lt_succ_self _)]

theorem addPacketsToNackList_quiet (hn : (seqEnd - seqStart).toNat ≤ 1000)
    (hbelow : ∀ e ∈ g.nackList, seqLt e.1 seqEnd = true) (hmem : (seqEnd, ()) ∈ g.keyFrameList) :
    (g.addPacketsToNackList seqStart seqEnd clock).2 = [] := by
  have hsuf := OrderedMap.lowerBound_suffix seqLt (seqEnd - kMaxPacketAge) g.nackList
  unfold addPacketsToNackList
  dsimp only
  split
  · next hmany =>
      have hfits := removeUntilFits_fits hn _ _ _ (Nat.lt_succ_self _)
        (fun e he => hbelow e (hsuf.mem he)) hmem hmany
      rw [if_neg (by simp [hfits])]
  · rfl

end AddPackets

/-! ## The key frames -/

/-- The key frames lie at most 10000 behind the last number and stand oldest first, so that
    the comparator orders them. -/
structure Frames (g : NackGenerator) : Prop where
  sorted : OrderedMap.Sorted seqLt g.keyFrameList
  recent : ∀ e ∈ g.keyFrameList, behind g.lastSeq e.1 ≤ 10000
  idle : g.started = false → g.keyFrameList = []

theorem behind_succ_left {seq k : UInt16} (h : behind seq k < 65535) :
    behind (seq + 1) k = behind seq k + 1 := by
  have := seq.toNat_lt
  have := k.toNat_lt
  unfold behind at *
  simp only [UInt16.toNat_sub, UInt16.toNat_add, UInt16.reduceToNat] at *
  omega

theorem behind_self (seq : UInt16) : behind seq seq = 0 := by
  unfold behind
  rw [UInt16.sub_self]
  rfl

theorem behind_age (seq : UInt16) : behind seq (seq - kMaxPacketAge) = 10000 := by
  have := seq.toNat_lt
  unfold behind
  simp only [UInt16.toNat_sub, show kMaxPacketAge.toNat = 10000 from rfl]
  omega

theorem halfBehind_of_recent {seq k : UInt16} (h : behind seq k ≤ 11001) :
    HalfBehind (seq + 1) k := by
  unfold HalfBehind
  rw [behind_succ_left (by omega)]
  omega

/-- A packet and the key frames not long before it, seen from the number after it. -/
theorem strictTotalOn_recent (seq : UInt16) :
    OrderedMap.StrictTotalOn seqLt fun k => behind seq k ≤ 11001 :=
  (strictTotalOn_behind (seq + 1)).mono fun _ => halfBehind_of_recent

theorem seqLt_iff_recent {seq a b : UInt16} (ha : behind seq a ≤ 11001)
    (hb : behind seq b ≤ 11001) : seqLt a b = true ↔ behind seq b < behind seq a := by
  obtain ⟨ha₁, ha₂⟩ := halfBehind_of_recent ha
  obtain ⟨hb₁, hb₂⟩ := halfBehind_of_recent hb
  rw [seqLt_iff_behind ha₁ ha₂ hb₁ hb₂, behind_succ_left (by omega), behind_succ_left (by omega)]
  omega

theorem not_seqLt_age_iff {seq k : UInt16} (hk : behind seq k ≤ 11001) :
    seqLt k (seq - kMaxPacketAge) = false ↔ behind seq k ≤ 10000 := by
  rw [← Bool.not_eq_true, seqLt_iff_recent hk (by rw [behind_age]; omega), behind_age, Nat.not_lt]

/-- A short jump adds the packet to the key frames; the old ones go. -/
theorem frames_receive {g : NackGenerator} (h : Frames g) {seq : UInt16}
    (hnewer : isSeqHigherThan seq g.lastSeq = true) (hn : behind seq (g.lastSeq + 1) ≤ 1000) :
    let keyFrameList := OrderedMap.lowerBound seqLt (seq - kMaxPacketAge)
      (OrderedMap.emplace seqLt seq () g.keyFrameList)
    OrderedMap.Sorted seqLt keyFrameList ∧ (∀ e ∈ keyFrameList, behind seq e.1 ≤ 10000) ∧
      (seq, ()) ∈ keyFrameList := by
  intro keyFrameList
  have hold : ∀ e ∈ g.keyFrameList, behind seq e.1 ≤ 11001 := by
    intro e he
    have hrecent := h.recent e he
    rw [behind_newer hnewer (by omega)]
    omega
  have hself : behind seq seq ≤ 11001 := by rw [behind_self]; omega
  have hprobe : behind seq (seq - kMaxPacketAge) ≤ 11001 := by rw [behind_age]; omega
  -- seen from the number after `seq` the comparator orders all keys in use
  have hst := strictTotalOn_recent seq
  have hsorted := OrderedMap.sorted_emplace (v := ()) hst hold hself h.sorted
  have hmem := OrderedMap.mem_emplace (v := ()) hst hold hself h.sorted
  have hall : ∀ e ∈ OrderedMap.emplace seqLt seq () g.keyFrameList, behind seq e.1 ≤ 11001 := by
    intro e he
    rcases OrderedMap.mem_of_mem_emplace he with he | rfl
    · exact hold e he
    · exact hself
  have hiff := OrderedMap.mem_lowerBound_iff hst hall hprobe hsorted
  refine ⟨hsorted.sublist (OrderedMap.lowerBound_sublist _ _ _), fun e he => ?_, ?_⟩
  · obtain ⟨hin, hlow⟩ := (hiff e).mp he
    exact (not_seqLt_age_iff (hall e hin)).mp hlow
  · refine (hiff _).mpr ⟨?_, (not_seqLt_age_iff hself).mpr (by rw [behind_self]; omega)⟩
    by_cases hin : ∃ e ∈ g.keyFrameList, e.1 = seq
    · obtain ⟨e, he, heq⟩ := hin
      exact (hmem _).mpr (Or.inl (heq ▸ he))
    · exact (hmem _).mpr (Or.inr ⟨rfl, fun e he heq => hin ⟨e, he, heq⟩⟩)

/-! ## A packet newer than the last one -/

theorem step_receive_newer {g : NackGenerator} {p : RtpPacket} (hst : g.started = true)
    (hnewer : isSeqHigherThan p.getSequenceNumber g.lastSeq = true) (clock : Clock) :
    step g (.receive p clock) = g.receiveNewer p.getSequenceNumber false clock := by
  have hne : p.getSequenceNumber ≠ g.lastSeq := by
    intro heq
    rw [heq, isSeqHigherThan16_iff, UInt16.sub_self] at hnewer
    exact absurd hnewer.1 (by decide)
  have hnotLower : ¬ isSeqLowerThan p.getSequenceNumber g.lastSeq = true := by
    rw [isSeqHigherThan_eq] at hnewer
    rw [← isSeqHigherThan_eq, isSeqLowerThan_asymm hnewer]
    simp
  unfold step receivePacket
  dsimp only
  rw [if_neg (by simp [hst]), if_neg hne, if_neg hnotLower]

/-- Any other packet leaves the key frames and the last number alone. -/
theorem step_receive_known {g : NackGenerator} {p : RtpPacket} (hst : g.started = true)
    (hknown : ¬ isSeqHigherThan p.getSequenceNumber g.lastSeq = true) (clock : Clock) :
    let g' := (step g (.receive p clock)).1
    g'.keyFrameList = g.keyFrameList ∧ g'.lastSeq = g.lastSeq ∧ g'.started = g.started := by
  unfold step receivePacket
  dsimp only
  rw [if_neg (by simp [hst])]
  split
  · exact ⟨rfl, rfl, rfl⟩
  · next hne =>
      have hlower : isSeqLowerThan p.getSequenceNumber g.lastSeq = true := by
        by_contra hlow
        exact hknown (isSeqHigherThan_of_not hne hlow)
      rw [if_pos hlower]
      split <;> exact ⟨rfl, rfl, rfl⟩

/-- A call with a packet that jumps over at most 1000 numbers, and one with a packet that
    jumps over more. -/
theorem step_newer {g : NackGenerator} (h : Inv g) (hf : Frames g) {p : RtpPacket}
    (hst : g.started = true)
    (hnewer : isSeqHigherThan p.getSequenceNumber g.lastSeq = true) (clock : Clock) :
    let n := behind p.getSequenceNumber (g.lastSeq + 1)
    (n ≤ 1000 → ∃ kept keyFrames, kept <:+ g.nackList ∧ OrderedMap.Sorted seqLt keyFrames ∧
      (∀ e ∈ keyFrames, behind p.getSequenceNumber e.1 ≤ 10000) ∧
      let g' : NackGenerator := { g with
        nackList := kept ++ newEntries clock n (g.lastSeq + 1)
        lastSeq := p.getSequenceNumber
        keyFrameList := keyFrames }
      Inv g' ∧ step g (.receive p clock) = g'.sendNackBatch .seq (clock 65536)) ∧
    (1000 < n → step g (.receive p clock) =
      ({ g with nackList := [], lastSeq := p.getSequenceNumber, keyFrameList := [] },
        [.keyFrameRequired])) := by
  intro n
  rw [step_receive_newer hst hnewer, receiveNewer]
  dsimp only
  rw [if_neg (by simp)]
  constructor
  · intro hn
    obtain ⟨hsorted, hrecent, hself⟩ := frames_receive hf hnewer hn
    generalize OrderedMap.lowerBound seqLt _ (OrderedMap.emplace _ _ _ _) = frames at *
    have hbelow : ∀ e ∈ g.nackList, seqLt e.1 p.getSequenceNumber = true := by
      intro e he
      have hw := h.window e he
      have hbehind := behind_newer hnewer (k := e.1) (by omega)
      rw [@seqLt_iff_recent p.getSequenceNumber _ _ (by omega) (by rw [behind_self]; omega),
        behind_self]
      omega
    have hquiet := addPacketsToNackList_quiet { g with keyFrameList := frames }
      (g.lastSeq + 1) p.getSequenceNumber clock hn hbelow hself
    have hframes := addPacketsToNackList_frames { g with keyFrameList := frames }
      (g.lastSeq + 1) p.getSequenceNumber clock
    have hinv : Inv { g with keyFrameList := frames } :=
      ⟨h.sorted, h.bounded, h.window, h.seqs, h.idle, h.recovered⟩
    rcases addPacketsToNackList_cases hinv hnewer clock with
      ⟨keyFrames, hadd⟩ | ⟨keyFrames, kept, hsuf, hage, hsum, hadd⟩
    · simp only at hadd
      rw [hadd] at hquiet
      cases hquiet
    · simp only at hadd
      rw [hadd] at hframes ⊢
      exact ⟨kept, keyFrames, hsuf, hsorted.sublist hframes.sublist,
        fun e he => hrecent e (hframes.mem he),
        inv_skipped h clock keyFrames hst hnewer rfl hsuf hsum hage, rfl⟩
  · intro hn
    rw [addPacketsToNackList_overflow _ _ _ clock hn]
    rfl

theorem frames_create (sendNackDelayMs : UInt32) : Frames (create sendNackDelayMs) :=
  ⟨List.Pairwise.nil, by simp [create], fun _ => rfl⟩

theorem frames_step (g : NackGenerator) (e : Event) (h : Inv g) (hf : Frames g) :
    Frames (step g e).1 := by
  cases e with
  | timer clock => exact ⟨hf.sorted, hf.recent, hf.idle⟩
  | updateRtt rtt => exact ⟨hf.sorted, hf.recent, hf.idle⟩
  | reset => exact ⟨List.Pairwise.nil, by simp [step, reset], fun _ => rfl⟩
  | receive p clock =>
      cases hst : g.started with
      | false =>
          have hnil := hf.idle hst
          have heq : (step g (.receive p clock)).1 = { g with
              started := true
              lastSeq := p.getSequenceNumber
              keyFrameList := [(p.getSequenceNumber, ())] } := by
            simp only [step, receivePacket, hst, hnil]
            rfl
          rw [heq]
          exact ⟨List.pairwise_singleton _ _, by simp [behind_self], by simp⟩
      | true =>
          by_cases hnewer : isSeqHigherThan p.getSequenceNumber g.lastSeq = true
          · obtain ⟨hshort, hlong⟩ := step_newer h hf hst hnewer clock
            rcases Nat.lt_or_ge 1000 (behind p.getSequenceNumber (g.lastSeq + 1)) with hn | hn
            · rw [hlong hn]
              exact ⟨List.Pairwise.nil, by simp, fun _ => rfl⟩
            · obtain ⟨kept, keyFrames, -, hsorted, hrecent, -, heq⟩ := hshort hn
              rw [heq]
              exact ⟨hsorted, hrecent, by simp [sendNackBatch, hst]⟩
          · obtain ⟨hframes, hlast, hstarted⟩ := step_receive_known hst hnewer clock
            refine ⟨?_, ?_, ?_⟩
            · rw [hframes]
              exact hf.sorted
            · rw [hframes, hlast]
              exact hf.recent
            · rw [hframes, hstarted]
              exact hf.idle

theorem frames_run (sendNackDelayMs : UInt32) (events : List Event) :
    Inv (Trace.run step (create sendNackDelayMs) events) ∧
      Frames (Trace.run step (create sendNackDelayMs) events) :=
  Trace.run_invariant (I := fun g => Inv g ∧ Frames g)
    (fun g e h => ⟨inv_step g e h.1, frames_step g e h.1 h.2⟩)
    ⟨inv_create sendNackDelayMs, frames_create sendNackDelayMs⟩ events

/-! ## What the batch drops -/

/-- The clock does not go back. -/
structure Steady (events : List Event) : Prop where
  within : ∀ e ∈ events, e.Ordered
  across : events.Pairwise fun a b => ∀ t u, a.Reads t → b.Reads u → t ≤ u

theorem batchLoop_append (g : NackGenerator) (filter : NackFilter) (nowMs : UInt64)
    (xs ys : List (UInt16 × NackInfo)) :
    (g.batchLoop filter nowMs (xs ++ ys)).2 =
      (g.batchLoop filter nowMs xs).2 ++ (g.batchLoop filter nowMs ys).2 := by
  induction xs with
  | nil => rfl
  | cons item xs ih =>
      obtain ⟨key, info⟩ := item
      simp only [List.cons_append, batchLoop]
      split
      · split <;> simp only [ih, List.cons_append]
      · simp only [ih, List.cons_append]

/-- Nothing is dropped that has not been sent before. -/
theorem batchLoop_keys_of_new {g : NackGenerator} {filter : NackFilter} {nowMs : UInt64}
    {items : List (UInt16 × NackInfo)}
    (hnew : ∀ e ∈ items, g.isDue filter nowMs e.2 = true → e.2.retries = 0) :
    (g.batchLoop filter nowMs items).2.map Prod.fst = items.map Prod.fst := by
  induction items with
  | nil => rfl
  | cons item items ih =>
      obtain ⟨key, info⟩ := item
      obtain ⟨hfirst, hrest⟩ := List.forall_mem_cons.mp hnew
      simp only [batchLoop]
      split
      · next hdue =>
          have hretries : ¬ (markSent nowMs info).retries ≥ kMaxNackRetries := by
            show ¬ info.retries + 1 ≥ kMaxNackRetries
            rw [hfirst hdue]
            decide
          rw [if_neg hretries, List.map_cons, List.map_cons, ih hrest]
      · rw [List.map_cons, List.map_cons, ih hrest]

/-- Where all are due, those sent often enough go. -/
theorem batchLoop_of_due {g : NackGenerator} {filter : NackFilter} {nowMs : UInt64}
    {items : List (UInt16 × NackInfo)}
    (hdue : ∀ e ∈ items, g.isDue filter nowMs e.2 = true) :
    (g.batchLoop filter nowMs items).2 =
      (items.filter fun e => (markSent nowMs e.2).retries < kMaxNackRetries).map
        fun e => (e.1, markSent nowMs e.2) := by
  induction items with
  | nil => rfl
  | cons item items ih =>
      obtain ⟨key, info⟩ := item
      obtain ⟨hfirst, hrest⟩ := List.forall_mem_cons.mp hdue
      simp only [batchLoop, hfirst, if_true]
      split
      · next hmax => rw [List.filter_cons_of_neg (by simpa using hmax), ih hrest]
      · next hmax => rw [List.filter_cons_of_pos (by simpa using hmax), ih hrest, List.map_cons]

/-- A property that stays once it holds selects an end piece. -/
theorem filter_suffix {α : Type} {p : α → Bool} {l : List α}
    (h : l.Pairwise fun a b => p a = true → p b = true) : l.filter p <:+ l := by
  induction l with
  | nil => exact List.suffix_refl _
  | cons a l ih =>
      obtain ⟨hfirst, hrest⟩ := List.pairwise_cons.mp h
      cases hp : p a with
      | false =>
          rw [List.filter_cons_of_neg (by simp [hp])]
          exact (ih hrest).trans (List.suffix_cons _ _)
      | true =>
          have hall : ∀ b ∈ a :: l, p b = true :=
            List.forall_mem_cons.mpr ⟨hp, fun b hb => hfirst b hb hp⟩
          exact ⟨[], (List.filter_eq_self.mpr hall).symm ▸ rfl⟩

/-- Either an entry that looks unsent is unsent, or the clock has read 0 all the time: then
    all entries look unsent and the older one has been sent as often or more. -/
inductive SentInOrder (sendNackDelayMs : UInt32) (nackList : List (UInt16 × NackInfo)) : Prop where
  | unsent (h : ∀ e ∈ nackList, e.2.sentAtMs = 0 → e.2.retries = 0)
  | atZero (delay : sendNackDelayMs = 0) (sent : ∀ e ∈ nackList, e.2.sentAtMs = 0)
      (order : nackList.Pairwise fun a b => b.2.retries ≤ a.2.retries)

/-- The times in the list are readings of the events so far, and every entry is to be sent
    at its own number. -/
structure Booked (sendNackDelayMs : UInt32) (events : List Event)
    (nackList : List (UInt16 × NackInfo)) : Prop where
  created : ∀ e ∈ nackList, ∃ ev ∈ events, ev.Reads e.2.createdAtMs
  sent : ∀ e ∈ nackList, e.2.sentAtMs = 0 ∨ ∃ ev ∈ events, ev.Reads e.2.sentAtMs
  sendAt : ∀ e ∈ nackList, e.2.sendAtSeq = e.1
  few : ∀ e ∈ nackList, e.2.retries < kMaxNackRetries
  order : SentInOrder sendNackDelayMs nackList

section Batch

variable {g : NackGenerator} {items : List (UInt16 × NackInfo)} {nowMs : UInt64}

/-- An entry behind the last number that looks unsent is due when there is no delay. -/
theorem isDue_of_unsent {e : UInt16 × NackInfo} (filter : NackFilter)
    (hdelay : g.sendNackDelayMs = 0) (hsent : e.2.sentAtMs = 0) (hat : e.2.sendAtSeq = e.1)
    (hwin : 1 ≤ behind g.lastSeq e.1 ∧ behind g.lastSeq e.1 ≤ 10000) :
    g.isDue filter nowMs e.2 = true := by
  have hhigher : isSeqHigherThan g.lastSeq e.1 = true := by
    rw [isSeqHigherThan16_iff]
    unfold behind at hwin
    omega
  have hzero : ¬ ((0 : UInt32) > 0) := by decide
  cases filter <;> simp [isDue, hdelay, hzero, hsent, hat, hhigher]

/-- With a delay nothing is due while the clock still reads 0. -/
theorem isDue_at_zero {e : UInt16 × NackInfo} (filter : NackFilter)
    (hdelay : g.sendNackDelayMs ≠ 0) (hcreated : e.2.createdAtMs ≤ 0) :
    g.isDue filter 0 e.2 = false := by
  have hpos : g.sendNackDelayMs > 0 := UInt32.pos_iff_ne_zero.mpr hdelay
  have hpos' : (0 : UInt64) < g.sendNackDelayMs.toUInt64 := by
    rw [UInt64.lt_iff_toNat_lt, UInt32.toNat_toUInt64]
    exact UInt32.lt_iff_toNat_lt.mp hpos
  simp [isDue, hpos, hpos', UInt64.le_zero_iff.mp hcreated]

theorem retries_succ {a b : UInt8} (ha : a < kMaxNackRetries) (hle : b ≤ a) :
    b + 1 ≤ a + 1 := by
  simp only [kMaxNackRetries, UInt8.lt_iff_toNat_lt, UInt8.le_iff_toNat_le, UInt8.toNat_add,
    UInt8.reduceToNat] at *
  omega

/-- **What the batch after a jump drops are the oldest entries.** -/
theorem batch_suffix (horder : SentInOrder g.sendNackDelayMs items)
    (hwin : ∀ e ∈ items, 1 ≤ behind g.lastSeq e.1 ∧ behind g.lastSeq e.1 ≤ 10000)
    (hat : ∀ e ∈ items, e.2.sendAtSeq = e.1) (hfew : ∀ e ∈ items, e.2.retries < kMaxNackRetries) :
    (g.batchLoop .seq nowMs items).2.map Prod.fst <:+ items.map Prod.fst := by
  cases horder with
  | unsent hunsent =>
      have hnew : ∀ e ∈ items, g.isDue .seq nowMs e.2 = true → e.2.retries = 0 := by
        intro e he hdue
        apply hunsent e he
        simp only [isDue] at hdue
        split at hdue
        · cases hdue
        · simpa using (Bool.and_eq_true_iff.mp hdue).1
      exact ⟨[], batchLoop_keys_of_new hnew⟩
  | atZero hdelay hsent hretries =>
      rw [batchLoop_of_due fun e he =>
        isDue_of_unsent .seq hdelay (hsent e he) (hat e he) (hwin e he), List.map_map]
      refine (filter_suffix (hretries.imp_of_mem fun {a b} ha _ hle => ?_)).map Prod.fst
      intro hlt
      exact decide_eq_true
        (UInt8.lt_of_le_of_lt (retries_succ (hfew a ha) hle) (of_decide_eq_true hlt))

/-- While every entry looks unsent, the older one has been sent as often or more. -/
theorem SentInOrder.pairwise {sendNackDelayMs : UInt32} (h : SentInOrder sendNackDelayMs items)
    (hsent : ∀ e ∈ items, e.2.sentAtMs = 0) :
    items.Pairwise fun a b => b.2.retries ≤ a.2.retries := by
  cases h with
  | atZero _ _ horder => exact horder
  | unsent hunsent =>
      refine List.pairwise_iff_forall_sublist.mpr fun {a b} hsub => ?_
      have ha := hsub.mem (List.mem_cons_self (a := a))
      have hb := hsub.mem (List.mem_cons_of_mem a (List.mem_singleton_self b))
      rw [hunsent a ha (hsent a ha), hunsent b hb (hsent b hb)]
      exact UInt8.le_refl 0

theorem SentInOrder.batch (horder : SentInOrder g.sendNackDelayMs items) (filter : NackFilter)
    (hwin : ∀ e ∈ items, 1 ≤ behind g.lastSeq e.1 ∧ behind g.lastSeq e.1 ≤ 10000)
    (hat : ∀ e ∈ items, e.2.sendAtSeq = e.1) (hfew : ∀ e ∈ items, e.2.retries < kMaxNackRetries)
    (hpast : ∀ e ∈ items, e.2.createdAtMs ≤ nowMs ∧ e.2.sentAtMs ≤ nowMs) :
    SentInOrder g.sendNackDelayMs (g.batchLoop filter nowMs items).2 := by
  by_cases hnow : nowMs = 0
  · subst hnow
    have hsent : ∀ e ∈ items, e.2.sentAtMs = 0 := fun e he => UInt64.le_zero_iff.mp (hpast e he).2
    by_cases hdelay : g.sendNackDelayMs = 0
    · rw [batchLoop_of_due fun e he =>
        isDue_of_unsent filter hdelay (hsent e he) (hat e he) (hwin e he)]
      refine .atZero hdelay (fun e he => ?_) ?_
      · obtain ⟨e', -, rfl⟩ := List.mem_map.mp he
        rfl
      · refine List.pairwise_map.mpr (List.Pairwise.filter _ ?_)
        exact (horder.pairwise hsent).imp_of_mem fun {a b} ha _ hle =>
          retries_succ (hfew a ha) hle
    · -- nothing has waited for the delay yet
      cases horder with
      | atZero hzero _ _ => exact absurd hzero hdelay
      | unsent hunsent =>
          refine .unsent fun e he => ?_
          obtain ⟨info, hmem, ⟨-, heq⟩ | ⟨hdue, -, -⟩⟩ := mem_batchLoop he
          · rw [heq]
            exact hunsent _ hmem
          · rw [isDue_at_zero filter hdelay (hpast _ hmem).1] at hdue
            cases hdue
  · -- what is sent now no longer looks unsent
    refine .unsent fun e he => ?_
    obtain ⟨info, hmem, ⟨hnotDue, heq⟩ | ⟨-, heq, -⟩⟩ := mem_batchLoop he
    · rw [heq]
      cases horder with
      | unsent hunsent => exact hunsent _ hmem
      | atZero hdelay hsent _ =>
          rw [isDue_of_unsent filter hdelay (hsent _ hmem) (hat _ hmem) (hwin _ hmem)] at hnotDue
          cases hnotDue
    · rw [heq]
      exact fun hzero => absurd hzero hnow

end Batch

section Booked

variable {sendNackDelayMs : UInt32} {events : List Event} {nackList : List (UInt16 × NackInfo)}

theorem SentInOrder.sublist {items : List (UInt16 × NackInfo)}
    (h : SentInOrder sendNackDelayMs nackList) (hsub : items.Sublist nackList) :
    SentInOrder sendNackDelayMs items := by
  cases h with
  | unsent hunsent => exact .unsent fun e he => hunsent e (hsub.mem he)
  | atZero hdelay hsent horder =>
      exact .atZero hdelay (fun e he => hsent e (hsub.mem he)) (horder.sublist hsub)

theorem Booked.sublist {items : List (UInt16 × NackInfo)}
    (h : Booked sendNackDelayMs events nackList) (hsub : items.Sublist nackList) :
    Booked sendNackDelayMs events items where
  created e he := h.created e (hsub.mem he)
  sent e he := h.sent e (hsub.mem he)
  sendAt e he := h.sendAt e (hsub.mem he)
  few e he := h.few e (hsub.mem he)
  order := h.order.sublist hsub

/-- One more event. -/
theorem Booked.concat (h : Booked sendNackDelayMs events nackList) (ev : Event) :
    Booked sendNackDelayMs (events ++ [ev]) nackList where
  created e he := by
    obtain ⟨ev', hmem, hreads⟩ := h.created e he
    exact ⟨ev', List.mem_append_left _ hmem, hreads⟩
  sent e he := by
    refine (h.sent e he).imp id fun hsent => ?_
    obtain ⟨ev', hmem, hreads⟩ := hsent
    exact ⟨ev', List.mem_append_left _ hmem, hreads⟩
  sendAt := h.sendAt
  few := h.few
  order := h.order

/-- The numbers that a jump adds have not been sent. -/
theorem Booked.append_new (h : Booked sendNackDelayMs events nackList) (p : RtpPacket)
    (clock : Clock) (n : Nat) (seq : UInt16) :
    Booked sendNackDelayMs (events ++ [.receive p clock])
      (nackList ++ newEntries clock n seq) := by
  have hnew : ∀ e ∈ newEntries clock n seq, e.2.sentAtMs = 0 ∧ e.2.retries = 0 ∧
      e.2.sendAtSeq = e.1 ∧ ∃ i, clock i = e.2.createdAtMs := by
    intro e he
    obtain ⟨i, -, rfl⟩ := (mem_newEntries_iff n clock seq e).mp he
    exact ⟨rfl, rfl, rfl, i, rfl⟩
  have hold := h.concat (.receive p clock)
  constructor
  · refine List.forall_mem_append.mpr ⟨hold.created, fun e he => ?_⟩
    exact ⟨.receive p clock, by simp, (hnew e he).2.2.2⟩
  · exact List.forall_mem_append.mpr ⟨hold.sent, fun e he => Or.inl (hnew e he).1⟩
  · exact List.forall_mem_append.mpr ⟨hold.sendAt, fun e he => (hnew e he).2.2.1⟩
  · refine List.forall_mem_append.mpr ⟨hold.few, fun e he => ?_⟩
    rw [(hnew e he).2.1]
    decide
  · cases h.order with
    | unsent hunsent =>
        exact .unsent (List.forall_mem_append.mpr ⟨hunsent, fun e he _ => (hnew e he).2.1⟩)
    | atZero hdelay hsent horder =>
        refine .atZero hdelay
          (List.forall_mem_append.mpr ⟨hsent, fun e he => (hnew e he).1⟩)
          (List.pairwise_append.mpr ⟨horder, ?_, fun a _ b hb => ?_⟩)
        · refine List.pairwise_iff_forall_sublist.mpr fun {a b} hsub => ?_
          rw [(hnew b (hsub.mem (by simp))).2.1]
          exact UInt8.zero_le
        · rw [(hnew b hb).2.1]
          exact UInt8.zero_le

theorem Booked.batch {g : NackGenerator} (h : Booked g.sendNackDelayMs events g.nackList)
    (hinv : Inv g) (filter : NackFilter) {nowMs : UInt64}
    (hpast : ∀ e ∈ g.nackList, e.2.createdAtMs ≤ nowMs ∧ e.2.sentAtMs ≤ nowMs)
    (hreads : ∃ ev ∈ events, ev.Reads nowMs) :
    Booked g.sendNackDelayMs events (g.batchLoop filter nowMs g.nackList).2 where
  created e he := by
    obtain ⟨info, hmem, ⟨-, heq⟩ | ⟨-, heq, -⟩⟩ := mem_batchLoop he
    · rw [heq]
      exact h.created _ hmem
    · rw [heq]
      exact h.created _ hmem
  sent e he := by
    obtain ⟨info, hmem, ⟨-, heq⟩ | ⟨-, heq, -⟩⟩ := mem_batchLoop he
    · rw [heq]
      exact h.sent _ hmem
    · rw [heq]
      exact Or.inr hreads
  sendAt e he := by
    obtain ⟨info, hmem, ⟨-, heq⟩ | ⟨-, heq, -⟩⟩ := mem_batchLoop he
    · rw [heq]
      exact h.sendAt _ hmem
    · rw [heq]
      exact h.sendAt _ hmem
  few e he := by
    obtain ⟨info, hmem, ⟨-, heq⟩ | ⟨-, heq, hmax⟩⟩ := mem_batchLoop he
    · rw [heq]
      exact h.few _ hmem
    · rw [heq]
      exact UInt8.not_le.mp hmax
  order := h.order.batch filter hinv.window h.sendAt h.few hpast

end Booked

theorem Steady.left {xs ys : List Event} (h : Steady (xs ++ ys)) : Steady xs where
  within e he := h.within e (List.mem_append_left _ he)
  across := (List.pairwise_append.mp h.across).1

/-- All times in the list lie before what the next event reads. -/
theorem Booked.past {sendNackDelayMs : UInt32} {pre : List Event} {ev : Event}
    {nackList : List (UInt16 × NackInfo)} (h : Booked sendNackDelayMs pre nackList)
    (hclock : Steady (pre ++ [ev])) {t : UInt64} (hreads : ev.Reads t) :
    ∀ e ∈ nackList, e.2.createdAtMs ≤ t ∧ e.2.sentAtMs ≤ t := by
  have hbefore : ∀ ev' ∈ pre, ∀ u, ev'.Reads u → u ≤ t := fun ev' hmem u hu =>
    (List.pairwise_append.mp hclock.across).2.2 ev' hmem ev (List.mem_singleton_self ev) u t hu
      hreads
  intro e he
  constructor
  · obtain ⟨ev', hmem, hu⟩ := h.created e he
    exact hbefore ev' hmem _ hu
  · rcases h.sent e he with hzero | ⟨ev', hmem, hu⟩
    · rw [hzero]
      exact UInt64.zero_le
    · exact hbefore ev' hmem _ hu

theorem booked_step {g : NackGenerator} (h : Inv g) {pre : List Event} {ev : Event}
    (hbooked : Booked g.sendNackDelayMs pre g.nackList) (hclock : Steady (pre ++ [ev])) :
    Booked (step g ev).1.sendNackDelayMs (pre ++ [ev]) (step g ev).1.nackList := by
  have hc := step_cases h ev
  generalize step g ev = r at hc
  have hnil : ∀ delay events, Booked delay events [] := fun _ _ =>
    ⟨by simp, by simp, by simp, by simp, .unsent (by simp)⟩
  cases hc with
  | first => exact hbooked.concat _
  | ignored => exact hbooked.concat _
  | received p clock _ _ _ =>
      exact (hbooked.sublist (OrderedMap.erase_sublist seqLt _ _)).concat _
  | overflow => exact hnil _ _
  | reset => exact hnil _ _
  | updateRtt => exact hbooked.concat _
  | timer clock =>
      exact (hbooked.concat _).batch h _ (hbooked.past hclock ⟨0, rfl⟩)
        ⟨.timer clock, by simp, 0, rfl⟩
  | skipped p clock keyFrames kept n hst hnewer hcount hsuf hfits hage =>
      have hkept := hbooked.sublist hsuf.sublist
      have hinv := inv_skipped h clock keyFrames hst hnewer hcount hsuf hfits hage
      refine (hkept.append_new p clock n (g.lastSeq + 1)).batch hinv .seq
        (List.forall_mem_append.mpr ⟨hkept.past hclock ⟨65536, rfl⟩, fun e he => ?_⟩)
        ⟨.receive p clock, by simp, 65536, rfl⟩
      obtain ⟨i, hi, rfl⟩ := (mem_newEntries_iff n clock _ e).mp he
      have hordered : Event.Ordered (.receive p clock) := hclock.within _ (by simp)
      exact ⟨hordered i 65536 (by omega), UInt64.zero_le⟩

theorem booked_run (sendNackDelayMs : UInt32) (events : List Event) (hclock : Steady events) :
    let g := Trace.run step (create sendNackDelayMs) events
    Booked g.sendNackDelayMs events g.nackList := by
  refine Trace.run_history
    (I := fun events _ (g : NackGenerator) => Booked g.sendNackDelayMs events g.nackList) ?_ ?_
  · exact ⟨by simp [create], by simp [create], by simp [create], by simp [create],
      .unsent (by simp [create])⟩
  · rintro pre ev post rfl hbooked
    have hsplit : pre ++ ev :: post = (pre ++ [ev]) ++ post := by simp
    rw [hsplit] at hclock
    exact booked_step (inv_run sendNackDelayMs pre) hbooked hclock.left

/-! ## Jumps -/

/-- The `n` numbers behind `last`. -/
def skippedNumbers (last : UInt16) (n : Nat) : List UInt16 :=
  (List.range n).map fun i => last + 1 + UInt16.ofNat i

theorem keys_newEntries (n : Nat) : ∀ (clock : Clock) (last : UInt16),
    (newEntries clock n (last + 1)).map Prod.fst = skippedNumbers last n := by
  induction n with
  | zero => intro _ _; rfl
  | succ n ih =>
      intro clock last
      rw [newEntries, List.map_cons, ih, skippedNumbers, skippedNumbers,
        List.range_succ_eq_map, List.map_cons, List.map_map]
      refine congrArg₂ List.cons (by simp) (List.map_congr_left fun i _ => ?_)
      rw [Function.comp_apply, ← UInt16.toNat_inj]
      simp only [UInt16.toNat_add, UInt16.toNat_ofNat', UInt16.reduceToNat]
      omega

/-- The batch behind a jump drops old entries only, and the oldest of them. -/
theorem keys_after_jump {g : NackGenerator} (h : Inv g) {events : List Event}
    {kept new : List (UInt16 × NackInfo)} (hlist : g.nackList = kept ++ new)
    (hkept : Booked g.sendNackDelayMs events kept) (hnew : ∀ e ∈ new, e.2.retries = 0)
    (nowMs : UInt64) :
    ∃ older, older <:+ kept.map Prod.fst ∧
      (g.sendNackBatch .seq nowMs).1.keys = older ++ new.map Prod.fst := by
  have hwin := h.window
  rw [hlist] at hwin
  refine ⟨(g.batchLoop .seq nowMs kept).2.map Prod.fst,
    batch_suffix hkept.order (List.forall_mem_append.mp hwin).1 hkept.sendAt hkept.few, ?_⟩
  simp only [keys, sendNackBatch, hlist]
  rw [batchLoop_append, List.map_append, batchLoop_keys_of_new fun e he _ => hnew e he]

/-- What a newer packet does to the list: `n` numbers lie between it and the last one. -/
structure JumpHandled (g : NackGenerator) (p : RtpPacket) (clock : Clock) (n : Nat) : Prop where
  short : n ≤ 1000 →
    (∃ older, older <:+ g.keys ∧
      (step g (.receive p clock)).1.keys = older ++ skippedNumbers g.lastSeq n) ∧
    .keyFrameRequired ∉ (step g (.receive p clock)).2
  long : 1000 < n →
    (step g (.receive p clock)).1.nackList = [] ∧
    (step g (.receive p clock)).2 = [.keyFrameRequired]
  terminates : ∀ nackList keyFrameList, ∃ left,
    Evicts (p.getSequenceNumber - (g.lastSeq + 1)) (nackList, keyFrameList) left

/-- **Overflow never costs the newest gap.** A newer packet that skips at most 1000 numbers
    puts them all on the list, behind what is left of the older ones, the youngest of them,
    and asks for no key frame. One that skips more empties the list and asks for one. -/
theorem newest_gap_kept (sendNackDelayMs : UInt32) (events : List Event) (p : RtpPacket)
    (clock : Clock) (hclock : Steady (events ++ [.receive p clock])) :
    let g := Trace.run step (create sendNackDelayMs) events
    g.started = true → isSeqHigherThan p.getSequenceNumber g.lastSeq = true →
      JumpHandled g p clock (behind p.getSequenceNumber (g.lastSeq + 1)) := by
  intro g hst hnewer
  obtain ⟨hinv, hframes⟩ := frames_run sendNackDelayMs events
  have hbooked : Booked g.sendNackDelayMs events g.nackList :=
    booked_run sendNackDelayMs events hclock.left
  obtain ⟨hshort, hlong⟩ := step_newer hinv hframes hst hnewer clock
  refine ⟨fun hn => ?_, fun hn => ?_, fun nackList keyFrameList => ⟨_,
    evicts_removeUntilFits _ _ nackList keyFrameList (Nat.lt_succ_self _)⟩⟩
  · obtain ⟨kept, keyFrames, hsuf, -, -, hinv', heq⟩ := hshort hn
    have hnew : ∀ e ∈ newEntries clock (behind p.getSequenceNumber (g.lastSeq + 1))
        (g.lastSeq + 1), e.2.retries = 0 := by
      intro e he
      obtain ⟨i, -, rfl⟩ := (mem_newEntries_iff _ clock _ e).mp he
      rfl
    obtain ⟨older, holder, hkeys⟩ := keys_after_jump hinv' rfl (hbooked.sublist hsuf.sublist) hnew
      (clock 65536)
    rw [heq]
    refine ⟨⟨older, holder.trans (hsuf.map Prod.fst), ?_⟩, ?_⟩
    · rw [hkeys, keys_newEntries]
    · simp only [sendNackBatch]
      split <;> simp
  · rw [hlong hn]
    exact ⟨rfl, rfl⟩

theorem Timely.steady {events : List Event} (h : Timely events) : Steady events :=
  ⟨h.within, h.across⟩

/-- Packet 1013 with 11 and 12 on the list: the 999 numbers it skips leave room for one, so that
    the oldest goes. -/
theorem newest_gap_kept_evicted :
    (Trace.run step (create 0) [arrive 10 1, arrive 13 2]).keys = [11, 12] ∧
    JumpHandled (Trace.run step (create 0) [arrive 10 1, arrive 13 2]) (.media 1013 0)
      (fun _ => 3) 999 ∧
    11 ∉ (step (Trace.run step (create 0) [arrive 10 1, arrive 13 2])
      (.receive (.media 1013 0) fun _ => 3)).1.keys := by
  have htime : Timely ([(10, 1), (13, 2), (1013, 3)].map fun x => arrive x.1 x.2) :=
    timely_arrivals (by simp) (by decide)
  have hkeys : (Trace.run step (create 0) [arrive 10 1, arrive 13 2]).keys = [11, 12] := by
    decide
  have hbehind : behind (RtpPacket.media 1013 0).getSequenceNumber
      ((Trace.run step (create 0) [arrive 10 1, arrive 13 2]).lastSeq + 1) = 999 := by decide
  have hclock : Steady ([arrive 10 1, arrive 13 2] ++
      [.receive (.media 1013 0) fun _ => 3]) := htime.steady
  have hnewer : isSeqHigherThan (RtpPacket.media 1013 0).getSequenceNumber
      (Trace.run step (create 0) [arrive 10 1, arrive 13 2]).lastSeq = true := by decide
  have hstarted : (Trace.run step (create 0) [arrive 10 1, arrive 13 2]).started = true := by
    decide
  have hjump := newest_gap_kept 0 [arrive 10 1, arrive 13 2] (.media 1013 0) (fun _ => 3)
    hclock hstarted hnewer
  rw [hbehind] at hjump
  obtain ⟨⟨older, holder, hafter⟩, -⟩ := hjump.short (by omega)
  have hlast : (Trace.run step (create 0) [arrive 10 1, arrive 13 2]).lastSeq = 13 := by decide
  rw [hkeys] at holder
  rw [hlast] at hafter
  refine ⟨hkeys, hjump, fun hmem => ?_⟩
  -- the list holds 1000, so that one of the two at most is left
  have hbounded := (inv_step _ (.receive (.media 1013 0) fun _ => 3)
    (inv_run 0 [arrive 10 1, arrive 13 2])).bounded
  have hlength := congrArg List.length hafter
  rw [keys, List.length_map, List.length_append, skippedNumbers, List.length_map,
    List.length_range] at hlength
  rcases List.mem_append.mp (hafter ▸ hmem) with hold | hnew
  · obtain ⟨x, rfl⟩ := List.length_eq_one_iff.mp
      (Nat.le_antisymm (by omega) (List.length_pos_of_mem hold))
    rw [← List.mem_singleton.mp hold] at holder
    exact absurd holder (by decide)
  · obtain ⟨i, hi, heq⟩ := List.mem_map.mp hnew
    have := List.mem_range.mp hi
    have := congrArg UInt16.toNat heq
    simp only [UInt16.toNat_add, UInt16.toNat_ofNat', UInt16.reduceToNat] at this
    omega

end Bifrost.Rtc.NackGenerator
