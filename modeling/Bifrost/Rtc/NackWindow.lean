/-
  The NACK list as a window behind `last_seq_`.

  `SeqLowerThan` is not transitive on all of `uint16_t`. On numbers at most half the circle
  behind a common one it is the order of the distances (`seqLt_iff_behind`), and the keys of
  `nack_list_` stay at most 10000 behind `last_seq_`. Everything the map needs follows from
  that, and the bound follows from what one call can do to the list:

  * `step_cases`: all the ways one call changes the generator.
  * `inv_step`: the invariant `Inv` of one call, and `inv_run` of a whole run.
  * `missing_run`: a key was skipped over by some packet and not received since.
  * `nack_list_invariant`: the three together, for every run.
-/
import Bifrost.Rtc.NackGenerator

namespace Bifrost.Rtc.NackGenerator

open SeqManager

/-! ## The comparator behind a number -/

/-- How far `k` is behind `last`. -/
def behind (last k : UInt16) : Nat := (last - k).toNat

theorem seqLt_iff_behind {last a b : UInt16} (ha : 1 ≤ behind last a) (ha' : behind last a ≤ 32768)
    (hb : 1 ≤ behind last b) (hb' : behind last b ≤ 32768) :
    seqLt a b = true ↔ behind last b < behind last a := by
  simp only [behind, toNat_sub16] at *
  rw [seqLt, isSeqLowerThan16_iff_lt]
  exact Serial.lt_iff_of_behind last.toNat_lt a.toNat_lt b.toNat_lt ha ha' hb hb'

theorem eq_of_behind_eq {last a b : UInt16} (h : behind last a = behind last b) : a = b := by
  have := a.toNat_lt
  have := b.toNat_lt
  have := last.toNat_lt
  unfold behind at h
  rw [← UInt16.toNat_inj]
  simp only [UInt16.toNat_sub] at h
  omega

theorem behind_succ {seqEnd seq : UInt16} {n : Nat} (h : behind seqEnd seq = n + 1) :
    behind seqEnd (seq + 1) = n := by
  have := seq.toNat_lt
  have := seqEnd.toNat_lt
  unfold behind at *
  simp only [UInt16.toNat_sub, UInt16.toNat_add, UInt16.reduceToNat] at *
  omega

/-- Behind a newer number `seq`, the numbers between `last` and `seq` come on top. -/
theorem behind_newer {last seq k : UInt16} (hnewer : isSeqHigherThan seq last = true)
    (hk : behind last k + behind seq (last + 1) < 65535) :
    behind seq k = behind last k + behind seq (last + 1) + 1 := by
  have hahead := ((isSeqHigherThan16_iff _ _).mp hnewer).1
  have := last.toNat_lt
  have := seq.toNat_lt
  have := k.toNat_lt
  unfold behind at *
  simp only [UInt16.toNat_sub, UInt16.toNat_add, UInt16.reduceToNat] at *
  omega

/-- A number of the window is not newer than the last one. -/
theorem not_newer_of_window {last k : UInt16} (h : 1 ≤ behind last k ∧ behind last k ≤ 10000) :
    ¬ isSeqHigherThan k last = true := by
  have := last.toNat_lt
  have := k.toNat_lt
  unfold behind at h
  rw [isSeqHigherThan16_iff]
  simp only [UInt16.toNat_sub] at *
  omega

/-- At most half the circle behind `last`, and not `last` itself. -/
def HalfBehind (last k : UInt16) : Prop := 1 ≤ behind last k ∧ behind last k ≤ 32768

/-- Behind a common number the comparator is a strict total order, farthest first. -/
theorem strictTotalOn_behind (last : UInt16) :
    OrderedMap.StrictTotalOn seqLt (HalfBehind last) where
  irrefl a _ := isSeqLowerThan_irrefl a
  trans a b c ha hb hc hab hbc := by
    rw [seqLt_iff_behind ha.1 ha.2 hb.1 hb.2] at hab
    rw [seqLt_iff_behind hb.1 hb.2 hc.1 hc.2] at hbc
    rw [seqLt_iff_behind ha.1 ha.2 hc.1 hc.2]
    omega
  total a b ha hb := by
    rw [seqLt_iff_behind ha.1 ha.2 hb.1 hb.2, seqLt_iff_behind hb.1 hb.2 ha.1 ha.2]
    rcases Nat.lt_trichotomy (behind last a) (behind last b) with h | h | h
    · exact Or.inr (Or.inr h)
    · exact Or.inr (Or.inl (eq_of_behind_eq h))
    · exact Or.inl h

/-! ## What the helpers do to the list -/

theorem removeNackItemsUntilKeyFrame_suffix (keyFrameList : List (UInt16 × Unit)) :
    ∀ nackList, (removeNackItemsUntilKeyFrame nackList keyFrameList).2.1 <:+ nackList := by
  induction keyFrameList with
  | nil => intro nackList; exact List.suffix_refl _
  | cons keyFrame keyFrameList ih =>
      intro nackList
      simp only [removeNackItemsUntilKeyFrame]
      split
      · exact OrderedMap.lowerBound_suffix _ _ _
      · exact ih nackList

theorem removeUntilFits_suffix (n : UInt16) (fuel : Nat) : ∀ nackList keyFrameList,
    (removeUntilFits n fuel nackList keyFrameList).1 <:+ nackList := by
  induction fuel with
  | zero => intro nackList _; exact List.suffix_refl _
  | succ fuel ih =>
      intro nackList keyFrameList
      have h := removeNackItemsUntilKeyFrame_suffix keyFrameList nackList
      simp only [removeUntilFits]
      split
      · exact (ih _ _).trans h
      · exact h

/-- A round that removed items has made the list shorter. -/
theorem removeNackItemsUntilKeyFrame_lt (keyFrameList : List (UInt16 × Unit)) :
    ∀ nackList, (removeNackItemsUntilKeyFrame nackList keyFrameList).1 = true →
      (removeNackItemsUntilKeyFrame nackList keyFrameList).2.1.length < nackList.length := by
  induction keyFrameList with
  | nil => intro nackList h; cases h
  | cons keyFrame keyFrameList ih =>
      intro nackList h
      simp only [removeNackItemsUntilKeyFrame] at h ⊢
      split at h
      · next hne =>
          rw [if_pos hne]
          have := (OrderedMap.lowerBound_sublist seqLt keyFrame.1 nackList).length_le
          simp only
          omega
      · next heq =>
          rw [if_neg heq]
          exact ih nackList h

/-- The fuel of `removeUntilFits` is enough: more rounds change nothing. -/
theorem removeUntilFits_fuel (n : UInt16) (fuel : Nat) : ∀ nackList keyFrameList,
    nackList.length < fuel →
    removeUntilFits n (fuel + 1) nackList keyFrameList =
      removeUntilFits n fuel nackList keyFrameList := by
  induction fuel with
  | zero => intro _ _ h; omega
  | succ fuel ih =>
      intro nackList keyFrameList hlen
      rw [removeUntilFits]
      conv => rhs; rw [removeUntilFits]
      have hlt := removeNackItemsUntilKeyFrame_lt keyFrameList nackList
      generalize removeNackItemsUntilKeyFrame nackList keyFrameList = r at hlt ⊢
      obtain ⟨removed, nackList', ks'⟩ := r
      simp only at hlt ⊢
      by_cases hgo : (removed && tooMany nackList' n) = true
      · rw [if_pos hgo, if_pos hgo]
        have := hlt (Bool.and_eq_true_iff.mp hgo).1
        exact ih nackList' ks' (by omega)
      · rw [if_neg hgo, if_neg hgo]

/-- The entries a jump adds: `n` numbers from `seq` on, each with its reading of the clock. -/
def newEntries (clock : Clock) : Nat → UInt16 → List (UInt16 × NackInfo)
  | 0, _ => []
  | n + 1, seq =>
    (seq, newInfo (clock 0) seq) :: newEntries (clock.from 1) n (seq + 1)

theorem length_newEntries (n : Nat) : ∀ clock seq, (newEntries clock n seq).length = n := by
  induction n with
  | zero => intro _ _; rfl
  | succ n ih => intro clock seq; rw [newEntries, List.length_cons, ih]

/-- The `i`th new entry. -/
theorem mem_newEntries_iff (n : Nat) : ∀ (clock : Clock) (seq : UInt16) (e : UInt16 × NackInfo),
    e ∈ newEntries clock n seq ↔
      ∃ i, i < n ∧ e = (seq + UInt16.ofNat i, newInfo (clock i) (seq + UInt16.ofNat i)) := by
  induction n with
  | zero => intro _ _ e; simp [newEntries]
  | succ n ih =>
      intro clock seq e
      have hshift : ∀ i, seq + 1 + UInt16.ofNat i = seq + UInt16.ofNat (i + 1) := by
        intro i
        rw [← UInt16.toNat_inj]
        simp only [UInt16.toNat_add, UInt16.toNat_ofNat', UInt16.reduceToNat]
        omega
      rw [newEntries, List.mem_cons, ih]
      constructor
      · rintro (rfl | ⟨i, hi, rfl⟩)
        · exact ⟨0, by omega, by simp⟩
        · refine ⟨i + 1, by omega, ?_⟩
          rw [hshift, Clock.from_apply, Nat.add_comm 1 i]
      · rintro ⟨i, hi, rfl⟩
        cases i with
        | zero => left; simp
        | succ i =>
            right
            refine ⟨i, by omega, ?_⟩
            rw [hshift, Clock.from_apply, Nat.add_comm 1 i]

/-- The insertion loop puts the new numbers behind keys that are all older. -/
theorem addMissing_eq (seqEnd : UInt16) (n : Nat) :
    ∀ (clock : Clock) (seq : UInt16) (m : List (UInt16 × NackInfo)),
      behind seqEnd seq = n → n ≤ 32768 →
      (∀ e ∈ m, n < behind seqEnd e.1 ∧ behind seqEnd e.1 ≤ 32768) →
      addMissing [] clock n seq m = m ++ newEntries clock n seq := by
  induction n with
  | zero => intro _ _ m _ _ _; simp [addMissing, newEntries]
  | succ n ih =>
      intro clock seq m hseq hn hm
      have habove : ∀ e ∈ m, seqLt e.1 seq = true := by
        intro e he
        obtain ⟨h1, h2⟩ := hm e he
        rw [@seqLt_iff_behind seqEnd _ _ (by omega) h2 (by omega) (by omega)]
        omega
      have hfind : OrderedMap.find? seqLt seq ([] : List (UInt16 × Unit)) = none := rfl
      rw [addMissing, hfind, if_neg (by simp), OrderedMap.emplace_of_above habove,
        ih _ _ _ (behind_succ hseq) (by omega), newEntries, List.append_assoc]
      · rfl
      · intro e he
        rcases List.mem_append.mp he with he | he
        · have := hm e he
          omega
        · rw [List.mem_singleton.mp he, hseq]
          omega

/-- The new entries lie right behind the packet that skipped them, the oldest first. -/
theorem newEntries_behind (seqEnd : UInt16) (n : Nat) :
    ∀ (clock : Clock) (seq : UInt16), behind seqEnd seq = n → n ≤ 32768 →
      (∀ e ∈ newEntries clock n seq, 1 ≤ behind seqEnd e.1 ∧ behind seqEnd e.1 ≤ n) ∧
      OrderedMap.Sorted seqLt (newEntries clock n seq) := by
  induction n with
  | zero => intro _ _ _ _; exact ⟨fun e he => (by cases he), List.Pairwise.nil⟩
  | succ n ih =>
      intro clock seq hseq hn
      obtain ⟨hrest, hsorted⟩ := ih (clock.from 1) (seq + 1) (behind_succ hseq) (by omega)
      refine ⟨fun e he => ?_, List.pairwise_cons.mpr ⟨fun e he => ?_, hsorted⟩⟩
      · rcases List.mem_cons.mp he with rfl | he
        · exact ⟨by simp only; omega, by simp only; omega⟩
        · have := hrest e he
          omega
      · have := hrest e he
        rw [@seqLt_iff_behind seqEnd _ _ (by simp only; omega) (by simp only; omega)
          (by omega) (by omega)]
        simp only
        omega

/-! ## The batch -/

theorem batchLoop_keys (g : NackGenerator) (filter : NackFilter) (nowMs : UInt64)
    (items : List (UInt16 × NackInfo)) :
    ((g.batchLoop filter nowMs items).2.map Prod.fst).Sublist (items.map Prod.fst) := by
  induction items with
  | nil => exact List.Sublist.refl _
  | cons item items ih =>
      obtain ⟨key, info⟩ := item
      simp only [batchLoop]
      split
      · split
        · exact ih.cons key
        · exact ih.cons_cons key
      · exact ih.cons_cons key

/-- An entry after the batch is one from before, sent once more when it was due. -/
theorem mem_batchLoop {g : NackGenerator} {filter : NackFilter} {nowMs : UInt64}
    {items : List (UInt16 × NackInfo)} {e : UInt16 × NackInfo}
    (he : e ∈ (g.batchLoop filter nowMs items).2) :
    ∃ info, (e.1, info) ∈ items ∧
      (g.isDue filter nowMs info = false ∧ e.2 = info ∨
        g.isDue filter nowMs info = true ∧ e.2 = markSent nowMs info ∧
          ¬ (markSent nowMs info).retries ≥ kMaxNackRetries) := by
  induction items with
  | nil => cases he
  | cons item items ih =>
      obtain ⟨key, info⟩ := item
      -- either it is what became of the first entry, or it stands further on
      have hsplit : e ∈ (g.batchLoop filter nowMs items).2 ∨ e.1 = key ∧
          (g.isDue filter nowMs info = false ∧ e.2 = info ∨
            g.isDue filter nowMs info = true ∧ e.2 = markSent nowMs info ∧
              ¬ (markSent nowMs info).retries ≥ kMaxNackRetries) := by
        simp only [batchLoop] at he
        split at he
        · next hdue =>
            split at he
            · exact Or.inl he
            · next hmax =>
                rcases List.mem_cons.mp he with rfl | he
                · exact Or.inr ⟨rfl, Or.inr ⟨hdue, rfl, hmax⟩⟩
                · exact Or.inl he
        · next hdue =>
            rcases List.mem_cons.mp he with rfl | he
            · exact Or.inr ⟨rfl, Or.inl ⟨by simpa using hdue, rfl⟩⟩
            · exact Or.inl he
      rcases hsplit with he | ⟨hkey, h⟩
      · obtain ⟨info', hmem, h⟩ := ih he
        exact ⟨info', List.mem_cons_of_mem _ hmem, h⟩
      · exact ⟨info, by rw [hkey]; exact List.mem_cons_self, h⟩

/-- The batch is made of the entries that are due. -/
theorem mem_batch_iff (g : NackGenerator) (filter : NackFilter) (nowMs : UInt64)
    (items : List (UInt16 × NackInfo)) (k : UInt16) :
    k ∈ (g.batchLoop filter nowMs items).1 ↔
      ∃ e ∈ items, g.isDue filter nowMs e.2 = true ∧ e.2.seq = k := by
  induction items with
  | nil => simp [batchLoop]
  | cons item items ih =>
      obtain ⟨key, info⟩ := item
      simp only [batchLoop, List.mem_cons, or_and_right, exists_or, exists_eq_left]
      cases hdue : g.isDue filter nowMs info with
      | false => simp only [Bool.false_eq_true, if_false, ih, false_and, false_or]
      | true =>
          simp only [if_true, true_and, ← ih]
          split <;> simp only [List.mem_cons, @eq_comm _ k]

/-! ## The invariant -/

structure Inv (g : NackGenerator) : Prop where
  sorted : OrderedMap.Sorted seqLt g.nackList
  bounded : g.nackList.length ≤ 1000
  window : ∀ e ∈ g.nackList, 1 ≤ behind g.lastSeq e.1 ∧ behind g.lastSeq e.1 ≤ 10000
  seqs : ∀ e ∈ g.nackList, e.2.seq = e.1
  idle : g.started = false → g.nackList = []
  recovered : g.recoveredList = []

/-- The keys of `nack_list_`, in its order. -/
def keys (g : NackGenerator) : List UInt16 := g.nackList.map Prod.fst

theorem mem_keys_iff {g : NackGenerator} {k : UInt16} :
    k ∈ g.keys ↔ ∃ info, (k, info) ∈ g.nackList := by
  simp [keys]

theorem inv_create (sendNackDelayMs : UInt32) : Inv (create sendNackDelayMs) where
  sorted := List.Pairwise.nil
  bounded := Nat.zero_le _
  window := by simp [create]
  seqs := by simp [create]
  idle _ := rfl
  recovered := rfl

theorem Inv.window_keys {g : NackGenerator} (h : Inv g) {k : UInt16} (hk : k ∈ g.keys) :
    1 ≤ behind g.lastSeq k ∧ behind g.lastSeq k ≤ 10000 := by
  obtain ⟨info, hmem⟩ := mem_keys_iff.mp hk
  exact h.window (k, info) hmem

theorem Inv.halfBehind {g : NackGenerator} (h : Inv g) :
    ∀ e ∈ g.nackList, HalfBehind g.lastSeq e.1 := fun e he =>
  ⟨(h.window e he).1, (h.window e he).2.trans (by decide)⟩

/-- A smaller list with the same keys, each entry with its number, keeps the invariant. -/
theorem Inv.of_keys_sublist {g : NackGenerator} (h : Inv g) {m : List (UInt16 × NackInfo)}
    (hsub : (m.map Prod.fst).Sublist g.keys) (hseq : ∀ e ∈ m, e.2.seq = e.1) :
    Inv { g with nackList := m } where
  sorted := by
    have hs : (g.nackList.map Prod.fst).Pairwise (fun a b => seqLt a b = true) :=
      List.pairwise_map.mpr h.sorted
    exact List.pairwise_map.mp (hs.sublist hsub)
  bounded := by
    have := hsub.length_le
    have hb := h.bounded
    simp only [keys, List.length_map] at this
    simp only
    omega
  window e he := by
    obtain ⟨e', he', heq⟩ := List.mem_map.mp (hsub.mem (List.mem_map_of_mem he))
    rw [← heq]
    exact h.window e' he'
  seqs := hseq
  idle hs := by
    have hnil : g.keys = [] := by rw [keys, h.idle hs]; rfl
    rw [hnil] at hsub
    simpa using hsub
  recovered := h.recovered

theorem inv_sendNackBatch {g : NackGenerator} (h : Inv g) (filter : NackFilter)
    (nowMs : UInt64) : Inv (g.sendNackBatch filter nowMs).1 := by
  refine h.of_keys_sublist (batchLoop_keys g filter nowMs g.nackList) fun e he => ?_
  obtain ⟨info, hmem, ⟨-, heq⟩ | ⟨-, heq, -⟩⟩ := mem_batchLoop he
  · rw [heq]
    exact h.seqs _ hmem
  · rw [heq]
    exact h.seqs _ hmem

/-! ## All that one call does -/

/-- How a call changes a generator that satisfies the invariant, and what it lets out. -/
inductive StepCase (g : NackGenerator) : Event → NackGenerator × List NackOutput → Prop where
  | first (p : RtpPacket) (clock : Clock) (keyFrames : List (UInt16 × Unit))
      (stopped : g.started = false) :
      StepCase g (.receive p clock)
        ({ g with
           started := true, lastSeq := p.getSequenceNumber, keyFrameList := keyFrames }, [])
  | ignored (p : RtpPacket) (clock : Clock) (started : g.started = true)
      (known : p.getSequenceNumber = g.lastSeq ∨
        isSeqLowerThan p.getSequenceNumber g.lastSeq = true ∧ p.getSequenceNumber ∉ g.keys) :
      StepCase g (.receive p clock) (g, [])
  | received (p : RtpPacket) (clock : Clock) (started : g.started = true)
      (older : isSeqLowerThan p.getSequenceNumber g.lastSeq = true)
      (listed : p.getSequenceNumber ∈ g.keys) :
      StepCase g (.receive p clock)
        ({ g with nackList := OrderedMap.erase seqLt p.getSequenceNumber g.nackList }, [])
  | overflow (p : RtpPacket) (clock : Clock) (keyFrames : List (UInt16 × Unit))
      (started : g.started = true)
      (newer : isSeqHigherThan p.getSequenceNumber g.lastSeq = true) :
      StepCase g (.receive p clock)
        ({ g with
           nackList := [], lastSeq := p.getSequenceNumber, keyFrameList := keyFrames },
          [.keyFrameRequired])
  | skipped (p : RtpPacket) (clock : Clock) (keyFrames : List (UInt16 × Unit))
      (kept : List (UInt16 × NackInfo)) (n : Nat) (started : g.started = true)
      (newer : isSeqHigherThan p.getSequenceNumber g.lastSeq = true)
      (count : behind p.getSequenceNumber (g.lastSeq + 1) = n)
      (suffix : kept <:+ g.nackList) (fits : kept.length + n ≤ 1000)
      (age : ∀ e ∈ kept, behind p.getSequenceNumber e.1 ≤ 10000) :
      StepCase g (.receive p clock)
        (sendNackBatch { g with
          nackList := kept ++ newEntries clock n (g.lastSeq + 1)
          lastSeq := p.getSequenceNumber
          keyFrameList := keyFrames } .seq (clock 65536))
  | timer (clock : Clock) : StepCase g (.timer clock) (g.sendNackBatch .time (clock 0))
  | updateRtt (rtt : UInt32) : StepCase g (.updateRtt rtt) ({ g with rtt := rtt }, [])
  | reset : StepCase g .reset (g.reset, [])

theorem ofNat_length {m : List (UInt16 × NackInfo)} (h : m.length ≤ 1000) :
    (UInt16.ofNat m.length).toNat = m.length := by
  rw [UInt16.toNat_ofNat']
  omega

/-- What `AddPacketsToNackList` leaves of the list before it adds the numbers: an end piece of
    the young ones. -/
theorem addPacketsToNackList_eq (g : NackGenerator) (seqStart seqEnd : UInt16) (clock : Clock) :
    ∃ kept keyFrames, kept <:+ OrderedMap.lowerBound seqLt (seqEnd - kMaxPacketAge) g.nackList ∧
      g.addPacketsToNackList seqStart seqEnd clock =
        if tooMany kept (seqEnd - seqStart) then
          ({ g with nackList := [], keyFrameList := keyFrames }, [.keyFrameRequired])
        else
          ({ g with
             nackList := addMissing g.recoveredList clock (seqEnd - seqStart).toNat seqStart kept
             keyFrameList := keyFrames }, []) := by
  unfold addPacketsToNackList
  dsimp only
  split
  · exact ⟨_, _, removeUntilFits_suffix _ _ _ _, rfl⟩
  · next hfits => exact ⟨_, g.keyFrameList, List.suffix_refl _, by rw [if_neg hfits]⟩

/-- `AddPacketsToNackList`: the list is cleared, or the numbers in between are added to an
    end piece of it that is young enough. -/
theorem addPacketsToNackList_cases {g : NackGenerator} (h : Inv g) {seq : UInt16}
    (hnewer : isSeqHigherThan seq g.lastSeq = true) (clock : Clock) :
    (∃ keyFrames, g.addPacketsToNackList (g.lastSeq + 1) seq clock =
      ({ g with nackList := [], keyFrameList := keyFrames }, [.keyFrameRequired])) ∨
    ∃ keyFrames kept, kept <:+ g.nackList ∧ (∀ e ∈ kept, behind seq e.1 ≤ 10000) ∧
      kept.length + behind seq (g.lastSeq + 1) ≤ 1000 ∧
      g.addPacketsToNackList (g.lastSeq + 1) seq clock =
        ({ g with
           nackList := kept ++ newEntries clock (behind seq (g.lastSeq + 1)) (g.lastSeq + 1)
           keyFrameList := keyFrames }, []) := by
  obtain ⟨kept, keyFrames, hkept, heq⟩ := g.addPacketsToNackList_eq (g.lastSeq + 1) seq clock
  rw [heq]
  have hsuf : kept <:+ g.nackList := hkept.trans (OrderedMap.lowerBound_suffix _ _ _)
  split
  · exact Or.inl ⟨keyFrames, rfl⟩
  · next hfits =>
      have hlen : kept.length ≤ 1000 := hsuf.length_le.trans h.bounded
      have hsum : kept.length + behind seq (g.lastSeq + 1) ≤ 1000 := by
        simp only [tooMany, kMaxNackPackets, ofNat_length hlen, decide_eq_true_eq] at hfits
        unfold behind
        omega
      have hbehind : ∀ e ∈ g.nackList, behind seq e.1 =
          behind g.lastSeq e.1 + behind seq (g.lastSeq + 1) + 1 := by
        intro e he
        have hw := h.window e he
        exact behind_newer hnewer (by omega)
      have hhalf : ∀ e ∈ g.nackList, HalfBehind seq e.1 := by
        intro e he
        have := h.window e he
        have := hbehind e he
        unfold HalfBehind
        omega
      have hprobe : behind seq (seq - kMaxPacketAge) = 10000 := by
        have := seq.toNat_lt
        unfold behind
        simp only [UInt16.toNat_sub, show kMaxPacketAge.toNat = 10000 from rfl]
        omega
      have hage : ∀ e ∈ kept, behind seq e.1 ≤ 10000 := by
        intro e he
        have hnot := OrderedMap.mem_lowerBound_not_lt (strictTotalOn_behind seq) hhalf
          (show HalfBehind seq (seq - kMaxPacketAge) from ⟨by omega, by omega⟩) h.sorted
          (hkept.mem he)
        have he' := hhalf e (hsuf.mem he)
        rw [← Bool.not_eq_true, seqLt_iff_behind he'.1 he'.2 (by omega) (by omega), hprobe] at hnot
        omega
      refine Or.inr ⟨keyFrames, kept, hsuf, hage, hsum, ?_⟩
      rw [h.recovered, show (seq - (g.lastSeq + 1)).toNat = behind seq (g.lastSeq + 1) from rfl,
        addMissing_eq seq _ clock (g.lastSeq + 1) kept rfl (by omega)]
      intro e he
      have := hbehind e (hsuf.mem he)
      have := hhalf e (hsuf.mem he)
      unfold HalfBehind at this
      have := h.window e (hsuf.mem he)
      omega

/-- An older number is in the domain of the comparator with all keys. -/
theorem halfBehind_of_lower {a b : UInt16} (h : isSeqLowerThan a b = true) : HalfBehind b a := by
  rw [isSeqLowerThan16_iff] at h
  unfold HalfBehind behind
  omega

theorem find?_of_mem {g : NackGenerator} (h : Inv g) {k : UInt16}
    (hlow : isSeqLowerThan k g.lastSeq = true) :
    (OrderedMap.find? seqLt k g.nackList = none ↔ k ∉ g.keys) := by
  rw [OrderedMap.find?_none_iff (strictTotalOn_behind g.lastSeq) h.halfBehind
    (halfBehind_of_lower hlow) h.sorted]
  simp only [keys, List.mem_map, not_exists, not_and]

theorem step_cases {g : NackGenerator} (h : Inv g) (e : Event) : StepCase g e (step g e) := by
  cases e with
  | timer clock => exact .timer clock
  | updateRtt rtt => exact .updateRtt rtt
  | reset => exact .reset
  | receive p clock =>
      unfold step receivePacket
      dsimp only
      rcases Bool.eq_false_or_eq_true g.started with hst | hst
      · rw [if_neg (by simp [hst])]
        by_cases hsame : p.getSequenceNumber = g.lastSeq
        · rw [if_pos hsame]
          exact .ignored p clock hst (Or.inl hsame)
        rw [if_neg hsame]
        by_cases hlow : isSeqLowerThan p.getSequenceNumber g.lastSeq = true
        · rw [if_pos hlow]
          cases hf : OrderedMap.find? seqLt p.getSequenceNumber g.nackList with
          | none => exact .ignored p clock hst (Or.inr ⟨hlow, (find?_of_mem h hlow).mp hf⟩)
          | some e =>
              apply StepCase.received p clock hst hlow
              by_contra hnot
              rw [(find?_of_mem h hlow).mpr hnot] at hf
              cases hf
        rw [if_neg hlow]
        have hnewer := isSeqHigherThan_of_not hsame hlow
        simp only [receiveNewer, Bool.false_eq_true, if_false]
        generalize OrderedMap.lowerBound seqLt _ _ = frames
        have hinv : Inv { g with keyFrameList := frames } :=
          ⟨h.sorted, h.bounded, h.window, h.seqs, h.idle, h.recovered⟩
        rcases addPacketsToNackList_cases hinv hnewer clock with
          ⟨keyFrames, hadd⟩ | ⟨keyFrames, kept, hsuf, hage, hsum, hadd⟩
        · simp only at hadd
          rw [hadd]
          exact .overflow p clock keyFrames hst hnewer
        · simp only at hadd
          rw [hadd]
          exact .skipped p clock keyFrames kept _ hst hnewer rfl hsuf hsum hage
      · rw [if_pos (by simp [hst])]
        exact .first p clock _ hst

/-! ## The invariant of a run -/

theorem inv_skipped {g : NackGenerator} (h : Inv g) {seq : UInt16} (clock : Clock)
    (keyFrames : List (UInt16 × Unit)) {kept : List (UInt16 × NackInfo)} {n : Nat}
    (hstarted : g.started = true) (hnewer : isSeqHigherThan seq g.lastSeq = true)
    (hcount : behind seq (g.lastSeq + 1) = n) (hsuf : kept <:+ g.nackList)
    (hfits : kept.length + n ≤ 1000) (hage : ∀ e ∈ kept, behind seq e.1 ≤ 10000) :
    Inv { g with
      nackList := kept ++ newEntries clock n (g.lastSeq + 1)
      lastSeq := seq
      keyFrameList := keyFrames } := by
  obtain ⟨hnew, hnewSorted⟩ := newEntries_behind seq n clock (g.lastSeq + 1) hcount (by omega)
  -- the kept entries are farther behind than the new ones
  have hold : ∀ e ∈ kept, n < behind seq e.1 := by
    intro e he
    have hw := h.window e (hsuf.mem he)
    have := behind_newer hnewer (k := e.1) (by omega)
    omega
  refine ⟨?_, ?_, fun e he => ?_, fun e he => ?_, fun hs => ?_, h.recovered⟩
  · refine List.pairwise_append.mpr ⟨h.sorted.sublist hsuf.sublist, hnewSorted, ?_⟩
    intro a ha b hb
    have h1 := hold a ha
    have h2 := hage a ha
    have h3 := hnew b hb
    rw [@seqLt_iff_behind seq _ _ (by omega) (by omega) h3.1 (by omega)]
    omega
  · simp only [List.length_append, length_newEntries]
    exact hfits
  · rcases List.mem_append.mp he with he | he
    · have := hold e he
      exact ⟨by simp only; omega, hage e he⟩
    · have := hnew e he
      exact ⟨this.1, by simp only; omega⟩
  · rcases List.mem_append.mp he with he | he
    · exact h.seqs e (hsuf.mem he)
    · obtain ⟨i, -, rfl⟩ := (mem_newEntries_iff n clock _ e).mp he
      rfl
  · rw [hstarted] at hs
    cases hs

theorem inv_step (g : NackGenerator) (e : Event) (h : Inv g) : Inv (step g e).1 := by
  have hc := step_cases h e
  generalize step g e = r at hc
  cases hc with
  | first p clock keyFrames hst =>
      have hnil := h.idle hst
      exact ⟨h.sorted, h.bounded, by simp [hnil], h.seqs, fun _ => hnil, h.recovered⟩
  | ignored => exact h
  | received p clock _ _ _ =>
      have hsub := OrderedMap.erase_sublist seqLt p.getSequenceNumber g.nackList
      exact h.of_keys_sublist (hsub.map Prod.fst) fun e he => h.seqs e (hsub.mem he)
  | overflow =>
      exact ⟨List.Pairwise.nil, Nat.zero_le _, by simp, by simp, fun _ => rfl, h.recovered⟩
  | skipped p clock keyFrames kept n hst hnewer hcount hsuf hfits hage =>
      exact inv_sendNackBatch
        (inv_skipped h clock keyFrames hst hnewer hcount hsuf hfits hage) _ _
  | timer => exact inv_sendNackBatch h _ _
  | updateRtt => exact ⟨h.sorted, h.bounded, h.window, h.seqs, h.idle, h.recovered⟩
  | reset =>
      exact ⟨List.Pairwise.nil, Nat.zero_le _, by simp [reset], by simp [reset], fun _ => rfl, rfl⟩

theorem inv_run (sendNackDelayMs : UInt32) (events : List Event) :
    Inv (Trace.run step (create sendNackDelayMs) events) :=
  Trace.run_invariant inv_step (inv_create sendNackDelayMs) events

/-! ## Skipped and not received since -/

/-- Packet `p` jumps over number `k`. -/
def SkippedBy (g : NackGenerator) (p : RtpPacket) (k : UInt16) : Prop :=
  g.started = true ∧ isSeqHigherThan p.getSequenceNumber g.lastSeq = true ∧
    0 < behind k g.lastSeq ∧ behind k g.lastSeq < behind p.getSequenceNumber g.lastSeq

/-- The numbers a jump adds are those it skips: the `i`th lies `i + 1` ahead of the last. -/
theorem skippedBy_new {g : NackGenerator} {p : RtpPacket} {n i : Nat} (hst : g.started = true)
    (hnewer : isSeqHigherThan p.getSequenceNumber g.lastSeq = true)
    (hcount : behind p.getSequenceNumber (g.lastSeq + 1) = n) (hn : n ≤ 1000) (hi : i < n) :
    behind (g.lastSeq + 1 + UInt16.ofNat i) g.lastSeq = i + 1 ∧
      SkippedBy g p (g.lastSeq + 1 + UInt16.ofNat i) := by
  have hplace : behind (g.lastSeq + 1 + UInt16.ofNat i) g.lastSeq = i + 1 ∧
      i + 1 < behind p.getSequenceNumber g.lastSeq := by
    have hahead := ((isSeqHigherThan16_iff _ _).mp hnewer).1
    have := p.getSequenceNumber.toNat_lt
    have := g.lastSeq.toNat_lt
    unfold behind at *
    simp only [UInt16.toNat_sub, UInt16.toNat_add, UInt16.toNat_ofNat', UInt16.reduceToNat] at *
    omega
  exact ⟨hplace.1, hst, hnewer, by omega, by omega⟩

/-- The event is the arrival of number `k`. -/
def Event.Receives (k : UInt16) : Event → Prop
  | .receive p _ => p.getSequenceNumber = k
  | _ => False

/-- A key in the list was there before and not received now, or was skipped over now. -/
theorem mem_keys_step {g : NackGenerator} (h : Inv g) {e : Event} {k : UInt16}
    (hk : k ∈ (step g e).1.keys) :
    (k ∈ g.keys ∧ ¬ e.Receives k) ∨ ∃ p clock, e = .receive p clock ∧ SkippedBy g p k := by
  have hc := step_cases h e
  generalize step g e = r at hk hc
  cases hc with
  | first p clock keyFrames hst => simp [keys, h.idle hst] at hk
  | ignored p clock hst hknown =>
      refine Or.inl ⟨hk, ?_⟩
      rintro rfl
      rcases hknown with heq | ⟨-, hnot⟩
      · have := (h.window_keys hk).1
        rw [heq, behind, UInt16.sub_self] at this
        exact absurd this (by decide)
      · exact hnot hk
  | received p clock hst hlow hlisted =>
      obtain ⟨info, hmem⟩ := mem_keys_iff.mp hk
      rw [OrderedMap.mem_erase (strictTotalOn_behind g.lastSeq) h.halfBehind
        (halfBehind_of_lower hlow) h.sorted] at hmem
      exact Or.inl ⟨mem_keys_iff.mpr ⟨info, hmem.1⟩, fun heq => hmem.2 heq.symm⟩
  | overflow => cases hk
  | skipped p clock keyFrames kept n hst hnewer hcount hsuf hfits hage =>
      have hk := (batchLoop_keys _ _ _ _).mem hk
      simp only [List.map_append, List.mem_append] at hk
      rcases hk with hk | hk
      · have hkg : k ∈ g.keys := (hsuf.sublist.map Prod.fst).mem hk
        refine Or.inl ⟨hkg, ?_⟩
        rintro rfl
        exact not_newer_of_window (h.window_keys hkg) hnewer
      · obtain ⟨e, he, rfl⟩ := List.mem_map.mp hk
        obtain ⟨i, hi, rfl⟩ := (mem_newEntries_iff n clock _ e).mp he
        exact Or.inr ⟨p, clock, rfl, (skippedBy_new hst hnewer hcount (by omega) hi).2⟩
  | timer clock =>
      exact Or.inl ⟨(batchLoop_keys _ _ _ _).mem hk, fun h => h⟩
  | updateRtt => exact Or.inl ⟨hk, fun h => h⟩
  | reset => cases hk

/-- In the events, packet `p` skipped over `k`; since then `k` has not been received and has
    been on the list. -/
structure Missing (start : NackGenerator) (k : UInt16) (events pre : List Event)
    (p : RtpPacket) (clock : Clock) (post : List Event) : Prop where
  split : events = pre ++ .receive p clock :: post
  skipped : SkippedBy (Trace.run step start pre) p k
  absent : ∀ e ∈ post, ¬ e.Receives k
  listed : ∀ s t, post = s ++ t →
    k ∈ (Trace.run step start (pre ++ .receive p clock :: s)).keys

/-- A key that stays on the list stays missing. -/
theorem Missing.concat {start : NackGenerator} {k : UInt16} {events pre post : List Event}
    {p : RtpPacket} {clock : Clock} (h : Missing start k events pre p clock post) {e : Event}
    (hnot : ¬ e.Receives k) (hk : k ∈ (Trace.run step start (events ++ [e])).keys) :
    Missing start k (events ++ [e]) pre p clock (post ++ [e]) where
  split := by rw [h.split]; simp
  skipped := h.skipped
  absent e' he' := by
    rcases List.mem_append.mp he' with he' | he'
    · exact h.absent e' he'
    · rw [List.mem_singleton.mp he']
      exact hnot
  listed s t hst := by
    rcases List.eq_nil_or_concat t with rfl | ⟨t, x, rfl⟩
    · rw [List.append_nil] at hst
      rw [← hst, ← List.cons_append, ← List.append_assoc, ← h.split]
      exact hk
    · rw [List.concat_eq_append, ← List.append_assoc] at hst
      exact h.listed s t (List.append_inj' hst rfl).1

/-- Every key on the list is missing. -/
theorem missing_run (sendNackDelayMs : UInt32) (events : List Event) (k : UInt16)
    (hk : k ∈ (Trace.run step (create sendNackDelayMs) events).keys) :
    ∃ pre p clock post, Missing (create sendNackDelayMs) k events pre p clock post := by
  refine Trace.run_history (I := fun events _ (g : NackGenerator) => k ∈ g.keys →
    ∃ pre p clock post, Missing (create sendNackDelayMs) k events pre p clock post)
    (fun hk => by cases hk) ?_ hk
  intro events e _ _ ih hk
  have hk' : k ∈ (Trace.run step (create sendNackDelayMs) (events ++ [e])).keys := by
    rw [Trace.run_concat]
    exact hk
  rcases mem_keys_step (inv_run _ _) hk with ⟨hold, hnot⟩ | ⟨p, clock, rfl, hskip⟩
  · obtain ⟨pre, p, clock, post, hm⟩ := ih hold
    exact ⟨pre, p, clock, post ++ [e], hm.concat hnot hk'⟩
  · refine ⟨events, p, clock, [], rfl, hskip, by simp, fun s t hst => ?_⟩
    obtain ⟨rfl, rfl⟩ := List.append_eq_nil_iff.mp hst.symm
    exact hk'

/-- **The NACK list invariant**, in every state that calls lead to: at most 1000 entries,
    every key 1 to 10000 behind the last number, none received since it was skipped, and the
    comparator a strict total order on them, in which they stand oldest first. -/
theorem nack_list_invariant (sendNackDelayMs : UInt32) (events : List Event) :
    let g := Trace.run step (create sendNackDelayMs) events
    g.nackList.length ≤ 1000 ∧
    (∀ k ∈ g.keys, 1 ≤ behind g.lastSeq k ∧ behind g.lastSeq k ≤ 10000) ∧
    (∀ k ∈ g.keys, ∃ pre p clock post,
      Missing (create sendNackDelayMs) k events pre p clock post) ∧
    OrderedMap.StrictTotalOn seqLt (fun k => k ∈ g.keys) ∧
    g.keys.Pairwise (fun a b => seqLt a b = true ∧ behind g.lastSeq b < behind g.lastSeq a) := by
  intro g
  have h : Inv g := inv_run sendNackDelayMs events
  have hwin : ∀ k ∈ g.keys, 1 ≤ behind g.lastSeq k ∧ behind g.lastSeq k ≤ 10000 :=
    fun k hk => h.window_keys hk
  have hhalf : ∀ k ∈ g.keys, HalfBehind g.lastSeq k := fun k hk =>
    ⟨(hwin k hk).1, (hwin k hk).2.trans (by decide)⟩
  refine ⟨h.bounded, hwin, fun k hk => missing_run _ _ k hk,
    (strictTotalOn_behind g.lastSeq).mono hhalf, ?_⟩
  have hsorted : g.keys.Pairwise fun a b => seqLt a b = true := List.pairwise_map.mpr h.sorted
  refine hsorted.imp_of_mem fun {a b} ha hb hab => ⟨hab, ?_⟩
  exact (seqLt_iff_behind (hhalf a ha).1 (hhalf a ha).2 (hhalf b hb).1 (hhalf b hb).2).mp hab

end Bifrost.Rtc.NackGenerator
