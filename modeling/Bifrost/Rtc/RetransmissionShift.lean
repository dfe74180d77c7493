/-
  `RtpRetransmissionBuffer` and the wrap of the RTP timestamps.

  Adding the same `c` to every timestamp must not change what is stored where. The
  comparisons of the code are of two kinds. `isSeqHigherThan`, `isSeqLowerThan` and the
  difference in `IsTooOldTimestamp` go round the circle and do not see `c`, as long as all
  timestamps lie in one half of it. The branch that fills a gap compares with `>=` and
  `<=`; `GapTestKept` says that these come out alike with and without `c`.

  * `insert_shift_iff`: one insertion commutes with the shift exactly when the gap test is
    kept.
  * `shift_iff`: the same over whole runs.
-/
import Bifrost.Rtc.RetransmissionWindow

namespace Bifrost.Rtc

open SeqManager

/-- The same packet, `c` later. -/
def RtpPacket.shift (c : UInt32) (p : RtpPacket) : RtpPacket :=
  { p with header := { p.header with timestamp := p.header.timestamp + c } }

/-- The same item, `c` later. -/
def Item.shift (c : UInt32) (item : Item) : Item :=
  { item with rtpPacket := item.rtpPacket.map (RtpPacket.shift c), timestamp := item.timestamp + c }

@[simp] theorem RtpPacket.shift_getTimestamp (c : UInt32) (p : RtpPacket) :
    (p.shift c).getTimestamp = p.getTimestamp + c := rfl

@[simp] theorem RtpPacket.shift_getSequenceNumber (c : UInt32) (p : RtpPacket) :
    (p.shift c).getSequenceNumber = p.getSequenceNumber := rfl

@[simp] theorem Item.shift_timestamp (c : UInt32) (item : Item) :
    (item.shift c).timestamp = item.timestamp + c := rfl

@[simp] theorem Item.shift_sequenceNumber (c : UInt32) (item : Item) :
    (item.shift c).sequenceNumber = item.sequenceNumber := rfl

namespace RtpRetransmissionBuffer

open SparseWindow

/-- The same slots, `c` later. -/
def shiftSlots (c : UInt32) (slots : List (Option Item)) : List (Option Item) :=
  slots.map (Option.map (Item.shift c))

/-- The same buffer, all timestamps `c` later. -/
def shift (c : UInt32) (b : RtpRetransmissionBuffer) : RtpRetransmissionBuffer :=
  b.withSlots (shiftSlots c b.buffer)

@[simp] theorem shift_newItem (c : UInt32) (p : RtpPacket) :
    newItem (p.shift c) = (newItem p).shift c := rfl

@[simp] theorem shift_buffer (c : UInt32) (b : RtpRetransmissionBuffer) :
    (b.shift c).buffer = shiftSlots c b.buffer := rfl

@[simp] theorem shift_maxItems (c : UInt32) (b : RtpRetransmissionBuffer) :
    (b.shift c).maxItems = b.maxItems := rfl

theorem shift_withSlots (c : UInt32) (b : RtpRetransmissionBuffer)
    (slots : List (Option Item)) :
    (b.withSlots slots).shift c = b.withSlots (shiftSlots c slots) := rfl

@[simp] theorem length_shiftSlots (c : UInt32) (slots : List (Option Item)) :
    (shiftSlots c slots).length = slots.length := List.length_map _

@[simp] theorem shift_getOldest (c : UInt32) (b : RtpRetransmissionBuffer) :
    (b.shift c).getOldest = b.getOldest.map (Item.shift c) := by
  rw [getOldest, getOldest, shift_buffer, shiftSlots, List.head?_map]
  cases b.buffer.head? with
  | none => rfl
  | some slot => rfl

@[simp] theorem shift_getNewest (c : UInt32) (b : RtpRetransmissionBuffer) :
    (b.shift c).getNewest = b.getNewest.map (Item.shift c) := by
  rw [getNewest, getNewest, shift_buffer, shiftSlots, List.getLast?_map]
  cases b.buffer.getLast? with
  | none => rfl
  | some slot => rfl

/-! ## Timestamps in one half of the circle -/

/-- `t` is less than half the circle ahead of `w`. -/
def Near (w t : UInt32) : Prop := (t - w).toNat < 2 ^ 31

/-- Every stored timestamp is. -/
def StoredNear (w : UInt32) (slots : List (Option Item)) : Prop :=
  ∀ item, some item ∈ slots → Near w item.timestamp

theorem isSeqHigherThan_near {w s t : UInt32} (hs : Near w s) (ht : Near w t) :
    isSeqHigherThan s t = decide ((t - w).toNat < (s - w).toNat) := by
  have h1 := s.toNat_lt
  have h2 := t.toNat_lt
  have h3 := w.toNat_lt
  rw [Bool.eq_iff_iff, decide_eq_true_eq]
  simp only [Near, UInt32.toNat_sub] at *
  simp only [isSeqHigherThan, seqHigherThan, SeqType.toNat, SeqType.maxValue, Bool.or_eq_true,
    Bool.and_eq_true, decide_eq_true_eq]
  omega

theorem shift_sub_shift (s t c : UInt32) : (s + c) - (t + c) = s - t := by
  have := s.toNat_lt
  have := t.toNat_lt
  have := c.toNat_lt
  rw [← UInt32.toNat_inj]
  simp only [UInt32.toNat_sub, UInt32.toNat_add]
  omega

theorem Near.add {w t : UInt32} (h : Near w t) (c : UInt32) : Near (w + c) (t + c) := by
  unfold Near
  rwa [shift_sub_shift]

/-- The comparison that goes round the circle does not see the shift. -/
theorem isSeqHigherThan_shift {w s t : UInt32} (hs : Near w s) (ht : Near w t) (c : UInt32) :
    isSeqHigherThan (s + c) (t + c) = isSeqHigherThan s t := by
  rw [isSeqHigherThan_near hs ht, isSeqHigherThan_near (hs.add c) (ht.add c)]
  simp only [shift_sub_shift]

theorem newestTimestamp_shift {w : UInt32} {p : RtpPacket} {item : Item}
    (hp : Near w p.getTimestamp) (hi : Near w item.timestamp) (c : UInt32) :
    newestTimestamp (p.shift c) (item.shift c) = newestTimestamp p item + c := by
  unfold newestTimestamp
  rw [RtpPacket.shift_getTimestamp, Item.shift_timestamp, isSeqHigherThan_shift hp hi]
  split_ifs <;> rfl

theorem near_newestTimestamp {w : UInt32} {p : RtpPacket} {item : Item}
    (hp : Near w p.getTimestamp) (hi : Near w item.timestamp) :
    Near w (newestTimestamp p item) := by
  unfold newestTimestamp
  split_ifs
  · exact hp
  · exact hi

theorem isTooOldTimestamp_shift {w t n : UInt32} (ht : Near w t) (hn : Near w n) (c : UInt32)
    (b : RtpRetransmissionBuffer) :
    (b.shift c).isTooOldTimestamp (t + c) (n + c) = b.isTooOldTimestamp t n := by
  unfold isTooOldTimestamp
  rw [isSeqHigherThan_shift ht hn, shift_sub_shift]
  rfl

/-! ## Removing what is too old -/

theorem shift_removeOldest (c : UInt32) (b : RtpRetransmissionBuffer) :
    (b.shift c).removeOldest = b.removeOldest.map (shift c) := by
  unfold removeOldest
  rw [shift_buffer]
  cases hb : b.buffer with
  | nil => simp [shiftSlots, Except.map, shift, withSlots, hb]
  | cons slot rest =>
      cases slot with
      | none => rfl
      | some item =>
          have hdrop : (shiftSlots c rest).dropWhile Option.isNone =
              shiftSlots c (rest.dropWhile Option.isNone) := by
            rw [shiftSlots, List.dropWhile_map, shiftSlots]
            congr 2
            funext slot
            cases slot <;> rfl
          simp only [shiftSlots, List.map_cons, Option.map_some, Except.map]
          rw [← shiftSlots, hdrop]
          rfl

theorem removeOldest_near {w : UInt32} {b b' : RtpRetransmissionBuffer}
    (h : StoredNear w b.buffer) (hok : b.removeOldest = .ok b') : StoredNear w b'.buffer := by
  unfold removeOldest at hok
  split at hok
  · cases hok
    exact h
  · cases hok
  · next item rest hb =>
      cases hok
      rw [hb] at h
      exact fun i hi => h i (List.mem_cons_of_mem _ ((List.dropWhile_sublist _).subset hi))

theorem mem_of_getOldest {b : RtpRetransmissionBuffer} {item : Item}
    (h : b.getOldest = some item) : some item ∈ b.buffer :=
  List.mem_of_head? (Option.join_eq_some_iff.mp h)

theorem mem_of_getNewest {b : RtpRetransmissionBuffer} {item : Item}
    (h : b.getNewest = some item) : some item ∈ b.buffer :=
  List.mem_of_getLast? (Option.join_eq_some_iff.mp h)

/-- Both results of the clearing, `c` later. -/
def shiftCleared (c : UInt32) (r : RtpRetransmissionBuffer × Bool) :
    RtpRetransmissionBuffer × Bool := (r.1.shift c, r.2)

theorem clearTooOldLoop_shift {w n : UInt32} (hn : Near w n) (c : UInt32) (fuel : Nat) :
    ∀ (b : RtpRetransmissionBuffer) (removed : Bool), StoredNear w b.buffer →
      clearTooOldLoop (n + c) fuel (b.shift c) removed =
        (clearTooOldLoop n fuel b removed).map (shiftCleared c) := by
  induction fuel with
  | zero => exact fun b removed _ => rfl
  | succ fuel ih =>
      intro b removed hb
      simp only [clearTooOldLoop, shift_getOldest]
      cases hold : b.getOldest with
      | none => rfl
      | some oldestItem =>
          simp only [Option.map_some, Item.shift_timestamp,
            isTooOldTimestamp_shift (hb _ (mem_of_getOldest hold)) hn]
          cases b.isTooOldTimestamp oldestItem.timestamp n with
          | error f => rfl
          | ok old =>
              cases old with
              | false => rfl
              | true =>
                  simp only [bind, Except.bind, if_true, shift_removeOldest]
                  cases hrem : b.removeOldest with
                  | error f => rfl
                  | ok b' => exact ih b' true (removeOldest_near hb hrem)

theorem clearTooOldByTimestamp_shift {w n : UInt32} (hn : Near w n) (c : UInt32)
    {b : RtpRetransmissionBuffer} (hb : StoredNear w b.buffer) :
    (b.shift c).clearTooOldByTimestamp (n + c) =
      (b.clearTooOldByTimestamp n).map (shiftCleared c) := by
  unfold clearTooOldByTimestamp
  rw [shift_buffer, length_shiftSlots]
  exact clearTooOldLoop_shift hn c _ b false hb

/-! ## The branches -/

theorem isSeqLowerThan_shift {w s t : UInt32} (hs : Near w s) (ht : Near w t) (c : UInt32) :
    isSeqLowerThan (s + c) (t + c) = isSeqLowerThan s t := isSeqHigherThan_shift ht hs c

theorem shift_removeOldestItems (c : UInt32) (b : RtpRetransmissionBuffer) (n : UInt16) :
    (b.shift c).removeOldestItems n = (b.removeOldestItems n).map (shift c) := by
  unfold removeOldestItems
  dsimp only
  rw [shift_buffer, length_shiftSlots, shift_removeOldest]
  split_ifs <;> rfl

/-- Blank slots and a new item at the end. -/
theorem shiftSlots_append (c : UInt32) (slots : List (Option Item)) (g : Nat) (p : RtpPacket) :
    shiftSlots c slots ++ List.replicate g none ++ [some (newItem (p.shift c))] =
      shiftSlots c (slots ++ List.replicate g none ++ [some (newItem p)]) := by
  simp [shiftSlots]

theorem insertInOrder_shift {w : UInt32} {p : RtpPacket} {newestItem : Item}
    (hp : Near w p.getTimestamp) (hz : Near w newestItem.timestamp) (c : UInt32)
    (b : RtpRetransmissionBuffer) :
    (b.shift c).insertInOrder (p.shift c) (newestItem.shift c) =
      (b.insertInOrder p newestItem).map (shift c) := by
  unfold insertInOrder
  rw [RtpPacket.shift_getTimestamp, Item.shift_timestamp, isSeqLowerThan_shift hp hz]
  dsimp only
  rw [RtpPacket.shift_getSequenceNumber, Item.shift_sequenceNumber, shift_buffer,
    length_shiftSlots, shift_removeOldestItems, shiftSlots_append, shift_maxItems]
  generalize hg : (p.getSequenceNumber - newestItem.sequenceNumber - 1).toNat = g
  split_ifs with hts hfull hmany
  · rfl
  · rfl
  · generalize b.removeOldestItems _ = r
    cases r with
    | error f => rfl
    | ok b' =>
        simp only [bind, Except.bind, Except.map, shift_buffer, shiftSlots_append]
        rfl
  · rfl

theorem insertOlder_shift {w : UInt32} {p : RtpPacket} {oldestItem newestItem : Item}
    (hp : Near w p.getTimestamp) (hz : Near w oldestItem.timestamp)
    (hy : Near w newestItem.timestamp) (c : UInt32) (b : RtpRetransmissionBuffer) :
    (b.shift c).insertOlder (p.shift c) (oldestItem.shift c) (newestItem.shift c) =
      (b.insertOlder p oldestItem newestItem).map (shift c) := by
  unfold insertOlder
  rw [RtpPacket.shift_getTimestamp, Item.shift_timestamp, Item.shift_timestamp,
    isTooOldTimestamp_shift hp hy, isSeqHigherThan_shift hp hz]
  cases b.isTooOldTimestamp p.getTimestamp newestItem.timestamp with
  | error f => rfl
  | ok old =>
      simp only [bind, Except.bind, RtpPacket.shift_getSequenceNumber,
        Item.shift_sequenceNumber, shift_buffer, length_shiftSlots, shift_maxItems]
      split_ifs
      · rfl
      · rfl
      · rfl
      · simp [Except.map, shift, withSlots, shiftSlots]

/-- The blank slot between stored items that is the packet's. -/
def blankSlot (b : RtpRetransmissionBuffer) (p : RtpPacket) : Option Nat :=
  match b.getNewest, b.getOldest with
  | some newestItem, some oldestItem =>
    if isSeqHigherThan p.getSequenceNumber newestItem.sequenceNumber then none
    else if isSeqLowerThan p.getSequenceNumber oldestItem.sequenceNumber then none
    else
      let idx := (p.getSequenceNumber - oldestItem.sequenceNumber).toNat
      if b.buffer[idx]? = some none then some idx else none
  | _, _ => none

/-- If the packet's slot is blank: the plain comparisons with the nearest stored timestamps
    come out alike before and after the shift. -/
def GapTestKeptLive (c : UInt32) (b : RtpRetransmissionBuffer) (p : RtpPacket) : Prop :=
  ∀ idx, b.blankSlot p = some idx →
    fitsAt (shiftSlots c b.buffer) idx (p.getTimestamp + c) = fitsAt b.buffer idx p.getTimestamp

theorem getElem?_shiftSlots_blank (c : UInt32) (slots : List (Option Item)) (i : Nat) :
    (shiftSlots c slots)[i]? = some none ↔ slots[i]? = some none := by
  simp [shiftSlots]

/-- Filling a blank slot changes the slots. -/
theorem set_ne_self {slots : List (Option Item)} {idx : Nat} (hblank : slots[idx]? = some none)
    (item : Item) : slots.set idx (some item) ≠ slots := by
  intro h
  have hlt := (List.getElem?_eq_some_iff.mp hblank).1
  have hset : (slots.set idx (some item))[idx]? = some (some item) :=
    List.getElem?_set_self hlt
  rw [h, hblank] at hset
  cases hset

/-- Two choices between different results agree when their conditions do. -/
theorem ite_agree_iff {α : Type} {p q : Prop} [Decidable p] [Decidable q] {x y : α}
    (hne : x ≠ y) : (if p then x else y) = (if q then x else y) ↔ (p ↔ q) := by
  by_cases hp : p <;> by_cases hq : q <;> simp [hp, hq, hne, hne.symm]

theorem insertBetween_shift_iff {b : RtpRetransmissionBuffer} {p : RtpPacket} {oldestItem : Item}
    (hz : b.buffer.head? = some (some oldestItem))
    (hlow : isSeqLowerThan p.getSequenceNumber oldestItem.sequenceNumber = false)
    (hlen : (p.getSequenceNumber - oldestItem.sequenceNumber).toNat < b.buffer.length)
    (c : UInt32) :
    let idx := (p.getSequenceNumber - oldestItem.sequenceNumber).toNat
    (b.shift c).insertBetween (p.shift c) (oldestItem.shift c) =
        (b.insertBetween p oldestItem).map (shift c) ↔
      (b.buffer[idx]? = some none → fitsAt (shiftSlots c b.buffer) idx (p.getTimestamp + c) =
        fitsAt b.buffer idx p.getTimestamp) := by
  intro idx
  have hz' : (b.shift c).buffer.head? = some (some (oldestItem.shift c)) := by
    rw [shift_buffer, shiftSlots, List.head?_map, hz]
    rfl
  have hfilled : (b.withSlots (b.buffer.set idx (some (newItem p)))).shift c =
      (b.shift c).withSlots ((shiftSlots c b.buffer).set idx (some (newItem (p.shift c)))) := by
    simp [shift, withSlots, shiftSlots, List.map_set]
  have hplain : (b.insertBetween p oldestItem).map (shift c) =
      if b.buffer[idx]? = some none ∧ fitsAt b.buffer idx p.getTimestamp = true then
        .ok ((b.shift c).withSlots ((shiftSlots c b.buffer).set idx (some (newItem (p.shift c)))))
      else .ok (b.shift c) := by
    rw [insertBetween_eq hz hlow hlen, apply_ite (Except.map (shift c)), ← hfilled]
    rfl
  have hshift := insertBetween_eq (b := b.shift c) (p := p.shift c) hz' hlow
    (by rw [shift_buffer, length_shiftSlots]; exact hlen)
  simp only [RtpPacket.shift_getSequenceNumber, Item.shift_sequenceNumber, shift_buffer,
    getElem?_shiftSlots_blank, RtpPacket.shift_getTimestamp] at hshift
  rw [hshift, hplain]
  by_cases hblank : b.buffer[idx]? = some none
  · have hne : (.ok ((b.shift c).withSlots
        ((shiftSlots c b.buffer).set idx (some (newItem (p.shift c))))) :
        Except Fault RtpRetransmissionBuffer) ≠ .ok (b.shift c) := by
      intro h
      exact set_ne_self ((getElem?_shiftSlots_blank c b.buffer idx).mpr hblank) _
        (congrArg buffer (Except.ok.inj h))
    rw [ite_agree_iff hne, and_congr_right_iff]
    exact forall_congr' fun _ => Bool.eq_iff_iff.symm
  · rw [if_neg (fun h => hblank h.1), if_neg (fun h => hblank h.1)]
    exact ⟨fun _ h => absurd h hblank, fun _ => rfl⟩

theorem insertLive_shift_iff {w : UInt32} {b : RtpRetransmissionBuffer} {p : RtpPacket}
    (h : InWindow b) (hb : StoredNear w b.buffer) (hp : Near w p.getTimestamp) (c : UInt32) :
    (b.shift c).insertLive (p.shift c) = (b.insertLive p).map (shift c) ↔
      GapTestKeptLive c b p := by
  unfold GapTestKeptLive blankSlot
  by_cases hne : b.buffer = []
  · have hnew : b.getNewest = none := by rw [getNewest, hne]; rfl
    simp only [insertLive, shift_getNewest, hnew]
    exact ⟨fun _ idx hidx => (by cases hidx), fun _ => rfl⟩
  obtain ⟨z, rest, hz⟩ := h.exists_front hne
  obtain ⟨y, init, hy⟩ := h.exists_back hne
  have hz : b.buffer.head? = some (some z) := by rw [hz]; rfl
  have hy : b.buffer.getLast? = some (some y) := by rw [hy, List.getLast?_concat]
  have hold : b.getOldest = some z := by rw [getOldest, hz]; rfl
  have hnew : b.getNewest = some y := by rw [getNewest, hy]; rfl
  simp only [insertLive, shift_getNewest, shift_getOldest, hold, hnew, Option.map_some, deref,
    bind, Except.bind]
  have hyw := hb _ (mem_of_getNewest hnew)
  have hzw := hb _ (mem_of_getOldest hold)
  cases hhigh : isSeqHigherThan p.getSequenceNumber y.sequenceNumber with
  | true =>
      have hhigh' : isSeqHigherThan (p.shift c).getSequenceNumber (y.shift c).sequenceNumber =
        true := hhigh
      simp only [hhigh', if_true, insertInOrder_shift hp hyw]
      exact ⟨fun _ idx hidx => (by cases hidx), fun _ => trivial⟩
  | false =>
      have hhigh' : isSeqHigherThan (p.shift c).getSequenceNumber (y.shift c).sequenceNumber =
        false := hhigh
      cases hlow : isSeqLowerThan p.getSequenceNumber z.sequenceNumber with
      | true =>
          have hlow' : isSeqLowerThan (p.shift c).getSequenceNumber (z.shift c).sequenceNumber =
            true := hlow
          simp only [hhigh', hlow', Bool.false_eq_true, if_false, if_true,
            insertOlder_shift hp hzw hyw]
          exact ⟨fun _ idx hidx => (by cases hidx), fun _ => trivial⟩
      | false =>
          have hlow' : isSeqLowerThan (p.shift c).getSequenceNumber (z.shift c).sequenceNumber =
            false := hlow
          simp only [hhigh', hlow', Bool.false_eq_true, if_false]
          refine (insertBetween_shift_iff hz hlow (between_lt_length h hz hy hhigh hlow) c).trans ?_
          simp

/-- The gap test of the insertion of `p`, if it comes to one. -/
def GapTestKept (c : UInt32) (b : RtpRetransmissionBuffer) (p : RtpPacket) : Prop :=
  match b.getNewest with
  | none => True
  | some newestItem =>
    (isSeqLowerThan p.getSequenceNumber newestItem.sequenceNumber &&
      isSeqHigherThan p.getTimestamp newestItem.timestamp) = true ∨
    match b.clearTooOldByTimestamp (newestTimestamp p newestItem) with
    | .error _ => True
    | .ok (left, _) => GapTestKeptLive c left p

theorem storedNear_of_suffix {w : UInt32} {slots suf : List (Option Item)}
    (h : StoredNear w slots) (hsuf : suf <:+ slots) : StoredNear w suf :=
  fun item hitem => h item (hsuf.subset hitem)

/-- **One insertion.** It commutes with the shift exactly when the gap test is kept. -/
theorem insert_shift_iff {w : UInt32} {b : RtpRetransmissionBuffer} {p : RtpPacket}
    (h : InWindow b) (hb : StoredNear w b.buffer) (hp : Near w p.getTimestamp) (c : UInt32) :
    (b.shift c).insert (p.shift c) = (b.insert p).map (shift c) ↔ GapTestKept c b p := by
  unfold GapTestKept
  by_cases hne : b.buffer = []
  · have hnew : b.getNewest = none := by rw [getNewest, hne]; rfl
    rw [hnew]
    refine ⟨fun _ => trivial, fun _ => ?_⟩
    simp [insert, shift, shiftSlots, hne, withSlots, pushBack, Except.map]
  obtain ⟨y, init, hy⟩ := h.exists_back hne
  have hnew : b.getNewest = some y := by rw [getNewest, hy, List.getLast?_concat]; rfl
  have hyw := hb _ (mem_of_getNewest hnew)
  have hempty : b.buffer.isEmpty = false := by simpa using hne
  have hempty' : (b.shift c).buffer.isEmpty = false := by
    simpa [shiftSlots] using hne
  simp only [insert, hempty, hempty', Bool.false_eq_true, if_false, shift_getNewest, hnew,
    Option.map_some, deref, bind, Except.bind, RtpPacket.shift_getSequenceNumber,
    RtpPacket.shift_getTimestamp, Item.shift_sequenceNumber, Item.shift_timestamp,
    isSeqHigherThan_shift hp hyw, newestTimestamp_shift hp hyw]
  by_cases hreset : (isSeqLowerThan p.getSequenceNumber y.sequenceNumber &&
      isSeqHigherThan p.getTimestamp y.timestamp) = true
  · rw [if_pos hreset, if_pos hreset]
    exact ⟨fun _ => Or.inl hreset, fun _ => rfl⟩
  rw [if_neg hreset, if_neg hreset, or_iff_right hreset,
    clearTooOldByTimestamp_shift (near_newestTimestamp hp hyw) c hb]
  rcases clearTooOldLoop_eq (newestTimestamp p y) b.buffer.length b false h.front (Nat.le_refl _)
    with ⟨hclear, -⟩ | hclear
  · rw [clearTooOldByTimestamp, hclear]
    exact ⟨fun _ => trivial, fun _ => rfl⟩
  rw [clearTooOldByTimestamp, hclear]
  simp only [Except.map, shiftCleared, shift_buffer]
  have hlive := insertLive_shift_iff (inWindow_live h (newestTimestamp p y))
    (storedNear_of_suffix hb (b.live_suffix _)) hp c
  by_cases hnil : b.live (newestTimestamp p y) = []
  · -- everything was too old: the packet starts afresh
    have hpos := List.length_pos_iff.mpr hne
    have hkept : GapTestKeptLive c (b.withSlots (b.live (newestTimestamp p y))) p := by
      intro idx hidx
      simp [blankSlot, getNewest, hnil] at hidx
    refine ⟨fun _ => hkept, fun _ => ?_⟩
    simp [hnil, hpos, shiftSlots, shift, withSlots, pushBack]
  · have hfull : (b.live (newestTimestamp p y)).isEmpty = false := by simpa using hnil
    have hfull' : (shiftSlots c (b.live (newestTimestamp p y))).isEmpty = false := by
      simpa [shiftSlots] using hnil
    simp only [shift_withSlots, withSlots_buffer, hfull, hfull', Bool.and_false,
      Bool.false_eq_true, if_false]
    exact hlive

/-! ## Whole runs -/

theorem storedNear_outcome {w : UInt32} {b b' : RtpRetransmissionBuffer} {p : RtpPacket}
    (hb : StoredNear w b.buffer) (hp : Near w p.getTimestamp) (ho : Outcome b p b') :
    StoredNear w b'.buffer := by
  have hnew : ∀ item, item = newItem p → Near w item.timestamp := by
    rintro _ rfl
    exact hp
  intro item hitem
  cases ho with
  | only => exact hnew item (by simpa using hitem)
  | dropped => exact hb item hitem
  | inOrder slots z g hsuf hfront hz hnum =>
      rcases List.mem_append.mp hitem with hitem | hitem
      · rcases List.mem_append.mp hitem with hitem | hitem
        · exact hb item (hsuf.subset hitem)
        · simp at hitem
      · exact hnew item (by simpa using hitem)
  | older z g hz hnum _ =>
      rcases List.mem_cons.mp hitem with hitem | hitem
      · exact hnew item (Option.some.inj hitem)
      · rcases List.mem_append.mp hitem with hitem | hitem
        · simp at hitem
        · exact hb item hitem
  | between z i hz hblank hnum =>
      rcases List.mem_or_eq_of_mem_set hitem with hitem | hitem
      · exact hb item hitem
      · exact hnew item (Option.some.inj hitem)

theorem storedNear_insert {w : UInt32} {b b' : RtpRetransmissionBuffer} {p : RtpPacket}
    (h : InWindow b) (hb : StoredNear w b.buffer) (hp : Near w p.getTimestamp)
    (hok : b.insert p = .ok b') : StoredNear w b'.buffer := by
  obtain ⟨n, ho⟩ := outcome_of_insert h hok
  exact storedNear_outcome (storedNear_of_suffix hb (b.live_suffix n)) hp ho

/-- The run of the shifted packets goes as the run of the packets, up to the shift. -/
def ShiftsAlong (c : UInt32) (start : RtpRetransmissionBuffer) (packets : List RtpPacket) : Prop :=
  Trace.runE insert start (packets.map (RtpPacket.shift c)) =
    (Trace.runE insert start packets).map (shift c)

instance (c : UInt32) (start : RtpRetransmissionBuffer) (packets : List RtpPacket) :
    Decidable (ShiftsAlong c start packets) := inferInstanceAs (Decidable (_ = _))

/-- **Timestamps modulo `2^32`, over whole runs.** With all timestamps in one half of the
    circle, the buffer with and without the shift hold the same after every insertion exactly
    when every gap test is kept. -/
theorem shift_iff (maxItems : UInt16) (maxRetransmissionDelayMs clockRate w : UInt32)
    (packets : List RtpPacket) (hnear : ∀ p ∈ packets, (p.getTimestamp - w).toNat < 2 ^ 31)
    (c : UInt32) :
    let start := create maxItems maxRetransmissionDelayMs clockRate
    (∀ pre post, packets = pre ++ post → ShiftsAlong c start pre) ↔
    (∀ pre p post b, packets = pre ++ p :: post → Trace.runE insert start pre = .ok b →
      GapTestKept c b p) := by
  intro start
  -- what a prefix of the run leaves
  have hstate : ∀ pre post b, packets = pre ++ post → Trace.runE insert start pre = .ok b →
      InWindow b ∧ StoredNear w b.buffer := by
    intro pre
    induction pre using List.reverseRecOn with
    | nil =>
        intro post b _ hrun
        cases hrun
        exact ⟨inWindow_create _ _ _, fun item hitem => (by cases hitem)⟩
    | append_singleton pre p ih =>
        intro post b hsplit hrun
        obtain ⟨m, hpre, hok⟩ := (Trace.runE_concat_iff _ _ _ _).mp hrun
        have hsplit' : packets = pre ++ p :: post := by simpa using hsplit
        obtain ⟨hw, hm⟩ := ih (p :: post) m hsplit' hpre
        have hp : Near w p.getTimestamp := hnear p (by simp [hsplit'])
        exact ⟨inWindow_insert hw hok, storedNear_insert hw hm hp hok⟩
  have hstep : ∀ pre p post b, packets = pre ++ p :: post → Trace.runE insert start pre = .ok b →
      ShiftsAlong c start pre →
      (ShiftsAlong c start (pre ++ [p]) ↔ GapTestKept c b p) := by
    intro pre p post b hsplit hpre hshift
    obtain ⟨hw, hb⟩ := hstate pre (p :: post) b hsplit hpre
    have hp : Near w p.getTimestamp := hnear p (by simp [hsplit])
    rw [← insert_shift_iff hw hb hp, ShiftsAlong, List.map_append, Trace.runE_append,
      Trace.runE_append, hpre, show Trace.runE insert start (pre.map (RtpPacket.shift c)) =
        .ok (b.shift c) by rw [hshift, hpre]; rfl]
    simp only [List.map_cons, List.map_nil, Trace.runE]
    cases (b.shift c).insert (p.shift c) <;> cases b.insert p <;> rfl
  constructor
  · intro hall pre p post b hsplit hpre
    exact (hstep pre p post b hsplit hpre (hall pre _ hsplit)).mp
      (hall (pre ++ [p]) post (by simpa using hsplit))
  · intro hkept pre
    induction pre using List.reverseRecOn with
    | nil => exact fun _ _ => rfl
    | append_singleton pre p ih =>
        intro post hsplit
        have hsplit' : packets = pre ++ p :: post := by simpa using hsplit
        have hshift := ih (p :: post) hsplit'
        cases hpre : Trace.runE insert start pre with
        | ok b =>
            exact (hstep pre p post b hsplit' hpre hshift).mpr (hkept pre p post b hsplit' hpre)
        | error f =>
            rw [ShiftsAlong, List.map_append, Trace.runE_append, Trace.runE_append, hpre,
              show Trace.runE insert start (pre.map (RtpPacket.shift c)) = .error f by
                rw [hshift, hpre]; rfl]
            rfl

/-- Packets 1 and 3, then 2, whose timestamp lies between theirs. -/
def filledGap : List RtpPacket := [.media 1 100, .media 3 300, .media 2 200]

/-- 250 before the wrap, packets 1 and 2 stay below it and packet 3 goes past it. -/
theorem gap_refused_across_wrap :
    (∀ p ∈ filledGap, (p.getTimestamp - 100).toNat < 2 ^ 31) ∧
    ¬ ∀ pre post, filledGap = pre ++ post →
      ShiftsAlong (0 - 250) (create 100 1000 16000) pre := by
  refine ⟨by decide, fun h => ?_⟩
  exact absurd (h filledGap [] rfl) (by decide)

theorem shift_iff_filledGap :
    (∀ pre post, filledGap = pre ++ post → ShiftsAlong 7 (create 100 1000 16000) pre) ↔
    (∀ pre p post b, filledGap = pre ++ p :: post →
      Trace.runE insert (create 100 1000 16000) pre = .ok b → GapTestKept 7 b p) :=
  shift_iff 100 1000 16000 100 filledGap (by decide) 7

end RtpRetransmissionBuffer

end Bifrost.Rtc
