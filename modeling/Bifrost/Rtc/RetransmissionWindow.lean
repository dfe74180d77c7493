/-
  The representation of `RtpRetransmissionBuffer`: the deque is a window of consecutive
  sequence numbers (`SparseWindow.Window`), in every state any calls lead to.

  * `insert_outcome`: all an `Insert` can do to a window. Its only fault is the division by
    a zero clock rate.
  * `inWindow_insert`: each outcome is a window again. In the branch "between" this rests on
    the comparator: a number that is neither above the newest nor below the oldest lies
    inside the deque, whatever the deque's size (`between_lt_length`).
  * `representation`: over whole runs, and with it what `Get` returns as long as the deque
    spans at most half the circle.
-/
import Bifrost.Lib.SparseWindow
import Bifrost.Rtc.RtpRetransmissionBuffer

namespace Bifrost.Rtc.RtpRetransmissionBuffer

open SeqManager SparseWindow

/-- The next 16-bit number. -/
def succ16 (s : UInt16) : UInt16 := s + 1

theorem iterate_succ16 (i : Nat) (s : UInt16) : succ16^[i] s = s + UInt16.ofNat i := by
  induction i generalizing s with
  | zero => simp
  | succ i ih =>
      rw [Function.iterate_succ_apply, ih, succ16, ← UInt16.toNat_inj]
      simp only [UInt16.toNat_add, UInt16.toNat_ofNat', UInt16.reduceToNat]
      omega

/-- The deque is a window of consecutive sequence numbers. -/
def InWindow (b : RtpRetransmissionBuffer) : Prop := Window Item.sequenceNumber succ16 b.buffer

/-! ## Clearing what is too old -/

/-- The answer of `IsTooOldTimestamp` where it gives one. -/
def tooOld (b : RtpRetransmissionBuffer) (timestamp newestTimestamp : UInt32) : Bool :=
  !isSeqHigherThan timestamp newestTimestamp &&
    decide (UInt32.ofNat ((newestTimestamp - timestamp).toNat * 1000 / b.clockRate.toNat) >
      b.maxRetransmissionDelayMs)

/-- A slot that `ClearTooOldByTimestamp` does not stop at. -/
def stale (b : RtpRetransmissionBuffer) (newestTimestamp : UInt32) : Option Item → Bool
  | none => true
  | some item => b.tooOld item.timestamp newestTimestamp

/-- The slots that `ClearTooOldByTimestamp` leaves. -/
def live (b : RtpRetransmissionBuffer) (newestTimestamp : UInt32) : List (Option Item) :=
  b.buffer.dropWhile (b.stale newestTimestamp)

/-- The call divided by a zero clock rate. -/
def DividedByZero {α : Type} (b : RtpRetransmissionBuffer) (call : Except Fault α) : Prop :=
  call = .error .divisionByZero ∧ b.clockRate = 0

theorem isTooOldTimestamp_eq (b : RtpRetransmissionBuffer) (t n : UInt32) :
    b.DividedByZero (b.isTooOldTimestamp t n) ∨
      b.isTooOldTimestamp t n = .ok (b.tooOld t n) := by
  unfold isTooOldTimestamp tooOld
  cases isSeqHigherThan t n with
  | true => exact Or.inr rfl
  | false =>
      by_cases hr : b.clockRate = 0
      · exact Or.inl ⟨by simp [hr], hr⟩
      · exact Or.inr (by simp [hr])

theorem dropWhile_stale_blanks (b : RtpRetransmissionBuffer) (n : UInt32)
    (slots : List (Option Item)) :
    (slots.dropWhile Option.isNone).dropWhile (b.stale n) = slots.dropWhile (b.stale n) := by
  induction slots with
  | nil => rfl
  | cons slot slots ih =>
      cases slot with
      | none => simpa [List.dropWhile_cons, stale] using ih
      | some item => rw [List.dropWhile_cons_of_neg (by simp)]

/-- The buffer with other slots. -/
def withSlots (b : RtpRetransmissionBuffer) (slots : List (Option Item)) :
    RtpRetransmissionBuffer := { b with buffer := slots }

theorem withSlots_self (b : RtpRetransmissionBuffer) : b.withSlots b.buffer = b := rfl

@[simp] theorem withSlots_withSlots (b : RtpRetransmissionBuffer)
    (slots slots' : List (Option Item)) :
    (b.withSlots slots).withSlots slots' = b.withSlots slots' := rfl

@[simp] theorem withSlots_buffer (b : RtpRetransmissionBuffer) (slots : List (Option Item)) :
    (b.withSlots slots).buffer = slots := rfl

@[simp] theorem withSlots_maxItems (b : RtpRetransmissionBuffer) (slots : List (Option Item)) :
    (b.withSlots slots).maxItems = b.maxItems := rfl

theorem live_length_le (b : RtpRetransmissionBuffer) (n : UInt32) :
    (b.live n).length ≤ b.buffer.length := (List.dropWhile_sublist _).length_le

/-- Where no slot is stale, nothing changes. -/
theorem nothing_removed {b : RtpRetransmissionBuffer} {n : UInt32} (h : b.live n = b.buffer)
    (removed : Bool) : (b.withSlots (b.live n),
      removed || decide ((b.live n).length < b.buffer.length)) = (b, removed) := by
  rw [h, withSlots_self, decide_eq_false (Nat.lt_irrefl _), Bool.or_false]

/-- What the loop removes are the stale slots at the front. -/
theorem clearTooOldLoop_eq (n : UInt32) (fuel : Nat) :
    ∀ (b : RtpRetransmissionBuffer) (removed : Bool), b.buffer.head? ≠ some none →
      b.buffer.length ≤ fuel →
      b.DividedByZero (clearTooOldLoop n fuel b removed) ∨
      clearTooOldLoop n fuel b removed =
        .ok (b.withSlots (b.live n), removed || decide ((b.live n).length < b.buffer.length)) := by
  induction fuel with
  | zero =>
      intro b removed _ hlen
      have hnil : b.buffer = [] := List.eq_nil_of_length_eq_zero (by omega)
      right
      rw [nothing_removed (by rw [live, hnil]; rfl)]
      rfl
  | succ fuel ih =>
      intro b removed hfront hlen
      cases hb : b.buffer with
      | nil =>
          right
          rw [← hb, nothing_removed (by rw [live, hb]; rfl)]
          simp only [clearTooOldLoop, getOldest, hb, List.head?_nil, Option.join_none]
      | cons slot rest =>
          cases slot with
          | none => rw [hb] at hfront; exact absurd rfl hfront
          | some item =>
              simp only [clearTooOldLoop, getOldest, hb, List.head?_cons, Option.join_some]
              rcases b.isTooOldTimestamp_eq item.timestamp n with h | h
              · exact Or.inl ⟨by rw [h.1]; rfl, h.2⟩
              rw [h]
              cases hold : b.tooOld item.timestamp n with
              | false =>
                  have hlive : b.live n = b.buffer := by
                    rw [live, hb, List.dropWhile_cons_of_neg (by simp [stale, hold])]
                  right
                  rw [← hb, nothing_removed hlive]
                  rfl
              | true =>
                  have hdrop : b.live n = rest.dropWhile (b.stale n) := by
                    rw [live, hb, List.dropWhile_cons_of_pos (by simp [stale, hold])]
                  have hrest : (b.withSlots (rest.dropWhile Option.isNone)).live n = b.live n := by
                    rw [hdrop]
                    exact dropWhile_stale_blanks b n rest
                  have hlt : (b.live n).length < (some item :: rest).length := by
                    rw [hdrop]
                    exact Nat.lt_succ_of_le (List.dropWhile_sublist _).length_le
                  have hrem : b.removeOldest =
                      .ok (b.withSlots (rest.dropWhile Option.isNone)) := by
                    rw [removeOldest, hb]
                    rfl
                  have hshort : (rest.dropWhile Option.isNone).length ≤ fuel := by
                    have := (List.dropWhile_sublist (l := rest) Option.isNone).length_le
                    rw [hb, List.length_cons] at hlen
                    omega
                  have := ih (b.withSlots (rest.dropWhile Option.isNone)) true
                    (head?_dropWhile_isNone rest) hshort
                  rw [hrest, Bool.true_or] at this
                  rw [decide_eq_true hlt, Bool.or_true, hrem]
                  exact this

theorem live_suffix (b : RtpRetransmissionBuffer) (n : UInt32) : b.live n <:+ b.buffer :=
  List.dropWhile_suffix _

theorem live_front (b : RtpRetransmissionBuffer) (n : UInt32) :
    (b.live n).head? ≠ some none := by
  intro hh
  have := List.head?_dropWhile_not (b.stale n) b.buffer
  rw [← live, hh] at this
  cases this

/-- Where the front item is not outdated, nothing is. -/
theorem live_eq_buffer {b : RtpRetransmissionBuffer} {n : UInt32} {item : Item}
    (hhead : b.buffer.head? = some (some item)) (hold : b.tooOld item.timestamp n = false) :
    b.live n = b.buffer := by
  obtain ⟨rest, hb⟩ : ∃ rest, b.buffer = some item :: rest := List.head?_eq_some_iff.mp hhead
  rw [live, hb, List.dropWhile_cons_of_neg (by simp [stale, hold])]

theorem inWindow_live {b : RtpRetransmissionBuffer} (h : InWindow b) (n : UInt32) :
    InWindow (b.withSlots (b.live n)) := h.suffix (b.live_suffix n) (b.live_front n)

/-! ## What an insertion does -/

/-- All that becomes of a window `b` when packet `p` is inserted. `slots` is what is left
    of it after removals from the front. -/
inductive Outcome (b : RtpRetransmissionBuffer) (p : RtpPacket) :
    RtpRetransmissionBuffer → Prop where
  | only : Outcome b p (b.withSlots [some (newItem p)])
  | dropped : Outcome b p b
  | inOrder (slots : List (Option Item)) (newestItem : Item) (g : Nat)
      (suffix : slots <:+ b.buffer) (front : slots.head? ≠ some none)
      (newest : slots.getLast? = some (some newestItem))
      (number : p.getSequenceNumber = succ16^[g + 1] newestItem.sequenceNumber) :
      Outcome b p (b.withSlots (slots ++ List.replicate g none ++ [some (newItem p)]))
  | older (oldestItem : Item) (g : Nat) (oldest : b.buffer.head? = some (some oldestItem))
      (number : oldestItem.sequenceNumber = succ16^[g + 1] p.getSequenceNumber)
      (room : b.buffer.length + g + 1 ≤ b.maxItems.toNat) :
      Outcome b p (b.withSlots (some (newItem p) :: (List.replicate g none ++ b.buffer)))
  | between (oldestItem : Item) (i : Nat) (oldest : b.buffer.head? = some (some oldestItem))
      (blank : b.buffer[i]? = some none)
      (number : p.getSequenceNumber = succ16^[i] oldestItem.sequenceNumber) :
      Outcome b p (b.withSlots (b.buffer.set i (some (newItem p))))

theorem inWindow_outcome {b b' : RtpRetransmissionBuffer} {p : RtpPacket} (h : InWindow b)
    (ho : Outcome b p b') : InWindow b' := by
  cases ho with
  | only => exact window_singleton _
  | dropped => exact h
  | inOrder slots z g hsuf hfront hz hnum => exact (h.suffix hsuf hfront).snoc hz hnum
  | older z g hz hnum _ => exact Window.cons h hz hnum
  | between z i hz _ hnum => exact Window.set h hz hnum

/-- The gap the code computes is the number of numbers left out. -/
theorem iterate_gap (s t : UInt16) : t = succ16^[(t - s - 1).toNat + 1] s := by
  have := s.toNat_lt
  have := t.toNat_lt
  rw [iterate_succ16, ← UInt16.toNat_inj]
  simp only [UInt16.toNat_add, UInt16.toNat_ofNat', UInt16.toNat_sub, UInt16.reduceToNat]
  omega

theorem iterate_offset (s t : UInt16) : t = succ16^[(t - s).toNat] s := by
  have := s.toNat_lt
  have := t.toNat_lt
  rw [iterate_succ16, ← UInt16.toNat_inj]
  simp only [UInt16.toNat_add, UInt16.toNat_ofNat', UInt16.toNat_sub]
  omega

/-- `RemoveOldest` on a window with at least two slots keeps the newest item. -/
theorem removeOldest_eq {b : RtpRetransmissionBuffer} (h : InWindow b)
    {newestItem : Item} (hz : b.buffer.getLast? = some (some newestItem))
    (hlen : 1 < b.buffer.length) :
    ∃ slots, b.removeOldest = .ok (b.withSlots slots) ∧ slots <:+ b.buffer ∧
      slots.head? ≠ some none ∧ slots.getLast? = some (some newestItem) ∧
      slots = b.buffer.tail.dropWhile Option.isNone := by
  obtain ⟨item, rest, hb⟩ := h.exists_front (by rintro hnil; simp [hnil] at hlen)
  rw [hb, List.length_cons] at hlen
  have hrest : rest ≠ [] := by rintro rfl; simp at hlen
  have hlast : rest.getLast? = some (some newestItem) := by
    rw [hb, List.getLast?_cons_of_ne_nil hrest] at hz
    exact hz
  have hne : rest.dropWhile Option.isNone ≠ [] := by
    intro hnil
    rw [List.dropWhile_eq_nil_iff] at hnil
    have := hnil _ (List.mem_of_getLast? hlast)
    cases this
  refine ⟨rest.dropWhile Option.isNone, by rw [removeOldest, hb]; rfl, ?_,
    head?_dropWhile_isNone rest, ?_, by rw [hb, List.tail_cons]⟩
  · rw [hb]
    exact (List.dropWhile_suffix _).trans (List.suffix_cons _ _)
  · rw [getLast?_of_suffix (List.dropWhile_suffix _) hne, hlast]

theorem insertInOrder_outcome {b : RtpRetransmissionBuffer} {p : RtpPacket}
    (h : InWindow b) {newestItem : Item} (hz : b.buffer.getLast? = some (some newestItem)) :
    ∃ b', b.insertInOrder p newestItem = .ok b' ∧ Outcome b p b' := by
  have hne : b.buffer ≠ [] := by rintro hnil; simp [hnil] at hz
  have hpos := List.length_pos_iff.mpr hne
  have hnum := iterate_gap newestItem.sequenceNumber p.getSequenceNumber
  unfold insertInOrder
  dsimp only
  split_ifs with hts hfull hmany
  · exact ⟨b, rfl, .dropped⟩
  · exact ⟨_, rfl, .only⟩
  · unfold removeOldestItems
    dsimp only
    split_ifs with hrem
    · generalize hn : UInt16.ofNat _ = n at hmany hrem
      -- a removal of no slot is none, so there are at least two
      have hlen : 1 < b.buffer.length := by
        by_contra hle
        have h1 : b.buffer.length = 1 := by omega
        rw [h1] at hrem hmany
        omega
      obtain ⟨slots, hok, hsuf, hfront, hlast, -⟩ := removeOldest_eq h hz hlen
      rw [hok]
      exact ⟨_, rfl, .inOrder slots newestItem _ hsuf hfront hlast hnum⟩
    · exact ⟨_, rfl, .inOrder b.buffer newestItem _ (List.suffix_refl _) h.front hz hnum⟩
  · exact ⟨_, rfl, .inOrder b.buffer newestItem _ (List.suffix_refl _) h.front hz hnum⟩

/-- What branch 5 does: it divides by zero, drops the packet, or puts it in front of the gap. -/
theorem insertOlder_cases (b : RtpRetransmissionBuffer) (p : RtpPacket)
    (oldestItem newestItem : Item) :
    b.DividedByZero (b.insertOlder p oldestItem newestItem) ∨
    b.insertOlder p oldestItem newestItem = .ok b ∨
    let numBlankSlots := (oldestItem.sequenceNumber - p.getSequenceNumber - 1).toNat
    b.tooOld p.getTimestamp newestItem.timestamp = false ∧
      isSeqHigherThan p.getTimestamp oldestItem.timestamp = false ∧
      b.buffer.length + numBlankSlots + 1 ≤ b.maxItems.toNat ∧
      b.insertOlder p oldestItem newestItem = .ok (b.withSlots
        (some (newItem p) :: (List.replicate numBlankSlots none ++ b.buffer))) := by
  unfold insertOlder
  rcases b.isTooOldTimestamp_eq p.getTimestamp newestItem.timestamp with h | h
  · exact Or.inl ⟨by rw [h.1]; rfl, h.2⟩
  right
  rw [h]
  simp only [bind, Except.bind]
  split_ifs with hold hnewer hfull
  · exact Or.inl rfl
  · exact Or.inl rfl
  · exact Or.inl rfl
  · exact Or.inr ⟨Bool.eq_false_iff.mpr hold, Bool.eq_false_iff.mpr hnewer,
      Nat.le_of_not_lt hfull, rfl⟩

theorem insertOlder_outcome {b : RtpRetransmissionBuffer} {p : RtpPacket}
    {oldestItem newestItem : Item} (hz : b.buffer.head? = some (some oldestItem)) :
    b.DividedByZero (b.insertOlder p oldestItem newestItem) ∨
    ∃ b', b.insertOlder p oldestItem newestItem = .ok b' ∧ Outcome b p b' := by
  rcases b.insertOlder_cases p oldestItem newestItem with herr | hdrop | ⟨-, -, hroom, hok⟩
  · exact Or.inl herr
  · exact Or.inr ⟨b, hdrop, .dropped⟩
  · exact Or.inr ⟨_, hok, .older oldestItem _ hz (iterate_gap p.getSequenceNumber _) hroom⟩

/-- A number that is not above the newest and not below the oldest lies in the deque. -/
theorem between_lt_length {b : RtpRetransmissionBuffer} (h : InWindow b)
    {oldestItem newestItem : Item} (hz : b.buffer.head? = some (some oldestItem))
    (hy : b.buffer.getLast? = some (some newestItem)) {s : UInt16}
    (hhigh : isSeqHigherThan s newestItem.sequenceNumber = false)
    (hlow : isSeqLowerThan s oldestItem.sequenceNumber = false) :
    (s - oldestItem.sequenceNumber).toNat < b.buffer.length := by
  have hne : b.buffer ≠ [] := by rintro hnil; simp [hnil] at hz
  have hpos := List.length_pos_iff.mpr hne
  have hkey := h.key_back hz hy
  rw [iterate_succ16, ← UInt16.toNat_inj, UInt16.toNat_add, UInt16.toNat_ofNat'] at hkey
  have := s.toNat_lt
  have := oldestItem.sequenceNumber.toNat_lt
  rw [← Bool.not_eq_true, isSeqHigherThan16_iff, UInt16.toNat_sub] at hhigh
  rw [← Bool.not_eq_true, isSeqLowerThan16_iff, UInt16.toNat_sub] at hlow
  rw [UInt16.toNat_sub]
  omega

theorem slotAt_ok {buffer : List (Option Item)} {i : Nat} (hi : i < buffer.length) :
    slotAt buffer i = .ok buffer[i] := by
  rw [slotAt, List.getElem?_eq_getElem hi]

/-- `Get` never reads outside the deque. -/
theorem get_eq (b : RtpRetransmissionBuffer) (s : UInt16) :
    ∃ slot, b.get s = .ok slot := by
  unfold get
  split
  · exact ⟨_, rfl⟩
  · next oldestItem hold =>
      dsimp only
      split_ifs
      · exact ⟨_, rfl⟩
      · exact ⟨_, rfl⟩
      · have hpos : 0 < b.buffer.length := by
          rw [List.length_pos_iff]
          rintro hnil
          simp [getOldest, hnil] at hold
        exact ⟨_, slotAt_ok (by omega)⟩

/-- The item nearest below slot `idx`. -/
def nearestOlder (buffer : List (Option Item)) (idx : Nat) : Option Item :=
  (buffer.take idx).reverse.findSome? id

/-- The item nearest above slot `idx`. -/
def nearestNewer (buffer : List (Option Item)) (idx : Nat) : Option Item :=
  (buffer.drop (idx + 1)).findSome? id

/-- The items nearest to slot `idx` let `timestamp` in between. -/
def fitsAt (buffer : List (Option Item)) (idx : Nat) (timestamp : UInt32) : Bool :=
  (nearestOlder buffer idx).all (fun olderItem => decide (timestamp ≥ olderItem.timestamp)) &&
    (nearestNewer buffer idx).all fun newerItem => decide (timestamp ≤ newerItem.timestamp)

theorem olderAllows_eq (buffer : List (Option Item)) (t : UInt32) (idx : Nat)
    (h : idx ≤ buffer.length) : olderAllows buffer t idx =
      .ok ((nearestOlder buffer idx).all fun olderItem => decide (t ≥ olderItem.timestamp)) := by
  induction idx with
  | zero => rfl
  | succ idx ih =>
      have hlt : idx < buffer.length := by omega
      have htake : (buffer.take (idx + 1)).reverse = buffer[idx] :: (buffer.take idx).reverse := by
        rw [← List.take_append_getElem hlt, List.reverse_concat]
      simp only [olderAllows, slotAt_ok hlt, bind, Except.bind, nearestOlder, htake]
      cases buffer[idx] with
      | none => exact ih (by omega)
      | some olderItem => rfl

theorem newerAllows_eq (t : UInt32) (slots : List (Option Item)) : newerAllows t slots =
    (slots.findSome? id).all fun newerItem => decide (t ≤ newerItem.timestamp) := by
  induction slots with
  | nil => rfl
  | cons slot slots ih =>
      cases slot with
      | none => exact ih
      | some newerItem => rfl

/-- Branch 6 fills the packet's slot if it is blank and the timestamp fits. -/
theorem insertBetween_eq {b : RtpRetransmissionBuffer} {p : RtpPacket} {oldestItem : Item}
    (hz : b.buffer.head? = some (some oldestItem))
    (hlow : isSeqLowerThan p.getSequenceNumber oldestItem.sequenceNumber = false)
    (hlen : (p.getSequenceNumber - oldestItem.sequenceNumber).toNat < b.buffer.length) :
    let idx := (p.getSequenceNumber - oldestItem.sequenceNumber).toNat
    b.insertBetween p oldestItem =
      if b.buffer[idx]? = some none ∧ fitsAt b.buffer idx p.getTimestamp = true then
        .ok (b.withSlots (b.buffer.set idx (some (newItem p))))
      else .ok b := by
  intro idx
  have hold : b.getOldest = some oldestItem := by rw [getOldest, hz]; rfl
  have hget : b.get p.getSequenceNumber = .ok b.buffer[idx] := by
    simp only [get, hold, hlow, Bool.false_eq_true, if_false]
    rw [if_neg (by omega), slotAt_ok hlen]
  have holder := olderAllows_eq b.buffer p.getTimestamp idx (Nat.le_of_lt hlen)
  rw [List.getElem?_eq_getElem hlen]
  simp only [insertBetween, hget, bind, Except.bind]
  cases b.buffer[idx] with
  | some item => rfl
  | none =>
      simp only [fitsAt, nearestNewer]
      rw [show olderAllows b.buffer p.getTimestamp
        (p.getSequenceNumber - oldestItem.sequenceNumber).toNat = _ from holder, newerAllows_eq]
      cases (nearestOlder b.buffer idx).all fun o => decide (p.getTimestamp ≥ o.timestamp) with
      | false => rfl
      | true =>
          cases ((b.buffer.drop (idx + 1)).findSome? id).all
            fun n => decide (p.getTimestamp ≤ n.timestamp) with
          | false => rfl
          | true => exact if_pos hlen

theorem insertBetween_outcome {b : RtpRetransmissionBuffer} {p : RtpPacket} {oldestItem : Item}
    (hz : b.buffer.head? = some (some oldestItem))
    (hlow : isSeqLowerThan p.getSequenceNumber oldestItem.sequenceNumber = false)
    (hlen : (p.getSequenceNumber - oldestItem.sequenceNumber).toNat < b.buffer.length) :
    ∃ b', b.insertBetween p oldestItem = .ok b' ∧ Outcome b p b' := by
  rw [insertBetween_eq hz hlow hlen]
  split_ifs with hfill
  · exact ⟨_, rfl, .between oldestItem _ hz hfill.1 (iterate_offset _ _)⟩
  · exact ⟨b, rfl, .dropped⟩

/-- The branches 4 to 6 on a deque with an item at either end. -/
theorem insertLive_eq {b : RtpRetransmissionBuffer} (p : RtpPacket) {oldestItem newestItem : Item}
    (hz : b.buffer.head? = some (some oldestItem))
    (hy : b.buffer.getLast? = some (some newestItem)) :
    b.insertLive p =
      if isSeqHigherThan p.getSequenceNumber newestItem.sequenceNumber then
        b.insertInOrder p newestItem
      else if isSeqLowerThan p.getSequenceNumber oldestItem.sequenceNumber then
        b.insertOlder p oldestItem newestItem
      else b.insertBetween p oldestItem := by
  simp only [insertLive, getNewest, getOldest, hz, hy, Option.join_some, deref, bind, Except.bind]

theorem insertLive_outcome {b : RtpRetransmissionBuffer} (p : RtpPacket) (h : InWindow b)
    (hne : b.buffer ≠ []) :
    b.DividedByZero (b.insertLive p) ∨
    ∃ b', b.insertLive p = .ok b' ∧ Outcome b p b' := by
  obtain ⟨z, rest, hb⟩ := h.exists_front hne
  obtain ⟨y, init, hb'⟩ := h.exists_back hne
  have hz : b.buffer.head? = some (some z) := by rw [hb]; rfl
  have hy : b.buffer.getLast? = some (some y) := by rw [hb', List.getLast?_concat]
  rw [insertLive_eq p hz hy]
  split_ifs with hhigh hlow
  · exact Or.inr (insertInOrder_outcome h hy)
  · exact insertOlder_outcome hz
  · have hhigh : isSeqHigherThan p.getSequenceNumber y.sequenceNumber = false := by
      simpa using hhigh
    have hlow : isSeqLowerThan p.getSequenceNumber z.sequenceNumber = false := by
      simpa using hlow
    exact Or.inr (insertBetween_outcome hz hlow (between_lt_length h hz hy hhigh hlow))

/-- `Insert` into a window that is not empty: the reset, the clearing of what is too old,
    and then the branches 4 to 6 on what is left. -/
theorem insert_eq {b : RtpRetransmissionBuffer} (p : RtpPacket) (h : InWindow b)
    {newestItem : Item} (hy : b.buffer.getLast? = some (some newestItem)) :
    let slots := b.live (newestTimestamp p newestItem)
    b.DividedByZero (b.insert p) ∨
    b.insert p =
      if isSeqLowerThan p.getSequenceNumber newestItem.sequenceNumber ∧
          isSeqHigherThan p.getTimestamp newestItem.timestamp ∨ slots = [] then
        .ok (b.withSlots [some (newItem p)])
      else (b.withSlots slots).insertLive p := by
  intro slots
  have hne : b.buffer ≠ [] := by rintro hnil; simp [hnil] at hy
  have hempty : b.buffer.isEmpty = false := by simpa using hne
  have hnew : b.getNewest = some newestItem := by rw [getNewest, hy]; rfl
  simp only [insert, hempty, Bool.false_eq_true, if_false, hnew, deref, bind, Except.bind,
    Bool.and_eq_true]
  by_cases hreset : isSeqLowerThan p.getSequenceNumber newestItem.sequenceNumber = true ∧
      isSeqHigherThan p.getTimestamp newestItem.timestamp = true
  · right
    rw [if_pos hreset, if_pos (Or.inl hreset)]
    rfl
  rw [if_neg hreset]
  rcases clearTooOldLoop_eq (newestTimestamp p newestItem) b.buffer.length b false h.front
    (Nat.le_refl _) with hclear | hclear
  · exact Or.inl ⟨by rw [clearTooOldByTimestamp, hclear.1], hclear.2⟩
  right
  rw [clearTooOldByTimestamp, hclear]
  dsimp only
  by_cases hslots : slots = []
  · have hpos := List.length_pos_iff.mpr hne
    have hlive : b.live (newestTimestamp p newestItem) = [] := hslots
    rw [if_pos (Or.inr hslots), if_pos (by simp [hlive, hpos])]
    simp only [hlive, pushBack, withSlots, List.nil_append]
  · rw [if_neg (fun h => hslots (by simpa using h.2)),
      if_neg (fun h => h.elim hreset hslots)]

/-- What the clearing has left for the branches 4 to 6: items at both ends, the newest one still
    there. -/
structure Cleared (b : RtpRetransmissionBuffer) (p : RtpPacket)
    (oldestItem newestItem frontItem : Item) : Prop where
  oldest : b.buffer.head? = some (some oldestItem)
  newest : b.buffer.getLast? = some (some newestItem)
  window : InWindow (b.withSlots (b.live (newestTimestamp p newestItem)))
  front : (b.live (newestTimestamp p newestItem)).head? = some (some frontItem)
  back : (b.live (newestTimestamp p newestItem)).getLast? = some (some newestItem)
  noReset : ¬ (isSeqLowerThan p.getSequenceNumber newestItem.sequenceNumber = true ∧
    isSeqHigherThan p.getTimestamp newestItem.timestamp = true)

/-- How an insertion into a window returns. -/
inductive Inserted (b : RtpRetransmissionBuffer) (p : RtpPacket) (b' : RtpRetransmissionBuffer) :
    Prop where
  | first (hnil : b.buffer = []) (heq : b' = b.withSlots [some (newItem p)])
  | afresh (oldestItem newestItem : Item) (hz : b.buffer.head? = some (some oldestItem))
      (hy : b.buffer.getLast? = some (some newestItem))
      (hfresh : isSeqLowerThan p.getSequenceNumber newestItem.sequenceNumber = true ∨
        b.live (newestTimestamp p newestItem) = [])
      (heq : b' = b.withSlots [some (newItem p)])
  | inOrder (oldestItem newestItem frontItem : Item)
      (h : Cleared b p oldestItem newestItem frontItem)
      (hhigh : isSeqHigherThan p.getSequenceNumber newestItem.sequenceNumber = true)
      (hok : (b.withSlots (b.live (newestTimestamp p newestItem))).insertInOrder p newestItem =
        .ok b')
  | older (oldestItem newestItem frontItem : Item)
      (h : Cleared b p oldestItem newestItem frontItem)
      (hhigh : ¬ isSeqHigherThan p.getSequenceNumber newestItem.sequenceNumber = true)
      (hok : (b.withSlots (b.live (newestTimestamp p newestItem))).insertOlder p frontItem
        newestItem = .ok b')
  | between (oldestItem newestItem frontItem : Item)
      (h : Cleared b p oldestItem newestItem frontItem)
      (hhigh : ¬ isSeqHigherThan p.getSequenceNumber newestItem.sequenceNumber = true)
      (hlow : isSeqLowerThan p.getSequenceNumber frontItem.sequenceNumber = false)
      (hok : (b.withSlots (b.live (newestTimestamp p newestItem))).insertBetween p frontItem =
        .ok b')

theorem insert_cases {b b' : RtpRetransmissionBuffer} {p : RtpPacket} (h : InWindow b)
    (hok : b.insert p = .ok b') : Inserted b p b' := by
  by_cases hne : b.buffer = []
  · refine .first hne ?_
    simpa [insert, hne, pushBack, withSlots, eq_comm] using hok
  obtain ⟨z, rest, hfront⟩ := h.exists_front hne
  obtain ⟨y, init, hback⟩ := h.exists_back hne
  have hz : b.buffer.head? = some (some z) := by rw [hfront]; rfl
  have hy : b.buffer.getLast? = some (some y) := by rw [hback, List.getLast?_concat]
  rcases insert_eq p h hy with ⟨hins, -⟩ | hins
  · rw [hok] at hins
    cases hins
  rw [hok] at hins
  split_ifs at hins with hfresh
  · exact .afresh z y hz hy (hfresh.imp_left And.left) (Except.ok.inj hins)
  rw [not_or] at hfresh
  obtain ⟨hreset, hslots⟩ := hfresh
  have hw := inWindow_live h (newestTimestamp p y)
  have hlast : (b.live (newestTimestamp p y)).getLast? = some (some y) := by
    rw [getLast?_of_suffix (b.live_suffix _) hslots, hy]
  obtain ⟨z', rest', hlive⟩ := Window.exists_front hw hslots
  have hhead : (b.live (newestTimestamp p y)).head? = some (some z') := by
    rw [withSlots_buffer] at hlive
    rw [hlive]
    rfl
  have hcleared : Cleared b p z y z' := ⟨hz, hy, hw, hhead, hlast, hreset⟩
  rw [insertLive_eq p hhead hlast] at hins
  split_ifs at hins with hhigh hlow
  · exact .inOrder z y z' hcleared hhigh hins.symm
  · exact .older z y z' hcleared hhigh hins.symm
  · exact .between z y z' hcleared hhigh (Bool.eq_false_iff.mpr hlow) hins.symm

theorem insert_outcome {b : RtpRetransmissionBuffer} (p : RtpPacket) (h : InWindow b) :
    b.DividedByZero (b.insert p) ∨
    ∃ b' n, b.insert p = .ok b' ∧ Outcome (b.withSlots (b.live n)) p b' := by
  by_cases hne : b.buffer = []
  · refine Or.inr ⟨b.withSlots [some (newItem p)], 0, ?_, .only⟩
    simp [insert, hne, pushBack, withSlots]
  obtain ⟨y, init, hb⟩ := h.exists_back hne
  have hy : b.buffer.getLast? = some (some y) := by rw [hb, List.getLast?_concat]
  rcases insert_eq p h hy with hins | hins
  · exact Or.inl hins
  rw [hins]
  split_ifs with hfresh
  · exact Or.inr ⟨_, newestTimestamp p y, rfl, .only⟩
  · rw [not_or] at hfresh
    rcases insertLive_outcome p (inWindow_live h (newestTimestamp p y)) hfresh.2 with hl | hl
    · exact Or.inl hl
    · obtain ⟨b', hok, hout⟩ := hl
      exact Or.inr ⟨b', _, hok, hout⟩

theorem outcome_of_insert {b b' : RtpRetransmissionBuffer} {p : RtpPacket} (h : InWindow b)
    (hok : b.insert p = .ok b') : ∃ n, Outcome (b.withSlots (b.live n)) p b' := by
  rcases insert_outcome p h with ⟨herr, -⟩ | ⟨b'', n, hok', hout⟩
  · rw [hok] at herr
    cases herr
  · rw [hok] at hok'
    cases hok'
    exact ⟨n, hout⟩

theorem inWindow_insert {b b' : RtpRetransmissionBuffer} {p : RtpPacket} (h : InWindow b)
    (hok : b.insert p = .ok b') : InWindow b' := by
  obtain ⟨n, hout⟩ := outcome_of_insert h hok
  exact inWindow_outcome (inWindow_live h n) hout

/-- An insertion changes the slots and nothing else. -/
theorem insert_frame {b b' : RtpRetransmissionBuffer} {p : RtpPacket} (h : InWindow b)
    (hok : b.insert p = .ok b') : ∃ slots, b' = b.withSlots slots := by
  obtain ⟨n, hout⟩ := outcome_of_insert h hok
  cases hout <;> exact ⟨_, rfl⟩

/-- With a clock rate an insertion into a window completes. -/
theorem insert_completes {b : RtpRetransmissionBuffer} (p : RtpPacket) (h : InWindow b)
    (hrate : b.clockRate ≠ 0) : ∃ b', b.insert p = .ok b' := by
  rcases insert_outcome p h with ⟨-, hzero⟩ | ⟨b', n, hok, -⟩
  · exact absurd hzero hrate
  · exact ⟨b', hok⟩

theorem inWindow_create (maxItems : UInt16) (maxRetransmissionDelayMs clockRate : UInt32) :
    InWindow (create maxItems maxRetransmissionDelayMs clockRate) := window_nil

theorem inWindow_step (b : RtpRetransmissionBuffer) (c : Call) (b' : RtpRetransmissionBuffer)
    (h : InWindow b) (hok : step b c = .ok b') : InWindow b' := by
  cases c with
  | insert p => exact inWindow_insert h hok
  | clear => cases hok; exact window_nil

theorem step_error (b : RtpRetransmissionBuffer) (c : Call) (f : Fault) (h : InWindow b)
    (herr : step b c = .error f) : f = .divisionByZero := by
  cases c with
  | insert p =>
      rcases insert_outcome p h with ⟨herr', -⟩ | ⟨b', n, hok, -⟩
      · rw [step, herr'] at herr
        cases herr
        rfl
      · rw [step, hok] at herr
        cases herr
  | clear => cases herr

/-! ## What `Get` finds -/

/-- On a deque of at most half the circle `Get` finds exactly the stored items. -/
theorem get_exact {b : RtpRetransmissionBuffer} (h : InWindow b) (hlen : b.buffer.length ≤ 32768)
    (s : UInt16) : ∃ slot, b.get s = .ok slot ∧
      ∀ item, slot = some item ↔ some item ∈ b.buffer ∧ item.sequenceNumber = s := by
  by_cases hne : b.buffer = []
  · exact ⟨none, by simp [get, getOldest, hne], by simp [hne]⟩
  obtain ⟨z, rest, hb⟩ := h.exists_front hne
  have hz : b.buffer.head? = some (some z) := by rw [hb]; rfl
  have hpos := List.length_pos_iff.mpr hne
  have hold : b.getOldest = some z := by rw [getOldest, hz]; rfl
  -- an item with number `s` can stand in one slot only
  have hpos_of : ∀ item, some item ∈ b.buffer → item.sequenceNumber = s →
      b.buffer[(s - z.sequenceNumber).toNat]? = some (some item) := by
    intro item hmem hseq
    obtain ⟨i, hi, hget⟩ := List.getElem_of_mem hmem
    have hget' : b.buffer[i]? = some (some item) := by rw [List.getElem?_eq_getElem hi, hget]
    have hkey := h.key_eq hz hget'
    rw [iterate_succ16, hseq, ← UInt16.toNat_inj, UInt16.toNat_add, UInt16.toNat_ofNat'] at hkey
    have := z.sequenceNumber.toNat_lt
    have : (s - z.sequenceNumber).toNat = i := by
      rw [UInt16.toNat_sub]
      omega
    rw [this, hget']
  have hnot : ∀ item, some item ∈ b.buffer → item.sequenceNumber = s →
      (s - z.sequenceNumber).toNat < b.buffer.length := fun item hmem hseq =>
    (List.getElem?_eq_some_iff.mp (hpos_of item hmem hseq)).1
  unfold get
  rw [hold]
  dsimp only
  split_ifs with hlow hidx
  · refine ⟨none, rfl, fun item => ⟨by simp, fun ⟨hmem, hseq⟩ => ?_⟩⟩
    have := hnot item hmem hseq
    have := z.sequenceNumber.toNat_lt
    have := s.toNat_lt
    rw [isSeqLowerThan16_iff] at hlow
    simp only [UInt16.toNat_sub] at *
    omega
  · refine ⟨none, rfl, fun item => ⟨by simp, fun ⟨hmem, hseq⟩ => ?_⟩⟩
    have := hnot item hmem hseq
    omega
  · have hidx : (s - z.sequenceNumber).toNat < b.buffer.length := by omega
    refine ⟨_, slotAt_ok hidx, fun item => ⟨fun hitem => ?_, fun ⟨hmem, hseq⟩ => ?_⟩⟩
    · refine ⟨hitem ▸ List.getElem_mem hidx, ?_⟩
      have hkey := h.key_eq hz (a := item) (by rw [List.getElem?_eq_getElem hidx, hitem])
      rw [hkey]
      exact (iterate_offset _ _).symm
    · have := hpos_of item hmem hseq
      rw [List.getElem?_eq_getElem hidx] at this
      exact Option.some.inj this

/-- **The representation invariant.** Whatever is inserted and cleared: the deque begins and
    ends with an item, an item's number is the front's plus its position, no call reads
    through a null item or outside the deque, and `Get` returns exactly what is stored as
    long as the deque spans at most half the circle. -/
theorem representation (maxItems : UInt16) (maxRetransmissionDelayMs clockRate : UInt32)
    (calls : List Call) :
    match Trace.runE step (create maxItems maxRetransmissionDelayMs clockRate) calls with
    | .error fault => fault = .divisionByZero
    | .ok b =>
      b.buffer.head? ≠ some none ∧ b.buffer.getLast? ≠ some none ∧
      (∀ i front item, b.buffer.head? = some (some front) → b.buffer[i]? = some (some item) →
        item.sequenceNumber = front.sequenceNumber + UInt16.ofNat i) ∧
      (∀ p fault, b.insert p = .error fault → fault = .divisionByZero) ∧
      (∀ s, ∃ slot, b.get s = .ok slot) ∧
      (b.buffer.length ≤ maxItems.toNat → maxItems.toNat ≤ 32768 → ∀ s,
        ∃ slot, b.get s = .ok slot ∧
          ∀ item, slot = some item ↔ some item ∈ b.buffer ∧ item.sequenceNumber = s) := by
  have hinit := inWindow_create maxItems maxRetransmissionDelayMs clockRate
  split
  · next fault hrun =>
      exact Trace.runE_error inWindow_step (fun b c f => step_error b c f) hinit hrun
  · next b hrun =>
      have h := Trace.runE_invariant inWindow_step hinit hrun
      refine ⟨h.front, h.back, ?_, ?_, get_eq b, ?_⟩
      · intro i front item hz hi
        rw [h.key_eq hz hi, iterate_succ16]
      · exact fun p fault herr => step_error b (.insert p) fault h herr
      · exact fun hlen hmax s => get_exact h (Nat.le_trans hlen hmax) s

end Bifrost.Rtc.RtpRetransmissionBuffer
