/-
  Order and age of what `RtpRetransmissionBuffer` stores.

  Seen from the newest item the ages do not increase from front to back, and none is over
  the limit (`Aged`). On ages below half the circle that is the order of the wrap-around
  comparison (`inTime_iff_aged`). `ClearTooOldByTimestamp` works from the front and stops at
  the first item that is not too old, which is right as long as the comparison is: an item
  half the circle or more behind the packet counts as newer than it, and the cleanup stops
  there at once.

  * `aged_live`: otherwise the cleanup leaves exactly what is young enough.
  * `insert_inTime_iff`: one insertion keeps order and age unless the cleanup stops so and
    the size limit does not make up for it.
  * `inTime_iff`: the same over whole runs.
-/
import Bifrost.Rtc.RetransmissionWindow

namespace Bifrost.Rtc.RtpRetransmissionBuffer

open SeqManager SparseWindow

/-! ## Ages -/

/-- The items of the slots, front first. -/
def stored (slots : List (Option Item)) : List Item := slots.filterMap id

/-- Not more than the maximum delay before `newestTimestamp`, in whole milliseconds. -/
def Fresh (b : RtpRetransmissionBuffer) (newestTimestamp timestamp : UInt32) : Prop :=
  (newestTimestamp - timestamp).toNat * 1000 / b.clockRate.toNat ≤
    b.maxRetransmissionDelayMs.toNat

instance (b : RtpRetransmissionBuffer) (n t : UInt32) : Decidable (Fresh b n t) :=
  inferInstanceAs (Decidable (_ ≤ _))

/-- Timestamps do not go back from front to back, and no item is more than the maximum delay
    older than the last one. -/
structure InTime (b : RtpRetransmissionBuffer) : Prop where
  order : (stored b.buffer).Pairwise fun a c => isSeqHigherThan a.timestamp c.timestamp = false
  recent : ∀ newestItem, b.getNewest = some newestItem →
    ∀ item ∈ stored b.buffer, Fresh b newestItem.timestamp item.timestamp

/-- The parameters keep the maximum delay below half the circle of timestamps. -/
structure Limits (b : RtpRetransmissionBuffer) : Prop where
  rate : 1000 ≤ b.clockRate.toNat
  delay : (b.maxRetransmissionDelayMs.toNat + 1) * b.clockRate.toNat / 1000 < 2 ^ 31

/-- The same, as ages before `newest`. -/
structure Aged (b : RtpRetransmissionBuffer) (newest : UInt32) (slots : List (Option Item)) :
    Prop where
  order : (stored slots).Pairwise fun a c =>
    (newest - c.timestamp).toNat ≤ (newest - a.timestamp).toNat
  fresh : ∀ item ∈ stored slots, Fresh b newest item.timestamp

section Numbers

variable {b : RtpRetransmissionBuffer}

theorem Fresh.lt (hb : Limits b) {n t : UInt32} (h : Fresh b n t) : (n - t).toNat < 2 ^ 31 := by
  have hrate := hb.rate
  have hdelay := hb.delay
  unfold Fresh at h
  have h1 := Nat.lt_mul_of_div_lt (Nat.lt_succ_of_le h) (by omega)
  rw [Nat.succ_eq_add_one] at h1
  have h2 := Nat.lt_mul_of_div_lt hdelay (by decide)
  omega

theorem isSeqHigherThan32_iff (s t : UInt32) : isSeqHigherThan s t = true ↔
    0 < (s - t).toNat ∧
      ((s - t).toNat < 2 ^ 31 ∨ (s - t).toNat = 2 ^ 31 ∧ s.toNat < t.toNat) := by
  have := s.toNat_lt
  have := t.toNat_lt
  simp only [isSeqHigherThan, seqHigherThan, SeqType.toNat, SeqType.maxValue, Bool.or_eq_true,
    Bool.and_eq_true, decide_eq_true_eq, UInt32.toNat_sub]
  omega

theorem eq_of_not_lower {s t : UInt32} (hlow : isSeqLowerThan s t = false)
    (hhigh : isSeqHigherThan s t = false) : s = t := by
  have := s.toNat_lt
  have := t.toNat_lt
  rw [← isSeqHigherThan_eq, ← Bool.not_eq_true, isSeqHigherThan32_iff] at hlow
  rw [← Bool.not_eq_true, isSeqHigherThan32_iff] at hhigh
  rw [← UInt32.toNat_inj]
  simp only [UInt32.toNat_sub] at hlow hhigh
  omega

/-- Of two timestamps less than half the circle back the younger one is higher. -/
theorem isSeqHigherThan_of_ages {n s t : UInt32} (hs : (n - s).toNat < 2 ^ 31)
    (ht : (n - t).toNat < 2 ^ 31) :
    isSeqHigherThan s t = false ↔ (n - t).toNat ≤ (n - s).toNat := by
  have := s.toNat_lt
  have := t.toNat_lt
  have := n.toNat_lt
  rw [← Bool.not_eq_true, isSeqHigherThan32_iff]
  simp only [UInt32.toNat_sub] at *
  omega

/-- The answer of `IsTooOldTimestamp` with a reasonable clock rate: nothing is cut off. -/
theorem tooOld_iff (hb : Limits b) (t n : UInt32) :
    b.tooOld t n = true ↔ isSeqHigherThan t n = false ∧ ¬ Fresh b n t := by
  have hrate := hb.rate
  have hlt : (n - t).toNat * 1000 / b.clockRate.toNat < 2 ^ 32 := by
    refine lt_of_le_of_lt (Nat.div_le_of_le_mul ?_) (n - t).toNat_lt
    rw [Nat.mul_comm]
    exact Nat.mul_le_mul_right _ hrate
  unfold tooOld Fresh
  rw [Bool.and_eq_true, Bool.not_eq_true', decide_eq_true_eq, gt_iff_lt, UInt32.lt_iff_toNat_lt,
    UInt32.toNat_ofNat', Nat.mod_eq_of_lt hlt, Nat.not_le]

/-- An age before `t` is an age before `n` and the time from `n` to `t`. -/
theorem age_add {n s t : UInt32} (ht : isSeqHigherThan t n = true) (hs : (n - s).toNat < 2 ^ 31) :
    (t - s).toNat = (t - n).toNat + (n - s).toNat := by
  rw [isSeqHigherThan32_iff] at ht
  have := s.toNat_lt
  have := t.toNat_lt
  have := n.toNat_lt
  simp only [UInt32.toNat_sub] at *
  omega

theorem Fresh.mono {n s t : UInt32} (h : Fresh b n s) (hle : (n - t).toNat ≤ (n - s).toNat) :
    Fresh b n t := (Nat.div_le_div_right (Nat.mul_le_mul_right _ hle)).trans h

theorem fresh_self (b : RtpRetransmissionBuffer) (n : UInt32) : Fresh b n n := by
  unfold Fresh
  rw [UInt32.sub_self]
  exact (Nat.le_of_eq (by simp)).trans (Nat.zero_le _)

end Numbers

/-! ## Slots in time -/

@[simp] theorem stored_nil : stored [] = [] := rfl

@[simp] theorem stored_some (item : Item) (slots : List (Option Item)) :
    stored (some item :: slots) = item :: stored slots := rfl

@[simp] theorem stored_none (slots : List (Option Item)) :
    stored (none :: slots) = stored slots := rfl

@[simp] theorem stored_append (xs ys : List (Option Item)) :
    stored (xs ++ ys) = stored xs ++ stored ys := List.filterMap_append

@[simp] theorem stored_blanks (g : Nat) : stored (List.replicate g none) = [] := by
  induction g with
  | zero => rfl
  | succ g ih => exact ih

theorem mem_stored {slots : List (Option Item)} {item : Item} :
    item ∈ stored slots ↔ some item ∈ slots := by
  simp [stored]

theorem stored_suffix {slots suf : List (Option Item)} (h : suf <:+ slots) :
    stored suf <:+ stored slots := by
  obtain ⟨pre, rfl⟩ := h
  rw [stored_append]
  exact List.suffix_append _ _

section Slots

variable {b : RtpRetransmissionBuffer} {n t : UInt32} {slots : List (Option Item)}

theorem Aged.lt (h : Aged b n slots) (hb : Limits b) {item : Item} (hmem : item ∈ stored slots) :
    (n - item.timestamp).toNat < 2 ^ 31 := (h.fresh item hmem).lt hb

theorem Aged.suffix (h : Aged b n slots) {suf : List (Option Item)} (hsuf : suf <:+ slots) :
    Aged b n suf where
  order := h.order.sublist (stored_suffix hsuf).sublist
  fresh item hmem := h.fresh item ((stored_suffix hsuf).mem hmem)

/-- For the last item it is the property in terms of the comparison of the code. -/
theorem inTime_iff_aged (hb : Limits b) {newestItem : Item}
    (hy : b.buffer.getLast? = some (some newestItem)) :
    InTime b ↔ Aged b newestItem.timestamp b.buffer := by
  have hnew : b.getNewest = some newestItem := by rw [getNewest, hy]; rfl
  constructor
  · intro h
    have hfresh := h.recent newestItem hnew
    refine ⟨h.order.imp_of_mem fun {a c} ha hc hle => ?_, hfresh⟩
    exact (isSeqHigherThan_of_ages ((hfresh a ha).lt hb) ((hfresh c hc).lt hb)).mp hle
  · intro h
    refine ⟨h.order.imp_of_mem fun {a c} ha hc hle => ?_, fun y hy' item hmem => ?_⟩
    · exact (isSeqHigherThan_of_ages (h.lt hb ha) (h.lt hb hc)).mpr hle
    · cases hnew.symm.trans hy'
      exact h.fresh item hmem

/-- With other slots the limits are the same. -/
theorem Limits.withSlots (hb : Limits b) (slots : List (Option Item)) :
    Limits (b.withSlots slots) := ⟨hb.rate, hb.delay⟩

theorem inTime_withSlots_iff (hb : Limits b) {newestItem : Item}
    (hy : slots.getLast? = some (some newestItem)) :
    InTime (b.withSlots slots) ↔ Aged b newestItem.timestamp slots :=
  (inTime_iff_aged (hb.withSlots slots) hy).trans
    ⟨fun h => ⟨h.order, h.fresh⟩, fun h => ⟨h.order, h.fresh⟩⟩

theorem inTime_nil (h : b.buffer = []) : InTime b where
  order := by rw [h]; exact List.Pairwise.nil
  recent := by rw [h]; simp

/-- Seen from a later time the order is the same. -/
theorem Aged.later (h : Aged b n slots) (hb : Limits b) (hhigher : isSeqHigherThan t n = true)
    (hfresh : ∀ item ∈ stored slots, Fresh b t item.timestamp) : Aged b t slots where
  order := h.order.imp_of_mem fun {a c} ha hc hle => by
    rw [age_add hhigher (h.lt hb ha), age_add hhigher (h.lt hb hc)]
    omega
  fresh := hfresh

/-- Nothing is higher than a packet that the front is not higher than. -/
theorem not_higher_of_front {a f : UInt32} (hhigher : isSeqHigherThan t n = true)
    (hf : (n - f).toNat < 2 ^ 31) (hle : (n - a).toNat ≤ (n - f).toNat)
    (hfront : isSeqHigherThan f t = false) : isSeqHigherThan a t = false := by
  rw [isSeqHigherThan32_iff] at hhigher
  rw [← Bool.not_eq_true, isSeqHigherThan32_iff] at hfront ⊢
  have := a.toNat_lt
  have := f.toNat_lt
  have := t.toNat_lt
  have := n.toNat_lt
  simp only [UInt32.toNat_sub] at *
  omega

theorem stored_of_front {f : Item} (hf : slots.head? = some (some f)) :
    f ∈ stored slots := mem_stored.mpr (List.mem_of_head? hf)

theorem Aged.le_front (h : Aged b n slots) {f : Item} (hf : slots.head? = some (some f)) :
    ∀ item ∈ stored slots, (n - item.timestamp).toNat ≤ (n - f.timestamp).toNat := by
  obtain ⟨rest, rfl⟩ := List.head?_eq_some_iff.mp hf
  have horder := h.order
  rw [stored_some] at horder ⊢
  intro item hmem
  rcases List.mem_cons.mp hmem with rfl | hmem
  · exact Nat.le_refl _
  · exact (List.pairwise_cons.mp horder).1 item hmem

/-- Once the front is young enough for a later time, everything is. -/
theorem Aged.later_of_front (h : Aged b n slots) (hb : Limits b)
    (hhigher : isSeqHigherThan t n = true) {f : Item} (hf : slots.head? = some (some f))
    (hfresh : Fresh b t f.timestamp) : Aged b t slots := by
  refine h.later hb hhigher fun item hmem => hfresh.mono ?_
  rw [age_add hhigher (h.lt hb hmem), age_add hhigher (h.lt hb (stored_of_front hf))]
  exact Nat.add_le_add_left (h.le_front hf item hmem) _

/-- The cleanup for a later time leaves what is young enough, unless the front looks newer. -/
theorem aged_live (h : Aged b n b.buffer) (hb : Limits b)
    (hhigher : isSeqHigherThan t n = true) {f : Item} (hf : b.buffer.head? = some (some f))
    (hfront : isSeqHigherThan f.timestamp t = false) : Aged b t (b.live t) := by
  have hlive := h.suffix (b.live_suffix t)
  cases hslots : b.live t with
  | nil => exact ⟨List.Pairwise.nil, by simp⟩
  | cons slot rest =>
      have hhead := b.live_front t
      have hkept := List.head?_dropWhile_not (b.stale t) b.buffer
      rw [← live, hslots] at hkept
      rw [hslots] at hlive hhead
      cases slot with
      | none => exact absurd rfl hhead
      | some g =>
          have hg : g ∈ stored b.buffer :=
            (stored_suffix (b.live_suffix t)).mem (by rw [hslots]; exact List.mem_cons_self)
          have hnot := not_higher_of_front hhigher (h.lt hb (stored_of_front hf))
            (h.le_front hf g hg) hfront
          refine hlive.later_of_front hb hhigher rfl ?_
          by_contra hold
          have hstale : b.stale t (some g) = true := (tooOld_iff hb _ _).mpr ⟨hnot, hold⟩
          have hkept : b.stale t (some g) = false := hkept
          rw [hstale] at hkept
          cases hkept

end Slots

/-! ## The size limit -/

/-- The slots that branch 4 keeps when the packet leaves `gap` numbers out. -/
def sizeLimitLeaves (b : RtpRetransmissionBuffer) (gap : Nat) : List (Option Item) :=
  if b.buffer.length + gap + 1 > b.maxItems.toNat then
    let numItemsToRemove := UInt16.ofNat (b.buffer.length + gap + 1 - b.maxItems.toNat)
    if numItemsToRemove.toNat > b.buffer.length - 1 then []
    else if b.buffer.length > (b.buffer.length + 2 ^ 64 - numItemsToRemove.toNat) % 2 ^ 64 then
      b.buffer.tail.dropWhile Option.isNone
    else b.buffer
  else b.buffer

theorem sizeLimitLeaves_suffix (b : RtpRetransmissionBuffer) (gap : Nat) :
    b.sizeLimitLeaves gap <:+ b.buffer := by
  unfold sizeLimitLeaves
  dsimp only
  split_ifs
  · exact List.nil_suffix
  · exact (List.dropWhile_suffix _).trans (List.tail_suffix _)
  · exact List.suffix_refl _
  · exact List.suffix_refl _

theorem sizeLimitLeaves_front {b : RtpRetransmissionBuffer} (h : InWindow b) (gap : Nat) :
    (b.sizeLimitLeaves gap).head? ≠ some none := by
  unfold sizeLimitLeaves
  dsimp only
  split_ifs
  · simp
  · exact head?_dropWhile_isNone _
  · exact h.front
  · exact h.front

/-- The numbers that `p` leaves out behind the newest item. -/
def gapTo (newestItem : Item) (p : RtpPacket) : Nat :=
  (p.getSequenceNumber - newestItem.sequenceNumber - 1).toNat

/-- Branch 4 puts the packet behind what the size limit leaves. -/
theorem insertInOrder_slots {b : RtpRetransmissionBuffer} {p : RtpPacket} (h : InWindow b)
    {newestItem : Item} (hy : b.buffer.getLast? = some (some newestItem))
    (hts : isSeqLowerThan p.getTimestamp newestItem.timestamp = false) :
    ∃ g, b.insertInOrder p newestItem = .ok (b.withSlots
      (b.sizeLimitLeaves (gapTo newestItem p) ++ List.replicate g none ++ [some (newItem p)])) := by
  have hne : b.buffer ≠ [] := by rintro hnil; simp [hnil] at hy
  have hpos := List.length_pos_iff.mpr hne
  unfold insertInOrder sizeLimitLeaves gapTo
  dsimp only
  rw [if_neg (by simp [hts])]
  split_ifs with hfull hmany hrem
  · exact ⟨0, rfl⟩
  · obtain ⟨item, rest, hb⟩ := h.exists_front hne
    refine ⟨(p.getSequenceNumber - newestItem.sequenceNumber - 1).toNat, ?_⟩
    unfold removeOldestItems
    dsimp only
    rw [if_pos hrem, removeOldest, hb]
    rfl
  · refine ⟨(p.getSequenceNumber - newestItem.sequenceNumber - 1).toNat, ?_⟩
    unfold removeOldestItems
    dsimp only
    rw [if_neg hrem]
    rfl
  · exact ⟨_, rfl⟩

/-! ## The branches of `Insert` -/

section Branches

variable {b b' : RtpRetransmissionBuffer} {p : RtpPacket} {n : UInt32} {slots : List (Option Item)}

/-- A packet at the end has age 0. -/
theorem aged_snoc_iff (g : Nat) :
    Aged b p.getTimestamp (slots ++ List.replicate g none ++ [some (newItem p)]) ↔
      Aged b p.getTimestamp slots := by
  have hstored : stored (slots ++ List.replicate g none ++ [some (newItem p)]) =
      stored slots ++ [newItem p] := by simp
  constructor
  · rintro ⟨horder, hfresh⟩
    rw [hstored] at horder hfresh
    exact ⟨(List.pairwise_append.mp horder).1, (List.forall_mem_append.mp hfresh).1⟩
  · rintro ⟨horder, hfresh⟩
    constructor
    · rw [hstored]
      refine List.pairwise_append.mpr ⟨horder, List.pairwise_singleton _ _, fun a _ c hc => ?_⟩
      rw [List.mem_singleton.mp hc]
      show (p.getTimestamp - p.getTimestamp).toNat ≤ _
      rw [UInt32.sub_self]
      exact Nat.zero_le _
    · rw [hstored]
      refine List.forall_mem_append.mpr ⟨hfresh, fun c hc => ?_⟩
      rw [List.mem_singleton.mp hc]
      exact fresh_self b _

/-- A packet in front is not younger than the old front. -/
theorem aged_cons (h : Aged b n slots) (g : Nat) (hfresh : Fresh b n p.getTimestamp)
    (hold : ∀ item ∈ stored slots, (n - item.timestamp).toNat ≤ (n - p.getTimestamp).toNat) :
    Aged b n (some (newItem p) :: (List.replicate g none ++ slots)) := by
  have hstored : stored (some (newItem p) :: (List.replicate g none ++ slots)) =
      newItem p :: stored slots := by simp
  constructor
  · rw [hstored]
    exact List.pairwise_cons.mpr ⟨hold, h.order⟩
  · rw [hstored]
    exact List.forall_mem_cons.mpr ⟨hfresh, h.fresh⟩

/-- Plain comparisons place a timestamp between two that are less than half the circle apart. -/
theorem ages_between {o t w : UInt32} (ho : (n - o).toNat < 2 ^ 31)
    (hle : (n - w).toNat ≤ (n - o).toNat) (h₁ : t ≥ o) (h₂ : t ≤ w) :
    (n - w).toNat ≤ (n - t).toNat ∧ (n - t).toNat ≤ (n - o).toNat := by
  have := o.toNat_lt
  have := t.toNat_lt
  have := w.toNat_lt
  have := n.toNat_lt
  rw [ge_iff_le, UInt32.le_iff_toNat_le] at h₁
  rw [UInt32.le_iff_toNat_le] at h₂
  simp only [UInt32.toNat_sub] at *
  omega

theorem reverse_findSome_id (l : List (Option Item)) :
    l.reverse.findSome? id = (stored l).getLast? := by
  rw [← List.head?_reverse, stored, ← List.filterMap_reverse, List.head?_filterMap]

theorem findSome_id (l : List (Option Item)) : l.findSome? id = (stored l).head? :=
  (List.head?_filterMap).symm

/-- A packet in a blank slot, between the items nearest to it. -/
theorem aged_fill (hb : Limits b) {pre post : List (Option Item)}
    (h : Aged b n (pre ++ none :: post)) {o w : Item} (ho : (stored pre).getLast? = some o)
    (hw : (stored post).head? = some w) (h₁ : p.getTimestamp ≥ o.timestamp)
    (h₂ : p.getTimestamp ≤ w.timestamp) : Aged b n (pre ++ some (newItem p) :: post) := by
  have horder := h.order
  have hfresh := h.fresh
  simp only [stored_append, stored_none] at horder hfresh
  obtain ⟨hpre, hpost, hacross⟩ := List.pairwise_append.mp horder
  obtain ⟨init, hinit⟩ := List.getLast?_eq_some_iff.mp ho
  obtain ⟨rest, hrest⟩ := List.head?_eq_some_iff.mp hw
  have hmemo : o ∈ stored pre := List.mem_of_getLast? ho
  have hmemw : w ∈ stored post := List.mem_of_head? hw
  have hfresho := hfresh o (List.mem_append_left _ hmemo)
  obtain ⟨hyounger, holder⟩ := ages_between (hfresho.lt hb) (hacross o hmemo w hmemw) h₁ h₂
  constructor
  · simp only [stored_append, stored_some]
    refine List.pairwise_append.mpr ⟨hpre, List.pairwise_cons.mpr ⟨fun c hc => ?_, hpost⟩,
      fun a ha c hc => ?_⟩
    · -- what stands behind is not older than the nearest one
      refine le_trans ?_ hyounger
      rw [hrest] at hc hpost
      rcases List.mem_cons.mp hc with rfl | hc
      · exact Nat.le_refl _
      · exact (List.pairwise_cons.mp hpost).1 c hc
    · rcases List.mem_cons.mp hc with rfl | hc
      · refine le_trans holder ?_
        rw [hinit] at ha hpre
        rcases List.mem_append.mp ha with ha | ha
        · exact (List.pairwise_append.mp hpre).2.2 a ha o (List.mem_singleton_self o)
        · rw [List.mem_singleton.mp ha]
      · exact hacross a ha c hc
  · simp only [stored_append, stored_some]
    refine List.forall_mem_append.mpr ⟨fun item hmem => hfresh item (List.mem_append_left _ hmem),
      List.forall_mem_cons.mpr ⟨hfresho.mono holder,
        fun item hmem => hfresh item (List.mem_append_right _ hmem)⟩⟩

end Branches


/-! ## One insertion -/

section Insert

variable {b b' : RtpRetransmissionBuffer} {p : RtpPacket} {oldestItem newestItem : Item}

/-- The later end pieces of what is in time are in time. -/
theorem InTime.suffix (h : InTime b) {slots : List (Option Item)} (hsuf : slots <:+ b.buffer) :
    InTime (b.withSlots slots) where
  order := h.order.sublist (stored_suffix hsuf).sublist
  recent y hy item hmem := by
    have hne : slots ≠ [] := by rintro rfl; simp [getNewest] at hy
    rw [getNewest, withSlots_buffer, getLast?_of_suffix hsuf hne] at hy
    exact h.recent y hy item ((stored_suffix hsuf).mem hmem)

theorem inTime_single (b : RtpRetransmissionBuffer) (p : RtpPacket) :
    InTime (b.withSlots [some (newItem p)]) where
  order := List.pairwise_singleton _ _
  recent y hy item hmem := by
    cases Option.some.inj hy
    rw [List.mem_singleton.mp hmem]
    exact fresh_self b _

/-- Another number of the newest item's value is only found below the oldest one where the
    deque is longer than any limit. -/
theorem insertOlder_duplicate (h : InWindow b) (hz : b.buffer.head? = some (some oldestItem))
    (hy : b.buffer.getLast? = some (some newestItem))
    (heq : p.getSequenceNumber = newestItem.sequenceNumber)
    (hok : b.insertOlder p oldestItem newestItem = .ok b') : b' = b := by
  have hkey := h.key_back hz hy
  have hmax := b.maxItems.toNat_lt
  have hpos := List.length_pos_iff.mpr (List.ne_nil_of_mem (List.mem_of_head? hz))
  have hfull : b.buffer.length + (oldestItem.sequenceNumber - p.getSequenceNumber - 1).toNat + 1 >
      b.maxItems.toNat := by
    have := oldestItem.sequenceNumber.toNat_lt
    rw [heq, hkey, iterate_succ16]
    simp only [UInt16.toNat_sub, UInt16.toNat_add, UInt16.toNat_ofNat', UInt16.reduceToNat]
    omega
  rcases b.insertOlder_cases p oldestItem newestItem with ⟨herr, -⟩ | hdrop | ⟨-, -, hroom, -⟩
  · cases herr.symm.trans hok
  · exact (Except.ok.inj (hdrop.symm.trans hok)).symm
  · exact absurd hroom (Nat.not_le_of_lt hfull)

/-- Branch 5 lets a packet in that is neither too old nor younger than the oldest item. -/
theorem insertOlder_inTime (hb : Limits b) (h : InTime b)
    (hz : b.buffer.head? = some (some oldestItem))
    (hy : b.buffer.getLast? = some (some newestItem))
    (hts : isSeqHigherThan p.getTimestamp newestItem.timestamp = false)
    (hok : b.insertOlder p oldestItem newestItem = .ok b') : InTime b' := by
  have haged := (inTime_iff_aged hb hy).mp h
  rcases b.insertOlder_cases p oldestItem newestItem with
    ⟨herr, -⟩ | hdrop | ⟨htoo, hnewer, -, heq⟩
  · cases herr.symm.trans hok
  · rw [← Except.ok.inj (hdrop.symm.trans hok)]
    exact h
  have hfresh : Fresh b newestItem.timestamp p.getTimestamp := by
    by_contra hnot
    exact Bool.eq_false_iff.mp htoo ((tooOld_iff hb _ _).mpr ⟨hts, hnot⟩)
  have hfront := (isSeqHigherThan_of_ages (hfresh.lt hb)
    (haged.lt hb (stored_of_front hz))).mp hnewer
  rw [← Except.ok.inj (heq.symm.trans hok)]
  refine (inTime_withSlots_iff hb ?_).mpr
    (aged_cons haged _ hfresh fun item hmem => (haged.le_front hz item hmem).trans hfront)
  rw [← List.cons_append, List.getLast?_append, hy]
  rfl

/-- Branch 6 lets a packet in that fits between the items nearest to its slot. -/
theorem insertBetween_inTime (hb : Limits b) (h : InTime b)
    (hz : b.buffer.head? = some (some oldestItem))
    (hy : b.buffer.getLast? = some (some newestItem))
    (hlow : isSeqLowerThan p.getSequenceNumber oldestItem.sequenceNumber = false)
    (hlen : (p.getSequenceNumber - oldestItem.sequenceNumber).toNat < b.buffer.length)
    (hok : b.insertBetween p oldestItem = .ok b') : InTime b' := by
  rw [insertBetween_eq hz hlow hlen] at hok
  split_ifs at hok with hfill
  swap
  · cases hok; exact h
  cases hok
  obtain ⟨hblank, hfits⟩ := hfill
  set idx := (p.getSequenceNumber - oldestItem.sequenceNumber).toNat with hidx
  have hget : b.buffer[idx] = none := (List.getElem?_eq_some_iff.mp hblank).2
  have hsplit : b.buffer = b.buffer.take idx ++ none :: b.buffer.drop (idx + 1) := by
    rw [← hget, ← List.drop_eq_getElem_cons hlen, List.take_append_drop]
  set pre := b.buffer.take idx with hpre
  set post := b.buffer.drop (idx + 1) with hpost
  -- the ends of the deque are items, so there is one on either side
  have hhead : pre.head? = some (some oldestItem) := by
    cases hcase : pre with
    | nil => rw [hsplit, hcase] at hz; cases hz
    | cons slot rest => rw [hsplit, hcase] at hz; exact hz
  have hlast : post.getLast? = some (some newestItem) := by
    rcases List.eq_nil_or_concat post with hnil | ⟨init, slot, hcat⟩
    · rw [hsplit, hnil, List.getLast?_concat] at hy; cases hy
    · rw [hsplit, hcat, List.concat_eq_append, ← List.cons_append, ← List.append_assoc,
        List.getLast?_concat] at hy
      rw [hcat, List.concat_eq_append, List.getLast?_concat, hy]
  obtain ⟨older, holder⟩ : ∃ o, (stored pre).getLast? = some o :=
    Option.isSome_iff_exists.mp (List.getLast?_isSome.mpr
      (List.ne_nil_of_mem (stored_of_front hhead)))
  obtain ⟨newer, hnewer⟩ : ∃ w, (stored post).head? = some w :=
    Option.isSome_iff_exists.mp (List.isSome_head?.mpr
      (List.ne_nil_of_mem (mem_stored.mpr (List.mem_of_getLast? hlast))))
  rw [fitsAt, nearestOlder, nearestNewer, reverse_findSome_id, findSome_id, ← hpre, ← hpost,
    holder, hnewer, Bool.and_eq_true] at hfits
  have haged := (inTime_iff_aged hb hy).mp h
  rw [hsplit] at haged
  have hset : b.buffer.set idx (some (newItem p)) = pre ++ some (newItem p) :: post := by
    rw [List.set_eq_take_append_cons_drop, if_pos hlen]
  have hfilled := aged_fill hb haged holder hnewer (of_decide_eq_true hfits.1)
    (of_decide_eq_true hfits.2)
  rw [hset]
  refine (inTime_withSlots_iff hb ?_).mpr hfilled
  rw [List.append_cons, List.getLast?_append, hlast]
  rfl

/-- The cleanup stops at once although the packet is far ahead: the oldest item looks newer than
    a packet in order. Then what the size limit leaves has to begin with an item that is young
    enough. -/
def CleanupReaches (b : RtpRetransmissionBuffer) (p : RtpPacket) : Prop :=
  ∀ oldestItem newestItem, b.getOldest = some oldestItem → b.getNewest = some newestItem →
    isSeqHigherThan p.getSequenceNumber newestItem.sequenceNumber = true →
    isSeqLowerThan p.getTimestamp newestItem.timestamp = false →
    isSeqHigherThan oldestItem.timestamp p.getTimestamp = true →
    ∀ frontItem, (b.sizeLimitLeaves (gapTo newestItem p)).head? = some (some frontItem) →
      Fresh b p.getTimestamp frontItem.timestamp

theorem newestTimestamp_of_not_lower
    (hts : isSeqLowerThan p.getTimestamp newestItem.timestamp = false) :
    newestTimestamp p newestItem = p.getTimestamp := by
  unfold newestTimestamp
  split_ifs with hhigh
  · rfl
  · exact (eq_of_not_lower hts (by simpa using hhigh)).symm

/-- Nothing is removed where the oldest item looks newer. -/
theorem live_of_front_higher {n : UInt32} (hz : b.buffer.head? = some (some oldestItem))
    (hhigh : isSeqHigherThan oldestItem.timestamp n = true) : b.live n = b.buffer := by
  refine live_eq_buffer hz ?_
  simp [tooOld, hhigh]

/-- A packet in order that the newest item does not outdate. -/
theorem insertInOrder_inTime_iff (hw : InWindow b) (hb : Limits b) (h : InTime b)
    (hz : b.buffer.head? = some (some oldestItem))
    (hy : b.buffer.getLast? = some (some newestItem))
    (hts : isSeqLowerThan p.getTimestamp newestItem.timestamp = false)
    (hne : b.live p.getTimestamp ≠ [])
    (hok : (b.withSlots (b.live p.getTimestamp)).insertInOrder p newestItem = .ok b') :
    InTime b' ↔ (isSeqHigherThan oldestItem.timestamp p.getTimestamp = true →
      ∀ frontItem, (b.sizeLimitLeaves (gapTo newestItem p)).head? = some (some frontItem) →
        Fresh b p.getTimestamp frontItem.timestamp) := by
  have haged := (inTime_iff_aged hb hy).mp h
  have hlast : (b.live p.getTimestamp).getLast? = some (some newestItem) := by
    rw [getLast?_of_suffix (b.live_suffix _) hne, hy]
  obtain ⟨g, hins⟩ := insertInOrder_slots (inWindow_live hw p.getTimestamp) hlast hts
  rw [hok] at hins
  cases hins
  rw [withSlots_withSlots, inTime_withSlots_iff hb List.getLast?_concat]
  show Aged b p.getTimestamp _ ↔ _
  rw [aged_snoc_iff]
  cases hfront : isSeqHigherThan oldestItem.timestamp p.getTimestamp with
  | false =>
      have hlive : Aged b p.getTimestamp (b.live p.getTimestamp) := by
        cases hhigher : isSeqHigherThan p.getTimestamp newestItem.timestamp with
        | true => exact aged_live haged hb hhigher hz hfront
        | false =>
            rw [eq_of_not_lower hts hhigher]
            exact haged.suffix (b.live_suffix _)
      exact iff_of_true (hlive.suffix (sizeLimitLeaves_suffix (b.withSlots _) _))
        (fun hf => by cases hf)
  | true =>
      -- the packet's timestamp is not the newest one: nothing stored is higher than that
      have hhigher : isSeqHigherThan p.getTimestamp newestItem.timestamp = true := by
        by_contra hnot
        have heq := eq_of_not_lower hts (by simpa using hnot)
        have hold := (isSeqHigherThan_of_ages (haged.lt hb (stored_of_front hz))
          ((fresh_self b newestItem.timestamp).lt hb)).mpr (by simp)
        rw [← heq, hfront] at hold
        cases hold
      rw [live_of_front_higher hz hfront, withSlots_self]
      have hleft := haged.suffix (b.sizeLimitLeaves_suffix (gapTo newestItem p))
      constructor
      · intro hnow _ frontItem hf
        exact hnow.fresh frontItem (stored_of_front hf)
      · intro hreach
        cases hslots : b.sizeLimitLeaves (gapTo newestItem p) with
        | nil => exact ⟨List.Pairwise.nil, by simp⟩
        | cons slot rest =>
            cases slot with
            | none => exact absurd (by rw [hslots]; rfl) (sizeLimitLeaves_front hw _)
            | some frontItem =>
                rw [hslots] at hreach hleft
                exact hleft.later_of_front hb hhigher rfl (hreach rfl frontItem rfl)

theorem cleanupReaches_iff (hz : b.buffer.head? = some (some oldestItem))
    (hy : b.buffer.getLast? = some (some newestItem)) :
    CleanupReaches b p ↔
      (isSeqHigherThan p.getSequenceNumber newestItem.sequenceNumber = true →
        isSeqLowerThan p.getTimestamp newestItem.timestamp = false →
        isSeqHigherThan oldestItem.timestamp p.getTimestamp = true →
        ∀ frontItem, (b.sizeLimitLeaves (gapTo newestItem p)).head? = some (some frontItem) →
          Fresh b p.getTimestamp frontItem.timestamp) := by
  have holdest : b.getOldest = some oldestItem := by rw [getOldest, hz]; rfl
  have hnewest : b.getNewest = some newestItem := by rw [getNewest, hy]; rfl
  constructor
  · exact fun hreach => hreach oldestItem newestItem holdest hnewest
  · intro hreach z y hz' hy'
    cases holdest.symm.trans hz'
    cases hnewest.symm.trans hy'
    exact hreach

/-- **One insertion.** It keeps order and age exactly when the cleanup reaches what is too
    old, or the size limit makes up for it. -/
theorem insert_inTime_iff (hw : InWindow b) (hb : Limits b) (h : InTime b)
    (hok : b.insert p = .ok b') : InTime b' ↔ CleanupReaches b p := by
  have hsuf (n : UInt32) : InTime (b.withSlots (b.live n)) := h.suffix (b.live_suffix n)
  cases insert_cases hw hok with
  | first hnil heq =>
      rw [heq]
      refine iff_of_true (inTime_single b p) fun z _ hz => ?_
      simp [getOldest, hnil] at hz
  | afresh z y hz hy hfresh heq =>
      -- the packet is not in order, or the cleanup went through
      rw [cleanupReaches_iff hz hy, heq]
      refine iff_of_true (inTime_single b p) fun hhigh hts hnewer => ?_
      rcases hfresh with hlow | hnil
      · rw [isSeqLowerThan_asymm hlow] at hhigh
        cases hhigh
      · rw [newestTimestamp_of_not_lower hts, live_of_front_higher hz hnewer] at hnil
        rw [hnil] at hz
        cases hz
  | inOrder z y z' hc hhigh hok =>
      rw [cleanupReaches_iff hc.oldest hc.newest]
      cases hts : isSeqLowerThan p.getTimestamp y.timestamp with
      | true =>
          simp only [insertInOrder, hts, if_true] at hok
          cases hok
          exact iff_of_true (hsuf _) fun _ hf => by cases hf
      | false =>
          have hne : b.live p.getTimestamp ≠ [] := by
            intro hnil
            have hback := hc.back
            rw [newestTimestamp_of_not_lower hts, hnil] at hback
            cases hback
          rw [newestTimestamp_of_not_lower hts] at hok
          rw [insertInOrder_inTime_iff hw hb h hc.oldest hc.newest hts hne hok]
          exact ⟨fun hr _ _ => hr, fun hr => hr hhigh rfl⟩
  | older z y z' hc hhigh hok =>
      rw [cleanupReaches_iff hc.oldest hc.newest]
      refine iff_of_true ?_ fun hh => absurd hh hhigh
      by_cases hts : isSeqHigherThan p.getTimestamp y.timestamp = true
      · have heq : p.getSequenceNumber = y.sequenceNumber := by
          by_contra hdiff
          exact hhigh (isSeqHigherThan_of_not hdiff (by simpa [hts] using hc.noReset))
        rw [insertOlder_duplicate hc.window hc.front hc.back heq hok]
        exact hsuf _
      · exact insertOlder_inTime (hb.withSlots _) (hsuf _) hc.front hc.back (by simpa using hts) hok
  | between z y z' hc hhigh hlow hok =>
      rw [cleanupReaches_iff hc.oldest hc.newest]
      refine iff_of_true ?_ fun hh => absurd hh hhigh
      exact insertBetween_inTime (hb.withSlots _) (hsuf _) hc.front hc.back hlow
        (between_lt_length hc.window hc.front hc.back (by simpa using hhigh) hlow) hok

end Insert

/-! ## Whole runs -/

/-- What a run keeps besides order and age: the window and the parameters. -/
def Kept (b : RtpRetransmissionBuffer) : Prop := InWindow b ∧ Limits b

theorem kept_step (b : RtpRetransmissionBuffer) (c : Call) (b' : RtpRetransmissionBuffer)
    (h : Kept b) (hok : step b c = .ok b') : Kept b' := by
  refine ⟨inWindow_step b c b' h.1 hok, ?_⟩
  cases c with
  | clear => cases hok; exact h.2.withSlots []
  | insert p =>
      obtain ⟨slots, rfl⟩ := insert_frame h.1 hok
      exact h.2.withSlots slots

theorem step_completes {b : RtpRetransmissionBuffer} (h : Kept b) (c : Call) :
    ∃ b', step b c = .ok b' := by
  cases c with
  | clear => exact ⟨_, rfl⟩
  | insert p =>
      refine insert_completes p h.1 fun hzero => ?_
      have hrate := h.2.rate
      rw [hzero] at hrate
      exact absurd hrate (by decide)

/-- **Order and age over whole runs.** All calls complete, and after each of them the stored
    items are in time exactly when the cleanup of every insertion reached what was too old. -/
theorem inTime_iff (maxItems : UInt16) (maxRetransmissionDelayMs clockRate : UInt32)
    (hrate : 1000 ≤ clockRate.toNat)
    (hdelay : (maxRetransmissionDelayMs.toNat + 1) * clockRate.toNat / 1000 < 2 ^ 31)
    (calls : List Call) :
    let after := Trace.runE step (create maxItems maxRetransmissionDelayMs clockRate)
    (∃ b, after calls = .ok b) ∧
    ((∀ pre post b, calls = pre ++ post → after pre = .ok b → InTime b) ↔
      (∀ pre p post b, calls = pre ++ .insert p :: post → after pre = .ok b →
        CleanupReaches b p)) := by
  intro after
  have hinit : Kept (create maxItems maxRetransmissionDelayMs clockRate) :=
    ⟨inWindow_create _ _ _, hrate, hdelay⟩
  refine ⟨Trace.runE_completes kept_step step_completes hinit calls, ?_⟩
  have hiff := @Trace.eachState_iff _ _ _ step InTime Kept
    (fun b c => ∀ p, c = .insert p → CleanupReaches b p)
    (create maxItems maxRetransmissionDelayMs clockRate) hinit (inTime_nil rfl) kept_step ?_ calls
  · refine hiff.trans ⟨fun h pre p post b hsplit hpre => ?_,
      fun h pre c post b b' hsplit hpre _ p hc => ?_⟩
    · obtain ⟨b', hok⟩ := step_completes (Trace.runE_invariant kept_step hinit hpre) (.insert p)
      exact h pre (.insert p) post b b' hsplit hpre hok p rfl
    · subst hc
      exact h pre p post b hsplit hpre
  · intro b c b' hkept hin hok
    cases c with
    | clear =>
        cases hok
        exact iff_of_true (inTime_nil rfl) (fun p hc => by cases hc)
    | insert p =>
        rw [insert_inTime_iff hkept.1 hkept.2 hin hok]
        exact ⟨fun h q hq => by cases hq; exact h, fun h => h p rfl⟩

/-- Two packets, and a third half the circle of timestamps after the second. -/
def jumpCalls : List Call :=
  [.insert (.media 1 0), .insert (.media 2 10), .insert (.media 3 2147483657)]

/-- The items of the first two packets stay, more than 37 hours old. -/
theorem jump_not_inTime :
    ¬ ∀ b, Trace.runE step (create 10 1000 16000) jumpCalls = .ok b → InTime b := by
  intro h
  have hrecent := (h _ rfl).recent (newItem (.media 3 2147483657)) rfl (newItem (.media 1 0))
    (List.mem_cons_self)
  exact absurd hrecent (by decide)

theorem inTime_iff_jump :
    let after := Trace.runE step (create 10 1000 16000)
    (∃ b, after jumpCalls = .ok b) ∧
    ((∀ pre post b, jumpCalls = pre ++ post → after pre = .ok b → InTime b) ↔
      (∀ pre p post b, jumpCalls = pre ++ .insert p :: post → after pre = .ok b →
        CleanupReaches b p)) :=
  inTime_iff 10 1000 16000 (by decide) (by decide) jumpCalls

end Bifrost.Rtc.RtpRetransmissionBuffer
