/-
  `RtpRetransmissionBuffer` does not mind the order of insertion.

  The packets of a `Fitting` batch lie within `max_items_` consecutive numbers, their
  timestamps go up with the numbers and none is outdated by the newest. `insert_placed`: in
  such a batch every single insertion takes one of the branches that store the packet, at
  its place, and nothing is cleared. `insert_order_independent`: so every order leads to the
  same deque, the layout of the batch.
-/
import Bifrost.Lib.Placement
import Bifrost.Rtc.RetransmissionWindow

namespace Bifrost.Rtc.RtpRetransmissionBuffer

open SeqManager SparseWindow Placement

/-- How far the item's number is behind the first number of the window. -/
def offset (base : UInt16) (item : Item) : Nat := (item.sequenceNumber - base).toNat

/-- A batch of packets that fits into a buffer of these parameters: distinct numbers in the
    `maxItems` from `base` on, timestamps that go up with the numbers, less than half the
    circle apart and none outdated. -/
structure Fitting (b : RtpRetransmissionBuffer) (base : UInt16) (packets : List RtpPacket) :
    Prop where
  inside : ∀ p ∈ packets, (p.getSequenceNumber - base).toNat < b.maxItems.toNat
  distinct : (packets.map RtpPacket.getSequenceNumber).Nodup
  ordered : ∀ p ∈ packets, ∀ q ∈ packets, (p.getSequenceNumber - base).toNat ≤
    (q.getSequenceNumber - base).toNat → p.getTimestamp.toNat ≤ q.getTimestamp.toNat
  spread : ∀ p ∈ packets, ∀ q ∈ packets,
    q.getTimestamp.toNat - p.getTimestamp.toNat < 2 ^ 31
  fresh : ∀ p ∈ packets, ∀ q ∈ packets,
    (q.getTimestamp.toNat - p.getTimestamp.toNat) * 1000 / b.clockRate.toNat ≤
      b.maxRetransmissionDelayMs.toNat

/-! ## The comparators on a batch -/

theorem isSeqLowerThan_offset {base s t : UInt16} (hs : (s - base).toNat < 32768)
    (ht : (t - base).toNat < 32768) :
    isSeqLowerThan s t = true ↔ (s - base).toNat < (t - base).toNat := by
  have := s.toNat_lt
  have := t.toNat_lt
  have := base.toNat_lt
  rw [isSeqLowerThan16_iff]
  simp only [UInt16.toNat_sub] at *
  omega

theorem isSeqHigherThan_plain {s t : UInt32} (hs : s.toNat - t.toNat < 2 ^ 31)
    (ht : t.toNat - s.toNat < 2 ^ 31) : isSeqHigherThan s t = true ↔ t.toNat < s.toNat := by
  simp only [isSeqHigherThan, seqHigherThan, SeqType.toNat, SeqType.maxValue, Bool.or_eq_true,
    Bool.and_eq_true, decide_eq_true_eq]
  omega

theorem toNat_sub_offset {base s t : UInt16} (h : (s - base).toNat ≤ (t - base).toNat) :
    (t - s).toNat = (t - base).toNat - (s - base).toNat := by
  have := s.toNat_lt
  have := t.toNat_lt
  have := base.toNat_lt
  simp only [UInt16.toNat_sub] at *
  omega

section Batch

variable {b : RtpRetransmissionBuffer} {base : UInt16} {packets : List RtpPacket}
  {p q : RtpPacket}

theorem Fitting.of_perm (h : Fitting b base packets) {order : List RtpPacket}
    (hp : order.Perm packets) : Fitting b base order where
  inside p hpm := h.inside p (hp.mem_iff.mp hpm)
  distinct := (hp.map _).nodup_iff.mpr h.distinct
  ordered p hpm q hqm := h.ordered p (hp.mem_iff.mp hpm) q (hp.mem_iff.mp hqm)
  spread p hpm q hqm := h.spread p (hp.mem_iff.mp hpm) q (hp.mem_iff.mp hqm)
  fresh p hpm q hqm := h.fresh p (hp.mem_iff.mp hpm) q (hp.mem_iff.mp hqm)

theorem Fitting.of_prefix {more : List RtpPacket} (h : Fitting b base (packets ++ more)) :
    Fitting b base packets where
  inside p hp := h.inside p (List.mem_append_left _ hp)
  distinct := by
    have := h.distinct
    rw [List.map_append, List.nodup_append] at this
    exact this.1
  ordered p hp q hq := h.ordered p (List.mem_append_left _ hp) q (List.mem_append_left _ hq)
  spread p hp q hq := h.spread p (List.mem_append_left _ hp) q (List.mem_append_left _ hq)
  fresh p hp q hq := h.fresh p (List.mem_append_left _ hp) q (List.mem_append_left _ hq)

/-- A packet with a lower number has no newer timestamp. -/
theorem Fitting.not_newer (h : Fitting b base packets) (hp : p ∈ packets) (hq : q ∈ packets)
    (hle : (p.getSequenceNumber - base).toNat ≤ (q.getSequenceNumber - base).toNat) :
    isSeqHigherThan p.getTimestamp q.getTimestamp = false := by
  have := h.ordered p hp q hq hle
  rw [← Bool.not_eq_true, isSeqHigherThan_plain (h.spread q hq p hp) (h.spread p hp q hq)]
  omega

/-- No packet of the batch outdates another. -/
theorem Fitting.not_tooOld (h : Fitting b base packets) (hp : p ∈ packets) (hq : q ∈ packets) :
    b.tooOld p.getTimestamp q.getTimestamp = false := by
  have hpq := h.spread p hp q hq
  have hqp := h.spread q hq p hp
  have hfresh := h.fresh p hp q hq
  have hd := b.maxRetransmissionDelayMs.toNat_lt
  unfold tooOld
  cases hhigh : isSeqHigherThan p.getTimestamp q.getTimestamp with
  | true => rfl
  | false =>
      have hle : p.getTimestamp.toNat ≤ q.getTimestamp.toNat := by
        rw [← Bool.not_eq_true, isSeqHigherThan_plain hqp hpq] at hhigh
        omega
      rw [Bool.not_false, Bool.true_and, decide_eq_false_iff_not, gt_iff_lt,
        UInt32.lt_iff_toNat_lt, UInt32.toNat_ofNat',
        UInt32.toNat_sub_of_le _ _ (UInt32.le_iff_toNat_le.mpr hle), Nat.mod_eq_of_lt (by omega)]
      omega

/-- The stored items of a batch. -/
def items (packets : List RtpPacket) : List Item := packets.map newItem

theorem Fitting.nodup_offset (h : Fitting b base packets) :
    ((items packets).map (offset base)).Nodup := by
  rw [items, List.map_map]
  have hcomp : offset base ∘ newItem = (fun s : UInt16 => (s - base).toNat) ∘
      RtpPacket.getSequenceNumber := rfl
  rw [hcomp, ← List.map_map]
  refine h.distinct.map fun s t hst => ?_
  have hst : (s - base).toNat = (t - base).toNat := hst
  rw [UInt16.toNat_inj] at hst
  exact (UInt16.sub_left_inj base).mp hst

/-- The deque that holds the batch: from the oldest number to the newest, every packet at its
    place. -/
def laid (base : UInt16) (packets : List RtpPacket) : List (Option Item) :=
  placed (offset base) (items packets)

theorem mem_items {item : Item} (h : item ∈ items packets) : ∃ q ∈ packets, newItem q = item :=
  List.mem_map.mp h

/-- The deque of a batch begins and ends with one of its packets, those with the least and
    the greatest number. -/
theorem Fitting.exists_ends (h : Fitting b base packets) (hne : packets ≠ []) :
    ∃ oldest ∈ packets, ∃ newest ∈ packets,
      (laid base packets).head? = some (some (newItem oldest)) ∧
      (laid base packets).getLast? = some (some (newItem newest)) ∧
      Extent (offset base) (items packets) (offset base (newItem oldest))
        (offset base (newItem newest)) := by
  obtain ⟨lo, hi, hext⟩ : ∃ lo hi, Extent (offset base) (items packets) lo hi :=
    exists_extent (by simpa [items] using hne)
  obtain ⟨z, hz, hzlo⟩ := List.mem_map.mp hext.lo_mem
  obtain ⟨y, hy, hyhi⟩ := List.mem_map.mp hext.hi_mem
  obtain ⟨oldest, hold, rfl⟩ := mem_items hz
  obtain ⟨newest, hnew, rfl⟩ := mem_items hy
  have hle := hext.bounds _ hy
  subst hzlo hyhi
  refine ⟨oldest, hold, newest, hnew, ?_, ?_, hext⟩
  · rw [laid, List.head?_eq_getElem?, getElem?_placed hext, if_pos (by omega), Nat.add_zero,
      (content_eq_some_iff h.nodup_offset).mpr ⟨hz, rfl⟩]
  · rw [laid, List.getLast?_eq_getElem?, length_placed hext, getElem?_placed hext,
      if_pos (by omega), (content_eq_some_iff h.nodup_offset).mpr ⟨hy, by omega⟩]

/-- What stands in slot `i` of the deque is a packet of the batch with the `i`th number. -/
theorem Fitting.slot (h : Fitting b base packets) {lo hi i : Nat} {item : Item}
    (hext : Extent (offset base) (items packets) lo hi)
    (hi : (laid base packets)[i]? = some (some item)) :
    ∃ q ∈ packets, newItem q = item ∧ offset base item = lo + i := by
  rw [laid, getElem?_placed hext] at hi
  split_ifs at hi
  obtain ⟨hmem, hoff⟩ := (content_eq_some_iff h.nodup_offset).mp (Option.some.inj hi)
  obtain ⟨q, hq, hitem⟩ := mem_items hmem
  exact ⟨q, hq, hitem, hoff⟩

/-! ## One insertion -/

/-- The gap the code computes between two packets of a window. -/
theorem gap_offset {base s t : UInt16} (h : (s - base).toNat < (t - base).toNat) :
    (t - s - 1).toNat = (t - base).toNat - (s - base).toNat - 1 := by
  have hsub := toNat_sub_offset (Nat.le_of_lt h)
  have := (t - s).toNat_lt
  rw [UInt16.toNat_sub, hsub]
  simp only [UInt16.reduceToNat]
  omega

/-- Branch 4, for a packet above the batch. -/
theorem Fitting.insertInOrder_eq (h : Fitting b base (packets ++ [p])) {lo : Nat}
    (hq : q ∈ packets)
    (hext : Extent (offset base) (items packets) lo (offset base (newItem q)))
    (habove : offset base (newItem q) < offset base (newItem p)) :
    (b.withSlots (laid base packets)).insertInOrder p (newItem q) =
      .ok (b.withSlots (laid base (packets ++ [p]))) := by
  have hp : p ∈ packets ++ [p] := List.mem_append_right _ List.mem_cons_self
  have hq' : q ∈ packets ++ [p] := List.mem_append_left _ hq
  have hts : isSeqLowerThan p.getTimestamp (newItem q).timestamp = false :=
    h.not_newer hq' hp (Nat.le_of_lt habove)
  have hgap : (p.getSequenceNumber - (newItem q).sequenceNumber - 1).toNat =
      offset base (newItem p) - offset base (newItem q) - 1 := gap_offset habove
  have hlen : (laid base packets).length = offset base (newItem q) - lo + 1 := length_placed hext
  have hroom : offset base (newItem p) < b.maxItems.toNat := h.inside p hp
  have hlo : lo ≤ offset base (newItem q) :=
    (hext.bounds _ (List.mem_map_of_mem hq)).1
  simp only [insertInOrder, hts, Bool.false_eq_true, if_false, hgap, withSlots_buffer, hlen,
    withSlots_maxItems]
  rw [if_neg (by omega)]
  have hlaid := placed_concat_above hext habove
  simp only [withSlots, laid, items, List.map_append, List.map_cons, List.map_nil]
  rw [← items, hlaid]

/-- Branch 5, for a packet below the batch. -/
theorem Fitting.insertOlder_eq (h : Fitting b base (packets ++ [p])) (hrate : b.clockRate ≠ 0)
    {oldest newest : RtpPacket} (hold : oldest ∈ packets) (hnew : newest ∈ packets)
    (hext : Extent (offset base) (items packets) (offset base (newItem oldest))
      (offset base (newItem newest)))
    (hbelow : offset base (newItem p) < offset base (newItem oldest)) :
    (b.withSlots (laid base packets)).insertOlder p (newItem oldest) (newItem newest) =
      .ok (b.withSlots (laid base (packets ++ [p]))) := by
  have hp : p ∈ packets ++ [p] := List.mem_append_right _ List.mem_cons_self
  have hold' : oldest ∈ packets ++ [p] := List.mem_append_left _ hold
  have hnew' : newest ∈ packets ++ [p] := List.mem_append_left _ hnew
  have hlive : (b.withSlots (laid base packets)).isTooOldTimestamp p.getTimestamp
      (newItem newest).timestamp = .ok false := by
    rcases (b.withSlots (laid base packets)).isTooOldTimestamp_eq p.getTimestamp
      (newItem newest).timestamp with ⟨-, hzero⟩ | hok
    · exact absurd hzero hrate
    · rw [hok]
      exact congrArg Except.ok (h.not_tooOld hp hnew')
  have hts : isSeqHigherThan p.getTimestamp (newItem oldest).timestamp = false :=
    h.not_newer hp hold' (Nat.le_of_lt hbelow)
  have hgap : ((newItem oldest).sequenceNumber - p.getSequenceNumber - 1).toNat =
      offset base (newItem oldest) - offset base (newItem p) - 1 := gap_offset hbelow
  have hlen : (laid base packets).length =
      offset base (newItem newest) - offset base (newItem oldest) + 1 := length_placed hext
  have hroom : offset base (newItem newest) < b.maxItems.toNat := h.inside newest hnew'
  have hle := (hext.bounds _ (List.mem_map_of_mem hnew)).1
  simp only [insertOlder, hlive, bind, Except.bind, hts, Bool.false_eq_true, if_false, hgap,
    withSlots_buffer, hlen, withSlots_maxItems]
  rw [if_neg (by omega)]
  have hlaid := placed_concat_below hext hbelow
  simp only [withSlots, laid, items, List.map_append, List.map_cons, List.map_nil]
  rw [← items, hlaid]

theorem mem_of_nearestOlder {buffer : List (Option Item)} {idx : Nat} {item : Item}
    (h : nearestOlder buffer idx = some item) :
    ∃ j < idx, buffer[j]? = some (some item) := by
  obtain ⟨slot, hmem, rfl⟩ := List.exists_of_findSome?_eq_some h
  obtain ⟨j, hj, hget⟩ := List.mem_take_iff_getElem.mp (List.mem_reverse.mp hmem)
  exact ⟨j, by omega, by rw [List.getElem?_eq_getElem (by omega), hget]⟩

theorem mem_of_nearestNewer {buffer : List (Option Item)} {idx : Nat} {item : Item}
    (h : nearestNewer buffer idx = some item) :
    ∃ j > idx, buffer[j]? = some (some item) := by
  obtain ⟨slot, hmem, rfl⟩ := List.exists_of_findSome?_eq_some h
  obtain ⟨j, hj, hget⟩ := List.mem_drop_iff_getElem.mp hmem
  exact ⟨idx + 1 + j, by omega, by rw [List.getElem?_eq_getElem (by omega), hget]⟩

/-- Branch 6, for a packet inside the batch. -/
theorem Fitting.insertBetween_eq (h : Fitting b base (packets ++ [p]))
    (hmax : b.maxItems.toNat ≤ 32768) {oldest newest : RtpPacket} (hold : oldest ∈ packets)
    (hhead : (laid base packets).head? = some (some (newItem oldest)))
    (hext : Extent (offset base) (items packets) (offset base (newItem oldest))
      (offset base (newItem newest)))
    (hlo : offset base (newItem oldest) ≤ offset base (newItem p))
    (hhi : offset base (newItem p) ≤ offset base (newItem newest)) :
    (b.withSlots (laid base packets)).insertBetween p (newItem oldest) =
      .ok (b.withSlots (laid base (packets ++ [p]))) := by
  have hp : p ∈ packets ++ [p] := List.mem_append_right _ List.mem_cons_self
  have hfresh : ∀ item ∈ items packets, offset base item ≠ offset base (newItem p) := by
    have := h.nodup_offset
    rw [items, List.map_append, List.map_append, List.nodup_append] at this
    exact fun item hitem => this.2.2 _ (List.mem_map_of_mem hitem) _ (by simp)
  have hidx : (p.getSequenceNumber - (newItem oldest).sequenceNumber).toNat =
      offset base (newItem p) - offset base (newItem oldest) := toNat_sub_offset hlo
  have hlen : (laid base packets).length =
      offset base (newItem newest) - offset base (newItem oldest) + 1 := length_placed hext
  have hlow : isSeqLowerThan p.getSequenceNumber (newItem oldest).sequenceNumber = false := by
    have h1 : (p.getSequenceNumber - base).toNat < b.maxItems.toNat := h.inside p hp
    have h2 := h.inside oldest (List.mem_append_left _ hold)
    rw [← Bool.not_eq_true]
    intro hlt
    have := (@isSeqLowerThan_offset base _ _ (by omega) (by exact h2.trans_le hmax)).mp hlt
    exact absurd hlo (Nat.not_le.mpr this)
  have hslots : (b.withSlots (laid base packets)).buffer = laid base packets := rfl
  rw [RtpRetransmissionBuffer.insertBetween_eq hhead hlow (by rw [hidx, hslots]; omega), hidx,
    hslots, if_pos]
  · have hlaid := placed_concat_inside hext hlo hhi hfresh
    simp only [withSlots, laid, items, List.map_append, List.map_cons, List.map_nil]
    rw [← items, hlaid]
  constructor
  · rw [laid, getElem?_placed hext, if_pos (by omega)]
    refine congrArg some (content_eq_none_iff.mpr fun item hitem => ?_)
    have := hfresh item hitem
    omega
  · -- the neighbours are packets of the batch with a lower and a higher number
    rw [fitsAt, Bool.and_eq_true, Option.all_eq_true, Option.all_eq_true]
    constructor
    · intro item hitem
      obtain ⟨j, hj, hget⟩ := mem_of_nearestOlder hitem
      obtain ⟨q, hq, rfl, hoff⟩ := h.of_prefix.slot hext hget
      exact decide_eq_true (UInt32.le_iff_toNat_le.mpr
        (h.ordered q (List.mem_append_left _ hq) p hp
          (show offset base (newItem q) ≤ offset base (newItem p) by omega)))
    · intro item hitem
      obtain ⟨j, hj, hget⟩ := mem_of_nearestNewer hitem
      obtain ⟨q, hq, rfl, hoff⟩ := h.of_prefix.slot hext hget
      exact decide_eq_true (UInt32.le_iff_toNat_le.mpr
        (h.ordered p hp q (List.mem_append_left _ hq)
          (show offset base (newItem p) ≤ offset base (newItem q) by omega)))

/-- One more packet of a batch is stored at its place, and nothing else changes. -/
theorem Fitting.insert_placed (h : Fitting b base (packets ++ [p]))
    (hmax : b.maxItems.toNat ≤ 32768) (hrate : b.clockRate ≠ 0)
    (hw : InWindow (b.withSlots (laid base packets))) :
    (b.withSlots (laid base packets)).insert p =
      .ok (b.withSlots (laid base (packets ++ [p]))) := by
  by_cases hne : packets = []
  · subst hne
    have hsingle : laid base [p] = [some (newItem p)] := placed_singleton _
    rw [List.nil_append, hsingle]
    rfl
  have hp : p ∈ packets ++ [p] := List.mem_append_right _ List.mem_cons_self
  obtain ⟨oldest, hold, newest, hnew, hhead, hlast, hext⟩ := h.of_prefix.exists_ends hne
  have hold' : oldest ∈ packets ++ [p] := List.mem_append_left _ hold
  have hnew' : newest ∈ packets ++ [p] := List.mem_append_left _ hnew
  have hwin : ∀ q ∈ packets ++ [p], (q.getSequenceNumber - base).toNat < 32768 :=
    fun q hq => (h.inside q hq).trans_le hmax
  have hlive : (b.withSlots (laid base packets)).live (newestTimestamp p (newItem newest)) =
      laid base packets := by
    refine live_eq_buffer hhead ?_
    unfold newestTimestamp
    split_ifs
    · exact h.not_tooOld hold' hp
    · exact h.not_tooOld hold' hnew'
  have hslots : laid base packets ≠ [] := by
    rintro hnil
    rw [hnil] at hhead
    cases hhead
  rcases insert_eq p hw hlast with ⟨-, hzero⟩ | hins
  · exact absurd hzero hrate
  rw [hins, hlive, if_neg]
  · rw [withSlots_withSlots, insertLive_eq p hhead hlast, isSeqHigherThan_eq]
    split_ifs with hhigh hlow
    · exact h.insertInOrder_eq hnew hext
        ((isSeqLowerThan_offset (hwin newest hnew') (hwin p hp)).mp hhigh)
    · exact h.insertOlder_eq hrate hold hnew hext
        ((isSeqLowerThan_offset (hwin p hp) (hwin oldest hold')).mp hlow)
    · have hhi := mt (isSeqLowerThan_offset (hwin newest hnew') (hwin p hp)).mpr hhigh
      have hlo := mt (isSeqLowerThan_offset (hwin p hp) (hwin oldest hold')).mpr hlow
      exact h.insertBetween_eq hmax hold hhead hext (Nat.le_of_not_lt hlo) (Nat.le_of_not_lt hhi)
  · rintro (⟨hlow, hhigh⟩ | hnil)
    · -- a lower number with a newer timestamp does not occur in a batch
      have hlt := (isSeqLowerThan_offset (hwin p hp) (hwin newest hnew')).mp hlow
      rw [show isSeqHigherThan p.getTimestamp (newItem newest).timestamp = false from
        h.not_newer hp hnew' (Nat.le_of_lt hlt)] at hhigh
      cases hhigh
    · exact hslots hnil

end Batch

/-! ## Every order -/

/-- **Order independence.** Whatever the order in which the packets of a fitting batch are
    inserted into an empty buffer, it then holds each of them at its place, from the oldest
    number to the newest. -/
theorem insert_order_independent (maxItems : UInt16)
    (maxRetransmissionDelayMs clockRate : UInt32) (hmax : maxItems.toNat ≤ 32768)
    (hrate : 1000 ≤ clockRate.toNat) (base : UInt16) (packets : List RtpPacket)
    (hfit : Fitting (create maxItems maxRetransmissionDelayMs clockRate) base packets)
    (order : List RtpPacket) (hperm : order.Perm packets) :
    Trace.runE step (create maxItems maxRetransmissionDelayMs clockRate)
        (order.map Call.insert) =
      .ok ((create maxItems maxRetransmissionDelayMs clockRate).withSlots
        (laid base packets)) := by
  have hrate' : clockRate ≠ 0 := by
    rintro rfl
    exact absurd hrate (by decide)
  have hrun : ∀ done, Fitting (create maxItems maxRetransmissionDelayMs clockRate) base done →
      Trace.runE step (create maxItems maxRetransmissionDelayMs clockRate)
          (done.map Call.insert) =
        .ok ((create maxItems maxRetransmissionDelayMs clockRate).withSlots (laid base done)) := by
    intro done
    induction done using List.reverseRecOn with
    | nil => exact fun _ => rfl
    | append_singleton done p ih =>
        intro h
        have hdone := ih h.of_prefix
        have hw := Trace.runE_invariant inWindow_step (inWindow_create _ _ _) hdone
        rw [List.map_append, List.map_singleton, Trace.runE_concat_iff]
        exact ⟨_, hdone, h.insert_placed hmax hrate' hw⟩
  have horder := hfit.of_perm hperm
  rw [hrun order horder, laid, laid,
    placed_perm horder.nodup_offset (hperm.map newItem)]
  rfl

/-- Three packets across the wrap of the sequence numbers, number 1 missing. -/
def wrappedBatch : List RtpPacket := [.media 65535 160, .media 0 160, .media 2 320]

theorem fitting_wrappedBatch : Fitting (create 4 1000 16000) 65535 wrappedBatch where
  inside := by decide
  distinct := by decide
  ordered := by decide
  spread := by decide
  fresh := by decide

theorem wrapped_batch_newest_first :
    Trace.runE step (create 4 1000 16000)
        [.insert (.media 2 320), .insert (.media 65535 160), .insert (.media 0 160)] =
      .ok ((create 4 1000 16000).withSlots [some (newItem (.media 65535 160)),
        some (newItem (.media 0 160)), none, some (newItem (.media 2 320))]) :=
  insert_order_independent 4 1000 16000 (by decide) (by decide) 65535 wrappedBatch
    fitting_wrappedBatch [.media 2 320, .media 65535 160, .media 0 160] (by decide)

end Bifrost.Rtc.RtpRetransmissionBuffer
