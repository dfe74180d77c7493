/-
  What one NACK item retransmits.

  `FillRetransmissionContainer` walks over the bits with three variables that move out of
  step. `fillLoop_eq`: it asks for the numbers `requestedNumbers packetId bitmask`, in this
  order, and comes to an end after seventeen rounds at most. `receiveNackItem_eq`: on a
  window of intact items with a container of eighteen slots every index is inside the
  container, what is sent are the due items that `Get` finds for these numbers, and nothing
  an earlier call left in the container gets out.
-/
import Mathlib.Data.List.Nodup
import Bifrost.Rtc.Retransmission
import Bifrost.Rtc.RetransmissionWindow

namespace Bifrost.Rtc

open SeqManager SparseWindow

namespace RtpRetransmissionBuffer

/-! ## The slot `Get` reads -/

/-- For number `seq` `Get` reads slot `i`. -/
def InReach (b : RtpRetransmissionBuffer) (seq : UInt16) (i : Nat) : Prop :=
  match b.getOldest with
  | none => False
  | some oldestItem => isSeqLowerThan seq oldestItem.sequenceNumber = false ∧
      (seq - oldestItem.sequenceNumber).toNat = i

instance (b : RtpRetransmissionBuffer) (seq : UInt16) (i : Nat) :
    Decidable (InReach b seq i) := by
  unfold InReach
  split <;> infer_instance

theorem InReach.lt {b : RtpRetransmissionBuffer} {seq : UInt16} {i : Nat}
    (h : InReach b seq i) : i < 65536 := by
  unfold InReach at h
  split at h
  · exact h.elim
  · rw [← h.2]
    exact UInt16.toNat_lt _

theorem get_eq_some_iff {b : RtpRetransmissionBuffer} {seq : UInt16} {item : Item} :
    b.get seq = .ok (some item) ↔ ∃ i, InReach b seq i ∧ b.buffer[i]? = some (some item) := by
  unfold get InReach
  cases hold : b.getOldest with
  | none => simp
  | some z =>
      have hpos : 0 < b.buffer.length := by
        rw [List.length_pos_iff]
        rintro hnil
        simp [getOldest, hnil] at hold
      dsimp only
      cases hlow : isSeqLowerThan seq z.sequenceNumber with
      | true => simp
      | false =>
          simp only [Bool.false_eq_true, if_false, true_and, exists_eq_left']
          split_ifs with hidx
          · rw [List.getElem?_eq_none (by omega)]
            simp
          · have hlt : (seq - z.sequenceNumber).toNat < b.buffer.length := by omega
            rw [slotAt_ok hlt, List.getElem?_eq_getElem hlt]
            simp

/-- What `Get` returns has the number asked for. -/
theorem get_number {b : RtpRetransmissionBuffer} (h : InWindow b) {seq : UInt16} {item : Item}
    (hget : b.get seq = .ok (some item)) : item.sequenceNumber = seq := by
  obtain ⟨i, hreach, hi⟩ := get_eq_some_iff.mp hget
  unfold InReach at hreach
  cases hold : b.getOldest with
  | none => rw [hold] at hreach; exact hreach.elim
  | some z =>
      rw [hold] at hreach
      have hz : b.buffer.head? = some (some z) := Option.join_eq_some_iff.mp hold
      rw [h.key_eq hz hi, ← hreach.2]
      exact (iterate_offset _ _).symm

theorem put_eq {b : RtpRetransmissionBuffer} {seq : UInt16} {i : Nat} (h : InReach b seq i)
    (item : Item) : b.put seq item = b.withSlots (b.buffer.set i (some item)) := by
  unfold InReach at h
  unfold put
  cases hold : b.getOldest with
  | none => rw [hold] at h; exact h.elim
  | some z =>
      rw [hold] at h
      rw [← h.2]
      rfl

/-- Two slots with one number are a multiple of the circle apart. -/
theorem same_number {b : RtpRetransmissionBuffer} (h : InWindow b) {i j : Nat} {x y : Item}
    (hi : b.buffer[i]? = some (some x)) (hj : b.buffer[j]? = some (some y))
    (hxy : x.sequenceNumber = y.sequenceNumber) (hij : i < j) : i + 65536 ≤ j := by
  have hne : b.buffer ≠ [] := by
    rintro hnil
    simp [hnil] at hi
  obtain ⟨z, rest, hb⟩ := h.exists_front hne
  have hz : b.buffer.head? = some (some z) := by rw [hb]; rfl
  rw [h.key_eq hz hi, h.key_eq hz hj, iterate_succ16, iterate_succ16, ← UInt16.toNat_inj] at hxy
  simp only [UInt16.toNat_add, UInt16.toNat_ofNat'] at hxy
  omega

/-- The item describes the packet it holds. -/
def Intact (item : Item) : Prop :=
  ∃ p, item.rtpPacket = some p ∧ item.ssrc = p.getSsrc ∧
    item.sequenceNumber = p.getSequenceNumber ∧ item.timestamp = p.getTimestamp

/-- All stored items do. -/
def AllIntact (b : RtpRetransmissionBuffer) : Prop := ∀ item, some item ∈ b.buffer → Intact item

theorem intact_newItem (p : RtpPacket) : Intact (newItem p) := ⟨p, rfl, rfl, rfl, rfl⟩

end RtpRetransmissionBuffer

namespace RtpStreamSender

open RtpRetransmissionBuffer

/-! ## The numbers asked for -/

/-- The packet id, and `packetId + 1 + i` for every bit `i` that is set. -/
def requestedNumbers (packetId bitmask : UInt16) : List UInt16 :=
  packetId :: ((List.range 16).filter fun i => bitmask.toNat.testBit i).map
    fun i => packetId + 1 + UInt16.ofNat i

/-- The numbers from `cur` on whose bit is set, `n` of them looked at. -/
def bitNumbers (n : Nat) (cur bitmask : UInt16) : List UInt16 :=
  ((List.range n).filter fun i => bitmask.toNat.testBit i).map fun i => cur + UInt16.ofNat i

theorem bitNumbers_zero_mask (n : Nat) (cur : UInt16) : bitNumbers n cur 0 = [] := by
  simp [bitNumbers]

theorem bitNumbers_succ (n : Nat) (cur bitmask : UInt16) :
    bitNumbers (n + 1) cur bitmask =
      (if (bitmask &&& 1 != 0) = true then [cur] else []) ++
        bitNumbers n (cur + 1) (bitmask >>> 1) := by
  have hbit : (bitmask &&& 1 != 0) = bitmask.toNat.testBit 0 := by
    rw [Nat.testBit_zero, Bool.eq_iff_iff, bne_iff_ne, decide_eq_true_eq, ne_eq,
      ← UInt16.toNat_inj, UInt16.toNat_and, show (1 : UInt16).toNat = 1 from rfl,
      show (0 : UInt16).toNat = 0 from rfl, Nat.and_one_is_mod]
    omega
  have hshift : ∀ i, (bitmask >>> 1).toNat.testBit i = bitmask.toNat.testBit (i + 1) := by
    intro i
    rw [UInt16.toNat_shiftRight, Nat.testBit_shiftRight]
    simp [Nat.add_comm]
  have hnext : ∀ i, cur + UInt16.ofNat (i + 1) = cur + 1 + UInt16.ofNat i := by
    intro i
    rw [UInt16.ofNat_add, UInt16.add_assoc, UInt16.add_comm (UInt16.ofNat i)]
    rfl
  simp only [bitNumbers, List.range_succ_eq_map, List.filter_cons, List.filter_map, hbit, hshift,
    Function.comp_def, Nat.succ_eq_add_one]
  split_ifs
  · simp only [List.map_cons, List.singleton_append, List.map_map, Function.comp_def, hnext]
    simp
  · simp only [List.nil_append, List.map_map, Function.comp_def, hnext]

theorem shiftRight_lt {bitmask : UInt16} {n : Nat} (h : bitmask.toNat < 2 ^ (n + 1)) :
    (bitmask >>> 1).toNat < 2 ^ n := by
  rw [UInt16.toNat_shiftRight, show (1 : UInt16).toNat % 16 = 1 from rfl, Nat.shiftRight_eq_div_pow]
  rw [Nat.pow_succ] at h
  omega

/-- One request after another. -/
def requestAll (now : UInt64) (rtt : UInt16) (f : Filling) (numbers : List UInt16) :
    Except Fault Filling :=
  Trace.runE (request now rtt) f numbers

/-- The loop asks for the current number, if it is requested, and then for those of the bits
    that are set. -/
theorem fillLoop_eq (now : UInt64) (rtt : UInt16) (n : Nat) :
    ∀ (f : Filling) (cur : UInt16) (requested : Bool) (bitmask : UInt16),
      bitmask.toNat < 2 ^ n →
      fillLoop now rtt (n + 1) f cur requested bitmask =
        requestAll now rtt f ((if requested = true then [cur] else []) ++
          bitNumbers n (cur + 1) bitmask) := by
  induction n with
  | zero =>
      intro f cur requested bitmask hlt
      obtain rfl : bitmask = 0 := by
        rw [← UInt16.toNat_inj]
        exact Nat.lt_one_iff.mp hlt
      cases requested with
      | false => rfl
      | true =>
          simp only [fillLoop, requestAll, bitNumbers_zero_mask, Trace.runE, List.append_nil,
            Bool.true_or, if_true, bind, Except.bind]
          cases request now rtt f cur <;> rfl
  | succ n ih =>
      intro f cur requested bitmask hlt
      by_cases hdone : (requested || bitmask != 0) = true
      · rw [fillLoop, if_pos hdone, bitNumbers_succ, requestAll, Trace.runE_append]
        cases requested with
        | false => exact ih f (cur + 1) _ _ (shiftRight_lt hlt)
        | true =>
            simp only [if_true, Trace.runE, bind, Except.bind]
            cases request now rtt f cur with
            | error fault => rfl
            | ok f' => exact ih f' (cur + 1) _ _ (shiftRight_lt hlt)
      · simp only [Bool.or_eq_true, bne_iff_ne, not_or, Bool.not_eq_true, ne_eq,
          Decidable.not_not] at hdone
        obtain ⟨rfl, rfl⟩ := hdone
        rw [bitNumbers_zero_mask]
        rfl

theorem nodup_requestedNumbers (packetId bitmask : UInt16) :
    (requestedNumbers packetId bitmask).Nodup := by
  have hp := packetId.toNat_lt
  have hnum : ∀ i < 16,
      (packetId + 1 + UInt16.ofNat i).toNat = (packetId.toNat + 1 + i) % 65536 := by
    intro i hi
    rw [UInt16.toNat_add, UInt16.toNat_add, UInt16.toNat_ofNat',
      show (1 : UInt16).toNat = 1 from rfl]
    omega
  refine List.nodup_cons.mpr ⟨?_, List.Nodup.map_on ?_ (List.nodup_range.filter _)⟩
  · intro hmem
    obtain ⟨i, hi, heq⟩ := List.mem_map.mp hmem
    have hlt := List.mem_range.mp (List.mem_filter.mp hi).1
    have := congrArg UInt16.toNat heq
    rw [hnum i hlt] at this
    omega
  · intro i hi j hj heq
    have hlti := List.mem_range.mp (List.mem_filter.mp hi).1
    have hltj := List.mem_range.mp (List.mem_filter.mp hj).1
    have := congrArg UInt16.toNat heq
    rw [hnum i hlti, hnum j hltj] at this
    omega

theorem length_requestedNumbers (packetId bitmask : UInt16) :
    (requestedNumbers packetId bitmask).length ≤ kMaxRequestedPackets := by
  have := List.length_filter_le (fun i => bitmask.toNat.testBit i) (List.range 16)
  rw [List.length_range] at this
  rw [requestedNumbers, List.length_cons, List.length_map, kMaxRequestedPackets]
  omega

/-! ## One request -/

/-- The item with number `seq`, if `Get` finds it and it is due. -/
def dueItem (now : UInt64) (rtt : UInt16) (b : RtpRetransmissionBuffer) (seq : UInt16) :
    Option Item :=
  match b.get seq with
  | .ok (some item) =>
    if item.resentAtMs ≠ 0 ∧ now - item.resentAtMs ≤ rtt.toUInt64 then none else some item
  | _ => none

/-- The item, resent now. -/
def resent (now : UInt64) (item : Item) : Item :=
  { item with resentAtMs := now, sentTimes := item.sentTimes + 1 }

/-- The buffer once the item with number `seq` is resent, if it is due. -/
def markDue (now : UInt64) (rtt : UInt16) (b : RtpRetransmissionBuffer) (seq : UInt16) :
    RtpRetransmissionBuffer :=
  match dueItem now rtt b seq with
  | none => b
  | some item => b.put seq (resent now item)

theorem get_of_dueItem {now : UInt64} {rtt : UInt16} {b : RtpRetransmissionBuffer} {seq : UInt16}
    {item : Item} (h : dueItem now rtt b seq = some item) : b.get seq = .ok (some item) := by
  unfold dueItem at h
  split at h
  · next x hget =>
      split at h
      · cases h
      · rw [hget, Option.some.inj h]
  · cases h

/-- Correcting an intact item's packet changes nothing. -/
theorem correctPacket_intact {item : Item} (h : Intact item) :
    ∃ p, item.rtpPacket = some p ∧ correctPacket item p = p := by
  obtain ⟨p, hp, hssrc, hseq, hts⟩ := h
  refine ⟨p, hp, ?_⟩
  unfold correctPacket
  rw [hssrc, hseq, hts]
  rfl

theorem put_self {b : RtpRetransmissionBuffer} {seq : UInt16} {item : Item}
    (h : b.get seq = .ok (some item)) : b.put seq item = b := by
  obtain ⟨i, hreach, hi⟩ := get_eq_some_iff.mp h
  obtain ⟨hlt, hget⟩ := List.getElem?_eq_some_iff.mp hi
  rw [put_eq hreach, ← hget, List.set_getElem_self, withSlots_self]

/-- A request on a window of intact items. -/
theorem request_eq {now : UInt64} {rtt : UInt16} {f : Filling} {seq : UInt16}
    (hintact : AllIntact f.buffer) :
    request now rtt f seq = match dueItem now rtt f.buffer seq with
      | none => .ok f
      | some item => (storeAt f.container f.containerIdx (some (resent now item))).map
          fun container =>
            { buffer := f.buffer.put seq (resent now item)
              container
              containerIdx := f.containerIdx + 1 } := by
  obtain ⟨slot, hslot⟩ := get_eq f.buffer seq
  unfold request dueItem
  rw [hslot]
  cases slot with
  | none => rfl
  | some item =>
      obtain ⟨i, -, hi⟩ := get_eq_some_iff.mp hslot
      obtain ⟨p, hp, hsame⟩ := correctPacket_intact (hintact item (List.mem_of_getElem? hi))
      simp only [bind, Except.bind, hp, deref, hsame]
      rw [← hp]
      by_cases hrecent : item.resentAtMs ≠ 0 ∧ now - item.resentAtMs ≤ rtt.toUInt64
      · rw [if_pos hrecent, if_pos hrecent, put_self hslot]
      · rw [if_neg hrecent, if_neg hrecent]
        dsimp only
        unfold storeAt
        split_ifs <;> rfl

/-! ## What a request leaves alone -/

/-- A due item is resent in its slot, and that is all. -/
theorem markDue_eq {now : UInt64} {rtt : UInt16} {b : RtpRetransmissionBuffer} {seq : UInt16}
    {item : Item} (h : dueItem now rtt b seq = some item) :
    ∃ i, InReach b seq i ∧ b.buffer[i]? = some (some item) ∧
      markDue now rtt b seq = b.withSlots (b.buffer.set i (some (resent now item))) := by
  obtain ⟨i, hreach, hi⟩ := get_eq_some_iff.mp (get_of_dueItem h)
  refine ⟨i, hreach, hi, ?_⟩
  rw [markDue, h]
  exact put_eq hreach _

theorem markDue_of_none {now : UInt64} {rtt : UInt16} {b : RtpRetransmissionBuffer} {seq : UInt16}
    (h : dueItem now rtt b seq = none) : markDue now rtt b seq = b := by
  rw [markDue, h]

theorem inWindow_markDue {b : RtpRetransmissionBuffer} (h : InWindow b) (now : UInt64)
    (rtt : UInt16) (seq : UInt16) : InWindow (markDue now rtt b seq) := by
  cases hdue : dueItem now rtt b seq with
  | none => rwa [markDue_of_none hdue]
  | some item =>
      obtain ⟨i, hreach, hi, heq⟩ := markDue_eq hdue
      have hne : b.buffer ≠ [] := by
        rintro hnil
        simp [hnil] at hi
      obtain ⟨z, rest, hb⟩ := h.exists_front hne
      have hz : b.buffer.head? = some (some z) := by rw [hb]; rfl
      rw [heq]
      exact Window.set (a := resent now item) h hz (h.key_eq (a := item) hz hi)

theorem allIntact_markDue {b : RtpRetransmissionBuffer} (h : AllIntact b) (now : UInt64)
    (rtt : UInt16) (seq : UInt16) : AllIntact (markDue now rtt b seq) := by
  cases hdue : dueItem now rtt b seq with
  | none => rwa [markDue_of_none hdue]
  | some item =>
      obtain ⟨i, -, hi, heq⟩ := markDue_eq hdue
      rw [heq]
      intro x hx
      rcases List.mem_or_eq_of_mem_set hx with hx | hx
      · exact h x hx
      · rw [Option.some.inj hx]
        exact h item (List.mem_of_getElem? hi)

theorem inReach_markDue {b : RtpRetransmissionBuffer} {now : UInt64} {rtt seq t : UInt16}
    {j : Nat} : InReach (markDue now rtt b seq) t j ↔ InReach b t j := by
  cases hdue : dueItem now rtt b seq with
  | none => rw [markDue_of_none hdue]
  | some item =>
      obtain ⟨i, -, hi, heq⟩ := markDue_eq hdue
      have hold : (markDue now rtt b seq).getOldest.map Item.sequenceNumber =
          b.getOldest.map Item.sequenceNumber := by
        rw [heq, getOldest, getOldest, withSlots_buffer, List.head?_eq_getElem?,
          List.head?_eq_getElem?, List.getElem?_set]
        split_ifs with h0 hlt
        · subst h0
          rw [hi]
          rfl
        · subst h0
          exact absurd (List.getElem?_eq_some_iff.mp hi).1 hlt
        · rfl
      unfold InReach
      cases h1 : (markDue now rtt b seq).getOldest with
      | none =>
          rw [h1] at hold
          rw [Option.map_eq_none_iff.mp hold.symm]
      | some y =>
          rw [h1] at hold
          obtain ⟨z, hz, hzy⟩ := Option.map_eq_some_iff.mp hold.symm
          rw [hz]
          simp only [hzy]

/-- A request for one number does not change what another request finds. -/
theorem dueItem_markDue {b : RtpRetransmissionBuffer} (h : InWindow b) {now : UInt64}
    {rtt seq t : UInt16} (hne : t ≠ seq) :
    dueItem now rtt (markDue now rtt b seq) t = dueItem now rtt b t := by
  cases hdue : dueItem now rtt b seq with
  | none => rw [markDue_of_none hdue]
  | some item =>
      obtain ⟨i, hreach, hi, heq⟩ := markDue_eq hdue
      have hiff : ∀ x, (markDue now rtt b seq).get t = .ok (some x) ↔ b.get t = .ok (some x) := by
        intro x
        rw [get_eq_some_iff, get_eq_some_iff]
        refine exists_congr fun j => ?_
        rw [inReach_markDue]
        refine and_congr_right fun hj => ?_
        have hji : i ≠ j := by
          rintro rfl
          have h1 := get_number h (get_eq_some_iff.mpr ⟨i, hreach, hi⟩)
          have h2 := get_number h (get_eq_some_iff.mpr ⟨i, hj, hi⟩)
          exact hne (h2.symm.trans h1)
        rw [heq, withSlots_buffer, List.getElem?_set_ne hji]
      obtain ⟨slot, hslot⟩ := get_eq b t
      obtain ⟨slot', hslot'⟩ := get_eq (markDue now rtt b seq) t
      have hsame : slot' = slot := by
        apply Option.ext
        intro x
        have := hiff x
        rw [hslot, hslot', Except.ok.injEq, Except.ok.injEq] at this
        exact this
      unfold dueItem
      rw [hslot, hslot', hsame]

/-! ## One NACK item -/

/-- The items that the requests for `numbers` find due, as they are then. -/
def sentItems (now : UInt64) (rtt : UInt16) (b : RtpRetransmissionBuffer)
    (numbers : List UInt16) : List Item :=
  numbers.filterMap fun seq => (dueItem now rtt b seq).map (resent now)

theorem sentItems_markDue {b : RtpRetransmissionBuffer} (h : InWindow b) {now : UInt64}
    {rtt seq : UInt16} {numbers : List UInt16} (hseq : seq ∉ numbers) :
    sentItems now rtt (markDue now rtt b seq) numbers = sentItems now rtt b numbers := by
  unfold sentItems
  refine List.filterMap_congr fun t ht => ?_
  rw [dueItem_markDue h (by rintro rfl; exact hseq ht)]

theorem storeAt_ok {container : List (Option Item)} {idx : Nat} (h : idx < container.length)
    (item : Option Item) : storeAt container idx item = .ok (container.set idx item) := if_pos h

/-- The requests for distinct numbers, with room in the container. -/
theorem requestAll_eq (now : UInt64) (rtt : UInt16) (numbers : List UInt16) :
    ∀ f : Filling, InWindow f.buffer → AllIntact f.buffer → numbers.Nodup →
      f.containerIdx + numbers.length ≤ f.container.length →
      ∃ f', requestAll now rtt f numbers = .ok f' ∧
        f'.buffer = numbers.foldl (markDue now rtt) f.buffer ∧
        f'.container.length = f.container.length ∧
        f'.containerIdx = f.containerIdx + (sentItems now rtt f.buffer numbers).length ∧
        f'.container.take f'.containerIdx = f.container.take f.containerIdx ++
          (sentItems now rtt f.buffer numbers).map some := by
  induction numbers with
  | nil => exact fun f _ _ _ _ => ⟨f, rfl, rfl, rfl, rfl, by simp [sentItems]⟩
  | cons seq numbers ih =>
      intro f hw hintact hnodup hroom
      obtain ⟨hseq, hnodup⟩ := List.nodup_cons.mp hnodup
      rw [List.length_cons] at hroom
      have hsent := @sentItems_markDue _ hw now rtt _ _ hseq
      have hreq := @request_eq now rtt _ seq hintact
      cases hdue : dueItem now rtt f.buffer seq with
      | none =>
          rw [hdue] at hreq
          obtain ⟨f', hok, hrest⟩ := ih f hw hintact hnodup (by omega)
          refine ⟨f', by rw [requestAll, Trace.runE, hreq]; exact hok, ?_⟩
          rw [List.foldl_cons, markDue_of_none hdue, sentItems, List.filterMap_cons, hdue]
          exact hrest
      | some item =>
          have hlt : f.containerIdx < f.container.length := by omega
          rw [hdue] at hreq
          simp only [storeAt_ok hlt, Except.map] at hreq
          have hbuf : f.buffer.put seq (resent now item) = markDue now rtt f.buffer seq := by
            rw [markDue, hdue]
          rw [hbuf] at hreq
          obtain ⟨f', hok, hb, hlen, hidx, htake⟩ := ih
            { buffer := markDue now rtt f.buffer seq
              container := f.container.set f.containerIdx (some (resent now item))
              containerIdx := f.containerIdx + 1 }
            (inWindow_markDue hw now rtt seq) (allIntact_markDue hintact now rtt seq) hnodup
            (by rw [List.length_set]; dsimp only; omega)
          dsimp only at hlen hidx
          refine ⟨f', by rw [requestAll, Trace.runE, hreq]; exact hok, ?_⟩
          have hcons : sentItems now rtt f.buffer (seq :: numbers) =
              resent now item :: sentItems now rtt f.buffer numbers := by
            rw [sentItems, List.filterMap_cons, hdue]
            rfl
          rw [hsent] at hidx htake
          rw [List.foldl_cons, hcons, List.length_cons, List.map_cons]
          refine ⟨hb, by rw [hlen, List.length_set], by rw [hidx]; omega, ?_⟩
          rw [htake, List.take_add_one, List.getElem?_set_self hlt, List.take_set_of_le (by omega)]
          simp

/-- What one NACK item sends. -/
def sentPackets (now : UInt64) (rtt : UInt16) (b : RtpRetransmissionBuffer)
    (numbers : List UInt16) : List RtpPacket :=
  numbers.filterMap fun seq => (dueItem now rtt b seq).bind Item.rtpPacket

theorem sentItems_packets (now : UInt64) (rtt : UInt16) (b : RtpRetransmissionBuffer)
    (numbers : List UInt16) :
    (sentItems now rtt b numbers).filterMap Item.rtpPacket = sentPackets now rtt b numbers := by
  rw [sentItems, List.filterMap_filterMap, sentPackets]
  congr 1
  funext seq
  cases dueItem now rtt b seq <;> rfl

/-- The pointers in the container up to the null that ends them. -/
theorem takeWhile_container {container : List (Option Item)} {sent : List Item} {idx : Nat}
    (htake : container.take idx = sent.map some) (hidx : idx < container.length) :
    (container.set idx none).takeWhile Option.isSome = sent.map some := by
  have hsplit : container.set idx none = container.take idx ++ none :: container.drop (idx + 1) :=
    List.set_eq_take_append_cons_drop.trans (if_pos hidx)
  rw [hsplit, htake, List.takeWhile_append_of_pos (by simp)]
  simp

/-- **One NACK item.** It sends the due items that `Get` finds for the numbers it asks for, in
    their order, and marks them; the container stays as long as it was. -/
theorem receiveNackItem_eq {st : NackState} {b : RtpRetransmissionBuffer}
    (hbuf : st.sender.retransmissionBuffer = some b) (hw : InWindow b) (hintact : AllIntact b)
    (hlen : st.container.length = kMaxRequestedPackets + 1) {rtt : UInt16}
    (hrtt : st.sender.rttMs = .ok rtt) (nackItem : Rtcp.FeedbackRtpNackItem) (now : UInt64) :
    let numbers := requestedNumbers nackItem.packetId nackItem.lostPacketBitmask
    ∃ container, container.length = kMaxRequestedPackets + 1 ∧
      receiveNackItem st nackItem now =
        .ok ({ sender := { st.sender with
                 retransmissionBuffer := some (numbers.foldl (markDue now rtt) b) }
               container },
          sentPackets now rtt b numbers) := by
  intro numbers
  have hfirst : 0 < st.container.length := by rw [hlen]; decide
  have hloop := fillLoop_eq now rtt 16
    { buffer := b, container := st.container.set 0 none, containerIdx := 0 }
    nackItem.packetId true nackItem.lostPacketBitmask (UInt16.toNat_lt _)
  have hcount := length_requestedNumbers nackItem.packetId nackItem.lostPacketBitmask
  obtain ⟨f, hok, hfb, hflen, hfidx, hftake⟩ := requestAll_eq now rtt numbers
    { buffer := b, container := st.container.set 0 none, containerIdx := 0 } hw hintact
    (nodup_requestedNumbers _ _)
    (by rw [List.length_set, hlen, Nat.zero_add]; exact Nat.le_succ_of_le hcount)
  have hfill : fillLoop now rtt kMaxRequestedPackets
      { buffer := b, container := st.container.set 0 none, containerIdx := 0 }
      nackItem.packetId true nackItem.lostPacketBitmask = .ok f := hloop.trans hok
  have hsent : (sentItems now rtt b numbers).length ≤ numbers.length :=
    List.length_filterMap_le _ _
  rw [Nat.zero_add] at hfidx
  rw [List.take_zero, List.nil_append] at hftake
  rw [List.length_set, hlen] at hflen
  have hidx : f.containerIdx < f.container.length := by
    rw [hflen, hfidx]
    exact Nat.lt_succ_of_le (hsent.trans hcount)
  refine ⟨f.container.set f.containerIdx none, by rw [List.length_set, hflen], ?_⟩
  simp only [receiveNackItem, fillRetransmissionContainer, storeAt_ok hfirst, hbuf, hrtt, bind,
    Except.bind]
  rw [hfill]
  simp only [storeAt_ok hidx, takeWhile_container hftake hidx, hfb]
  rw [List.filterMap_map, ← sentItems_packets]
  rfl

/-- With a round-trip time that no `uint16_t` has the call goes wrong. -/
theorem receiveNackItem_error {st : NackState} {b : RtpRetransmissionBuffer}
    (hbuf : st.sender.retransmissionBuffer = some b)
    (hlen : st.container.length = kMaxRequestedPackets + 1) {fault : Fault}
    (hrtt : st.sender.rttMs = .error fault) (nackItem : Rtcp.FeedbackRtpNackItem) (now : UInt64) :
    receiveNackItem st nackItem now = .error fault := by
  have hfirst : 0 < st.container.length := by rw [hlen]; decide
  simp only [receiveNackItem, fillRetransmissionContainer, storeAt_ok hfirst, hbuf, hrtt, bind,
    Except.bind]

/-- Without a buffer nothing is sent. -/
theorem receiveNackItem_none {st : NackState} (hbuf : st.sender.retransmissionBuffer = none)
    (hlen : st.container.length = kMaxRequestedPackets + 1) (nackItem : Rtcp.FeedbackRtpNackItem)
    (now : UInt64) : ∃ container, container.length = kMaxRequestedPackets + 1 ∧
      receiveNackItem st nackItem now = .ok ({ st with container }, []) := by
  have hfirst : 0 < st.container.length := by rw [hlen]; decide
  refine ⟨st.container.set 0 none, by rw [List.length_set, hlen], ?_⟩
  simp only [receiveNackItem, fillRetransmissionContainer, storeAt_ok hfirst, hbuf, bind,
    Except.bind]
  rw [@takeWhile_container st.container [] 0 rfl hfirst]
  rfl

end RtpStreamSender

end Bifrost.Rtc
