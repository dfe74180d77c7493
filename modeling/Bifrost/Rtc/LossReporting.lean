/-
  How faithful the loss in a receiver's reports is.

  A `Tally` counts, without wrapping, what a stream has shown: the packets from the first
  number up to the highest, and those taken. The counters of `RtpStreamReceiver` are the
  tally modulo their width (`Tracked`, `Counts`), as long as no packet re-synchronises the
  stream and the first number is not 0. `reported_packet_lost_` is kept by adding up
  differences of `packets_lost_`, and so is `packets_lost_` itself.

  What goes wrong is the rounding: `fraction_lost_` is a `uint8_t`, and `std::round` takes
  a quotient from 255.5 on to 256, which is stored as 0. So an interval with one packet taken
  for each 512 expected is reported as one without loss (`faithful_iff`). A report before the
  first packet is wrong as well: `GetExpectedPackets` is 1 then.
-/
import Bifrost.Lib.Rounding
import Bifrost.Rtc.ReceiverResync

namespace Bifrost.Rtc

/-! ## What a stream has shown -/

/-- The highest number, the packets from the first number up to it, and those taken; the
    last two also as they were at the last report. -/
structure Tally where
  head : Option UInt16 := none
  expected : Nat := 0
  received : Nat := 0
  expectedPrior : Nat := 0
  receivedPrior : Nat := 0

namespace Tally

/-- A packet with number `seq`. It is taken when it lies less than 3000 ahead of the highest
    number or less than 1500 behind it. -/
def receive (t : Tally) (seq : UInt16) : Tally :=
  match t.head with
  | none =>
    { t with head := some seq, expected := t.expected + 1, received := t.received + 1 }
  | some head =>
    let ahead := (seq - head).toNat
    if ahead < 3000 then
      { t with head := some seq, expected := t.expected + ahead, received := t.received + 1 }
    else if 65536 - 1500 < ahead then { t with received := t.received + 1 }
    else t

def report (t : Tally) : Tally :=
  { t with expectedPrior := t.expected, receivedPrior := t.received }

/-- The packets expected since the last report. -/
def expectedInterval (t : Tally) : Nat := t.expected - t.expectedPrior

/-- The packets taken since the last report. -/
def receivedInterval (t : Tally) : Nat := t.received - t.receivedPrior

/-- The part of an interval that was lost, in 256ths: the exact quotient, rounded once. -/
def fraction (t : Tally) : Int :=
  if t.expectedInterval ≤ t.receivedInterval then 0
  else round ((256 * (t.expectedInterval - t.receivedInterval : Int) : Int) /
    (t.expectedInterval : ℚ))

/-- The packets lost since the start, as far as the field of a report goes. -/
def totalLost (t : Tally) : Nat := min (t.expected - t.received) 0x7FFFFF

/-- The counts fit the widths of the counters: 32 bits for the totals, with a sign for
    what was lost, and 8 bits less for what was lost in one interval, which is shifted. -/
structure InRange (t : Tally) : Prop where
  expected : t.expected < 2 ^ 32
  received : t.received < 2 ^ 64
  lost : t.expected < t.received + 2 ^ 31
  lostInterval : t.expectedInterval < t.receivedInterval + 2 ^ 23
  surplus : t.receivedInterval ≤ t.expectedInterval + 2 ^ 31

instance (t : Tally) : Decidable t.InRange :=
  decidable_of_iff
    (t.expected < 2 ^ 32 ∧ t.received < 2 ^ 64 ∧ t.expected < t.received + 2 ^ 31 ∧
      t.expectedInterval < t.receivedInterval + 2 ^ 23 ∧
      t.receivedInterval ≤ t.expectedInterval + 2 ^ 31)
    ⟨fun ⟨h₁, h₂, h₃, h₄, h₅⟩ => ⟨h₁, h₂, h₃, h₄, h₅⟩,
      fun ⟨h₁, h₂, h₃, h₄, h₅⟩ => ⟨h₁, h₂, h₃, h₄, h₅⟩⟩

/-- There was a packet, and not nearly all of an interval was lost. -/
def Measurable (t : Tally) : Prop :=
  0 < t.received ∧
    (t.expectedInterval ≤ t.receivedInterval ∨ t.expectedInterval < 512 * t.receivedInterval)

instance (t : Tally) : Decidable t.Measurable := inferInstanceAs (Decidable (_ ∧ (_ ∨ _)))

end Tally

/-! ## The counters follow the tally -/

namespace RtpStream

theorem receive_packetsLost {st : RtpStream} {p : RtpPacket} {clock : Clock} :
    (st.receiveStreamPacket p clock).1.packetsLost = st.packetsLost := by
  have hstart : (st.start p (clock 0)).packetsLost = st.packetsLost := by
    unfold start
    split <;> rfl
  rw [← hstart]
  cases hv : (st.start p (clock 0)).verdict p.getSequenceNumber with
  | inOrder => obtain ⟨ts, ms, h⟩ := receive_inOrder hv; rw [h]
  | resync => obtain ⟨ts, ms, h⟩ := receive_resync hv; rw [h]; rfl
  | bad => rw [receive_bad hv]
  | misorder => obtain ⟨ts, ms, h⟩ := receive_misorder hv; rw [h]

/-- The sequence counters are those of the tally. -/
structure Tracked (st : RtpStream) (t : Tally) : Prop where
  head : t.head = if st.started then some st.maxSeq else none
  fresh : st.started = false → st.cycles = 0 ∧ st.getExpectedPackets = 1 ∧ t.expected = 0
  received : st.started = true ↔ 0 < t.received
  expected : st.started = true → st.getExpectedPackets = UInt32.ofNat t.expected

/-- The packet does not re-synchronise the stream, and is not a first one with number 0. -/
def Orderly (st : RtpStream) (p : RtpPacket) : Prop :=
  (st.started = true → st.verdict p.getSequenceNumber ≠ .resync) ∧
  (st.started = false → p.getSequenceNumber ≠ 0)

instance (st : RtpStream) (p : RtpPacket) : Decidable (st.Orderly p) :=
  inferInstanceAs (Decidable ((_ → _) ∧ (_ → _)))

theorem tracked_create (params : Params) (addr : SockAddr) :
    Tracked { params, udpRemoteAddr := addr } {} where
  head := rfl
  fresh _ := by
    refine ⟨rfl, ?_, rfl⟩
    show ((0 : UInt32) + (0 : UInt16).toUInt32) - 0 + 1 = 1
    decide
  received := by simp
  expected h := by cases h

section Receive

variable {st : RtpStream} {t : Tally} {p : RtpPacket} {clock : Clock}

theorem tracked_first (h : st.Tracked t) (hst : st.started = false)
    (hne : p.getSequenceNumber ≠ 0) :
    (t.receive p.getSequenceNumber).received =
      t.received + (st.receiveStreamPacket p clock).2.toNat ∧
    (st.receiveStreamPacket p clock).1.Tracked (t.receive p.getSequenceNumber) := by
  have hhead : t.head = none := by
    rw [h.head, hst]
    rfl
  have hlow : ¬ p.getSequenceNumber < p.getSequenceNumber - 1 := by
    have := p.getSequenceNumber.toNat_lt
    rw [← UInt16.toNat_inj.ne, UInt16.toNat_zero] at hne
    rw [UInt16.lt_iff_toNat_lt, UInt16.toNat_sub, UInt16.toNat_one]
    omega
  obtain ⟨ts, ms, hr⟩ := @receive_inOrder st p clock (verdict_first hst)
  simp only [start, hst, Bool.false_eq_true, if_false, initSequence, if_neg hlow] at hr
  rw [hr]
  simp only [Tally.receive, hhead]
  refine ⟨rfl, rfl, by simp, by simp, fun _ => ?_⟩
  -- the first number is the base and the highest
  obtain ⟨hcycles, -, hexpected⟩ := h.fresh hst
  simp only [getExpectedPackets, hcycles, hexpected, UInt32.zero_add, UInt32.sub_self]
  rfl

/-- A number ahead, with the cycle that it may complete. -/
theorem number_ahead (seq maxSeq : UInt16) :
    (if seq < maxSeq then kRtpSeqMod else 0) + seq.toUInt32 =
      maxSeq.toUInt32 + UInt32.ofNat (seq - maxSeq).toNat := by
  have := seq.toNat_lt
  have := maxSeq.toNat_lt
  have hdist := UInt16.toNat_sub seq maxSeq
  have hcycle : (if seq < maxSeq then kRtpSeqMod else 0).toNat =
      if seq.toNat < maxSeq.toNat then 65536 else 0 := by
    rw [apply_ite UInt32.toNat]
    rfl
  rw [← UInt32.toNat_inj, UInt32.toNat_add, UInt32.toNat_add, hcycle, UInt32.toNat_ofNat',
    UInt16.toNat_toUInt32, UInt16.toNat_toUInt32]
  split <;> omega

/-- It moves the end of what is expected by its distance. -/
theorem expected_ahead (st : RtpStream) (seq : UInt16) (ts : UInt32) (ms : UInt64) :
    ({ st with
       maxSeq := seq
       cycles := if seq < st.maxSeq then st.cycles + kRtpSeqMod else st.cycles
       maxPacketTs := ts, maxPacketMs := ms } : RtpStream).getExpectedPackets =
      st.getExpectedPackets + UInt32.ofNat (seq - st.maxSeq).toNat := by
  have hcycle : (if seq < st.maxSeq then st.cycles + kRtpSeqMod else st.cycles) =
      st.cycles + if seq < st.maxSeq then kRtpSeqMod else 0 := by
    split
    · rfl
    · rw [UInt32.add_zero]
  have harith : ∀ a b c d : UInt32, a + (b + d) - c + 1 = a + b - c + 1 + d := by
    intro a b c d
    grind
  unfold getExpectedPackets
  dsimp only
  rw [hcycle, UInt32.add_assoc, number_ahead]
  exact harith _ _ _ _

theorem tracked_next (h : st.Tracked t) (hst : st.started = true)
    (hsync : st.verdict p.getSequenceNumber ≠ .resync) :
    (t.receive p.getSequenceNumber).received =
      t.received + (st.receiveStreamPacket p clock).2.toNat ∧
    (st.receiveStreamPacket p clock).1.Tracked (t.receive p.getSequenceNumber) := by
  have hhead : t.head = some st.maxSeq := by
    rw [h.head, if_pos hst]
  have hexp := h.expected hst
  have hpos := h.received.mp hst
  have hv : (st.start p (clock 0)).verdict p.getSequenceNumber =
      st.verdict p.getSequenceNumber := by
    rw [start_of_started hst]
  cases hverdict : st.verdict p.getSequenceNumber with
  | inOrder =>
      obtain ⟨ts, ms, hr⟩ := receive_inOrder (hv.trans hverdict)
      rw [start_of_started hst] at hr
      have hahead : (p.getSequenceNumber - st.maxSeq).toNat < 3000 := by
        unfold verdict at hverdict
        split_ifs at hverdict with hlt
        exact hlt
      rw [hr]
      simp only [Tally.receive, hhead, if_pos hahead]
      refine ⟨rfl, by simp [hst], by simp [hst], by simp [hst], fun _ => ?_⟩
      rw [expected_ahead, hexp, UInt32.ofNat_add]
  | resync => exact absurd hverdict hsync
  | bad =>
      have hr := receive_bad (hv.trans hverdict)
      rw [start_of_started hst] at hr
      have hfar : ¬ (p.getSequenceNumber - st.maxSeq).toNat < 3000 ∧
          ¬ 65536 - 1500 < (p.getSequenceNumber - st.maxSeq).toNat := by
        unfold verdict at hverdict
        split_ifs at hverdict with hlt hle
        exact ⟨hlt, by omega⟩
      rw [hr]
      simp only [Tally.receive, hhead, if_neg hfar.1, if_neg hfar.2]
      exact ⟨rfl, h.head, h.fresh, h.received, h.expected⟩
  | misorder =>
      obtain ⟨ts, ms, hr⟩ := receive_misorder (hv.trans hverdict)
      rw [start_of_started hst] at hr
      have hlate : ¬ (p.getSequenceNumber - st.maxSeq).toNat < 3000 ∧
          65536 - 1500 < (p.getSequenceNumber - st.maxSeq).toNat := by
        unfold verdict at hverdict
        split_ifs at hverdict with hlt hle
        exact ⟨hlt, by omega⟩
      rw [hr]
      simp only [Tally.receive, hhead, if_neg hlate.1, if_pos hlate.2]
      exact ⟨rfl, hhead ▸ h.head, h.fresh, by simp [hst], h.expected⟩

/-- **The counters follow the tally** through every orderly packet. -/
theorem tracked_receive (h : st.Tracked t) (horderly : st.Orderly p) :
    (t.receive p.getSequenceNumber).received =
      t.received + (st.receiveStreamPacket p clock).2.toNat ∧
    (st.receiveStreamPacket p clock).1.Tracked (t.receive p.getSequenceNumber) := by
  rcases Bool.eq_false_or_eq_true st.started with hst | hst
  · exact tracked_next h hst (horderly.1 hst)
  · exact tracked_first h hst (horderly.2 hst)

end Receive

end RtpStream

/-! ## The fraction -/

theorem toNat_ofInt_iff {x : Int} (hpos : 0 ≤ x) : (UInt8.ofInt x).toNat = x ↔ x < 256 := by
  have hlt := (UInt8.ofInt x).toNat_lt
  have hnat : (UInt8.ofInt x).toNat = (x % 2 ^ 8).toNat % 2 ^ 8 := rfl
  omega

/-- The difference of two wrapping counts, read with a sign. -/
theorem toInt_difference {m n : Nat} (hlost : m < n + 2 ^ 31) (hsurplus : n ≤ m + 2 ^ 31) :
    (UInt32.ofNat m - UInt32.ofNat n).toInt32.toInt = (m : Int) - n := by
  have hsize : Int32.size = 2 ^ 32 := rfl
  rw [UInt32.toInt32_sub, UInt32.toInt32_ofNat', UInt32.toInt32_ofNat', Int32.toInt_sub,
    Int32.toInt_ofNat', Int32.toInt_ofNat', hsize, Int.sub_bmod_bmod, Int.bmod_sub_bmod,
    Int.bmod_eq_of_le] <;> omega

theorem toInt_shiftLeft_eight {x : Int32} (hpos : 0 ≤ x.toInt) (hlt : x.toInt < 2 ^ 23) :
    (x <<< 8).toInt = 256 * x.toInt := by
  have hshift : (Int32.toBitVec 8).smod 32 = 8#32 := by decide
  have hnat : (x.toBitVec.toNat : Int) = x.toInt := by
    rw [← Int32.toInt_toBitVec] at hpos ⊢
    rw [BitVec.toInt_eq_toNat_cond] at hpos ⊢
    have := x.toBitVec.isLt
    split_ifs at * <;> omega
  rw [← Int32.toInt_toBitVec, Int32.toBitVec_shiftLeft, hshift, BitVec.shiftLeft_eq',
    BitVec.toInt_shiftLeft, Nat.shiftLeft_eq]
  push_cast
  rw [hnat, Int.bmod_eq_of_le] <;> omega

namespace Tally

variable {t : Tally}

theorem receive_prior (t : Tally) (seq : UInt16) :
    (t.receive seq).expectedPrior = t.expectedPrior ∧
    (t.receive seq).receivedPrior = t.receivedPrior ∧ t.expected ≤ (t.receive seq).expected := by
  unfold receive
  cases t.head with
  | none => exact ⟨rfl, rfl, Nat.le_succ _⟩
  | some head =>
      dsimp only
      split_ifs
      · exact ⟨rfl, rfl, Nat.le_add_right _ _⟩
      · exact ⟨rfl, rfl, Nat.le_refl _⟩
      · exact ⟨rfl, rfl, Nat.le_refl _⟩

theorem fraction_nonneg : 0 ≤ t.fraction := by
  unfold fraction
  split
  · exact Int.le_refl 0
  · exact Rounding.round_div_nonneg (by omega) _

/-- A fraction fits its byte unless nearly all of the interval was lost. -/
theorem fraction_lt_iff : t.fraction < 256 ↔
    t.expectedInterval ≤ t.receivedInterval ∨
      t.expectedInterval < 512 * t.receivedInterval := by
  unfold fraction
  split
  · omega
  · rw [Rounding.round_div_lt_iff _ _ (by omega)]
    omega

end Tally

namespace RtpStreamReceiver

open RtpStream

/-- The code's fraction is the exact one, cut to a byte. -/
theorem fractionLostOf_eq {t : Tally} (h : t.InRange) :
    fractionLostOf (UInt32.ofNat t.expectedInterval) (UInt32.ofNat t.receivedInterval) =
      UInt8.ofInt t.fraction := by
  have hexpected : t.expectedInterval < 2 ^ 32 := by
    have := h.expected
    unfold Tally.expectedInterval
    omega
  have hlost := toInt_difference (Nat.lt_trans h.lostInterval (by omega)) h.surplus
  have hle_iff : (UInt32.ofNat t.expectedInterval -
      UInt32.ofNat t.receivedInterval).toInt32 ≤ 0 ↔
        t.expectedInterval ≤ t.receivedInterval := by
    rw [Int32.le_iff_toInt_le, hlost, Int32.toInt_zero]
    omega
  unfold fractionLostOf Tally.fraction
  by_cases hle : t.expectedInterval ≤ t.receivedInterval
  · rw [if_pos (Or.inr (hle_iff.mpr hle)), if_pos hle]
    rfl
  · have hne : UInt32.ofNat t.expectedInterval ≠ 0 := by
      rw [← UInt32.toNat_inj.ne, UInt32.toNat_ofNat', UInt32.toNat_zero]
      omega
    have hshift := toInt_shiftLeft_eight (by rw [hlost]; omega)
      (by rw [hlost]; have := h.lostInterval; omega)
    rw [if_neg (by simp only [hne, hle_iff, hle, or_self, not_false_eq_true]), if_neg hle,
      Rounding.round_div _ (by omega), hshift, hlost, roundQuotient, if_pos (by omega),
      UInt32.toNat_ofNat', Nat.mod_eq_of_lt hexpected]
    push_cast
    rfl

/-! ## One report -/

/-- The counters of a receiver are those of the tally. -/
structure Counts (r : RtpStreamReceiver) (t : Tally) : Prop where
  stream : r.toRtpStream.Tracked t
  packets : r.mediaTransmissionCounter.getPacketCount = UInt64.ofNat t.received
  expectedPrior : r.expectedPrior = UInt32.ofNat t.expectedPrior
  receivedPrior : r.receivedPrior = UInt32.ofNat t.receivedPrior
  reported : r.reportedPacketLost = r.packetsLost
  expectedPrior_le : t.expectedPrior ≤ t.expected
  receivedPrior_le : t.receivedPrior ≤ t.received

/-- The stored fraction and the fields of the report are those of the tally. -/
structure Faithful (t : Tally) (fractionLost : UInt8) (report : Rtcp.ReceiverReport) :
    Prop where
  stored : (fractionLost.toNat : Int) = t.fraction
  fraction : (report.getFractionLost.toNat : Int) = t.fraction
  total : report.getTotalLost.toNat = t.totalLost

theorem counts_create (params : Params) (sendNackDelayMs : UInt32) (addr : SockAddr) :
    Counts (create params sendNackDelayMs addr) {} where
  stream := tracked_create params addr
  packets := rfl
  expectedPrior := rfl
  receivedPrior := rfl
  reported := rfl
  expectedPrior_le := Nat.le_refl 0
  receivedPrior_le := Nat.le_refl 0

/-- The loss in a report is that of the updated counters. -/
theorem report_loss (r : RtpStreamReceiver) (clock : Clock) :
    (r.getRtcpReceiverReport clock).1 = r.updateLost ∧
    (r.getRtcpReceiverReport clock).2.getFractionLost = r.updateLost.fractionLost ∧
    (r.getRtcpReceiverReport clock).2.getTotalLost =
      ((Rtcp.ReceiverReport.create.setSsrc r.getSsrc).setTotalLost
        r.updateLost.reportedPacketLost.toInt32).getTotalLost := by
  unfold getRtcpReceiverReport
  dsimp only
  -- the other fields lie elsewhere in the report
  split
  all_goals
    refine ⟨rfl, ?_, ?_⟩
    · simp only [Rtcp.ReceiverReport.setLastSenderReport,
        Rtcp.ReceiverReport.setDelaySinceLastSenderReport, Rtcp.ReceiverReport.setJitter,
        Rtcp.ReceiverReport.setLastSeq]
      iterate 4 rw [Rtcp.ReceiverReport.getFractionLost_write (Or.inl (by decide))]
      exact Rtcp.ReceiverReport.getFractionLost_setFractionLost _
    · simp only [Rtcp.ReceiverReport.setLastSenderReport,
        Rtcp.ReceiverReport.setDelaySinceLastSenderReport, Rtcp.ReceiverReport.setJitter,
        Rtcp.ReceiverReport.setLastSeq, Rtcp.ReceiverReport.setFractionLost]
      iterate 4 rw [Rtcp.ReceiverReport.getTotalLost_write (Or.inl (by decide))]
      exact Rtcp.ReceiverReport.getTotalLost_write (Or.inr (Nat.le_refl 5))

section Report

variable {r : RtpStreamReceiver} {t : Tally}

theorem updateLost_reported (h : r.reportedPacketLost = r.packetsLost) :
    r.updateLost.reportedPacketLost = r.updateLost.packetsLost := by
  unfold updateLost
  dsimp only
  rw [h, UInt32.add_comm]
  exact UInt32.sub_add_cancel _ _

theorem packetCount_toUInt32 (h : Counts r t) :
    r.mediaTransmissionCounter.getPacketCount.toUInt32 = UInt32.ofNat t.received := by
  rw [h.packets]
  exact UInt64.toUInt32_ofNat' _

/-- After a report the counters are those of the tally at it. -/
theorem counts_report (h : Counts r t) (hpos : 0 < t.received) : Counts r.updateLost t.report where
  stream := ⟨h.stream.head, h.stream.fresh, h.stream.received, h.stream.expected⟩
  packets := h.packets
  expectedPrior := h.stream.expected (h.stream.received.mpr hpos)
  receivedPrior := packetCount_toUInt32 h
  reported := updateLost_reported h.reported
  expectedPrior_le := Nat.le_refl _
  receivedPrior_le := Nat.le_refl _

theorem updateLost_packetsLost (h : Counts r t) (hrange : t.InRange) (hpos : 0 < t.received) :
    r.updateLost.packetsLost.toNat = t.expected - t.received := by
  have hexpected := hrange.expected
  have hreceived := hrange.received
  have hcount : (r.mediaTransmissionCounter.getPacketCount).toNat = t.received := by
    rw [h.packets, UInt64.toNat_ofNat', Nat.mod_eq_of_lt hreceived]
  have htotal : r.getExpectedPackets.toNat = t.expected := by
    rw [h.stream.expected (h.stream.received.mpr hpos), UInt32.toNat_ofNat',
      Nat.mod_eq_of_lt hexpected]
  unfold updateLost
  dsimp only
  split
  · next hlt =>
      rw [gt_iff_lt, UInt64.lt_iff_toNat_lt, UInt32.toNat_toUInt64, hcount, htotal] at hlt
      rw [packetCount_toUInt32 h, UInt32.toNat_sub, htotal, UInt32.toNat_ofNat']
      omega
  · next hge =>
      rw [gt_iff_lt, UInt64.lt_iff_toNat_lt, UInt32.toNat_toUInt64, hcount, htotal] at hge
      rw [UInt32.toNat_zero]
      omega

theorem updateLost_fractionLost (h : Counts r t) (hrange : t.InRange) (hpos : 0 < t.received) :
    r.updateLost.fractionLost = UInt8.ofInt t.fraction := by
  have hexpected : r.getExpectedPackets - r.expectedPrior =
      UInt32.ofNat t.expectedInterval := by
    rw [h.stream.expected (h.stream.received.mpr hpos), h.expectedPrior]
    exact (UInt32.ofNat_sub h.expectedPrior_le).symm
  have hreceived : r.mediaTransmissionCounter.getPacketCount.toUInt32 - r.receivedPrior =
      UInt32.ofNat t.receivedInterval := by
    rw [packetCount_toUInt32 h, h.receivedPrior]
    exact (UInt32.ofNat_sub h.receivedPrior_le).symm
  rw [← fractionLostOf_eq hrange, ← hexpected, ← hreceived]
  rfl

/-- Before the first packet one packet is expected. -/
theorem updateLost_idle (h : Counts r t) (hzero : ¬ 0 < t.received) :
    r.updateLost.packetsLost = 1 := by
  have hst : r.started = false := by simpa using mt h.stream.received.mp hzero
  have htotal : r.getExpectedPackets = 1 := (h.stream.fresh hst).2.1
  have hcount : r.mediaTransmissionCounter.getPacketCount = 0 := by
    rw [h.packets, show t.received = 0 by omega]
    rfl
  unfold updateLost
  dsimp only
  rw [htotal, hcount]
  decide

/-- The stored loss is the field of the report up to the limit. -/
theorem report_total (h : Counts r t) (clock : Clock)
    (hlt : r.updateLost.packetsLost.toNat < 2 ^ 31) :
    (r.getRtcpReceiverReport clock).2.getTotalLost.toNat =
      min r.updateLost.packetsLost.toNat 0x7FFFFF := by
  have hint : r.updateLost.reportedPacketLost.toInt32.toInt =
      r.updateLost.packetsLost.toNat := by
    rw [updateLost_reported h.reported, ← UInt32.ofNat_toNat (x := r.updateLost.packetsLost),
      UInt32.toInt32_ofNat', Int32.toInt_ofNat_of_lt (by simpa using hlt)]
    simp
  have hfield := @Rtcp.ReceiverReport.getTotalLost_setTotalLost
    (Rtcp.ReceiverReport.create.setSsrc r.getSsrc) _ (by rw [hint]; omega)
  rw [hint] at hfield
  rw [(report_loss r clock).2.2]
  omega

/-- **A report is faithful exactly when there was a packet and not nearly all of the interval
    was lost**, while the counts are in range. -/
theorem report_faithful_iff (h : Counts r t) (hrange : t.InRange) (clock : Clock) :
    Faithful t (r.getRtcpReceiverReport clock).1.fractionLost
      (r.getRtcpReceiverReport clock).2 ↔ t.Measurable := by
  obtain ⟨hstate, hfraction, -⟩ := report_loss r clock
  by_cases hpos : 0 < t.received
  · have hstored := updateLost_fractionLost h hrange hpos
    have hlost := updateLost_packetsLost h hrange hpos
    have htotal := report_total h clock (by rw [hlost]; have := hrange.lost; omega)
    rw [hlost] at htotal
    unfold Tally.Measurable
    rw [← Tally.fraction_lt_iff, ← toNat_ofInt_iff Tally.fraction_nonneg, ← hstored]
    constructor
    · intro hfaithful
      rw [hstate] at hfaithful
      exact ⟨hpos, hfaithful.stored⟩
    · rintro ⟨-, hfits⟩
      exact ⟨by rw [hstate]; exact hfits, by rw [hfraction]; exact hfits, htotal⟩
  · have hone := updateLost_idle h hpos
    have htotal := report_total h clock (by rw [hone]; decide)
    rw [hone] at htotal
    have hexpected : t.expected = 0 :=
      (h.stream.fresh (by simpa using mt h.stream.received.mp hpos)).2.2
    constructor
    · intro hfaithful
      have heq := htotal.symm.trans hfaithful.total
      rw [Tally.totalLost, hexpected, UInt32.toNat_one] at heq
      omega
    · exact fun hmeasurable => absurd hmeasurable.1 hpos

end Report

/-! ## Runs -/

/-- The counters after a packet: the stream's change as `ReceiveStreamPacket` says, an
    accepted packet is counted, and the ones of the reports stay. -/
theorem counters_receivePacket {r r' : RtpStreamReceiver} {p : RtpPacket} {clock : Clock}
    {accepted : Bool} (hok : r.receivePacket p clock = .ok (r', accepted)) :
    r'.mediaTransmissionCounter.getPacketCount =
      r.mediaTransmissionCounter.getPacketCount + UInt64.ofNat accepted.toNat ∧
    r'.expectedPrior = r.expectedPrior ∧ r'.receivedPrior = r.receivedPrior ∧
    r'.reportedPacketLost = r.reportedPacketLost := by
  unfold receivePacket at hok
  cases hs : r.toRtpStream.receiveStreamPacket p clock with
  | mk stream ok =>
      rw [hs] at hok
      cases ok with
      | false =>
          cases hok
          exact ⟨(UInt64.add_zero _).symm, rfl, rfl, rfl⟩
      | true =>
          dsimp only at hok
          rw [if_neg (by simp)] at hok
          obtain ⟨generator, -, hok⟩ := bind_eq_ok.mp hok
          obtain ⟨counter, hcounter, hok⟩ := bind_eq_ok.mp hok
          obtain ⟨rate, -, hcounter⟩ := bind_eq_ok.mp hcounter
          cases hcounter
          cases hok
          exact ⟨rfl, rfl, rfl, rfl⟩

/-- An orderly packet keeps the counters those of the tally. -/
theorem counts_receive {r r' : RtpStreamReceiver} {t : Tally} {p : RtpPacket} {clock : Clock}
    {accepted : Bool} (h : Counts r t) (horderly : r.toRtpStream.Orderly p)
    (hok : r.receivePacket p clock = .ok (r', accepted)) :
    Counts r' (t.receive p.getSequenceNumber) := by
  obtain ⟨hreceived, htracked⟩ := @tracked_receive _ _ _ clock h.stream horderly
  have hlost := @receive_packetsLost r.toRtpStream p clock
  rw [(receivePacket_cases hok).1] at hreceived htracked hlost
  obtain ⟨hcount, hexpectedPrior, hreceivedPrior, hreported⟩ := counters_receivePacket hok
  obtain ⟨hexpectedPrior', hreceivedPrior', hle⟩ := Tally.receive_prior t p.getSequenceNumber
  refine ⟨htracked, ?_, ?_, ?_, ?_, ?_, ?_⟩
  · rw [hcount, h.packets, hreceived, UInt64.ofNat_add]
  · rw [hexpectedPrior, h.expectedPrior, hexpectedPrior']
  · rw [hreceivedPrior, h.receivedPrior, hreceivedPrior']
  · rw [hreported, h.reported]
    exact hlost.symm
  · rw [hexpectedPrior']
    exact Nat.le_trans h.expectedPrior_le hle
  · rw [hreceivedPrior', hreceived]
    exact Nat.le_trans h.receivedPrior_le (Nat.le_add_right _ _)

/-- The receiver and, next to it, the tally of what it was given. -/
def observe (s : RtpStreamReceiver × Tally) (e : Event) :
    Except Fault (RtpStreamReceiver × Tally) := do
  let r ← s.1.step e
  match e with
  | .receivePacket p _ => .ok (r, s.2.receive p.getSequenceNumber)
  | .getRtcpReceiverReport _ => .ok (r, s.2.report)

/-- `P` holds of the tally at a report. -/
def AtReport (P : Tally → Prop) (s : RtpStreamReceiver × Tally) : Event → Prop
  | .receivePacket _ _ => True
  | .getRtcpReceiverReport _ => P s.2

instance (P : Tally → Prop) [DecidablePred P] (s : RtpStreamReceiver × Tally) :
    ∀ e, Decidable (AtReport P s e)
  | .receivePacket _ _ => isTrue trivial
  | .getRtcpReceiverReport _ => inferInstanceAs (Decidable (P s.2))

/-- No packet re-synchronises the stream, and the first number is not 0. -/
def OrderlyStep (s : RtpStreamReceiver × Tally) : Event → Prop
  | .receivePacket p _ => s.1.toRtpStream.Orderly p
  | .getRtcpReceiverReport _ => True

instance (s : RtpStreamReceiver × Tally) : ∀ e, Decidable (OrderlyStep s e)
  | .receivePacket p _ => inferInstanceAs (Decidable (s.1.toRtpStream.Orderly p))
  | .getRtcpReceiverReport _ => isTrue trivial

/-- A report is faithful to the tally at it. -/
def FaithfulStep (s : RtpStreamReceiver × Tally) : Event → Prop
  | .receivePacket _ _ => True
  | .getRtcpReceiverReport clock =>
    Faithful s.2 (s.1.getRtcpReceiverReport clock).1.fractionLost
      (s.1.getRtcpReceiverReport clock).2

theorem counts_observe {s s' : RtpStreamReceiver × Tally} {e : Event} (h : Counts s.1 s.2)
    (horderly : OrderlyStep s e) (hmeasurable : AtReport Tally.Measurable s e)
    (hok : observe s e = .ok s') : Counts s'.1 s'.2 := by
  obtain ⟨r, hr, hok⟩ := bind_eq_ok.mp hok
  cases e with
  | receivePacket p clock =>
      cases hok
      obtain ⟨⟨r', accepted⟩, hr', hr⟩ := bind_eq_ok.mp hr
      cases hr
      exact counts_receive h horderly hr'
  | getRtcpReceiverReport clock =>
      cases hok
      cases hr
      dsimp only
      rw [(report_loss s.1 clock).1]
      exact counts_report h hmeasurable.1

/-- **Loss reporting is faithful exactly when at each report there was a packet and not nearly
    all of the interval was lost**: for every run of packets and reports without a re-sync
    and with a first number other than 0, while the counts are in range. -/
theorem faithful_iff (params : Params) (sendNackDelayMs : UInt32) (addr : SockAddr)
    (events : List Event)
    (horderly : Trace.EachStep observe OrderlyStep (create params sendNackDelayMs addr, {})
      events)
    (hrange : Trace.EachStep observe (AtReport Tally.InRange)
      (create params sendNackDelayMs addr, {}) events) :
    Trace.EachStep observe FaithfulStep (create params sendNackDelayMs addr, {}) events ↔
    Trace.EachStep observe (AtReport Tally.Measurable)
      (create params sendNackDelayMs addr, {}) events := by
  refine Trace.eachStep_iff_of (I := fun s => Counts s.1 s.2) ?_ ?_
    (counts_create params sendNackDelayMs addr) (horderly.and hrange)
  · intro s e h hstep
    cases e with
    | receivePacket p clock => exact Iff.rfl
    | getRtcpReceiverReport clock => exact report_faithful_iff h hstep.2 clock
  · intro s e s' h hstep hmeasurable hok
    exact counts_observe h hstep.1 hmeasurable hok

/-- A packet with index `i`, and a report. -/
def packet (i : Nat) : Event := .receivePacket (indexed i).packet (indexed i).clock

def reportEvent : Event := .getRtcpReceiverReport fun _ => 1

/-- Two packets of 3000 are reported as no loss. -/
theorem not_faithful :
    Trace.EachStep observe OrderlyStep (receiver, {}) [packet 1, packet 3000, reportEvent] ∧
    ∃ s, Trace.runE observe (receiver, {}) [packet 1, packet 3000] = .ok s ∧
      s.2.expectedInterval = 3000 ∧ s.2.receivedInterval = 2 ∧
      (s.1.getRtcpReceiverReport fun _ => 1).2.getFractionLost = 0 ∧
      ¬ FaithfulStep s reportEvent := by
  refine ⟨by decide, _, rfl, rfl, rfl, by decide, fun h => ?_⟩
  have hfits := Tally.fraction_lt_iff.mp (h.stored ▸ Int.ofNat_lt.mpr (UInt8.toNat_lt _))
  revert hfits
  decide

theorem faithful_after_gaps :
    Trace.EachStep observe FaithfulStep (receiver, {})
      [packet 1, packet 2, reportEvent, packet 5, packet 4, packet 5, reportEvent] :=
  (faithful_iff ⟨1, 100, 16000, true⟩ 10 [] _ (by decide) (by decide)).mpr (by decide)

end RtpStreamReceiver

end Bifrost.Rtc
