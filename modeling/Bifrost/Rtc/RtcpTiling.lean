/-
  What `RtcpPacket::Parse` returns, as a statement about the bytes.

  A result means that the datagram is cut into packets without remainder, each with a valid
  common header whose length field is its extent (`SubPacket`), and that the result is read
  from the last of them that is a report or a NACK (`Decodes`). The loop carries one
  variable from packet to packet; `parseLoop_eq_some` is the induction over it.

  The five bits of the header are a number of report blocks, except in feedback, where they
  are the message type. The blocks of a sender report are not parsed; the one report of its
  packet is the sender's own part.
-/
import Bifrost.Rtc.RtcpPacket

namespace Bifrost.Rtc

namespace Rtcp

open Bytes

def commonHeader (packet : List UInt8) : Option CommonHeader :=
  if h : 4 ≤ packet.length then some (readCommonHeader packet h) else none

/-- A packet of a compound with its header. -/
structure SubPacket (packet : List UInt8) (header : CommonHeader) : Prop where
  read : commonHeader packet = some header
  version : header.version = 2
  type : 192 ≤ header.packetType ∧ header.packetType ≤ 223
  length : packet.length = RtcpPacket.packetLen header

/-- The types that `Parse` parses: SR, RR, RTPFB. -/
def Reported (header : CommonHeader) : Prop :=
  header.packetType = 200 ∨ header.packetType = 201 ∨ header.packetType = 205

instance (header : CommonHeader) : Decidable (Reported header) :=
  inferInstanceAs (Decidable (_ ∨ _))

/-- The bytes of an item. -/
def FeedbackRtpNackItem.bytes (item : FeedbackRtpNackItem) : List UInt8 :=
  put16be item.packetId ++ put16be item.lostPacketBitmask

/-- How many parts of `size` bytes fit behind the first `offset` bytes. -/
def fitting (packet : List UInt8) (offset size : Nat) : Nat := (packet.length - offset) / size

/-- The first `n` parts of `size` bytes behind the first `offset`. -/
def parts (packet : List UInt8) (offset size n : Nat) : List (List UInt8) :=
  (List.range n).map fun i => slice packet (offset + size * i) size

/-- The result holds what stands in the packet: a sender report its own 24 bytes, a receiver
    report as many blocks as are counted and fit, a NACK as many items as fit. -/
def Decodes (packet : List UInt8) (header : CommonHeader) : RtcpPacket → Prop
  | .senderReport p => header.packetType = 200 ∧
      (header.count.toNat ≤ 1 →
        p.reports.map SenderReport.header = parts packet 4 24 (min 1 (fitting packet 4 24)))
  | .receiverReport p => header.packetType = 201 ∧ 8 ≤ packet.length ∧
      put32be p.ssrc = slice packet 4 4 ∧
      p.reports.map ReceiverReport.header =
        parts packet 8 24 (min header.count.toNat (fitting packet 8 24))
  | .feedbackRtpNack p => header.packetType = 205 ∧ header.count = 1 ∧ 12 ≤ packet.length ∧
      put32be p.senderSsrc = slice packet 4 4 ∧ put32be p.mediaSsrc = slice packet 8 4 ∧
      p.items.map FeedbackRtpNackItem.bytes = parts packet 12 4 (fitting packet 12 4)

/-! ## The inner parsers -/

theorem parts_succ (packet : List UInt8) (offset size n : Nat) :
    parts packet offset size (n + 1) =
      slice packet offset size :: parts packet (offset + size) size n := by
  unfold parts
  rw [List.range_succ_eq_map, List.map_cons, List.map_map]
  refine List.cons_eq_cons.mpr ⟨by rw [Nat.mul_zero, Nat.add_zero], ?_⟩
  refine List.map_congr_left fun i _ => ?_
  show slice packet (offset + size * (i + 1)) size = slice packet (offset + size + size * i) size
  rw [Nat.mul_succ]
  congr 1
  omega

/-- One part less fits behind one more. -/
theorem fitting_succ {packet : List UInt8} {offset size : Nat} (hsize : 0 < size)
    (h : offset + size ≤ packet.length) :
    fitting packet offset size = fitting packet (offset + size) size + 1 := by
  unfold fitting
  rw [← Nat.add_div_right _ hsize]
  congr 1
  omega

theorem fitting_zero {packet : List UInt8} {offset size : Nat} (hsize : 0 < size)
    (h : packet.length < offset + size) : fitting packet offset size = 0 :=
  Nat.div_eq_of_lt (by omega)

theorem senderReport_parse_eq (packet : List UInt8) :
    (SenderReportPacket.parse packet).reports.map SenderReport.header =
      parts packet 4 24 (min 1 (fitting packet 4 24)) := by
  unfold SenderReportPacket.parse SenderReport.parse
  by_cases h : 4 + 24 ≤ packet.length
  · rw [dif_pos (by rw [List.length_drop]; omega), fitting_succ (by decide) h,
      Nat.min_eq_left (by omega), parts_succ]
    rfl
  · rw [dif_neg (by rw [List.length_drop]; omega), fitting_zero (by decide) (by omega)]
    rfl

theorem parseReports_eq (packet : List UInt8) (count : Nat) : ∀ offset,
    (parseReports count (packet.drop offset)).map ReceiverReport.header =
      parts packet offset 24 (min count (fitting packet offset 24)) := by
  induction count with
  | zero =>
      intro offset
      rw [Nat.zero_min]
      rfl
  | succ count ih =>
      intro offset
      unfold parseReports ReceiverReport.parse
      by_cases h : offset + 24 ≤ packet.length
      · rw [dif_pos (by rw [List.length_drop]; omega), fitting_succ (by decide) h,
          Nat.succ_min_succ, parts_succ, ← ih, List.drop_drop]
        rfl
      · rw [dif_neg (by rw [List.length_drop]; omega), fitting_zero (by decide) (by omega),
          Nat.min_zero]
        rfl

theorem bytes_nackItem {data : List UInt8} (h : 4 ≤ data.length) (h0 : 0 + 2 ≤ data.length)
    (h2 : 2 + 2 ≤ data.length) :
    FeedbackRtpNackItem.bytes ⟨u16be data 0 h0, u16be data 2 h2⟩ = slice data 0 4 := by
  unfold FeedbackRtpNackItem.bytes
  rw [put16be_u16be, put16be_u16be, slice_succ 3 (by omega), slice_succ 2 (by omega),
    slice_succ 1 (by omega), slice_succ 0 (by omega)]
  rfl

theorem parseItems_eq (packet : List UInt8) (fuel : Nat) : ∀ offset,
    fitting packet offset 4 ≤ fuel →
    (parseItems fuel (packet.drop offset)).map FeedbackRtpNackItem.bytes =
      parts packet offset 4 (fitting packet offset 4) := by
  induction fuel with
  | zero =>
      intro offset hfuel
      rw [Nat.le_zero.mp hfuel]
      rfl
  | succ fuel ih =>
      intro offset hfuel
      unfold parseItems FeedbackRtpNackItem.parse
      by_cases h : offset + 4 ≤ packet.length
      · have hdrop : 4 ≤ (packet.drop offset).length := by rw [List.length_drop]; omega
        rw [fitting_succ (by decide) h] at hfuel ⊢
        rw [dif_pos hdrop, parts_succ, ← ih (offset + 4) (by omega), List.drop_drop]
        exact congrArg (· :: _) (bytes_nackItem hdrop _ _)
      · rw [dif_neg (by rw [List.length_drop]; omega), fitting_zero (by decide) (by omega)]
        rfl

/-! ## One packet of the compound -/

theorem commonHeader_eq_some {packet : List UInt8} {header : CommonHeader}
    (h : commonHeader packet = some header) :
    ∃ hlen : 4 ≤ packet.length, readCommonHeader packet hlen = header := by
  unfold commonHeader at h
  split_ifs at h with hlen
  exact ⟨hlen, Option.some.inj h⟩

theorem receiverReport_decodes {packet : List UInt8} {header : CommonHeader}
    (hheader : commonHeader packet = some header) (htype : header.packetType = 201)
    {p : ReceiverReportPacket} (h : ReceiverReportPacket.parse packet = some p) :
    Decodes packet header (.receiverReport p) := by
  obtain ⟨hlen, rfl⟩ := commonHeader_eq_some hheader
  unfold ReceiverReportPacket.parse at h
  split_ifs at h with h8
  cases h
  exact ⟨htype, h8, put32be_u32be _, parseReports_eq packet _ 8⟩

theorem feedbackRtpNack_decodes {packet : List UInt8} {header : CommonHeader}
    (hheader : commonHeader packet = some header) (htype : header.packetType = 205)
    {p : FeedbackRtpNackPacket} (h : FeedbackRtpNackPacket.parse packet = some p) :
    Decodes packet header (.feedbackRtpNack p) := by
  obtain ⟨hlen, rfl⟩ := commonHeader_eq_some hheader
  unfold FeedbackRtpNackPacket.parse at h
  split_ifs at h with h12 hcount
  cases h
  have hfuel : fitting packet 12 4 ≤ packet.length :=
    Nat.le_trans (Nat.div_le_self _ _) (Nat.sub_le _ _)
  exact ⟨htype, hcount, h12, put32be_u32be _, put32be_u32be _, parseItems_eq packet _ 12 hfuel⟩

/-- A packet of a parsed type is decoded, any other leaves `current` as it is. -/
theorem parseByType_cases {packet : List UInt8} {header : CommonHeader}
    (hheader : commonHeader packet = some header) {current : Option RtcpPacket} {next : RtcpPacket}
    (h : RtcpPacket.parseByType (.ofByte header.packetType) packet current = some next) :
    Reported header ∧ Decodes packet header next ∨ ¬ Reported header ∧ current = some next := by
  unfold Reported
  by_cases hsr : header.packetType = 200
  · rw [show RtcpType.ofByte header.packetType = .sr by rw [hsr]; rfl] at h
    cases h
    exact Or.inl ⟨Or.inl hsr, hsr, fun _ => senderReport_parse_eq packet⟩
  by_cases hrr : header.packetType = 201
  · rw [show RtcpType.ofByte header.packetType = .rr by rw [hrr]; rfl] at h
    obtain ⟨p, hp, rfl⟩ := Option.map_eq_some_iff.mp h
    exact Or.inl ⟨Or.inr (Or.inl hrr), receiverReport_decodes hheader hrr hp⟩
  by_cases hfb : header.packetType = 205
  · rw [show RtcpType.ofByte header.packetType = .rtpfb by rw [hfb]; rfl] at h
    obtain ⟨p, hp, rfl⟩ := Option.map_eq_some_iff.mp h
    exact Or.inl ⟨Or.inr (Or.inr hfb), feedbackRtpNack_decodes hheader hfb hp⟩
  · right
    refine ⟨by simp [hsr, hrr, hfb], ?_⟩
    unfold RtcpType.ofByte at h
    rw [if_neg hsr, if_neg hrr] at h
    split_ifs at h <;> exact h

/-! ## The compound -/

/-- The packets before, the one the result is read from, and those behind it. -/
structure Tiles (data : List UInt8) (result : RtcpPacket) (before : List (List UInt8))
    (last : List UInt8) (behind : List (List UInt8)) : Prop where
  whole : (before ++ last :: behind).flatten = data
  each : ∀ packet ∈ before ++ last :: behind, ∃ header, SubPacket packet header
  decoded : ∃ header, commonHeader last = some header ∧ Decodes last header result
  passedOver : ∀ packet ∈ behind, ∃ header, commonHeader packet = some header ∧ ¬ Reported header

theorem readCommonHeader_take {data : List UInt8} {n : Nat} (h : 4 ≤ data.length)
    (h' : 4 ≤ (data.take n).length) :
    readCommonHeader (data.take n) h' = readCommonHeader data h := by
  simp only [readCommonHeader, u8, u16be, List.getElem_take]

theorem four_le_packetLen (header : CommonHeader) : 4 ≤ RtcpPacket.packetLen header := by
  unfold RtcpPacket.packetLen
  omega

/-- The packet in front of the data, where the loop does not stop at it. -/
theorem subPacket_take {data : List UInt8} (h : 4 ≤ data.length)
    (hrtcp : RtcpPacket.isRtcp data = true)
    (hlen : RtcpPacket.packetLen (readCommonHeader data h) ≤ data.length) :
    SubPacket (data.take (RtcpPacket.packetLen (readCommonHeader data h)))
      (readCommonHeader data h) := by
  have hfour := four_le_packetLen (readCommonHeader data h)
  have htake : 4 ≤ (data.take (RtcpPacket.packetLen (readCommonHeader data h))).length := by
    rw [List.length_take]
    omega
  unfold RtcpPacket.isRtcp at hrtcp
  rw [dif_pos h] at hrtcp
  simp only [Bool.and_eq_true, decide_eq_true_eq, beq_iff_eq] at hrtcp
  refine ⟨?_, hrtcp.1.1.2, ⟨hrtcp.1.2, hrtcp.2⟩, ?_⟩
  · rw [commonHeader, dif_pos htake, readCommonHeader_take h]
  · rw [List.length_take, Nat.min_eq_left hlen]

theorem four_le_of_isRtcp {data : List UInt8} (h : RtcpPacket.isRtcp data = true) :
    4 ≤ data.length := by
  by_contra hshort
  rw [RtcpPacket.isRtcp, dif_neg hshort] at h
  cases h

/-- The loop stops at data that is no RTCP packet. -/
theorem parseLoop_stop {fuel : Nat} {current : Option RtcpPacket} {data : List UInt8}
    (hne : data ≠ []) (h : RtcpPacket.isRtcp data ≠ true) :
    RtcpPacket.parseLoop fuel current data = none := by
  obtain ⟨byte, rest, rfl⟩ := List.exists_cons_of_ne_nil hne
  cases fuel with
  | zero => rfl
  | succ fuel =>
      unfold RtcpPacket.parseLoop
      split_ifs <;> rfl

/-- And otherwise takes a packet off it. -/
theorem parseLoop_succ {fuel : Nat} {current : Option RtcpPacket} {data : List UInt8}
    (h : RtcpPacket.isRtcp data = true) : RtcpPacket.parseLoop (fuel + 1) current data =
      let header := readCommonHeader data (four_le_of_isRtcp h)
      if data.length < RtcpPacket.packetLen header then none
      else
        match RtcpPacket.parseByType (.ofByte header.packetType)
            (data.take (RtcpPacket.packetLen header)) current with
        | none => none
        | some packet =>
          RtcpPacket.parseLoop fuel (some packet) (data.drop (RtcpPacket.packetLen header)) := by
  have hlen := four_le_of_isRtcp h
  cases data with
  | nil => cases h
  | cons byte rest =>
      rw [RtcpPacket.parseLoop.eq_def]
      dsimp only
      rw [dif_pos hlen]
      exact if_pos h

/-- What a round of the loop has found if the loop returns a packet. -/
theorem parseLoop_round {fuel : Nat} {current : Option RtcpPacket} {data : List UInt8}
    {p : RtcpPacket} (hne : data ≠ [])
    (h : RtcpPacket.parseLoop (fuel + 1) current data = some p) :
    ∃ packet header next, SubPacket packet header ∧
      data = packet ++ data.drop (RtcpPacket.packetLen header) ∧
      RtcpPacket.parseByType (.ofByte header.packetType) packet current = some next ∧
      RtcpPacket.parseLoop fuel (some next) (data.drop (RtcpPacket.packetLen header)) = some p := by
  by_cases hrtcp : RtcpPacket.isRtcp data = true
  swap
  · rw [parseLoop_stop hne hrtcp] at h
    cases h
  rw [parseLoop_succ hrtcp] at h
  dsimp only at h
  split_ifs at h with hfits
  split at h
  · cases h
  · next next hnext =>
      exact ⟨_, _, next, subPacket_take _ hrtcp (Nat.le_of_not_lt hfits),
        (List.take_append_drop _ _).symm, hnext, h⟩

/-- What the loop returns is read from the last packet of a parsed type, or was there before. -/
theorem parseLoop_eq_some (fuel : Nat) : ∀ current data p,
    RtcpPacket.parseLoop fuel current data = some p →
    (∃ before last behind, Tiles data p before last behind) ∨
    current = some p ∧ ∃ packets : List (List UInt8), packets.flatten = data ∧
      ∀ packet ∈ packets, ∃ header, SubPacket packet header ∧ ¬ Reported header := by
  have hend : ∀ fuel (current : Option RtcpPacket) p,
      RtcpPacket.parseLoop fuel current [] = some p → current = some p := by
    intro fuel current p h
    cases fuel <;> exact h
  induction fuel with
  | zero =>
      intro current data p h
      cases data with
      | nil => exact Or.inr ⟨hend 0 current p h, [], rfl, by simp⟩
      | cons byte rest => cases h
  | succ fuel ih =>
      intro current data p h
      cases data with
      | nil => exact Or.inr ⟨hend _ current p h, [], rfl, by simp⟩
      | cons byte rest =>
          obtain ⟨packet, header, next, hsub, hdata, hnext, hloop⟩ :=
            parseLoop_round (List.cons_ne_nil byte rest) h
          rw [hdata]
          rcases ih _ _ p hloop with ⟨before, last, behind, htiles⟩ | ⟨hp, packets, hwhole, hnot⟩
          · refine Or.inl ⟨packet :: before, last, behind, ?_, ?_, htiles.decoded,
              htiles.passedOver⟩
            · rw [List.cons_append, List.flatten_cons, htiles.whole]
            · exact List.forall_mem_cons.mpr ⟨⟨header, hsub⟩, htiles.each⟩
          · have hcons : (packet :: packets).flatten =
                packet ++ (byte :: rest).drop (RtcpPacket.packetLen header) := by
              rw [List.flatten_cons, hwhole]
            cases hp
            rcases parseByType_cases hsub.read hnext with ⟨-, hdecodes⟩ | ⟨hpassed, hcurrent⟩
            · refine Or.inl ⟨[], packet, packets, hcons, ?_, ⟨header, hsub.read, hdecodes⟩, ?_⟩
              · refine List.forall_mem_cons.mpr ⟨⟨header, hsub⟩, fun q hq => ?_⟩
                obtain ⟨header', hsub', -⟩ := hnot q hq
                exact ⟨header', hsub'⟩
              · intro q hq
                obtain ⟨header', hsub', hnot'⟩ := hnot q hq
                exact ⟨header', hsub'.read, hnot'⟩
            · exact Or.inr ⟨hcurrent, packet :: packets, hcons,
                List.forall_mem_cons.mpr ⟨⟨header, hsub, hpassed⟩, hnot⟩⟩

/-- **What `Parse` returns.** A result is read from the last report or NACK of a string that
    is cut into packets without remainder. -/
theorem parse_tiles {data : List UInt8} {p : RtcpPacket} (h : RtcpPacket.parse data = some p) :
    ∃ before last behind, Tiles data p before last behind := by
  rcases parseLoop_eq_some data.length none data p h with htiles | ⟨hnone, -⟩
  · exact htiles
  · cases hnone

end Rtcp

end Bifrost.Rtc
