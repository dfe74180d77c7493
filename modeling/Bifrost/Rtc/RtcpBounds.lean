/-
  `RtcpPacket::Parse` with pointers: it ends, and reads inside the datagram.

  A parsed packet holds pointers into the datagram, here offsets, and its getters and item
  iterators read there later. `parsePointers` is `Parse` with every read and subtraction
  checked and every loop counted; `load` reads all that the getters of a packet read. Both
  in a row never end in a breach and give the packet of the pure model
  (`parsePointers_load`).
-/
import Bifrost.Lib.Checked
import Bifrost.Rtc.RtcpTiling

namespace Bifrost.Rtc

namespace Rtcp

open Bytes Checked

/-- A parsed packet: the offset of its common header, and of its reports or items. -/
inductive PacketPointers where
  | senderReport (header : Nat) (reports : List Nat)
  | receiverReport (header : Nat) (ssrc : UInt32) (reports : List Nat)
  | feedbackRtpNack (header : Nat) (items : List Nat)
  deriving DecidableEq

variable (data : List UInt8)

/-! ## The accesses of the source -/

/-- `pos` is the pointer `data` of the source and `len` its length. -/
def headerAt (pos : Nat) : Except Breach CommonHeader :=
  read data pos 4 fun h => readCommonHeader (data.drop pos) (by rw [List.length_drop]; omega)

def isRtcpAt (pos len : Nat) : Except Breach Bool :=
  if 4 ≤ len then do
    let byte0 ← read data pos 1 (u8 data pos)
    let header ← headerAt data pos
    .ok (decide (byte0 > 127) && decide (byte0 < 192) && header.version == 2 &&
      decide (header.packetType ≥ 192) && decide (header.packetType ≤ 223))
  else .ok false

/-- `SenderReportPacket::Parse`. -/
def senderReportAt (pos len : Nat) : Except Breach PacketPointers := do
  let _ ← headerAt data pos
  let left ← sub len 4
  .ok (.senderReport pos (if left < 24 then [] else [pos + 4]))

/-- The loop of `ReceiverReportPacket::Parse`. -/
def reportsAt (pos len : Nat) : Nat → Nat → Except Breach (List Nat)
  | 0, _ => .ok []
  | count + 1, offset =>
    if len > offset then do
      let left ← sub len offset
      if left < 24 then .ok []
      else do
        let reports ← reportsAt pos len count (offset + 24)
        .ok ((pos + offset) :: reports)
    else .ok []

def receiverReportAt (pos len : Nat) : Except Breach (Option PacketPointers) :=
  if len < 8 then .ok none
  else do
    let header ← headerAt data pos
    let ssrc ← read data (pos + 4) 4 (u32be data (pos + 4))
    let reports ← reportsAt pos len header.count.toNat 8
    .ok (some (.receiverReport pos ssrc reports))

/-- The loop of `FeedbackRtpItemsPacket::Parse`. -/
def itemsAt (pos len : Nat) : Nat → Nat → Except Breach (List Nat)
  | 0, offset => if len > offset then .error .endless else .ok []
  | fuel + 1, offset =>
    if len > offset then do
      let left ← sub len offset
      if 4 > left then .ok []
      else do
        let items ← itemsAt pos len fuel (offset + 4)
        .ok ((pos + offset) :: items)
    else .ok []

/-- `FeedbackRtpPacket::Parse`. -/
def feedbackAt (pos len : Nat) : Except Breach (Option PacketPointers) :=
  if len < 12 then .ok none
  else do
    let header ← headerAt data pos
    if header.count = 1 then do
      let items ← itemsAt pos len len 12
      .ok (some (.feedbackRtpNack pos items))
    else .ok none

def byTypeAt (type : RtcpType) (pos len : Nat) (current : Option PacketPointers) :
    Except Breach (Option PacketPointers) :=
  match type with
  | .sr => some <$> senderReportAt data pos len
  | .rr => receiverReportAt data pos len
  | .rtpfb => feedbackAt data pos len
  | _ => .ok current

/-- The loop of `Parse`. -/
def loopAt : Nat → Option PacketPointers → Nat → Nat → Except Breach (Option PacketPointers)
  | fuel, current, pos, len =>
    if len > 0 then
      match fuel with
      | 0 => .error .endless
      | fuel + 1 => do
        if !(← isRtcpAt data pos len) then .ok none
        else
          let header ← headerAt data pos
          let packetLen := RtcpPacket.packetLen header
          if len < packetLen then .ok none
          else
            match ← byTypeAt data (.ofByte header.packetType) pos packetLen current with
            | none => .ok none
            | some packet =>
              let left ← sub len packetLen
              loopAt fuel (some packet) (pos + packetLen) left
    else .ok current

def parsePointers : Except Breach (Option PacketPointers) :=
  loopAt data data.length none 0 data.length

/-! ## The reads of the getters -/

def senderReportLoad (pos : Nat) : Except Breach SenderReport :=
  read data pos 24 fun h => ⟨slice data pos 24, length_slice h⟩

def receiverReportLoad (pos : Nat) : Except Breach ReceiverReport :=
  read data pos 24 fun h => ⟨slice data pos 24, length_slice h⟩

def itemLoad (pos : Nat) : Except Breach FeedbackRtpNackItem :=
  read data pos 4 fun h => ⟨u16be data pos (by omega), u16be data (pos + 2) (by omega)⟩

/-- All that the getters of a packet read. -/
def load : PacketPointers → Except Breach RtcpPacket
  | .senderReport _ reports => do
    let reports ← reports.mapM (senderReportLoad data)
    .ok (.senderReport { reports })
  | .receiverReport _ ssrc reports => do
    let reports ← reports.mapM (receiverReportLoad data)
    .ok (.receiverReport { ssrc, reports })
  | .feedbackRtpNack header items => do
    let senderSsrc ← read data (header + 4) 4 (u32be data (header + 4))
    let mediaSsrc ← read data (header + 8) 4 (u32be data (header + 8))
    let items ← items.mapM (itemLoad data)
    .ok (.feedbackRtpNack { senderSsrc, mediaSsrc, items })

def loadAll : Option PacketPointers → Except Breach (Option RtcpPacket)
  | none => .ok none
  | some packet => some <$> load data packet

/-- `Parse`, and then everything its result gives access to. -/
def parseAndLoad : Except Breach (Option RtcpPacket) := do loadAll data (← parsePointers data)

/-! ## No access goes wrong -/

theorem mapM_cons_ok {α β ε : Type} {f : α → Except ε β} {a : α} {b : β} {l : List α}
    {bs : List β} (ha : f a = .ok b) (hl : l.mapM f = .ok bs) :
    (a :: l).mapM f = .ok (b :: bs) := by
  rw [List.mapM_cons, ha]
  simp only [bind, Except.bind, hl]
  rfl

section Packet

variable {data} {pos len : Nat} (hpos : pos + len ≤ data.length)
include hpos

theorem headerAt_ok (hlen : 4 ≤ len) : headerAt data pos =
    .ok (readCommonHeader (slice data pos len) (by rw [length_slice hpos]; exact hlen)) := by
  unfold headerAt
  rw [read_ok (by omega)]
  exact congrArg Except.ok (readCommonHeader_take _ _).symm

theorem u32be_slice {i : Nat} (hi : i + 4 ≤ len) :
    u32be (slice data pos len) i (by rw [length_slice hpos]; exact hi) =
      u32be data (pos + i) (by omega) := by
  simp only [u32be, slice, List.getElem_take, List.getElem_drop, Nat.add_assoc]

theorem senderReportAt_load (hlen : 4 ≤ len) :
    ∃ packet, senderReportAt data pos len = .ok packet ∧
      load data packet = .ok (.senderReport (.parse (slice data pos len))) := by
  unfold senderReportAt
  rw [headerAt_ok hpos hlen, sub_ok hlen]
  refine ⟨_, rfl, ?_⟩
  unfold SenderReportPacket.parse SenderReport.parse
  by_cases hshort : len - 4 < 24
  · rw [if_pos hshort, dif_neg (by rw [List.length_drop, length_slice hpos]; omega)]
    rfl
  · rw [if_neg hshort, dif_pos (by rw [List.length_drop, length_slice hpos]; omega)]
    have hread : senderReportLoad data (pos + 4) =
        .ok ⟨slice data (pos + 4) 24, length_slice (by omega)⟩ := read_ok (by omega)
    simp only [load, mapM_cons_ok hread (l := []) rfl, bind, Except.bind]
    congr 5
    exact (slice_slice data pos (by omega)).symm

theorem reportsAt_load (count : Nat) : ∀ offset,
    ∃ reports, reportsAt pos len count offset = .ok reports ∧
      reports.mapM (receiverReportLoad data) =
        .ok (parseReports count ((slice data pos len).drop offset)) := by
  induction count with
  | zero => exact fun offset => ⟨[], rfl, rfl⟩
  | succ count ih =>
      intro offset
      have hdrop : ((slice data pos len).drop offset).length = len - offset := by
        rw [List.length_drop, length_slice hpos]
      unfold reportsAt parseReports ReceiverReport.parse
      by_cases hmore : offset + 24 ≤ len
      · obtain ⟨reports, hat, hload⟩ := ih (offset + 24)
        rw [if_pos (by omega), sub_ok (by omega), dif_pos (by omega)]
        simp only [bind, Except.bind, if_neg (show ¬ len - offset < 24 by omega), hat]
        refine ⟨_, rfl, mapM_cons_ok ?_ (List.drop_drop ▸ hload)⟩
        have hread : receiverReportLoad data (pos + offset) =
            .ok ⟨slice data (pos + offset) 24, length_slice (by omega)⟩ := read_ok (by omega)
        rw [hread]
        congr 2
        exact (slice_slice data pos hmore).symm
      · rw [dif_neg (by omega)]
        refine ⟨[], ?_, rfl⟩
        by_cases hany : len > offset
        · rw [if_pos hany, sub_ok (Nat.le_of_lt hany)]
          exact if_pos (by omega)
        · rw [if_neg hany]

theorem receiverReportAt_load :
    ∃ packet, receiverReportAt data pos len = .ok packet ∧
      loadAll data packet =
        .ok ((ReceiverReportPacket.parse (slice data pos len)).map .receiverReport) := by
  unfold receiverReportAt ReceiverReportPacket.parse
  have hlength := length_slice hpos
  by_cases hshort : len < 8
  · rw [if_pos hshort, dif_neg (by omega)]
    exact ⟨none, rfl, rfl⟩
  · obtain ⟨reports, hat, hload⟩ := reportsAt_load hpos (readCommonHeader (slice data pos len)
      (by omega)).count.toNat 8
    rw [if_neg hshort, headerAt_ok hpos (by omega), read_ok (by omega), dif_pos (by omega)]
    simp only [bind, Except.bind, hat]
    refine ⟨_, rfl, ?_⟩
    simp only [loadAll, load, hload, bind, Except.bind]
    rw [u32be_slice hpos (show 4 + 4 ≤ len by omega)]
    rfl

theorem itemsAt_load (fuel : Nat) : ∀ offset, len - offset ≤ fuel →
    ∃ items, itemsAt pos len fuel offset = .ok items ∧
      items.mapM (itemLoad data) =
        .ok (parseItems fuel ((slice data pos len).drop offset)) := by
  induction fuel with
  | zero =>
      intro offset hfuel
      exact ⟨[], if_neg (by omega), rfl⟩
  | succ fuel ih =>
      intro offset hfuel
      have hdrop : ((slice data pos len).drop offset).length = len - offset := by
        rw [List.length_drop, length_slice hpos]
      unfold itemsAt parseItems FeedbackRtpNackItem.parse
      by_cases hmore : offset + 4 ≤ len
      · obtain ⟨items, hat, hload⟩ := ih (offset + 4) (by omega)
        rw [if_pos (by omega), sub_ok (by omega), dif_pos (by omega)]
        simp only [bind, Except.bind, if_neg (show ¬ 4 > len - offset by omega), hat]
        refine ⟨_, rfl, mapM_cons_ok ?_ (List.drop_drop ▸ hload)⟩
        unfold itemLoad
        rw [read_ok (by omega)]
        simp only [u16be, slice, List.getElem_take, List.getElem_drop, Nat.add_assoc, Nat.add_zero]
      · rw [dif_neg (by omega)]
        refine ⟨[], ?_, rfl⟩
        by_cases hany : len > offset
        · rw [if_pos hany, sub_ok (Nat.le_of_lt hany)]
          exact if_pos (by omega)
        · rw [if_neg hany]

theorem feedbackAt_load :
    ∃ packet, feedbackAt data pos len = .ok packet ∧
      loadAll data packet =
        .ok ((FeedbackRtpNackPacket.parse (slice data pos len)).map .feedbackRtpNack) := by
  unfold feedbackAt FeedbackRtpNackPacket.parse
  have hlength := length_slice hpos
  by_cases hshort : len < 12
  · rw [if_pos hshort, dif_neg (by omega)]
    exact ⟨none, rfl, rfl⟩
  rw [if_neg hshort, headerAt_ok hpos (by omega), dif_pos (by omega)]
  simp only [bind, Except.bind]
  by_cases hcount : (readCommonHeader (slice data pos len) (by omega)).count = 1
  · obtain ⟨items, hat, hload⟩ := itemsAt_load hpos len 12 (by omega)
    have hload' : items.mapM (itemLoad data) = .ok (parseItems (slice data pos len).length
        ((slice data pos len).drop 12)) := by rw [hlength, hload]
    rw [if_pos hcount, if_pos hcount, hat]
    refine ⟨_, rfl, ?_⟩
    simp only [loadAll, load, hload', bind, Except.bind]
    rw [read_ok (by omega), read_ok (by omega), u32be_slice hpos (show 4 + 4 ≤ len by omega),
      u32be_slice hpos (show 8 + 4 ≤ len by omega)]
    rfl
  · rw [if_neg hcount, if_neg hcount]
    exact ⟨none, rfl, rfl⟩

theorem byTypeAt_load (hlen : 4 ≤ len) (type : RtcpType) {current : Option PacketPointers}
    {parsed : Option RtcpPacket} (hcurrent : loadAll data current = .ok parsed) :
    ∃ next, byTypeAt data type pos len current = .ok next ∧
      loadAll data next = .ok (RtcpPacket.parseByType type (slice data pos len) parsed) := by
  cases type with
  | sr =>
      obtain ⟨packet, hat, hload⟩ := senderReportAt_load hpos hlen
      refine ⟨some packet, by simp only [byTypeAt, hat]; rfl, ?_⟩
      simp only [loadAll, hload]
      rfl
  | rr => exact receiverReportAt_load hpos
  | rtpfb => exact feedbackAt_load hpos
  | sdes | bye | app | psfb | xr | nat | unnamed => exact ⟨current, rfl, hcurrent⟩

end Packet

/-! ## The loop -/

section Loop

variable {data}

theorem isRtcpAt_eq {pos : Nat} (hpos : pos ≤ data.length) :
    isRtcpAt data pos (data.length - pos) = .ok (RtcpPacket.isRtcp (data.drop pos)) := by
  unfold isRtcpAt RtcpPacket.isRtcp
  by_cases h : 4 ≤ data.length - pos
  · have hdrop : 4 ≤ (data.drop pos).length := by rw [List.length_drop]; exact h
    rw [if_pos h, dif_pos hdrop]
    unfold headerAt
    rw [read_ok (by omega), read_ok (by omega)]
    simp only [bind, Except.bind, u8, List.getElem_drop, Nat.add_zero]
    rfl
  · rw [if_neg h, dif_neg (by rw [List.length_drop]; exact h)]

/-- Nothing that can be loaded comes from nothing. -/
theorem loadAll_eq_none {current : Option PacketPointers} (h : loadAll data current = .ok none) :
    current = none := by
  cases current with
  | none => rfl
  | some packet =>
      simp only [loadAll] at h
      cases hload : load data packet with
      | error breach => rw [hload] at h; cases h
      | ok p => rw [hload] at h; cases h

theorem loadAll_eq_some {current : Option PacketPointers} {p : RtcpPacket}
    (h : loadAll data current = .ok (some p)) : ∃ packet, current = some packet := by
  cases current with
  | none => cases h
  | some packet => exact ⟨packet, rfl⟩

/-- Where nothing is left both loops return what they have. -/
theorem loopAt_end {fuel pos : Nat} (current : Option PacketPointers) (parsed : Option RtcpPacket)
    (hend : data.length ≤ pos) :
    loopAt data fuel current pos (data.length - pos) = .ok current ∧
      RtcpPacket.parseLoop fuel parsed (data.drop pos) = parsed := by
  constructor
  · unfold loopAt
    exact if_neg (by omega)
  · rw [List.drop_eq_nil_of_le hend]
    cases fuel <;> rfl

theorem loopAt_load (fuel : Nat) : ∀ current parsed pos, loadAll data current = .ok parsed →
    pos ≤ data.length → data.length - pos ≤ fuel →
    ∃ result, loopAt data fuel current pos (data.length - pos) = .ok result ∧
      loadAll data result = .ok (RtcpPacket.parseLoop fuel parsed (data.drop pos)) := by
  induction fuel with
  | zero =>
      intro current parsed pos hcurrent hpos hfuel
      obtain ⟨hloop, hparse⟩ := @loopAt_end data 0 pos current parsed (by omega)
      exact ⟨current, hloop, hparse.symm ▸ hcurrent⟩
  | succ fuel ih =>
      intro current parsed pos hcurrent hpos hfuel
      by_cases hend : data.length - pos = 0
      · obtain ⟨hloop, hparse⟩ := @loopAt_end data (fuel + 1) pos current parsed (by omega)
        exact ⟨current, hloop, hparse.symm ▸ hcurrent⟩
      have hlength : (data.drop pos).length = data.length - pos := List.length_drop
      have hne : data.drop pos ≠ [] := by
        intro hnil
        rw [hnil] at hlength
        exact hend hlength.symm
      unfold loopAt
      rw [if_pos (Nat.pos_of_ne_zero hend), isRtcpAt_eq hpos]
      simp only [bind, Except.bind]
      by_cases hrtcp : RtcpPacket.isRtcp (data.drop pos) = true
      swap
      · rw [if_pos (by simpa using hrtcp), parseLoop_stop hne hrtcp]
        exact ⟨none, rfl, rfl⟩
      have hfour := four_le_of_isRtcp hrtcp
      have hheader : headerAt data pos = .ok (readCommonHeader (data.drop pos) hfour) :=
        read_ok (by omega)
      rw [if_neg (by simp [hrtcp]), parseLoop_succ hrtcp, hheader]
      dsimp only
      generalize readCommonHeader (data.drop pos) hfour = header
      by_cases hfits : data.length - pos < RtcpPacket.packetLen header
      · rw [if_pos hfits, if_pos (by omega)]
        exact ⟨none, rfl, rfl⟩
      rw [if_neg hfits, if_neg (by omega)]
      obtain ⟨next, hnext, hload⟩ := @byTypeAt_load data pos (RtcpPacket.packetLen header)
        (by omega) (four_le_packetLen header) (.ofByte header.packetType) _ _ hcurrent
      rw [hnext]
      dsimp only
      cases hparsed : RtcpPacket.parseByType (.ofByte header.packetType)
          (slice data pos (RtcpPacket.packetLen header)) parsed with
      | none =>
          rw [hparsed] at hload
          rw [loadAll_eq_none hload, show RtcpPacket.parseByType (.ofByte header.packetType)
            ((data.drop pos).take (RtcpPacket.packetLen header)) parsed = none from hparsed]
          exact ⟨none, rfl, rfl⟩
      | some p =>
          rw [hparsed] at hload
          obtain ⟨packet, rfl⟩ := loadAll_eq_some hload
          have hfour' := four_le_packetLen header
          obtain ⟨result, hloop, hresult⟩ := ih (some packet) (some p)
            (pos + RtcpPacket.packetLen header) hload (by omega) (by omega)
          rw [show RtcpPacket.parseByType (.ofByte header.packetType)
            ((data.drop pos).take (RtcpPacket.packetLen header)) parsed = some p from hparsed]
          dsimp only
          rw [sub_ok (by omega), List.drop_drop]
          dsimp only
          rw [Nat.sub_sub]
          exact ⟨result, hloop, hresult⟩

end Loop

/-- **Parsing stays in bounds and ends.** For every string the pointers `Parse` makes, and all
    that the getters of its result read through them, lie inside, and give the packet. -/
theorem parseAndLoad_eq (data : List UInt8) : parseAndLoad data = .ok (RtcpPacket.parse data) := by
  obtain ⟨result, hloop, hload⟩ := @loopAt_load data data.length none none 0 rfl (Nat.zero_le _)
    (Nat.le_refl _)
  unfold parseAndLoad parsePointers
  rw [Nat.sub_zero] at hloop
  rw [hloop]
  exact hload

/-- **Parsing is total, in bounds and exact.** No read of `Parse` or of the getters of its
    result misses the string, no loop is endless, and a result tiles the string and is read
    from its last report or NACK. -/
theorem parse_exact (data : List UInt8) :
    parseAndLoad data = .ok (RtcpPacket.parse data) ∧
    match RtcpPacket.parse data with
    | none => True
    | some p => ∃ before last behind, Tiles data p before last behind := by
  refine ⟨parseAndLoad_eq data, ?_⟩
  cases hp : RtcpPacket.parse data with
  | none => trivial
  | some p => exact parse_tiles hp

/-- As many reports or items as the header counts and the length holds. -/
def AsCounted (packet : List UInt8) (header : CommonHeader) : RtcpPacket → Prop
  | .senderReport p => p.reports.length = min header.count.toNat (fitting packet 4 24)
  | .receiverReport p => p.reports.length = min header.count.toNat (fitting packet 8 24)
  | .feedbackRtpNack p => p.items.length = min header.count.toNat (fitting packet 12 4)

/-- A sender report without report blocks. -/
def plainSenderReport : List UInt8 := [128, 200, 0, 6] ++ List.replicate 24 0

/-- It counts no blocks, and its packet holds one report. -/
theorem not_asCounted : ¬ ∀ data header p, SubPacket data header →
    RtcpPacket.parse data = some p → AsCounted data header p := by
  intro h
  have hsub : SubPacket plainSenderReport ⟨0, 0, 2, 200, 6⟩ := ⟨rfl, rfl, by decide, rfl⟩
  have hcount : 1 = min 0 1 := h plainSenderReport _ _ hsub rfl
  exact absurd hcount (by decide)

end Rtcp

end Bifrost.Rtc
