/-
  The reports of a compound packet, at the other end.

  A receiver report packet is parsed into as many reports as its header counts, and that is
  a number of five bits; a sender report packet is parsed into one report. So the walk over
  a compound finds the first sender report and the first `n % 32` of `n` receiver reports
  (`walk_serialize`). The compound refuses a report only when the bytes do not fit, and that
  many reports do not get there: they all do exactly when there are at most one and at most
  31 of them (`survives_iff`).
-/
import Bifrost.Rtc.CompoundPacket
import Bifrost.Lib.Trace

namespace Bifrost.Rtc

namespace Rtcp

/-! ## One packet -/

/-- The sizes of parts that are all of one size. -/
theorem sum_map_const {α : Type} {f : α → Nat} {n : Nat} (h : ∀ a, f a = n) (l : List α) :
    (l.map f).sum = n * l.length := by
  rw [show f = fun _ => n from funext h, List.map_const', List.sum_replicate_nat, Nat.mul_comm]

/-- What is written as a header is read as that header. -/
theorem readCommonHeader_writeCommonHeader (header : CommonHeader) (rest : List UInt8)
    (h : 4 ≤ (writeCommonHeader header ++ rest).length) :
    readCommonHeader (writeCommonHeader header ++ rest) h = header := by
  obtain ⟨count, padding, version, packetType, length⟩ := header
  unfold readCommonHeader
  rw [CommonHeader.mk.injEq]
  refine ⟨BitVec.extractLsb'_append_eq_right, ?_, ?_, rfl, Bytes.u16be_put16be length []⟩
  · show @BitVec.extractLsb' (2 + 1 + 5) 5 1 (version ++ padding ++ count) = padding
    rw [BitVec.extractLsb'_append_eq_of_le (by omega)]
    exact BitVec.extractLsb'_append_eq_right
  · show @BitVec.extractLsb' (2 + 1 + 5) 6 2 (version ++ padding ++ count) = version
    rw [BitVec.extractLsb'_append_eq_of_le (by omega)]
    exact BitVec.extractLsb'_append_eq_left

theorem length_serializeHeader (type : RtcpType) (count size : Nat) :
    (serializeHeader type count size).length = 4 := rfl

/-- The count that is read back. -/
theorem count_serializeHeader (count : Nat) :
    ((UInt8.ofNat count).toBitVec.setWidth 5).toNat = count % 32 := by
  rw [BitVec.toNat_setWidth, UInt8.toNat_toBitVec, UInt8.toNat_ofNat']
  omega

theorem SenderReport.length_serialize (r : SenderReport) : r.serialize.length = 24 := r.size

theorem SenderReport.parse_serialize (r : SenderReport) (rest : List UInt8) :
    SenderReport.parse (r.serialize ++ rest) = some r := by
  have hsize := r.length_serialize
  unfold SenderReport.parse
  rw [dif_pos (by rw [List.length_append]; omega)]
  simp only [List.take_left' hsize]
  rfl

theorem ReceiverReport.length_serialize (r : ReceiverReport) : r.serialize.length = 24 := r.size

theorem ReceiverReport.parse_serialize (r : ReceiverReport) (rest : List UInt8) :
    ReceiverReport.parse (r.serialize ++ rest) = some r := by
  have hsize := r.length_serialize
  unfold ReceiverReport.parse
  rw [dif_pos (by rw [List.length_append]; omega)]
  simp only [List.take_left' hsize]
  rfl

namespace SenderReportPacket

theorem getSize_eq (p : SenderReportPacket) : p.getSize = 4 + 24 * p.reports.length := by
  unfold getSize
  rw [@sum_map_const _ SenderReport.getSize 24 fun _ => rfl]

theorem length_serialize (p : SenderReportPacket) : p.serialize.length = p.getSize := by
  unfold serialize
  rw [List.length_append, length_serializeHeader, List.length_flatMap,
    sum_map_const SenderReport.length_serialize, getSize_eq]

/-- Of the reports of a packet the parser gives the first. -/
theorem parse_serialize (p : SenderReportPacket) :
    (parse p.serialize).reports = p.reports.take 1 := by
  unfold parse serialize
  rw [List.drop_left' (length_serializeHeader _ _ _)]
  cases hp : p.reports with
  | nil => rfl
  | cons r rest =>
      rw [List.flatMap_cons, SenderReport.parse_serialize]
      rfl

end SenderReportPacket

/-- The loop gives back as many reports as it is told to. -/
theorem parseReports_serialize (reports : List ReceiverReport) : ∀ (count : Nat),
    parseReports count (reports.flatMap ReceiverReport.serialize) = reports.take count := by
  induction reports with
  | nil =>
      intro count
      cases count <;> rfl
  | cons r reports ih =>
      intro count
      cases count with
      | zero => rfl
      | succ count =>
          rw [List.flatMap_cons, parseReports, ReceiverReport.parse_serialize,
            List.drop_left' r.length_serialize, ih, List.take_succ_cons]

namespace ReceiverReportPacket

theorem getSize_eq (p : ReceiverReportPacket) : p.getSize = 8 + 24 * p.reports.length := by
  unfold getSize
  rw [@sum_map_const _ ReceiverReport.getSize 24 fun _ => rfl]

theorem length_serialize (p : ReceiverReportPacket) : p.serialize.length = p.getSize := by
  unfold serialize
  rw [List.length_append, List.length_append, length_serializeHeader, List.length_flatMap,
    sum_map_const ReceiverReport.length_serialize, getSize_eq]
  rfl

theorem serialize_eq (p : ReceiverReportPacket) : p.serialize =
    serializeHeader .rr p.getCount p.getSize ++
      (Bytes.put32be p.ssrc ++ p.reports.flatMap ReceiverReport.serialize) :=
  List.append_assoc _ _ _

/-- Of the reports of a packet the parser gives as many as the five bits count. -/
theorem parse_serialize (p : ReceiverReportPacket) :
    parse p.serialize = some { p with reports := p.reports.take (p.reports.length % 32) } := by
  have hlen : 8 ≤ p.serialize.length := by
    rw [length_serialize, getSize_eq]
    exact Nat.le_add_right _ _
  have hheader : ∀ h, readCommonHeader p.serialize h = _ := fun h =>
    readCommonHeader_writeCommonHeader _ (Bytes.put32be p.ssrc ++
      p.reports.flatMap ReceiverReport.serialize) h
  have hssrc : ∀ h, Bytes.u32be p.serialize 4 h = p.ssrc :=
    fun _ => Bytes.u32be_put32be p.ssrc []
  have hblocks : p.serialize.drop 8 = p.reports.flatMap ReceiverReport.serialize :=
    List.drop_left' (by rw [List.length_append, length_serializeHeader]; rfl)
  unfold parse
  rw [dif_pos hlen, hheader, hssrc, hblocks, count_serializeHeader, parseReports_serialize]
  rfl

end ReceiverReportPacket

/-! ## The walk -/

/-- Sender reports and receiver reports, each in their order. -/
abbrev Reports := List SenderReport × List ReceiverReport

/-- The reports of one packet of a compound. -/
def reportsOf (type : RtcpType) (packet : List UInt8) : Option Reports :=
  match type with
  | .sr => some ((SenderReportPacket.parse packet).reports, [])
  | .rr => (ReceiverReportPacket.parse packet).map fun p => ([], p.reports)
  | _ => some ([], [])

/-- The loop of `walk`; every round takes at least four bytes. -/
def walkLoop : Nat → List UInt8 → Option Reports
  | _, [] => some ([], [])
  | 0, _ :: _ => none
  | fuel + 1, data =>
    if h : 4 ≤ data.length then
      let header := readCommonHeader data h
      let packetLen := RtcpPacket.packetLen header
      if data.length < packetLen then none
      else
        (reportsOf (.ofByte header.packetType) (data.take packetLen)).bind fun found =>
        (walkLoop fuel (data.drop packetLen)).map fun rest =>
          (found.1 ++ rest.1, found.2 ++ rest.2)
    else none

/-- All reports of a compound, packet by packet, by the length in each header. -/
def walk (data : List UInt8) : Option Reports := walkLoop data.length data

theorem walkLoop_nil (fuel : Nat) : walkLoop fuel [] = some ([], []) := by
  cases fuel <;> rfl

/-- The length member says the size, in words less one. -/
theorem packetLen_serialize {header : CommonHeader} {size : Nat}
    (hlength : header.length = UInt16.ofNat (size / 4 - 1)) (hword : size % 4 = 0)
    (hlow : 4 ≤ size) (hhigh : size ≤ 262144) : RtcpPacket.packetLen header = size := by
  unfold RtcpPacket.packetLen
  rw [hlength, UInt16.toNat_ofNat_of_lt' (show _ < 65536 by omega)]
  omega

/-- **One packet of the walk**: it takes the bytes that the packet was serialized to. -/
theorem walkLoop_packet {type : RtcpType} {count size : Nat} {body : List UInt8}
    (hsize : size = 4 + body.length) (hword : size % 4 = 0) (hhigh : size ≤ 262144)
    (fuel : Nat) (rest : List UInt8) :
    walkLoop (fuel + 1) (serializeHeader type count size ++ body ++ rest) =
      (reportsOf (.ofByte type.toByte) (serializeHeader type count size ++ body)).bind fun found =>
      (walkLoop fuel rest).map fun rest => (found.1 ++ rest.1, found.2 ++ rest.2) := by
  have hpacket : (serializeHeader type count size ++ body).length = size := by
    rw [List.length_append, length_serializeHeader, hsize]
  have hlong : size ≤ (serializeHeader type count size ++ body ++ rest).length := by
    rw [List.length_append, hpacket]
    exact Nat.le_add_right _ _
  have hheader : ∀ h, readCommonHeader (serializeHeader type count size ++ body ++ rest) h = _ :=
    fun h => readCommonHeader_writeCommonHeader _ (body ++ rest) h
  have hlength := @packetLen_serialize
    { version := 2, padding := 0, count := (UInt8.ofNat count).toBitVec.setWidth 5,
      packetType := type.toByte, length := UInt16.ofNat (size / 4 - 1) } size rfl hword
    (by omega) hhigh
  generalize hdata : serializeHeader type count size ++ body ++ rest = data at hlong hheader
  cases data with
  | nil => simp at hlong; omega
  | cons b data =>
      rw [walkLoop, dif_pos (by omega)]
      dsimp only
      · rw [hheader, hlength, if_neg (Nat.not_lt.mpr hlong), ← hdata, List.take_left' hpacket,
          List.drop_left' hpacket]
      · exact List.cons_ne_nil b data

theorem SenderReportPacket.walkLoop_serialize {p : SenderReportPacket}
    (hsize : p.getSize ≤ CompoundPacket.kMaxSize) (fuel : Nat) (rest : List UInt8) :
    walkLoop (fuel + 1) (p.serialize ++ rest) =
      (walkLoop fuel rest).map fun found => (p.reports.take 1 ++ found.1, found.2) := by
  have hbody := p.length_serialize
  have heq := p.getSize_eq
  have hfound : reportsOf (.ofByte RtcpType.sr.toByte) p.serialize =
      some (p.reports.take 1, []) := by
    rw [show RtcpType.ofByte RtcpType.sr.toByte = .sr by decide, reportsOf, p.parse_serialize]
  unfold serialize at hbody hfound ⊢
  rw [List.length_append, length_serializeHeader] at hbody
  rw [walkLoop_packet hbody.symm (by omega) (Nat.le_trans hsize (by decide)), hfound]
  rfl

theorem ReceiverReportPacket.walkLoop_serialize {p : ReceiverReportPacket}
    (hsize : p.getSize ≤ CompoundPacket.kMaxSize) (fuel : Nat) (rest : List UInt8) :
    walkLoop (fuel + 1) (p.serialize ++ rest) =
      (walkLoop fuel rest).map fun found =>
        (found.1, p.reports.take (p.reports.length % 32) ++ found.2) := by
  have hbody := p.length_serialize
  have heq := p.getSize_eq
  have hfound : reportsOf (.ofByte RtcpType.rr.toByte) p.serialize =
      some ([], p.reports.take (p.reports.length % 32)) := by
    rw [show RtcpType.ofByte RtcpType.rr.toByte = .rr by decide, reportsOf, p.parse_serialize]
    rfl
  rw [p.serialize_eq] at hbody hfound ⊢
  rw [List.length_append, length_serializeHeader] at hbody
  rw [walkLoop_packet hbody.symm (by omega) (Nat.le_trans hsize (by decide)), hfound]
  rfl

namespace CompoundPacket

section Size

variable {c : CompoundPacket} (hsize : c.getSize ≤ kMaxSize)
include hsize

theorem senderReportPacket_le (hcount : c.senderReportPacket.getCount > 0) :
    c.senderReportPacket.getSize ≤ kMaxSize := by
  unfold getSize at hsize
  rw [if_pos hcount] at hsize
  exact Nat.le_trans (Nat.le_add_right _ _) hsize

theorem receiverReportPacket_le (hcount : c.receiverReportPacket.getCount > 0) :
    c.receiverReportPacket.getSize ≤ kMaxSize := by
  unfold getSize at hsize
  rw [if_pos hcount] at hsize
  exact Nat.le_trans (Nat.le_add_left _ _) hsize

/-- The second packet of the compound, if there is one. -/
theorem walkLoop_receiverPart (fuel : Nat) :
    walkLoop (fuel + 1)
      (if c.receiverReportPacket.getCount > 0 then c.receiverReportPacket.serialize else []) =
    some ([], c.receiverReportPacket.reports.take
      (c.receiverReportPacket.reports.length % 32)) := by
  by_cases hcount : c.receiverReportPacket.getCount > 0
  · have hpacket := ReceiverReportPacket.walkLoop_serialize (receiverReportPacket_le hsize hcount)
      fuel []
    rw [if_pos hcount, ← List.append_nil (ReceiverReportPacket.serialize _), hpacket,
      walkLoop_nil, Option.map_some, List.append_nil]
  · have hnone := List.eq_nil_of_length_eq_zero (Nat.eq_zero_of_not_pos hcount)
    rw [if_neg hcount, walkLoop_nil, hnone]
    rfl

/-- **The walk over a compound finds the first sender report and what five bits count of the
    receiver reports.** -/
theorem walk_serialize :
    walk c.serialize = some (c.senderReportPacket.reports.take 1,
      c.receiverReportPacket.reports.take (c.receiverReportPacket.reports.length % 32)) := by
  have hrest := walkLoop_receiverPart hsize
  unfold walk serialize
  generalize (if c.receiverReportPacket.getCount > 0 then c.receiverReportPacket.serialize else [])
    = part at hrest ⊢
  by_cases hcount : c.senderReportPacket.getCount > 0
  · have hlen := c.senderReportPacket.length_serialize
    rw [SenderReportPacket.getSize_eq] at hlen
    obtain ⟨fuel, hfuel⟩ := Nat.exists_eq_add_of_le
      (show 2 ≤ (c.senderReportPacket.serialize ++ part).length by
        rw [List.length_append]
        omega)
    rw [if_pos hcount, hfuel, show 2 + fuel = fuel + 1 + 1 by omega,
      SenderReportPacket.walkLoop_serialize (senderReportPacket_le hsize hcount), hrest,
      Option.map_some, List.append_nil]
  · have hnone := List.eq_nil_of_length_eq_zero (Nat.eq_zero_of_not_pos hcount)
    rw [if_neg hcount, List.nil_append, hnone, List.take_nil]
    cases hpart : part.length with
    | zero =>
        rw [List.eq_nil_of_length_eq_zero hpart] at hrest ⊢
        exact hrest 0
    | succ fuel => exact hrest fuel

end Size

/-! ## What is accepted -/

/-- The reports of the calls that add a sender report. -/
def senders (adds : List Add) : List SenderReport :=
  adds.filterMap fun
    | .sender report => some report.object
    | .receiver _ => none

/-- The reports of the calls that add a receiver report. -/
def receivers (adds : List Add) : List ReceiverReport :=
  adds.filterMap fun
    | .sender _ => none
    | .receiver report => some report.object

theorem senders_append (xs ys : List Add) : senders (xs ++ ys) = senders xs ++ senders ys :=
  List.filterMap_append

theorem receivers_append (xs ys : List Add) :
    receivers (xs ++ ys) = receivers xs ++ receivers ys := List.filterMap_append

/-- The size of a compound of `m` sender reports and `n` receiver reports. -/
def sizeOf (m n : Nat) : Nat := (if m > 0 then 4 + 24 * m else 0) + if n > 0 then 8 + 24 * n else 0

theorem getSize_eq (c : CompoundPacket) :
    c.getSize = sizeOf c.senderReports.length c.receiverReports.length := by
  unfold getSize sizeOf
  rw [SenderReportPacket.getSize_eq, ReceiverReportPacket.getSize_eq]
  unfold senderReportPacket receiverReportPacket SenderReportPacket.getCount
    ReceiverReportPacket.getCount
  simp only [List.length_map]

/-- Two sender reports and 32 receiver reports leave room. -/
theorem sizeOf_le {m n : Nat} (hm : m ≤ 2) (hn : n ≤ 32) : sizeOf m n ≤ kMaxSize := by
  unfold sizeOf kMaxSize kMtuSize
  split_ifs <;> omega

theorem length_addReport {α : Type} (report : SharedPtr α) (reports : List (SharedPtr α)) :
    (addReport report reports).length = reports.length + 1 := List.length_append

theorem length_removeReport {α : Type} [DecidableEq α] (report : SharedPtr α)
    (reports : List (SharedPtr α)) :
    (removeReport report (addReport report reports)).length = reports.length := by
  unfold removeReport
  have hmem : report ∈ addReport report reports := List.mem_append_right _ List.mem_cons_self
  rw [List.length_erase_of_mem hmem, length_addReport]
  rfl

/-- **What a call does**: it takes its report where there is room, and otherwise leaves as many
    as there were, if not in their order. While there are at most one sender report and 31
    receiver reports there is room. -/
theorem step_cases (c : CompoundPacket) (a : Add) :
    (∃ c', c.step a = (c', [a]) ∧ c'.getSize ≤ kMaxSize ∧
      c'.senderReportPacket.reports = c.senderReportPacket.reports ++ senders [a] ∧
      c'.receiverReportPacket.reports = c.receiverReportPacket.reports ++ receivers [a]) ∨
    ∃ c', c.step a = (c', []) ∧ c'.senderReports.length = c.senderReports.length ∧
      c'.receiverReports.length = c.receiverReports.length ∧
      (1 < c.senderReports.length ∨ 31 < c.receiverReports.length) := by
  cases a with
  | sender report =>
      unfold step add addSenderReport
      dsimp only
      by_cases hroom :
          getSize { c with senderReports := addReport report c.senderReports } ≤ kMaxSize
      · rw [if_pos hroom]
        exact .inl ⟨_, rfl, hroom, List.map_append, (List.append_nil _).symm⟩
      · rw [if_neg hroom]
        refine .inr ⟨_, rfl, length_removeReport report c.senderReports, rfl, ?_⟩
        rw [getSize_eq, length_addReport] at hroom
        dsimp only at hroom
        by_contra hfew
        exact hroom (sizeOf_le (by omega) (by omega))
  | receiver report =>
      unfold step add addReceiverReport
      dsimp only
      by_cases hroom :
          getSize { c with receiverReports := addReport report c.receiverReports } ≤ kMaxSize
      · rw [if_pos hroom]
        exact .inl ⟨_, rfl, hroom, (List.append_nil _).symm, List.map_append⟩
      · rw [if_neg hroom]
        refine .inr ⟨_, rfl, rfl, length_removeReport report c.receiverReports, ?_⟩
        rw [getSize_eq, length_addReport] at hroom
        dsimp only at hroom
        by_contra hfew
        exact hroom (sizeOf_le (by omega) (by omega))

/-- After the calls `adds`, of which `accepted` have returned true. Nothing is refused, or
    taken out of its order, before there are two sender reports or 32 receiver reports. -/
structure Kept (adds accepted : List Add) (c : CompoundPacket) : Prop where
  size : c.getSize ≤ kMaxSize
  sublist : accepted.Sublist adds
  senderCount : c.senderReportPacket.reports.length = (senders accepted).length
  receiverCount : c.receiverReportPacket.reports.length = (receivers accepted).length
  inOrder : (senders accepted).length ≤ 1 → (receivers accepted).length ≤ 31 →
    accepted = adds ∧ c.senderReportPacket.reports = senders adds ∧
      c.receiverReportPacket.reports = receivers adds

theorem kept_nil : Kept [] [] {} where
  size := Nat.zero_le _
  sublist := .refl []
  senderCount := rfl
  receiverCount := rfl
  inOrder _ _ := ⟨rfl, rfl, rfl⟩

theorem kept_step {adds accepted : List Add} {c : CompoundPacket} (h : Kept adds accepted c)
    (a : Add) : Kept (adds ++ [a]) (accepted ++ (c.step a).2) (c.step a).1 := by
  rcases step_cases c a with ⟨c', hstep, hroom, hsenders, hreceivers⟩ |
    ⟨c', hstep, hsenders, hreceivers, hmany⟩
  · rw [hstep]
    refine ⟨hroom, h.sublist.append (.refl _), ?_, ?_, fun hone hfew => ?_⟩
    · rw [hsenders, senders_append, List.length_append, List.length_append, h.senderCount]
    · rw [hreceivers, receivers_append, List.length_append, List.length_append, h.receiverCount]
    · rw [senders_append, List.length_append] at hone
      rw [receivers_append, List.length_append] at hfew
      obtain ⟨hall, hs, hr⟩ := h.inOrder (by omega) (by omega)
      rw [hsenders, hreceivers, hs, hr, hall, senders_append, receivers_append]
      exact ⟨rfl, rfl, rfl⟩
  · have hs := h.senderCount
    have hr := h.receiverCount
    unfold senderReportPacket at hs
    unfold receiverReportPacket at hr
    rw [List.length_map] at hs hr
    rw [hstep, List.append_nil]
    refine ⟨?_, h.sublist.trans (List.sublist_append_left _ _), ?_, ?_, fun hone hfew => ?_⟩
    · rw [getSize_eq, hsenders, hreceivers, ← getSize_eq]
      exact h.size
    · unfold senderReportPacket
      rw [List.length_map, hsenders, hs]
    · unfold receiverReportPacket
      rw [List.length_map, hreceivers, hr]
    · omega

/-- All accepted reports come out of the walk, each kind in its order, and no others. -/
def Survives (adds : List Add) : Prop :=
  walk (Trace.run step {} adds).serialize =
    some (senders (Trace.outputs step {} adds), receivers (Trace.outputs step {} adds))

instance (adds : List Add) : Decidable (Survives adds) := inferInstanceAs (Decidable (_ = _))

/-- **Reports survive exactly when at most one sender report and at most 31 receiver reports
    are added.** -/
theorem survives_iff (adds : List Add) :
    Survives adds ↔ (senders adds).length ≤ 1 ∧ (receivers adds).length ≤ 31 := by
  have hkept : Kept adds (Trace.outputs step {} adds) (Trace.run step {} adds) :=
    Trace.run_history kept_nil fun _ _ _ _ h => kept_step h _
  obtain ⟨hsize, hsub, hsenders, hreceivers, hinOrder⟩ := hkept
  unfold Survives
  rw [walk_serialize hsize, Option.some_inj, Prod.mk.injEq]
  constructor
  · rintro ⟨hs, hr⟩
    have hone := congrArg List.length hs
    have hfew := congrArg List.length hr
    rw [List.length_take, hsenders] at hone
    rw [List.length_take, hreceivers] at hfew
    obtain ⟨hall, -⟩ := hinOrder (by omega) (by omega)
    rw [← hall]
    omega
  · rintro ⟨hone, hfew⟩
    have hs : (senders (Trace.outputs step {} adds)).length ≤ (senders adds).length :=
      (hsub.filterMap _).length_le
    have hr : (receivers (Trace.outputs step {} adds)).length ≤ (receivers adds).length :=
      (hsub.filterMap _).length_le
    obtain ⟨hall, hsenders, hreceivers⟩ := hinOrder (by omega) (by omega)
    rw [hall, hsenders, hreceivers, Nat.mod_eq_of_lt (by omega)]
    exact ⟨List.take_of_length_le hone, List.take_length⟩

/-- Two sender reports, of which one comes out; and 32 receiver reports, of which none does. -/
theorem not_survives :
    ¬ Survives [.sender ⟨1, ⟨List.replicate 24 0, rfl⟩⟩, .sender ⟨2, ⟨List.replicate 24 1, rfl⟩⟩] ∧
    ¬ Survives ((List.range 32).map fun i => .receiver ⟨i, ⟨List.replicate 24 0, rfl⟩⟩) := by
  refine ⟨?_, ?_⟩
  · decide
  · decide +kernel

end CompoundPacket

end Rtcp

end Bifrost.Rtc
