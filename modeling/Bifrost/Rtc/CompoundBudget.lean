/-
  The size of a compound packet: what `GetSize` says, what `Serialize` writes and what the
  headers of the two parts say, after any calls of `AddSenderReport` and `AddReceiverReport`.

  `serializeAt` is `Serialize` in the memory it is given; it is one write of `serialize` at
  the front (`serializeAt_eq`). A report is refused by adding it and taking out the first
  equal pointer. That is the report itself as long as no report is added twice, and so a
  refusal leaves the compound as it was (`add_refused`).
-/
import Bifrost.Rtc.CompoundRoundTrip
import Bifrost.Rtc.RtcpTiling

namespace Bifrost.Rtc

namespace Rtcp

open Bytes

/-! ## Serializing into memory -/

/-- `SenderReportPacket::Serialize` into `data` from `base` on, and the offset it returns. -/
def SenderReportPacket.serializeAt (p : SenderReportPacket) (data : List UInt8) (base : Nat) :
    List UInt8 × Nat :=
  let data := patch data base (serializeHeader .sr p.getCount p.getSize)
  let (data, last) := patchAll data (base + 4) (p.reports.map SenderReport.serialize)
  (data, last - base)

/-- `ReceiverReportPacket::Serialize`, the same with the SSRC behind the header. -/
def ReceiverReportPacket.serializeAt (p : ReceiverReportPacket) (data : List UInt8) (base : Nat) :
    List UInt8 × Nat :=
  let data := patch data base (serializeHeader .rr p.getCount p.getSize)
  let data := patch data (base + 4) (put32be p.ssrc)
  let (data, last) := patchAll data (base + 4 + 4) (p.reports.map ReceiverReport.serialize)
  (data, last - base)

theorem SenderReportPacket.serializeAt_eq (p : SenderReportPacket) {data : List UInt8} {base : Nat}
    (h : base + p.getSize ≤ data.length) :
    p.serializeAt data base = (patch data base p.serialize, p.getSize) := by
  have hpieces : p.serialize =
      (serializeHeader .sr p.getCount p.getSize ::
        p.reports.map SenderReport.serialize).flatten := by
    rw [List.flatten_cons, ← List.flatMap_def, serialize]
  have hsize := p.length_serialize
  rw [hpieces] at hsize ⊢
  have hall := @patchAll_eq _ data base (by rw [hsize]; exact h)
  rw [patchAll, length_serializeHeader] at hall
  unfold serializeAt
  dsimp only
  rw [hall, hsize, Nat.add_sub_cancel_left]

theorem ReceiverReportPacket.serializeAt_eq (p : ReceiverReportPacket) {data : List UInt8}
    {base : Nat} (h : base + p.getSize ≤ data.length) :
    p.serializeAt data base = (patch data base p.serialize, p.getSize) := by
  have hpieces : p.serialize = (serializeHeader .rr p.getCount p.getSize :: put32be p.ssrc ::
      p.reports.map ReceiverReport.serialize).flatten := by
    rw [List.flatten_cons, List.flatten_cons, ← List.flatMap_def, p.serialize_eq]
  have hsize := p.length_serialize
  have hssrc : (put32be p.ssrc).length = 4 := rfl
  rw [hpieces] at hsize ⊢
  have hall := @patchAll_eq _ data base (by rw [hsize]; exact h)
  rw [patchAll, patchAll, length_serializeHeader, hssrc] at hall
  unfold serializeAt
  dsimp only
  rw [hall, hsize, Nat.add_sub_cancel_left]

namespace CompoundPacket

/-- `Serialize` into the memory at `data`. -/
def serializeAt (c : CompoundPacket) (data : List UInt8) : List UInt8 :=
  let (data, offset) :=
    if c.senderReportPacket.getCount > 0 then c.senderReportPacket.serializeAt data 0
    else (data, 0)
  if c.receiverReportPacket.getCount > 0 then (c.receiverReportPacket.serializeAt data offset).1
  else data

def senderPart (c : CompoundPacket) : List UInt8 :=
  if c.senderReportPacket.getCount > 0 then c.senderReportPacket.serialize else []

def receiverPart (c : CompoundPacket) : List UInt8 :=
  if c.receiverReportPacket.getCount > 0 then c.receiverReportPacket.serialize else []

theorem serialize_eq (c : CompoundPacket) : c.serialize = c.senderPart ++ c.receiverPart := rfl

theorem length_serialize (c : CompoundPacket) : c.serialize.length = c.getSize := by
  unfold serialize getSize
  rw [List.length_append, ← SenderReportPacket.length_serialize,
    ← ReceiverReportPacket.length_serialize]
  split_ifs <;> rfl

theorem serializeAt_senderPart (c : CompoundPacket) {data : List UInt8}
    (h : c.senderPart.length ≤ data.length) :
    (if c.senderReportPacket.getCount > 0 then c.senderReportPacket.serializeAt data 0
      else (data, 0)) = (patch data 0 c.senderPart, c.senderPart.length) := by
  unfold senderPart at h ⊢
  by_cases hcount : c.senderReportPacket.getCount > 0
  · have hlen := c.senderReportPacket.length_serialize
    rw [if_pos hcount] at h
    rw [if_pos hcount, if_pos hcount, hlen, SenderReportPacket.serializeAt_eq _ (by omega)]
  · rw [if_neg hcount, if_neg hcount, patch_nil]
    rfl

theorem serializeAt_receiverPart (c : CompoundPacket) {data : List UInt8} {offset : Nat}
    (h : offset + c.receiverPart.length ≤ data.length) :
    (if c.receiverReportPacket.getCount > 0 then (c.receiverReportPacket.serializeAt data offset).1
      else data) = patch data offset c.receiverPart := by
  unfold receiverPart at h ⊢
  by_cases hcount : c.receiverReportPacket.getCount > 0
  · have hlen := c.receiverReportPacket.length_serialize
    rw [if_pos hcount] at h
    rw [if_pos hcount, if_pos hcount, ReceiverReportPacket.serializeAt_eq _ (by omega)]
  · rw [if_neg hcount, if_neg hcount, patch_nil]

/-- **`Serialize` is one write of `serialize` at the front**, and touches nothing behind. -/
theorem serializeAt_eq (c : CompoundPacket) {data : List UInt8} (h : c.getSize ≤ data.length) :
    c.serializeAt data = c.serialize ++ data.drop c.getSize := by
  rw [← c.length_serialize, serialize_eq, List.length_append] at h
  have hlen : (patch data 0 c.senderPart).length = data.length := length_patch (by omega)
  have hboth := @patch_patch data 0 c.senderPart c.receiverPart (by omega)
  rw [Nat.zero_add] at hboth
  unfold serializeAt
  rw [c.serializeAt_senderPart (by omega)]
  dsimp only
  rw [c.serializeAt_receiverPart (by omega), hboth, patch, Nat.zero_add, ← serialize_eq,
    c.length_serialize]
  rfl

/-! ## What the headers say -/

/-- The sub-packets, the sender part first; a part without reports is none. -/
def subPackets (c : CompoundPacket) : List (List UInt8) :=
  (if c.senderReportPacket.getCount > 0 then [c.senderReportPacket.serialize] else []) ++
    (if c.receiverReportPacket.getCount > 0 then [c.receiverReportPacket.serialize] else [])

theorem flatten_subPackets (c : CompoundPacket) : c.subPackets.flatten = c.serialize := by
  unfold subPackets serialize
  split_ifs <;> simp only [List.flatten_append, List.flatten_singleton, List.flatten_nil]

end CompoundPacket

/-- The header that `RtcpPacket::Serialize` writes. -/
def serializedHeader (type : RtcpType) (count size : Nat) : CommonHeader :=
  { version := 2
    padding := 0
    count := (UInt8.ofNat count).toBitVec.setWidth 5
    packetType := type.toByte
    length := UInt16.ofNat (size / 4 - 1) }

theorem readCommonHeader_serializeHeader (type : RtcpType) (count size : Nat) (body : List UInt8)
    (h : 4 ≤ (serializeHeader type count size ++ body).length) :
    readCommonHeader (serializeHeader type count size ++ body) h =
      serializedHeader type count size :=
  readCommonHeader_writeCommonHeader _ body h

/-- It is read back from the front of the packet, and its length is the extent of the packet. -/
theorem subPacket_serializeHeader {type : RtcpType} {count size : Nat} {body : List UInt8}
    (htype : 192 ≤ type.toByte ∧ type.toByte ≤ 223) (hsize : size = 4 + body.length)
    (hword : size % 4 = 0) (hhigh : size ≤ 262144) :
    SubPacket (serializeHeader type count size ++ body) (serializedHeader type count size) := by
  have hlen : (serializeHeader type count size ++ body).length = size := by
    rw [List.length_append, length_serializeHeader, hsize]
  have hfour : 4 ≤ (serializeHeader type count size ++ body).length := by omega
  refine ⟨?_, rfl, htype, ?_⟩
  · rw [commonHeader, dif_pos hfour]
    exact congrArg some (readCommonHeader_serializeHeader type count size body hfour)
  · rw [hlen, packetLen_serialize rfl hword (by omega) hhigh]

theorem SenderReportPacket.subPacket_serialize {p : SenderReportPacket}
    (hsize : p.getSize ≤ CompoundPacket.kMaxSize) :
    SubPacket p.serialize (serializedHeader .sr p.getCount p.getSize) := by
  have heq := p.getSize_eq
  have hlen := p.length_serialize
  unfold serialize at hlen ⊢
  rw [List.length_append, length_serializeHeader] at hlen
  exact subPacket_serializeHeader (by decide) hlen.symm (by omega)
    (Nat.le_trans hsize (by decide))

theorem ReceiverReportPacket.subPacket_serialize {p : ReceiverReportPacket}
    (hsize : p.getSize ≤ CompoundPacket.kMaxSize) :
    SubPacket p.serialize (serializedHeader .rr p.getCount p.getSize) := by
  have heq := p.getSize_eq
  have hlen := p.length_serialize
  rw [p.serialize_eq, List.length_append, length_serializeHeader] at hlen
  rw [p.serialize_eq]
  exact subPacket_serializeHeader (by decide) hlen.symm (by omega)
    (Nat.le_trans hsize (by decide))

namespace CompoundPacket

/-- The sizes agree: the compound is within its budget, `Serialize` writes as many bytes as
    `GetSize` says and no others, and these are the sub-packets one behind the other, each as
    long as its header says. -/
structure Consistent (c : CompoundPacket) : Prop where
  budget : c.getSize ≤ kMaxSize
  words : c.getSize % 4 = 0
  size : c.serialize.length = c.getSize
  written : ∀ data : List UInt8, c.getSize ≤ data.length →
    c.serializeAt data = c.serialize ++ data.drop c.getSize
  tiled : c.subPackets.flatten = c.serialize
  extents : ∀ packet ∈ c.subPackets, ∃ header, SubPacket packet header

/-- Only the budget depends on the calls. -/
theorem consistent_of_budget {c : CompoundPacket} (h : c.getSize ≤ kMaxSize) : Consistent c where
  budget := h
  words := by
    rw [getSize_eq, sizeOf]
    split_ifs <;> omega
  size := c.length_serialize
  written _ := c.serializeAt_eq
  tiled := c.flatten_subPackets
  extents packet hpacket := by
    unfold subPackets at hpacket
    rcases List.mem_append.mp hpacket with hsender | hreceiver
    · split_ifs at hsender with hcount
      · rw [List.mem_singleton.mp hsender]
        exact ⟨_, SenderReportPacket.subPacket_serialize (senderReportPacket_le h hcount)⟩
      · cases hsender
    · split_ifs at hreceiver with hcount
      · rw [List.mem_singleton.mp hreceiver]
        exact ⟨_, ReceiverReportPacket.subPacket_serialize (receiverReportPacket_le h hcount)⟩
      · cases hreceiver

/-! ## Calls -/

/-- The object that a call is given, by its address. -/
def Add.address : Add → Nat
  | .sender report => report.address
  | .receiver report => report.address

/-- The objects in the compound. -/
def addresses (c : CompoundPacket) : List Nat :=
  c.senderReports.map SharedPtr.address ++ c.receiverReports.map SharedPtr.address

/-- A report that is not there yet is taken out again where it was put. -/
theorem removeReport_addReport {α : Type} [DecidableEq α] {report : SharedPtr α}
    {reports : List (SharedPtr α)} (h : report.address ∉ reports.map SharedPtr.address) :
    removeReport report (addReport report reports) = reports := by
  have hnew : report ∉ reports := fun hmem => h (List.mem_map_of_mem hmem)
  unfold removeReport addReport
  rw [List.erase_append_right _ hnew, List.erase_cons_head, List.append_nil]

theorem mem_addReport {α : Type} {report : SharedPtr α} {reports : List (SharedPtr α)} {i : Nat} :
    i ∈ (addReport report reports).map SharedPtr.address ↔
      i ∈ reports.map SharedPtr.address ∨ i = report.address := by
  rw [addReport, List.map_append, List.mem_append]
  exact or_congr_right List.mem_singleton

/-- **What a call does with a new report**: it leaves a compound within the budget with the
    report in it, or the compound as it was. -/
theorem add_cases {c : CompoundPacket} {a : Add} (hnew : a.address ∉ c.addresses) :
    (c.add a).2 = true ∧ (c.add a).1.getSize ≤ kMaxSize ∧
        (∀ i ∈ (c.add a).1.addresses, i ∈ c.addresses ∨ i = a.address) ∨
      (c.add a).2 = false ∧ (c.add a).1 = c := by
  unfold addresses at hnew
  rw [List.mem_append, not_or] at hnew
  obtain ⟨hsenders, hreceivers⟩ := hnew
  cases a with
  | sender report =>
      unfold add addSenderReport
      dsimp only
      by_cases hroom :
          getSize { c with senderReports := addReport report c.senderReports } ≤ kMaxSize
      · rw [if_pos hroom]
        refine .inl ⟨rfl, hroom, fun i hi => ?_⟩
        simp only [addresses, List.mem_append, mem_addReport] at hi ⊢
        tauto
      · rw [if_neg hroom, removeReport_addReport hsenders]
        exact .inr ⟨rfl, rfl⟩
  | receiver report =>
      unfold add addReceiverReport
      dsimp only
      by_cases hroom :
          getSize { c with receiverReports := addReport report c.receiverReports } ≤ kMaxSize
      · rw [if_pos hroom]
        refine .inl ⟨rfl, hroom, fun i hi => ?_⟩
        simp only [addresses, List.mem_append, mem_addReport] at hi ⊢
        tauto
      · rw [if_neg hroom, removeReport_addReport hreceivers]
        exact .inr ⟨rfl, rfl⟩

/-- After the calls `adds` the compound is within its budget, with no objects but theirs. -/
structure Within (adds : List Add) (c : CompoundPacket) : Prop where
  budget : c.getSize ≤ kMaxSize
  known : ∀ i ∈ c.addresses, i ∈ adds.map Add.address

theorem within_nil : Within [] {} where
  budget := Nat.zero_le _
  known _ h := h

/-- The object of a call is not in the compound, where no call before had it. -/
theorem Within.new {adds : List Add} {c : CompoundPacket} (h : Within adds c) {a : Add}
    (hnew : a.address ∉ adds.map Add.address) : a.address ∉ c.addresses :=
  fun hmem => hnew (h.known _ hmem)

theorem within_step {adds : List Add} {c : CompoundPacket} (h : Within adds c) {a : Add}
    (hnew : a.address ∉ adds.map Add.address) : Within (adds ++ [a]) (c.step a).1 := by
  show Within (adds ++ [a]) (c.add a).1
  have hkept : ∀ i ∈ c.addresses, i ∈ (adds ++ [a]).map Add.address := fun i hi => by
    rw [List.map_append]
    exact List.mem_append_left _ (h.known i hi)
  rcases add_cases (h.new hnew) with ⟨-, hroom, hknown⟩ | ⟨-, hsame⟩
  · refine ⟨hroom, fun i hi => ?_⟩
    rcases hknown i hi with hold | rfl
    · exact hkept i hold
    · exact List.mem_map_of_mem (List.mem_append_right _ List.mem_cons_self)
  · rw [hsame]
    exact ⟨h.budget, hkept⟩

/-- In a list of pairwise distinct objects no call before had the object of a call. -/
theorem address_notMem {pre post : List Add} {a : Add}
    (h : ((pre ++ a :: post).map Add.address).Nodup) : a.address ∉ pre.map Add.address := by
  rw [List.map_append, List.map_cons] at h
  exact fun hmem => (List.nodup_append.mp h).2.2 _ hmem _ List.mem_cons_self rfl

theorem within_run {adds : List Add} (h : (adds.map Add.address).Nodup) :
    Within adds (Trace.run step {} adds) :=
  @Trace.run_history _ _ _ step (fun adds _ c => Within adds c) {} adds within_nil
    fun _ _ _ hsplit hpre => within_step hpre (address_notMem (hsplit ▸ h))

/-- **With pairwise distinct reports the compound keeps its budget and its sizes agree after
    every call, and a call that returns false leaves the bytes as they were.** -/
theorem consistent_run (adds : List Add) (hdistinct : (adds.map Add.address).Nodup) :
    (∀ pre post, adds = pre ++ post → Consistent (Trace.run step {} pre)) ∧
    ∀ pre a post, adds = pre ++ a :: post → ((Trace.run step {} pre).add a).2 = false →
      ((Trace.run step {} pre).add a).1.serialize = (Trace.run step {} pre).serialize := by
  have hbefore : ∀ pre post, adds = pre ++ post → (pre.map Add.address).Nodup := by
    rintro pre post rfl
    rw [List.map_append] at hdistinct
    exact (List.nodup_append.mp hdistinct).1
  constructor
  · intro pre post hsplit
    exact consistent_of_budget (within_run (hbefore pre post hsplit)).budget
  · intro pre a post hsplit hrefused
    have hpre := within_run (hbefore pre _ hsplit)
    rcases add_cases (hpre.new (address_notMem (hsplit ▸ hdistinct))) with
      ⟨haccepted, -⟩ | ⟨-, hsame⟩
    · rw [haccepted] at hrefused
      cases hrefused
    · rw [hsame]

/-- The 54th sender report is refused. -/
theorem consistent_run_54 :
    Consistent (Trace.run step {} ((List.range 54).map fun i =>
      .sender ⟨i, ⟨List.replicate 24 0, rfl⟩⟩)) ∧
    ((Trace.run step {} ((List.range 53).map fun i =>
      .sender ⟨i, ⟨List.replicate 24 0, rfl⟩⟩)).add
        (.sender ⟨53, ⟨List.replicate 24 0, rfl⟩⟩)).1.serialize =
      (Trace.run step {} ((List.range 53).map fun i =>
        .sender ⟨i, ⟨List.replicate 24 0, rfl⟩⟩)).serialize :=
  have h := consistent_run ((List.range 54).map fun i =>
    .sender ⟨i, ⟨List.replicate 24 0, rfl⟩⟩) (by decide +kernel)
  ⟨h.1 _ [] (List.append_nil _).symm, h.2 _ _ [] (by decide +kernel) (by decide +kernel)⟩

end CompoundPacket

end Rtcp

end Bifrost.Rtc
