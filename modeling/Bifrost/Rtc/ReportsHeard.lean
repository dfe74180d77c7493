/-
  What the reports of an RTCP packet leave of the streams.

  No two entries of a table have one key in a reachable state (`distinct_of_reachable`), so a
  report changes one stream at most. A sender keeps the last report about it and nothing of
  those before (`receiveReceiverReports_senders`); and a packet has one sender report at most.
  So it can be said of a packet and a state whether anything changes (`NothingNew`,
  `receiveRtcpPacket_eq_iff`).
-/
import Bifrost.Rtc.RtcTransport
import Mathlib.Data.List.Nodup

namespace Bifrost.Rtc

/-! ## Tables -/

namespace Table

variable {α : Type} {ssrc : UInt32} {old new : α} {table : List (UInt32 × α)}

theorem find_mem {entry : UInt32 × α} (h : find ssrc table = some entry) : entry ∈ table :=
  List.mem_of_find?_eq_some h

theorem find_fst {entry : UInt32 × α} (h : find ssrc table = some entry) : entry.1 = ssrc := by
  have hkey := List.find?_some h
  simpa using hkey

theorem isSome_find : (find ssrc table).isSome = true ↔ ssrc ∈ table.map Prod.fst := by
  unfold find
  simp

theorem map_fst_store : (store ssrc new table).map Prod.fst = table.map Prod.fst := by
  unfold store
  rw [List.map_map]
  refine List.map_congr_left fun entry _ => ?_
  show (if entry.1 = ssrc then (ssrc, new) else entry).1 = entry.1
  split_ifs with h
  · exact h.symm
  · rfl

/-- Two entries with one key are one entry. -/
theorem eq_of_fst_eq (h : (table.map Prod.fst).Nodup) {entry entry' : UInt32 × α}
    (hmem : entry ∈ table) (hmem' : entry' ∈ table) (hkey : entry.1 = entry'.1) :
    entry = entry' := List.inj_on_of_nodup_map h hmem hmem' hkey

/-- A store changes the stream of one entry. -/
theorem store_eq_map (h : (table.map Prod.fst).Nodup) (hmem : (ssrc, old) ∈ table)
    (f : α → α) : store ssrc (f old) table =
      table.map fun entry => (entry.1, if entry.1 = ssrc then f entry.2 else entry.2) := by
  refine List.map_congr_left fun entry hentry => ?_
  split_ifs with hkey
  · rw [eq_of_fst_eq h hentry hmem hkey]
  · rfl

/-- Storing another stream for an entry changes the table. -/
theorem store_ne (hmem : (ssrc, old) ∈ table) (hne : new ≠ old) :
    store ssrc new table ≠ table := by
  intro heq
  have hmap : store ssrc new table = table.map id := by rw [heq, List.map_id]
  have hentry := List.map_inj_left.mp hmap (ssrc, old) hmem
  rw [if_pos rfl] at hentry
  exact hne (congrArg Prod.snd hentry)

theorem store_eq_self_iff (h : (table.map Prod.fst).Nodup) (hmem : (ssrc, old) ∈ table) :
    store ssrc new table = table ↔ new = old := by
  constructor
  · intro heq
    by_contra hne
    exact store_ne hmem hne heq
  · rintro rfl
    rw [show store ssrc new table = store ssrc (id new) table from rfl, store_eq_map h hmem id]
    refine (List.map_congr_left fun entry _ => ?_).trans (List.map_id table)
    exact Prod.ext rfl (ite_self entry.2)

end Table

namespace RtcTransport

/-! ## Distinct keys -/

/-- No SSRC stands twice in a table. -/
structure Distinct (t : RtcTransport) : Prop where
  senders : (t.rtpSendStreams.map Prod.fst).Nodup
  receivers : (t.rtpReceiveStreams.map Prod.fst).Nodup

/-- The same SSRCs in the same order. -/
structure SameKeys (t t' : RtcTransport) : Prop where
  senders : t'.rtpSendStreams.map Prod.fst = t.rtpSendStreams.map Prod.fst
  receivers : t'.rtpReceiveStreams.map Prod.fst = t.rtpReceiveStreams.map Prod.fst

theorem SameKeys.refl (t : RtcTransport) : t.SameKeys t := ⟨rfl, rfl⟩

theorem SameKeys.trans {t t' t'' : RtcTransport} (h : t.SameKeys t') (h' : t'.SameKeys t'') :
    t.SameKeys t'' := ⟨h'.senders.trans h.senders, h'.receivers.trans h.receivers⟩

theorem SameKeys.distinct {t t' : RtcTransport} (h : t.SameKeys t') (hdistinct : t.Distinct) :
    t'.Distinct := ⟨h.senders ▸ hdistinct.senders, h.receivers ▸ hdistinct.receivers⟩

theorem sameKeys_storeSender (t : RtcTransport) (ssrc : UInt32) (stream : RtpStreamSender) :
    t.SameKeys (t.storeSender ssrc stream) := ⟨Table.map_fst_store, rfl⟩

theorem sameKeys_storeReceiver (t : RtcTransport) (ssrc : UInt32) (stream : RtpStreamReceiver) :
    t.SameKeys (t.storeReceiver ssrc stream) := ⟨rfl, Table.map_fst_store⟩

section Calls

variable {t t' : RtcTransport} {clock : Clock} {addr : Option SockAddr}

theorem sameKeys_passToSender {p : RtpPacket} (h : t.passToSender p clock = .ok t') :
    t.SameKeys t' := by
  unfold passToSender at h
  split at h
  · cases h
    exact .refl t
  · obtain ⟨⟨stream, accepted⟩, -, h⟩ := bind_eq_ok.mp h
    cases h
    exact t.sameKeys_storeSender _ _

theorem sameKeys_passToReceiver {p : RtpPacket} (h : t.passToReceiver p clock = .ok t') :
    t.SameKeys t' := by
  obtain ⟨entry, -, h⟩ := bind_eq_ok.mp h
  obtain ⟨⟨stream, accepted⟩, -, h⟩ := bind_eq_ok.mp h
  cases h
  exact t.sameKeys_storeReceiver _ _

theorem sameKeys_receiveRtpPacket {p : RtpPacket} (h : t.receiveRtpPacket p clock = .ok t') :
    t.SameKeys t' := by
  obtain ⟨t₁, hsend, hrecv⟩ := bind_eq_ok.mp h
  exact (sameKeys_passToSender hsend).trans (sameKeys_passToReceiver hrecv)

theorem sameKeys_receiveSenderReports (reports : List Rtcp.SenderReport) :
    ∀ {t t' : RtcTransport} {clock : Clock},
    receiveSenderReports addr reports clock t = .ok t' → t.SameKeys t' := by
  induction reports with
  | nil =>
      intro t t' clock h
      cases h
      exact .refl t
  | cons report reports ih =>
      intro t t' clock h
      obtain ⟨entry, -, h⟩ := bind_eq_ok.mp h
      exact (t.sameKeys_storeReceiver _ _).trans (ih h)

theorem sameKeys_receiveReceiverReports (addr : Option SockAddr)
    (reports : List Rtcp.ReceiverReport) : ∀ (clock : Clock) (t : RtcTransport),
    t.SameKeys (receiveReceiverReports addr reports clock t) := by
  induction reports with
  | nil => exact fun _ t => .refl t
  | cons report reports ih =>
      intro clock t
      unfold receiveReceiverReports
      split
      · exact ih clock t
      · exact (t.sameKeys_storeSender _ _).trans (ih _ _)

theorem sameKeys_receiveRtcpPacket {packet : RtcpPacket}
    (h : t.receiveRtcpPacket packet addr clock = .ok t') : t.SameKeys t' := by
  cases packet with
  | senderReport packet => exact sameKeys_receiveSenderReports packet.reports h
  | receiverReport packet =>
      cases h
      exact sameKeys_receiveReceiverReports addr packet.reports clock t
  | feedbackRtpNack packet =>
      cases h
      exact .refl t

theorem sameKeys_dispatch {data : List UInt8} {closed : Bool} {protocol : Protocol}
    (h : t.dispatch data closed protocol addr clock = .ok t') : t.SameKeys t' := by
  unfold dispatch at h
  split at h
  · split at h
    · obtain ⟨packet, -, h⟩ := bind_eq_ok.mp h
      exact sameKeys_receiveRtcpPacket h
    · split at h
      · obtain ⟨p, -, h⟩ := bind_eq_ok.mp h
        exact sameKeys_receiveRtpPacket h
      · cases h
        exact .refl t
  · cases h
    exact .refl t
  · split at h
    · cases h
      exact .refl t
    · split at h
      · cases h
        exact .refl t
      · exact sameKeys_receiveRtpPacket h

theorem sameKeys_onSendPacket {ssrc : UInt32} {data : List UInt8}
    (h : t.onSendPacket ssrc data clock = .ok t') : t.SameKeys t' := by
  unfold onSendPacket at h
  split at h
  · cases h
    exact .refl t
  · split at h
    · cases h
    · obtain ⟨⟨stream, accepted⟩, -, h⟩ := bind_eq_ok.mp h
      cases h
      exact ⟨Table.map_fst_store, rfl⟩

theorem distinct_createRtpStream (h : t.Distinct) (ssrc : UInt32) (streamType : StreamType)
    (target : Option SockAddr) : (t.createRtpStream ssrc streamType target).Distinct := by
  have hnew : ∀ {α : Type} {table : List (UInt32 × α)} {stream : α},
      ¬ (Table.find ssrc table).isSome = true → (table.map Prod.fst).Nodup →
      (((ssrc, stream) :: table).map Prod.fst).Nodup := fun hnone hnodup =>
    List.nodup_cons.mpr ⟨fun hmem => hnone (Table.isSome_find.mpr hmem), hnodup⟩
  unfold createRtpStream
  cases target with
  | none => exact h
  | some targetAddr =>
      cases streamType with
      | streamReceiver =>
          dsimp only
          split_ifs with hfound
          · exact h
          · exact ⟨h.senders, hnew hfound h.receivers⟩
      | streamSender =>
          dsimp only
          split_ifs with hfound
          · exact h
          · exact ⟨hnew hfound h.senders, h.receivers⟩

theorem distinct_deleteRtpStream (h : t.Distinct) (ssrc : UInt32) :
    (t.deleteRtpStream ssrc).Distinct := by
  unfold deleteRtpStream
  split_ifs
  · exact ⟨h.senders.sublist (List.filter_sublist.map _), h.receivers⟩
  · exact ⟨h.senders, h.receivers.sublist (List.filter_sublist.map _)⟩
  · exact h

theorem distinct_step (h : t.Distinct) {e : Event} (hok : t.step e clock = .ok t') :
    t'.Distinct := by
  cases e with
  | createRtpStream ssrc streamType target =>
      cases hok
      exact distinct_createRtpStream h ssrc streamType target
  | deleteRtpStream ssrc =>
      cases hok
      exact distinct_deleteRtpStream h ssrc
  | dispatch data closed protocol addr => exact (sameKeys_dispatch hok).distinct h
  | onSendPacket ssrc data => exact (sameKeys_onSendPacket hok).distinct h

theorem distinct_of_reachable {now : UInt64} (h : Reachable now t) : t.Distinct := by
  induction h with
  | init now => exact ⟨List.nodup_nil, List.nodup_nil⟩
  | step _ _ hok ih => exact distinct_step ih hok
  | reorder _ hsend hrecv _ _ ih =>
      exact ⟨(hsend.map _).nodup_iff.mpr ih.senders, (hrecv.map _).nodup_iff.mpr ih.receivers⟩

end Calls

/-! ## Sender reports -/

/-- A sender report packet has one report at most. -/
def AtMostOneReport : RtcpPacket → Prop
  | .senderReport packet => packet.reports.length ≤ 1
  | _ => True

theorem atMostOneReport_parseByType {type : Rtcp.RtcpType} {data : List UInt8}
    {current : Option RtcpPacket} {packet : RtcpPacket}
    (hcurrent : ∀ c, current = some c → AtMostOneReport c)
    (h : RtcpPacket.parseByType type data current = some packet) : AtMostOneReport packet := by
  unfold RtcpPacket.parseByType at h
  split at h
  · cases h
    unfold AtMostOneReport Rtcp.SenderReportPacket.parse
    cases Rtcp.SenderReport.parse (data.drop 4) <;> simp
  · obtain ⟨parsed, -, heq⟩ := Option.map_eq_some_iff.mp h
    rw [← heq]
    trivial
  · obtain ⟨parsed, -, heq⟩ := Option.map_eq_some_iff.mp h
    rw [← heq]
    trivial
  · exact hcurrent packet h

theorem atMostOneReport_parseLoop (fuel : Nat) : ∀ {current : Option RtcpPacket}
    {data : List UInt8} {packet : RtcpPacket}, (∀ c, current = some c → AtMostOneReport c) →
    RtcpPacket.parseLoop fuel current data = some packet → AtMostOneReport packet := by
  induction fuel with
  | zero =>
      intro current data packet hcurrent h
      cases data with
      | nil => exact hcurrent packet h
      | cons byte rest => cases h
  | succ fuel ih =>
      intro current data packet hcurrent h
      cases data with
      | nil => exact hcurrent packet h
      | cons byte rest =>
          unfold RtcpPacket.parseLoop at h
          split at h
          · split at h
            · dsimp only at h
              split at h
              · cases h
              · split at h
                · cases h
                · next next hnext =>
                    refine ih (fun c hc => ?_) h
                    cases hc
                    exact atMostOneReport_parseByType hcurrent hnext
            · cases h
          · cases h

theorem atMostOneReport_of_parse {data : List UInt8} {packet : RtcpPacket}
    (h : RtcpPacket.parse data = some packet) : AtMostOneReport packet :=
  atMostOneReport_parseLoop data.length (fun c hc => by cases hc) h

theorem getStreamReceiverBySsrc_mem {t : RtcTransport} {ssrc : UInt32}
    {entry : UInt32 × RtpStreamReceiver} (h : t.getStreamReceiverBySsrc ssrc = .ok entry) :
    entry ∈ t.rtpReceiveStreams := by
  unfold getStreamReceiverBySsrc at h
  split at h
  · next found hfind =>
      cases h
      exact Table.find_mem hfind
  · split at h
    · cases h
    · next heq =>
        cases h
        rw [heq]
        exact List.mem_cons_self

/-- The stream holds what the report would set already, the remote address included. -/
structure Holds (stream : RtpStreamReceiver) (report : Rtcp.SenderReport)
    (addr : Option SockAddr) (nowMs : UInt64) : Prop where
  received : stream.lastSrReceived = nowMs
  timestamp : stream.lastSrTimestamp =
    (report.getNtpSec <<< 16) + (report.getNtpFrac >>> 16)
  ntpMs : stream.lastSenderReportNtpMs =
    ntp2TimeMs { seconds := report.getNtpSec, fractions := report.getNtpFrac }
  ts : stream.lastSenderReportTs = report.getRtpTs
  remote : ∀ a, addr = some a → stream.udpRemoteAddr = a

/-- A report changes a stream unless the stream holds it already. -/
theorem holds_iff (stream : RtpStreamReceiver) (report : Rtcp.SenderReport)
    (addr : Option SockAddr) (clock : Clock) :
    updateReceiverAddr (stream.receiveRtcpSenderReport report clock) addr = stream ↔
      Holds stream report addr (clock 0) := by
  unfold RtpStreamReceiver.receiveRtcpSenderReport RtpStreamReceiver.setLastSenderReport
  constructor
  · intro heq
    cases addr with
    | none =>
        exact ⟨(congrArg (·.lastSrReceived) heq).symm, (congrArg (·.lastSrTimestamp) heq).symm,
          (congrArg (·.lastSenderReportNtpMs) heq).symm,
          (congrArg (·.lastSenderReportTs) heq).symm, fun a ha => by cases ha⟩
    | some a =>
        exact ⟨(congrArg (·.lastSrReceived) heq).symm, (congrArg (·.lastSrTimestamp) heq).symm,
          (congrArg (·.lastSenderReportNtpMs) heq).symm,
          (congrArg (·.lastSenderReportTs) heq).symm, fun b hb => by
            cases hb
            exact (congrArg (·.udpRemoteAddr) heq).symm⟩
  · intro h
    rw [← h.received, ← h.timestamp, ← h.ntpMs, ← h.ts]
    cases addr with
    | none => rfl
    | some a =>
        rw [← h.remote a rfl]
        rfl

/-! ## Receiver reports -/

theorem receiveReceiverReports_receivers (addr : Option SockAddr)
    (reports : List Rtcp.ReceiverReport) : ∀ (clock : Clock) (t : RtcTransport),
    (receiveReceiverReports addr reports clock t).rtpReceiveStreams = t.rtpReceiveStreams := by
  induction reports with
  | nil => exact fun _ _ => rfl
  | cons report reports ih =>
      intro clock t
      unfold receiveReceiverReports
      split
      · exact ih clock t
      · exact ih _ _

/-- The receiver reports that have a sender, each with the time at which it is taken up: the
    clock is read for these only. -/
def heard (t : RtcTransport) :
    List Rtcp.ReceiverReport → Clock → List (Rtcp.ReceiverReport × UInt64)
  | [], _ => []
  | report :: reports, clock =>
    if (t.getStreamSenderBySsrc report.getSsrc).isSome then
      (report, clock 0) :: t.heard reports (clock.from 1)
    else t.heard reports clock

/-- The last of them about a stream. -/
def lastAbout (ssrc : UInt32) (reports : List (Rtcp.ReceiverReport × UInt64)) :
    Option (Rtcp.ReceiverReport × UInt64) :=
  (reports.filter fun m => m.1.getSsrc == ssrc).getLast?

/-- What a sender is after a report. -/
def hear (addr : Option SockAddr) (stream : RtpStreamSender)
    (m : Rtcp.ReceiverReport × UInt64) : RtpStreamSender :=
  updateSenderAddr (stream.setReported (RtpStreamSender.reportedRtt m.1 m.2) m.1.getTotalLost
    m.1.getFractionLost) addr

/-- The sender holds what the report would set already, the remote address included. -/
structure SenderHolds (stream : RtpStreamSender) (report : Rtcp.ReceiverReport)
    (addr : Option SockAddr) (nowMs : UInt64) : Prop where
  rtt : stream.rtt = RtpStreamSender.reportedRtt report nowMs
  packetsLost : stream.packetsLost = report.getTotalLost
  fractionLost : stream.fractionLost = report.getFractionLost
  remote : ∀ a, addr = some a → stream.udpRemoteAddr = a

theorem senderHolds_iff (stream : RtpStreamSender) (addr : Option SockAddr)
    (m : Rtcp.ReceiverReport × UInt64) :
    hear addr stream m = stream ↔ SenderHolds stream m.1 addr m.2 := by
  unfold hear RtpStreamSender.setReported
  constructor
  · intro heq
    cases addr with
    | none =>
        exact ⟨(congrArg (·.rtt) heq).symm, (congrArg (·.packetsLost) heq).symm,
          (congrArg (·.fractionLost) heq).symm, fun a ha => by cases ha⟩
    | some a =>
        exact ⟨(congrArg (·.rtt) heq).symm, (congrArg (·.packetsLost) heq).symm,
          (congrArg (·.fractionLost) heq).symm, fun b hb => by
            cases hb
            exact (congrArg (·.udpRemoteAddr) heq).symm⟩
  · intro h
    rw [← h.rtt, ← h.packetsLost, ← h.fractionLost]
    cases addr with
    | none => rfl
    | some a =>
        rw [← h.remote a rfl]
        rfl

/-- Of two reports the second is kept. -/
theorem hear_hear (addr : Option SockAddr) (stream : RtpStreamSender)
    (m m' : Rtcp.ReceiverReport × UInt64) :
    hear addr (hear addr stream m) m' = hear addr stream m' := by cases addr <;> rfl

theorem lastAbout_cons (ssrc : UInt32) (m : Rtcp.ReceiverReport × UInt64)
    (reports : List (Rtcp.ReceiverReport × UInt64)) :
    lastAbout ssrc (m :: reports) =
      (lastAbout ssrc reports).or (if m.1.getSsrc = ssrc then some m else none) := by
  unfold lastAbout
  by_cases h : m.1.getSsrc = ssrc
  · rw [List.filter_cons_of_pos (by simpa using h), List.getLast?_cons, if_pos h]
    cases ((reports.filter fun m => m.1.getSsrc == ssrc).getLast?) <;> rfl
  · rw [List.filter_cons_of_neg (by simpa using h), if_neg h, Option.or_none]

/-- The reports that have a sender do not depend on what the senders are. -/
theorem heard_congr (reports : List Rtcp.ReceiverReport) : ∀ {t t' : RtcTransport} (clock : Clock),
    t.SameKeys t' → t'.heard reports clock = t.heard reports clock := by
  induction reports with
  | nil => exact fun _ _ => rfl
  | cons report reports ih =>
      intro t t' clock h
      have hsome : (t'.getStreamSenderBySsrc report.getSsrc).isSome =
          (t.getStreamSenderBySsrc report.getSsrc).isSome := by
        unfold getStreamSenderBySsrc
        rw [Bool.eq_iff_iff, Table.isSome_find, Table.isSome_find, h.senders]
      unfold heard
      rw [hsome, ih clock h, ih (clock.from 1) h]

/-- **Every sender keeps the last report about it.** -/
theorem receiveReceiverReports_senders (addr : Option SockAddr)
    (reports : List Rtcp.ReceiverReport) : ∀ {t : RtcTransport} (clock : Clock), t.Distinct →
    (receiveReceiverReports addr reports clock t).rtpSendStreams =
      t.rtpSendStreams.map fun entry =>
        (entry.1,
          (lastAbout entry.1 (t.heard reports clock)).elim entry.2 (hear addr entry.2)) := by
  induction reports with
  | nil => exact fun {t} _ _ => (List.map_id t.rtpSendStreams).symm
  | cons report reports ih =>
      intro t clock h
      unfold receiveReceiverReports heard getStreamSenderBySsrc
      cases hf : Table.find report.getSsrc t.rtpSendStreams with
      | none => exact ih clock h
      | some entry =>
          have hkey := Table.find_fst hf
          have hsame := t.sameKeys_storeSender entry.1 (hear addr entry.2 (report, clock 0))
          -- the first report, and then what the others do to the table after it
          show (receiveReceiverReports addr reports (clock.from 1) (t.storeSender entry.1
            (hear addr entry.2 (report, clock 0)))).rtpSendStreams = _
          rw [ih (clock.from 1) (hsame.distinct h), heard_congr reports (clock.from 1) hsame,
            if_pos (by rfl)]
          show (Table.store entry.1 _ t.rtpSendStreams).map _ = _
          rw [Table.store_eq_map h.senders (Table.find_mem hf)
            (fun stream => hear addr stream (report, clock 0)), List.map_map]
          refine List.map_congr_left fun entry' _ => ?_
          show (entry'.1, Option.elim _ _ _) = (entry'.1, _)
          rw [lastAbout_cons, hkey]
          congr 1
          dsimp only
          by_cases hssrc : entry'.1 = report.getSsrc
          · rw [if_pos hssrc, if_pos hssrc.symm]
            cases lastAbout entry'.1 (t.heard reports (clock.from 1)) with
            | none => rfl
            | some m => exact hear_hear addr entry'.2 _ m
          · rw [if_neg hssrc, if_neg (Ne.symm hssrc), Option.or_none]

/-! ## When nothing changes -/

/-- The packet says nothing that the streams do not hold: its sender report, to the receiver
    it goes to; and of the receiver reports the last one about each sender. A NACK says
    nothing to the streams here. -/
def NothingNew (t : RtcTransport) (addr : Option SockAddr) (clock : Clock) : RtcpPacket → Prop
  | .senderReport packet => ∀ report ∈ packet.reports, ∀ entry,
      t.getStreamReceiverBySsrc report.getSsrc = .ok entry → Holds entry.2 report addr (clock 0)
  | .receiverReport packet => ∀ entry ∈ t.rtpSendStreams, ∀ m,
      lastAbout entry.1 (t.heard packet.reports clock) = some m → SenderHolds entry.2 m.1 addr m.2
  | .feedbackRtpNack _ => True

section Unchanged

variable {t t' : RtcTransport} {addr : Option SockAddr} {clock : Clock}

theorem receiveSenderReports_eq_iff {reports : List Rtcp.SenderReport} (h : t.Distinct)
    (hone : reports.length ≤ 1) (hok : receiveSenderReports addr reports clock t = .ok t') :
    t'.rtpSendStreams = t.rtpSendStreams ∧
      (t'.rtpReceiveStreams = t.rtpReceiveStreams ↔ ∀ report ∈ reports, ∀ entry,
        t.getStreamReceiverBySsrc report.getSsrc = .ok entry →
          Holds entry.2 report addr (clock 0)) := by
  match reports, hone with
  | [], _ =>
      cases hok
      exact ⟨rfl, fun _ report hmem => (List.not_mem_nil hmem).elim, fun _ => rfl⟩
  | [report], _ =>
      obtain ⟨entry, hget, hok⟩ := bind_eq_ok.mp hok
      cases hok
      refine ⟨rfl, ?_⟩
      show Table.store entry.1 _ t.rtpReceiveStreams = t.rtpReceiveStreams ↔ _
      rw [Table.store_eq_self_iff h.receivers (getStreamReceiverBySsrc_mem hget), holds_iff]
      constructor
      · intro hholds report' hmem entry' hget'
        cases List.mem_singleton.mp hmem
        cases hget.symm.trans hget'
        exact hholds
      · exact fun hnew => hnew report List.mem_cons_self entry hget

theorem receiveReceiverReports_eq_iff (addr : Option SockAddr)
    (reports : List Rtcp.ReceiverReport) (clock : Clock) (h : t.Distinct) :
    (receiveReceiverReports addr reports clock t).rtpSendStreams = t.rtpSendStreams ↔
      ∀ entry ∈ t.rtpSendStreams, ∀ m, lastAbout entry.1 (t.heard reports clock) = some m →
        SenderHolds entry.2 m.1 addr m.2 := by
  rw [receiveReceiverReports_senders addr reports clock h]
  have hid : t.rtpSendStreams = t.rtpSendStreams.map id := (List.map_id _).symm
  nth_rewrite 2 [hid]
  rw [List.map_inj_left]
  refine forall₂_congr fun entry _ => ?_
  cases lastAbout entry.1 (t.heard reports clock) with
  | none => exact ⟨fun _ m hm => (Option.some_ne_none m hm.symm).elim, fun _ => rfl⟩
  | some m =>
      refine ⟨fun heq m' hm => ?_, fun hnew => Prod.ext rfl ?_⟩
      · cases hm
        exact (senderHolds_iff entry.2 addr m).mp (congrArg Prod.snd heq)
      · exact (senderHolds_iff entry.2 addr m).mpr (hnew m rfl)

/-- **A packet leaves the streams as they are exactly when it says nothing new.** -/
theorem receiveRtcpPacket_eq_iff {packet : RtcpPacket} (h : t.Distinct)
    (hone : AtMostOneReport packet) (hok : t.receiveRtcpPacket packet addr clock = .ok t') :
    (t'.rtpSendStreams = t.rtpSendStreams ∧ t'.rtpReceiveStreams = t.rtpReceiveStreams) ↔
      t.NothingNew addr clock packet := by
  cases packet with
  | senderReport packet =>
      obtain ⟨hsenders, hiff⟩ := receiveSenderReports_eq_iff h hone hok
      exact ⟨fun hsame => hiff.mp hsame.2, fun hnew => ⟨hsenders, hiff.mpr hnew⟩⟩
  | receiverReport packet =>
      cases hok
      have hiff := receiveReceiverReports_eq_iff addr packet.reports clock h
      exact ⟨fun hsame => hiff.mp hsame.1, fun hnew => ⟨hiff.mpr hnew,
        receiveReceiverReports_receivers addr packet.reports clock t⟩⟩
  | feedbackRtpNack packet =>
      cases hok
      exact ⟨fun _ => trivial, fun _ => ⟨rfl, rfl⟩⟩

end Unchanged

end RtcTransport

end Bifrost.Rtc
