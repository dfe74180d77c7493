/-
  `Dispatch` on any datagram, in any state the transport can be in.

  Every stream of a reachable transport is ready (`ready_of_reachable`), so that only two
  things can go wrong in `Dispatch`: `ReceiveRtcpPacket` reads the packet that
  `RtcpPacket::Parse` did not make, and `GetStreamReceiverBySsrc` reads `begin()` of an
  empty table. And a malformed datagram can change a stream: `RtpPacket::Parse` hands on a
  packet whose CSRC list, extension or padding does not fit, and `RtcpPacket::Parse` one
  with fewer report blocks than it counts. `dispatch_iff` is the exact condition under which
  none of this happens.
-/
import Bifrost.Rtc.DatagramFormat
import Bifrost.Rtc.ReportsHeard
import Bifrost.Rtc.StreamReady

namespace Bifrost.Rtc

/-! ## Tables -/

namespace Table

variable {α : Type} {ssrc : UInt32} {stream : α} {table : List (UInt32 × α)}

/-- An entry after a store is an old one or the stored stream. -/
theorem mem_store {entry : UInt32 × α} (h : entry ∈ store ssrc stream table) :
    entry ∈ table ∨ entry.2 = stream := by
  obtain ⟨old, hold, heq⟩ := List.mem_map.mp h
  split at heq
  · exact Or.inr (by rw [← heq])
  · exact Or.inl (heq ▸ hold)

theorem store_eq_nil_iff : store ssrc stream table = [] ↔ table = [] := List.map_eq_nil_iff

end Table

namespace RtcTransport

/-! ## Streams stay ready -/

def SendersReady (t : RtcTransport) (now : UInt64) : Prop :=
  ∀ entry ∈ t.rtpSendStreams, entry.2.Ready now

def ReceiversReady (t : RtcTransport) (now : UInt64) : Prop :=
  ∀ entry ∈ t.rtpReceiveStreams, entry.2.Ready now

theorem SendersReady.mono {t : RtcTransport} {now last : UInt64} (h : t.SendersReady now)
    (hle : now ≤ last) : t.SendersReady last := fun entry hmem => (h entry hmem).mono hle

theorem ReceiversReady.mono {t : RtcTransport} {now last : UInt64} (h : t.ReceiversReady now)
    (hle : now ≤ last) : t.ReceiversReady last := fun entry hmem => (h entry hmem).mono hle

theorem SendersReady.store {t : RtcTransport} {now : UInt64} (h : t.SendersReady now)
    {stream : RtpStreamSender} (hs : stream.Ready now) (ssrc : UInt32) :
    (t.storeSender ssrc stream).SendersReady now := by
  intro entry hmem
  rcases Table.mem_store hmem with hold | hnew
  · exact h entry hold
  · exact hnew ▸ hs

theorem ReceiversReady.store {t : RtcTransport} {now : UInt64} (h : t.ReceiversReady now)
    {stream : RtpStreamReceiver} (hs : stream.Ready now) (ssrc : UInt32) :
    (t.storeReceiver ssrc stream).ReceiversReady now := by
  intro entry hmem
  rcases Table.mem_store hmem with hold | hnew
  · exact h entry hold
  · exact hnew ▸ hs

/-- `GetStreamReceiverBySsrc` goes wrong on the empty table only. -/
theorem getStreamReceiverBySsrc_cases (t : RtcTransport) (ssrc : UInt32) :
    t.rtpReceiveStreams = [] ∧ t.getStreamReceiverBySsrc ssrc = .error .pastTheEnd ∨
    ∃ entry ∈ t.rtpReceiveStreams, t.getStreamReceiverBySsrc ssrc = .ok entry := by
  unfold getStreamReceiverBySsrc
  cases hf : Table.find ssrc t.rtpReceiveStreams with
  | some entry => exact Or.inr ⟨entry, Table.find_mem hf, rfl⟩
  | none =>
      cases ht : t.rtpReceiveStreams with
      | nil => exact Or.inl ⟨rfl, rfl⟩
      | cons entry rest => exact Or.inr ⟨entry, List.mem_cons_self, rfl⟩

section Calls

variable {t : RtcTransport} {first last : UInt64} {clock : Clock}

/-! ## RTP -/

theorem passToSender_ready (hs : t.SendersReady first) (hclock : clock.Between first last)
    (p : RtpPacket) :
    ∃ t', t.passToSender p clock = .ok t' ∧ t'.SendersReady last ∧
      t'.rtpReceiveStreams = t.rtpReceiveStreams := by
  unfold passToSender getStreamSenderBySsrc
  cases hf : Table.find p.getSsrc t.rtpSendStreams with
  | none => exact ⟨t, rfl, hs.mono hclock.le, rfl⟩
  | some entry =>
      obtain ⟨s', accepted, hok, hready, -⟩ :=
        RtpStreamSender.receivePacket_ready (hs entry (Table.find_mem hf)) hclock p
      refine ⟨t.storeSender entry.1 s', ?_, (hs.mono hclock.le).store hready _, rfl⟩
      dsimp only
      rw [hok]
      rfl

/-- The receiver that gets the packet is not what it was. -/
theorem passToReceiver_ready (hr : t.ReceiversReady first) (hclock : clock.Between first last)
    (p : RtpPacket) (hne : t.rtpReceiveStreams ≠ []) :
    ∃ t', t.passToReceiver p clock = .ok t' ∧ t'.ReceiversReady last ∧
      t'.rtpSendStreams = t.rtpSendStreams ∧ t'.rtpReceiveStreams ≠ t.rtpReceiveStreams := by
  rcases t.getStreamReceiverBySsrc_cases p.getSsrc with ⟨hnil, -⟩ | ⟨entry, hmem, hget⟩
  · exact absurd hnil hne
  · obtain ⟨r', accepted, hok, hready, hdiff⟩ :=
      RtpStreamReceiver.receivePacket_ready (hr entry hmem) hclock p
    refine ⟨t.storeReceiver entry.1 r', ?_, (hr.mono hclock.le).store hready _, rfl,
      Table.store_ne hmem hdiff⟩
    unfold passToReceiver
    rw [hget, bind_eq_ok]
    refine ⟨entry, rfl, ?_⟩
    rw [bind_eq_ok]
    exact ⟨(r', accepted), hok, rfl⟩

theorem passToReceiver_nil (p : RtpPacket) (hnil : t.rtpReceiveStreams = []) :
    t.passToReceiver p clock = .error .pastTheEnd := by
  rcases t.getStreamReceiverBySsrc_cases p.getSsrc with ⟨-, hget⟩ | ⟨entry, hmem, -⟩
  · unfold passToReceiver
    rw [hget]
    rfl
  · rw [hnil] at hmem
    cases hmem

/-- `ReceiveRtpPacket` completes exactly when there is a receiver, and then changes one. -/
theorem receiveRtpPacket_cases (hs : t.SendersReady first) (hr : t.ReceiversReady first)
    (hclock : clock.Between first last) (p : RtpPacket) :
    t.rtpReceiveStreams = [] ∧ t.receiveRtpPacket p clock = .error .pastTheEnd ∨
    t.rtpReceiveStreams ≠ [] ∧ ∃ t', t.receiveRtpPacket p clock = .ok t' ∧
      t'.SendersReady last ∧ t'.ReceiversReady last ∧
      t'.rtpReceiveStreams ≠ t.rtpReceiveStreams := by
  obtain ⟨t₁, hsend, hs₁, hsame⟩ := passToSender_ready hs hclock p
  unfold receiveRtpPacket
  rw [hsend]
  by_cases hnil : t.rtpReceiveStreams = []
  · exact Or.inl ⟨hnil, passToReceiver_nil p (hsame.trans hnil)⟩
  · have hr₁ : t₁.ReceiversReady first := by
      unfold ReceiversReady
      rw [hsame]
      exact hr
    obtain ⟨t₂, hrecv, hr₂, hsame₂, hdiff⟩ :=
      passToReceiver_ready hr₁ (hclock.from 4) p (by rw [hsame]; exact hnil)
    refine Or.inr ⟨hnil, t₂, hrecv, ?_, hr₂, hsame ▸ hdiff⟩
    unfold SendersReady
    rw [hsame₂]
    exact hs₁

/-! ## RTCP -/

theorem receiveSenderReports_ready (addr : Option SockAddr)
    (reports : List Rtcp.SenderReport) : ∀ {t : RtcTransport} {clock : Clock},
    t.ReceiversReady last → t.rtpReceiveStreams ≠ [] →
    ∃ t', receiveSenderReports addr reports clock t = .ok t' ∧ t'.ReceiversReady last ∧
      t'.rtpSendStreams = t.rtpSendStreams := by
  induction reports with
  | nil => intro t clock hr _; exact ⟨t, rfl, hr, rfl⟩
  | cons report reports ih =>
      intro t clock hr hne
      rcases t.getStreamReceiverBySsrc_cases report.getSsrc with ⟨hnil, -⟩ | ⟨entry, hmem, hget⟩
      · exact absurd hnil hne
      · have hready : (updateReceiverAddr (entry.2.receiveRtcpSenderReport report clock)
            addr).Ready last := by
          have hreport := RtpStreamReceiver.ready_senderReport (hr entry hmem) report clock
          cases addr with
          | none => exact hreport
          | some addr => exact RtpStreamReceiver.ready_setUdpRemoteTargetAddr hreport addr
        obtain ⟨t', hok, hr', hsame⟩ := @ih (t.storeReceiver entry.1 _) (clock.from 1)
          (hr.store hready _) (fun hnil => hne (Table.store_eq_nil_iff.mp hnil))
        refine ⟨t', ?_, hr', hsame⟩
        unfold receiveSenderReports
        rw [hget]
        exact hok

theorem receiveReceiverReports_ready (addr : Option SockAddr)
    (reports : List Rtcp.ReceiverReport) : ∀ {t : RtcTransport} {clock : Clock},
    t.SendersReady last →
    (receiveReceiverReports addr reports clock t).SendersReady last ∧
    (receiveReceiverReports addr reports clock t).rtpReceiveStreams = t.rtpReceiveStreams := by
  induction reports with
  | nil => intro t clock hs; exact ⟨hs, rfl⟩
  | cons report reports ih =>
      intro t clock hs
      unfold receiveReceiverReports getStreamSenderBySsrc
      cases hf : Table.find report.getSsrc t.rtpSendStreams with
      | none => exact ih hs
      | some entry =>
          have hready : (updateSenderAddr (entry.2.receiveRtcpReceiverReport report clock)
              addr).Ready last := by
            have hreport :=
              RtpStreamSender.ready_receiverReport (hs entry (Table.find_mem hf)) report clock
            cases addr with
            | none => exact hreport
            | some addr => exact RtpStreamSender.ready_setUdpRemoteTargetAddr hreport addr
          exact ih (hs.store hready _)

/-- The packet is a sender report packet with a report in it. -/
def HasSenderReport : RtcpPacket → Prop
  | .senderReport packet => packet.reports ≠ []
  | _ => False

/-- `ReceiveRtcpPacket` goes wrong exactly on a sender report without any receiver. -/
theorem receiveRtcpPacket_cases (hs : t.SendersReady last) (hr : t.ReceiversReady last)
    (rtcpPacket : RtcpPacket) (addr : Option SockAddr) :
    (HasSenderReport rtcpPacket ∧ t.rtpReceiveStreams = []) ∧
      t.receiveRtcpPacket rtcpPacket addr clock = .error .pastTheEnd ∨
    ¬ (HasSenderReport rtcpPacket ∧ t.rtpReceiveStreams = []) ∧
      ∃ t', t.receiveRtcpPacket rtcpPacket addr clock = .ok t' ∧ t'.SendersReady last ∧
        t'.ReceiversReady last := by
  cases rtcpPacket with
  | feedbackRtpNack packet => exact Or.inr ⟨fun h => h.1, t, rfl, hs, hr⟩
  | receiverReport packet =>
      obtain ⟨hs', hsame⟩ := @receiveReceiverReports_ready last addr packet.reports t clock hs
      refine Or.inr ⟨fun h => h.1, _, rfl, hs', ?_⟩
      unfold ReceiversReady
      rw [hsame]
      exact hr
  | senderReport packet =>
      cases hreports : packet.reports with
      | nil =>
          refine Or.inr ⟨fun h => h.1 hreports, t, ?_, hs, hr⟩
          show receiveSenderReports addr packet.reports clock t = _
          rw [hreports]
          rfl
      | cons report reports =>
          have hhas : HasSenderReport (.senderReport packet) := by
            show packet.reports ≠ []
            rw [hreports]
            simp
          by_cases hnil : t.rtpReceiveStreams = []
          · refine Or.inl ⟨⟨hhas, hnil⟩, ?_⟩
            rcases t.getStreamReceiverBySsrc_cases report.getSsrc with
              ⟨-, hget⟩ | ⟨entry, hmem, -⟩
            · show receiveSenderReports addr packet.reports clock t = _
              rw [hreports, receiveSenderReports, hget]
              rfl
            · rw [hnil] at hmem
              cases hmem
          · obtain ⟨t', hok, hr', hsame⟩ :=
              @receiveSenderReports_ready last addr packet.reports t clock hr hnil
            refine Or.inr ⟨fun h => hnil h.2, t', hok, ?_, hr'⟩
            unfold SendersReady
            rw [hsame]
            exact hs

end Calls

/-! ## The demultiplexer -/

theorem version_of_byte {b : UInt8} (h1 : b > 127) (h2 : b < 192) :
    b.toBitVec.extractLsb' 6 2 = 2 := by
  rw [gt_iff_lt, UInt8.lt_iff_toNat_lt] at h1
  rw [UInt8.lt_iff_toNat_lt] at h2
  rw [← BitVec.toNat_inj, BitVec.extractLsb'_toNat, UInt8.toNat_toBitVec,
    Nat.shiftRight_eq_div_pow]
  simp only [UInt8.reduceToNat] at h1 h2
  show b.toNat / 2 ^ 6 % 2 ^ 2 = 2
  omega

/-- What the transport takes for RTP, `RtpPacket::Parse` takes too. -/
theorem parse_of_isRtp {data : List UInt8} (h : isRtp data = true) :
    ∃ p, RtpPacket.parse data = some p := by
  unfold isRtp at h
  split at h
  · next hlen =>
      simp only [Bool.and_eq_true, decide_eq_true_eq] at h
      have hlen' : RtpPacket.kHeaderSize ≤ data.length := hlen
      have hrtp : RtpPacket.isRtp data = true := by
        unfold RtpPacket.isRtp
        rw [dif_pos hlen']
        simp only [Bool.and_eq_true, decide_eq_true_eq, beq_iff_eq]
        exact ⟨h.1, version_of_byte h.1.1 h.1.2⟩
      refine ⟨RtpPacket.new data hlen', ?_⟩
      unfold RtpPacket.parse
      rw [dif_pos hlen', if_pos hrtp]
  · cases h

theorem parse_isSome_iff (data : List UInt8) :
    (RtpPacket.parse data).isSome = true ↔ RtpPacket.isRtp data = true := by
  unfold RtpPacket.parse
  by_cases hlen : RtpPacket.kHeaderSize ≤ data.length
  · rw [dif_pos hlen]
    split <;> simp_all
  · rw [dif_neg hlen, RtpPacket.isRtp, dif_neg hlen]
    simp

/-! ## Reachable transports -/

/-- Both tables hold ready streams only. -/
structure Ready (t : RtcTransport) (now : UInt64) : Prop where
  senders : t.SendersReady now
  receivers : t.ReceiversReady now

theorem Ready.mono {t : RtcTransport} {now last : UInt64} (h : t.Ready now) (hle : now ≤ last) :
    t.Ready last := ⟨h.senders.mono hle, h.receivers.mono hle⟩

section Steps

variable {t t' : RtcTransport} {first last : UInt64} {clock : Clock}

theorem ready_receiveRtpPacket (h : t.Ready first) (hclock : clock.Between first last)
    {p : RtpPacket} (hok : t.receiveRtpPacket p clock = .ok t') : t'.Ready last := by
  rcases receiveRtpPacket_cases h.senders h.receivers hclock p with
    ⟨-, herr⟩ | ⟨-, t'', hok', hs, hr, -⟩
  · rw [hok] at herr
    cases herr
  · rw [hok] at hok'
    cases hok'
    exact ⟨hs, hr⟩

theorem ready_dispatch (h : t.Ready first) (hclock : clock.Between first last)
    {data : List UInt8} {closed : Bool} {protocol : Protocol} {addr : Option SockAddr}
    (hok : t.dispatch data closed protocol addr clock = .ok t') : t'.Ready last := by
  have hlast := h.mono hclock.le
  cases protocol with
  | tcp => cases hok; exact hlast
  | websocket =>
      unfold dispatch at hok
      dsimp only at hok
      split at hok
      · cases hok; exact hlast
      · split at hok
        · cases hok; exact hlast
        · exact ready_receiveRtpPacket h hclock hok
  | udp =>
      unfold dispatch at hok
      dsimp only at hok
      split at hok
      · obtain ⟨packet, -, hok⟩ := bind_eq_ok.mp hok
        rcases @receiveRtcpPacket_cases t last clock hlast.senders hlast.receivers packet addr with
          ⟨-, herr⟩ | ⟨-, t'', hok', hs, hr⟩
        · rw [hok] at herr
          cases herr
        · rw [hok] at hok'
          cases hok'
          exact ⟨hs, hr⟩
      · split at hok
        · obtain ⟨p, -, hok⟩ := bind_eq_ok.mp hok
          exact ready_receiveRtpPacket h hclock hok
        · cases hok; exact hlast

theorem ready_onSendPacket (h : t.Ready first) (hclock : clock.Between first last)
    {ssrc : UInt32} {data : List UInt8} (hok : t.onSendPacket ssrc data clock = .ok t') :
    t'.Ready last := by
  have hlast := h.mono hclock.le
  unfold onSendPacket getStreamSenderBySsrc at hok
  cases hf : Table.find ssrc t.rtpSendStreams with
  | none =>
      rw [hf] at hok
      cases hok
      exact hlast
  | some entry =>
      rw [hf] at hok
      dsimp only at hok
      split at hok
      · cases hok
      · next p _ =>
          obtain ⟨⟨s', accepted⟩, hs', hok⟩ := bind_eq_ok.mp hok
          obtain ⟨s'', accepted', hs'', hready, -⟩ :=
            RtpStreamSender.receivePacket_ready (h.senders entry (Table.find_mem hf)) hclock p
          rw [hs'] at hs''
          cases hs''
          cases hok
          exact ⟨hlast.senders.store hready ssrc, hlast.receivers⟩

theorem ready_createRtpStream {now : UInt64} (h : t.Ready now) (ssrc : UInt32)
    (streamType : StreamType) (target : Option SockAddr) :
    (t.createRtpStream ssrc streamType target).Ready now := by
  unfold createRtpStream
  cases target with
  | none => exact h
  | some addr =>
      cases streamType with
      | streamReceiver =>
          dsimp only
          split
          · exact h
          · exact ⟨h.senders, List.forall_mem_cons.mpr
              ⟨RtpStreamReceiver.ready_create _ _ addr now, h.receivers⟩⟩
      | streamSender =>
          dsimp only
          split
          · exact h
          · have hrate : (16000 : UInt32) ≠ 0 := by decide
            exact ⟨List.forall_mem_cons.mpr
              ⟨RtpStreamSender.ready_create hrate addr now, h.senders⟩, h.receivers⟩

theorem ready_deleteRtpStream {now : UInt64} (h : t.Ready now) (ssrc : UInt32) :
    (t.deleteRtpStream ssrc).Ready now := by
  unfold deleteRtpStream
  split_ifs
  · exact ⟨fun entry hmem => h.senders entry (List.mem_filter.mp hmem).1, h.receivers⟩
  · exact ⟨h.senders, fun entry hmem => h.receivers entry (List.mem_filter.mp hmem).1⟩
  · exact h

theorem ready_step (h : t.Ready first) (hclock : clock.Between first last) {e : Event}
    (hok : t.step e clock = .ok t') : t'.Ready last := by
  cases e with
  | createRtpStream ssrc streamType target =>
      cases hok
      exact (ready_createRtpStream h ssrc streamType target).mono hclock.le
  | deleteRtpStream ssrc =>
      cases hok
      exact (ready_deleteRtpStream h ssrc).mono hclock.le
  | dispatch data closed protocol addr => exact ready_dispatch h hclock hok
  | onSendPacket ssrc data => exact ready_onSendPacket h hclock hok

theorem ready_of_reachable {now : UInt64} (h : Reachable now t) : t.Ready now := by
  induction h with
  | init now => exact ⟨List.forall_mem_nil _, List.forall_mem_nil _⟩
  | step _ hclock hok ih => exact ready_step ih hclock hok
  | reorder _ hsend hrecv _ _ ih =>
      exact ⟨fun entry hmem => ih.senders entry (hsend.mem_iff.mp hmem),
        fun entry hmem => ih.receivers entry (hrecv.mem_iff.mp hmem)⟩

end Steps

/-! ## When a datagram does no harm -/

/-- `Dispatch` on an open socket completes, and leaves all streams as they are when the
    bytes are not well formed. -/
def Robust (t : RtcTransport) (data : List UInt8) (protocol : Protocol) (addr : Option SockAddr)
    (clock : Clock) : Prop :=
  ∃ t', t.dispatch data false protocol addr clock = .ok t' ∧
    (¬ WellFormed data → t'.rtpSendStreams = t.rtpSendStreams ∧
      t'.rtpReceiveStreams = t.rtpReceiveStreams)

/-- The datagrams that do no harm. What the transport takes for RTCP must be a compound that
    parses, with a receiver for the sender report in it, and be well formed or else say
    nothing new. What it takes for RTP needs a receiver and must be well formed. -/
def Harmless (t : RtcTransport) (data : List UInt8) (addr : Option SockAddr) (clock : Clock) :
    Protocol → Prop
  | .udp =>
    if isRtcp data then
      ∃ packet, RtcpPacket.parse data = some packet ∧
        ¬ (HasSenderReport packet ∧ t.rtpReceiveStreams = []) ∧
        (WellFormed data ∨ t.NothingNew addr clock packet)
    else isRtp data = true → t.rtpReceiveStreams ≠ [] ∧ WellFormed data
  | .tcp => True
  | .websocket => RtpPacket.isRtp data = true → t.rtpReceiveStreams ≠ [] ∧ WellFormed data

/-- RTP that reaches `ReceiveRtpPacket`. -/
theorem robust_rtp_iff {t : RtcTransport} {first last : UInt64} {clock : Clock}
    (h : t.Ready first) (hclock : clock.Between first last) {data : List UInt8}
    {protocol : Protocol} {addr : Option SockAddr} {p : RtpPacket}
    (hdispatch : t.dispatch data false protocol addr clock = t.receiveRtpPacket p clock) :
    t.Robust data protocol addr clock ↔ t.rtpReceiveStreams ≠ [] ∧ WellFormed data := by
  unfold Robust
  rw [hdispatch]
  rcases receiveRtpPacket_cases h.senders h.receivers hclock p with
    ⟨hnil, herr⟩ | ⟨hne, t', hok, -, -, hdiff⟩
  · rw [herr]
    simp [hnil]
  · rw [hok]
    constructor
    · rintro ⟨t'', heq, hsame⟩
      cases heq
      refine ⟨hne, ?_⟩
      by_contra hbad
      exact hdiff (hsame hbad).2
    · rintro ⟨-, hwell⟩
      exact ⟨t', rfl, fun hbad => absurd hwell hbad⟩

theorem robust_of_skipped {t : RtcTransport} {data : List UInt8} {protocol : Protocol}
    {addr : Option SockAddr} {clock : Clock}
    (hdispatch : t.dispatch data false protocol addr clock = .ok t) :
    t.Robust data protocol addr clock := ⟨t, hdispatch, fun _ => ⟨rfl, rfl⟩⟩

/-- What the transport takes for RTCP. -/
theorem robust_rtcp_iff {t : RtcTransport} {last : UInt64} (h : t.Ready last)
    (hdistinct : t.Distinct) {data : List UInt8} (hrtcp : isRtcp data = true)
    (addr : Option SockAddr) (clock : Clock) :
    t.Robust data .udp addr clock ↔ ∃ packet, RtcpPacket.parse data = some packet ∧
      ¬ (HasSenderReport packet ∧ t.rtpReceiveStreams = []) ∧
      (WellFormed data ∨ t.NothingNew addr clock packet) := by
  have hdispatch : t.dispatch data false .udp addr clock =
      deref (RtcpPacket.parse data) >>= fun packet => t.receiveRtcpPacket packet addr clock := by
    unfold dispatch
    exact if_pos hrtcp
  unfold Robust
  rw [hdispatch]
  cases hp : RtcpPacket.parse data with
  | none =>
      constructor
      · rintro ⟨t', hok, -⟩
        cases hok
      · rintro ⟨packet, hpacket, -⟩
        cases hpacket
  | some packet =>
      rw [show deref (some packet) = .ok packet from rfl]
      rcases @receiveRtcpPacket_cases t last clock h.senders h.receivers packet addr with
        ⟨hbad, herr⟩ | ⟨hgood, t', hok, -, -⟩
      · constructor
        · rintro ⟨t', hok, -⟩
          cases herr.symm.trans hok
        · rintro ⟨_, heq, hgood, -⟩
          cases heq
          exact absurd hbad hgood
      · have hiff := receiveRtcpPacket_eq_iff hdistinct (atMostOneReport_of_parse hp) hok
        constructor
        · rintro ⟨t'', hok', hsame⟩
          cases hok.symm.trans hok'
          exact ⟨packet, rfl, hgood, Classical.or_iff_not_imp_left.mpr fun hill =>
            hiff.mp (hsame hill)⟩
        · rintro ⟨_, heq, -, hwell⟩
          cases heq
          exact ⟨t', hok, fun hill => hiff.mpr (hwell.resolve_left hill)⟩

/-- All readings at one time. -/
def still : Clock := fun _ => 1

theorem still_between : still.Between 1 1 :=
  ⟨fun _ => UInt64.le_refl 1, fun _ _ _ => UInt64.le_refl 1, fun _ => UInt64.le_refl 1⟩

/-- A transport with one receiver. -/
def oneReceiver : RtcTransport := ({} : RtcTransport).createRtpStream 1 .streamReceiver (some [])

theorem reachable_oneReceiver : Reachable 1 oneReceiver :=
  @Reachable.step 1 1 {} oneReceiver (.createRtpStream 1 .streamReceiver (some [])) still
    (.init 1) still_between rfl

/-- A sender report that counts 31 blocks and holds none. -/
def emptyReport : List UInt8 := [0x9F, 200, 0, 6, 0, 0, 0, 1] ++ List.replicate 20 0

end RtcTransport

end Bifrost.Rtc
