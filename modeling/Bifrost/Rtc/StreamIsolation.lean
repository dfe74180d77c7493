/-
  What a packet does to the streams it is not for.

  A stream that is looked up under its own SSRC and stored back is the only one to change.
  But `GetStreamReceiverBySsrc` answers an SSRC that has no stream with `begin()`, and then
  that stream takes the packet or the report. `isolated_iff` says exactly when a datagram
  that carries one SSRC leaves all streams of other SSRCs as they are.
-/
import Bifrost.Rtc.TransportDispatch

namespace Bifrost.Rtc

/-! ## Tables -/

namespace Table

variable {α : Type} {ssrc k : UInt32} {old new : α} {table table' : List (UInt32 × α)}

/-- An entry that is found stands under its own key. -/
theorem find_key {entry : UInt32 × α} (h : find ssrc table = some entry) :
    find entry.1 table = some entry := by
  rw [find_fst h]
  exact h

theorem find_head (entry : UInt32 × α) (rest : List (UInt32 × α)) :
    find entry.1 (entry :: rest) = some entry := List.find?_cons_of_pos (by simp)

theorem erase_of_find_none (h : find ssrc table = none) : erase ssrc table = table := by
  rw [find, List.find?_eq_none] at h
  exact List.filter_eq_self.mpr fun entry hentry => by simpa using h entry hentry

/-- What is erased is no longer found. -/
theorem notMem_erase {entry : UInt32 × α} (h : entry.1 = ssrc) : entry ∉ erase ssrc table := by
  intro hmem
  have hne := (List.mem_filter.mp hmem).2
  simp [h] at hne

theorem find_store_ne (hne : k ≠ ssrc) : find k (store ssrc new table) = find k table := by
  induction table with
  | nil => rfl
  | cons entry rest ih =>
      unfold find store at ih ⊢
      rw [List.map_cons]
      by_cases hentry : entry.1 = ssrc
      · rw [if_pos hentry, List.find?_cons_of_neg (by simpa using hne.symm),
          List.find?_cons_of_neg (by simpa [hentry] using hne.symm), ih]
      · rw [if_neg hentry]
        by_cases hk : entry.1 = k
        · rw [List.find?_cons_of_pos (by simpa using hk),
            List.find?_cons_of_pos (by simpa using hk)]
        · rw [List.find?_cons_of_neg (by simpa using hk),
            List.find?_cons_of_neg (by simpa using hk), ih]

theorem find_store_self (h : find ssrc table = some (ssrc, old)) :
    find ssrc (store ssrc new table) = some (ssrc, new) := by
  induction table with
  | nil => cases h
  | cons entry rest ih =>
      unfold find at ih h ⊢
      unfold store at ih ⊢
      rw [List.map_cons]
      by_cases hentry : entry.1 = ssrc
      · rw [if_pos hentry, List.find?_cons_of_pos (by simp)]
      · rw [List.find?_cons_of_neg (by simpa using hentry)] at h
        rw [if_neg hentry, List.find?_cons_of_neg (by simpa using hentry), ih h]

/-- The streams of all SSRCs but one are the same. -/
def SameBut (ssrc : UInt32) (table table' : List (UInt32 × α)) : Prop :=
  ∀ k, k ≠ ssrc → find k table' = find k table

theorem SameBut.refl (ssrc : UInt32) (table : List (UInt32 × α)) : SameBut ssrc table table :=
  fun _ _ => rfl

/-- A stored stream changes no stream of another SSRC if it is stored there, or if it is the
    stream that was there. -/
theorem sameBut_store_iff (h : find k table = some (k, old)) :
    SameBut ssrc table (store k new table) ↔ k = ssrc ∨ new = old := by
  constructor
  · intro hsame
    by_cases hk : k = ssrc
    · exact Or.inl hk
    · have := hsame k hk
      rw [find_store_self h, h, Option.some_inj, Prod.mk.injEq] at this
      exact Or.inr this.2
  · intro hor j hj
    by_cases hjk : j = k
    · have hnew : new = old := hor.resolve_left (hjk ▸ hj)
      rw [hjk, find_store_self h, h, hnew]
    · exact find_store_ne hjk

end Table

namespace RtcTransport

/-- The streams of all SSRCs but one are the same, senders and receivers. -/
structure SameBut (ssrc : UInt32) (t t' : RtcTransport) : Prop where
  senders : Table.SameBut ssrc t.rtpSendStreams t'.rtpSendStreams
  receivers : Table.SameBut ssrc t.rtpReceiveStreams t'.rtpReceiveStreams

theorem SameBut.refl (ssrc : UInt32) (t : RtcTransport) : SameBut ssrc t t :=
  ⟨.refl _ _, .refl _ _⟩

/-- A receiver is registered under the SSRC. -/
def HasReceiver (t : RtcTransport) (ssrc : UInt32) : Prop :=
  (Table.find ssrc t.rtpReceiveStreams).isSome = true

/-- What `GetStreamReceiverBySsrc` finds stands under its own key. -/
theorem find_of_getStreamReceiverBySsrc {t : RtcTransport} {ssrc : UInt32}
    {entry : UInt32 × RtpStreamReceiver} (h : t.getStreamReceiverBySsrc ssrc = .ok entry) :
    Table.find entry.1 t.rtpReceiveStreams = some entry := by
  unfold getStreamReceiverBySsrc at h
  split at h
  · next found hfound =>
      cases h
      exact Table.find_key hfound
  · split at h
    · cases h
    · next first rest hlist =>
        cases h
        rw [hlist]
        exact Table.find_head _ _

/-- With a receiver under the SSRC, that one is found. -/
theorem getStreamReceiverBySsrc_fst {t : RtcTransport} {ssrc : UInt32}
    {entry : UInt32 × RtpStreamReceiver} (h : t.getStreamReceiverBySsrc ssrc = .ok entry) :
    entry.1 = ssrc ↔ t.HasReceiver ssrc := by
  unfold HasReceiver
  constructor
  · intro heq
    rw [← heq, find_of_getStreamReceiverBySsrc h]
    rfl
  · intro hsome
    obtain ⟨found, hfound⟩ := Option.isSome_iff_exists.mp hsome
    unfold getStreamReceiverBySsrc at h
    rw [hfound] at h
    cases h
    exact Table.find_fst hfound

/-- Without one, it is the first of all that is found. -/
theorem head?_of_getStreamReceiverBySsrc {t : RtcTransport} {ssrc : UInt32}
    {entry : UInt32 × RtpStreamReceiver} (h : t.getStreamReceiverBySsrc ssrc = .ok entry)
    (hnot : ¬ t.HasReceiver ssrc) : t.rtpReceiveStreams.head? = some entry := by
  unfold getStreamReceiverBySsrc at h
  split at h
  · next found hfound => exact absurd (by rw [HasReceiver, hfound]; rfl) hnot
  · split at h
    · cases h
    · next hlist =>
        cases h
        rw [hlist]
        rfl

theorem nil_of_getStreamReceiverBySsrc {t : RtcTransport} {ssrc : UInt32} {fault : Fault}
    (h : t.getStreamReceiverBySsrc ssrc = .error fault) :
    ¬ t.HasReceiver ssrc ∧ t.rtpReceiveStreams = [] := by
  unfold getStreamReceiverBySsrc at h
  split at h
  · cases h
  · next hf =>
      split at h
      · next hnil => exact ⟨by simp [HasReceiver, hf], hnil⟩
      · cases h

section Calls

variable {t : RtcTransport} {first last : UInt64} {clock : Clock} {ssrc : UInt32}

/-! ## RTP -/

/-- The sender that gets an RTP packet is the only one to change, and it does change. -/
theorem passToSender_sameBut (hs : t.SendersReady first) (hclock : clock.Between first last)
    (p : RtpPacket) (ssrc : UInt32) :
    ∃ t', t.passToSender p clock = .ok t' ∧ t'.rtpReceiveStreams = t.rtpReceiveStreams ∧
      (Table.SameBut ssrc t.rtpSendStreams t'.rtpSendStreams ↔
        Table.find p.getSsrc t.rtpSendStreams = none ∨ p.getSsrc = ssrc) := by
  unfold passToSender getStreamSenderBySsrc
  cases hf : Table.find p.getSsrc t.rtpSendStreams with
  | none => exact ⟨t, rfl, rfl, by simp [Table.SameBut.refl]⟩
  | some entry =>
      obtain ⟨s', accepted, hok, -, hdiff⟩ :=
        RtpStreamSender.receivePacket_ready (hs entry (Table.find_mem hf)) hclock p
      have hkey := Table.find_fst hf
      have hfind : Table.find entry.1 t.rtpSendStreams = some (entry.1, entry.2) :=
        Table.find_key hf
      refine ⟨t.storeSender entry.1 s', ?_, rfl, ?_⟩
      · dsimp only
        rw [hok]
        rfl
      · unfold storeSender
        rw [Table.sameBut_store_iff hfind, hkey]
        simp [hdiff]

/-- So is the receiver. -/
theorem passToReceiver_sameBut (hr : t.ReceiversReady first) (hclock : clock.Between first last)
    {p : RtpPacket} {entry : UInt32 × RtpStreamReceiver}
    (hget : t.getStreamReceiverBySsrc p.getSsrc = .ok entry) (ssrc : UInt32) :
    ∃ t', t.passToReceiver p clock = .ok t' ∧ t'.rtpSendStreams = t.rtpSendStreams ∧
      (Table.SameBut ssrc t.rtpReceiveStreams t'.rtpReceiveStreams ↔ entry.1 = ssrc) := by
  have hfind : Table.find entry.1 t.rtpReceiveStreams = some (entry.1, entry.2) :=
    find_of_getStreamReceiverBySsrc hget
  obtain ⟨r', accepted, hok, -, hdiff⟩ :=
    RtpStreamReceiver.receivePacket_ready (hr entry (Table.find_mem hfind)) hclock p
  refine ⟨t.storeReceiver entry.1 r', ?_, rfl, ?_⟩
  · unfold passToReceiver
    rw [hget, bind_eq_ok]
    refine ⟨entry, rfl, ?_⟩
    rw [bind_eq_ok]
    exact ⟨(r', accepted), hok, rfl⟩
  · unfold storeReceiver
    rw [Table.sameBut_store_iff hfind]
    simp [hdiff]

/-- An RTP packet with the SSRC `q` goes to streams of `ssrc` only: to a receiver
    registered under it, or, where the packet is for another SSRC that no stream has, to
    the first receiver if that is the one of `ssrc`. -/
def RtpStaysWith (t : RtcTransport) (ssrc q : UInt32) : Prop :=
  if q = ssrc then t.HasReceiver ssrc
  else Table.find q t.rtpSendStreams = none ∧ ¬ t.HasReceiver q ∧
    t.rtpReceiveStreams.head?.map Prod.fst = some ssrc

theorem rtpStaysWith_iff (t : RtcTransport) (ssrc q : UInt32) :
    t.RtpStaysWith ssrc q ↔ (Table.find q t.rtpSendStreams = none ∨ q = ssrc) ∧
      ∃ entry, t.getStreamReceiverBySsrc q = .ok entry ∧ entry.1 = ssrc := by
  unfold RtpStaysWith
  by_cases hq : q = ssrc
  · subst hq
    rw [if_pos rfl]
    constructor
    · intro hhas
      obtain ⟨entry, hfind⟩ := Option.isSome_iff_exists.mp hhas
      have hget : t.getStreamReceiverBySsrc q = .ok entry := by
        unfold getStreamReceiverBySsrc
        rw [hfind]
      exact ⟨Or.inr rfl, entry, hget, Table.find_fst hfind⟩
    · rintro ⟨-, entry, hget, hkey⟩
      exact (getStreamReceiverBySsrc_fst hget).mp hkey
  · rw [if_neg hq]
    unfold HasReceiver getStreamReceiverBySsrc
    cases hf : Table.find q t.rtpReceiveStreams with
    | some entry =>
        constructor
        · rintro ⟨-, hnot, -⟩
          exact absurd rfl hnot
        · rintro ⟨-, _, heq, hkey⟩
          cases heq
          exact absurd ((Table.find_fst hf).symm.trans hkey) hq
    | none =>
        cases t.rtpReceiveStreams with
        | nil => simp
        | cons entry rest => simp [hq]

/-- **An RTP packet leaves the streams of all SSRCs but one as they are** exactly when it
    goes to streams of that one only. -/
theorem receiveRtpPacket_sameBut_iff (hs : t.SendersReady first) (hr : t.ReceiversReady first)
    (hclock : clock.Between first last) (p : RtpPacket) (ssrc : UInt32) :
    (∃ t', t.receiveRtpPacket p clock = .ok t' ∧ SameBut ssrc t t') ↔
      t.RtpStaysWith ssrc p.getSsrc := by
  obtain ⟨t₁, hsend, hsame₁, hiff₁⟩ := passToSender_sameBut hs hclock p ssrc
  have hget₁ : t₁.getStreamReceiverBySsrc p.getSsrc = t.getStreamReceiverBySsrc p.getSsrc := by
    unfold getStreamReceiverBySsrc
    rw [hsame₁]
  rw [rtpStaysWith_iff, ← hiff₁]
  unfold receiveRtpPacket
  rw [hsend]
  cases hget : t.getStreamReceiverBySsrc p.getSsrc with
  | error fault =>
      have hfail : t₁.passToReceiver p (clock.from 4) = .error fault := by
        unfold passToReceiver
        rw [hget₁, hget]
        rfl
      constructor
      · rintro ⟨t', hok, -⟩
        cases hfail.symm.trans hok
      · rintro ⟨-, entry, heq, -⟩
        cases heq
  | ok entry =>
      have hr₁ : t₁.ReceiversReady first := by
        unfold ReceiversReady
        rw [hsame₁]
        exact hr
      obtain ⟨t₂, hrecv, hsame₂, hiff₂⟩ :=
        passToReceiver_sameBut hr₁ (hclock.from 4) (hget₁.trans hget) ssrc
      rw [hsame₁] at hiff₂
      constructor
      · rintro ⟨t', hok, hsame⟩
        cases hrecv.symm.trans hok
        exact ⟨hsame₂ ▸ hsame.senders, entry, rfl, hiff₂.mp hsame.receivers⟩
      · rintro ⟨hsenders, _, heq, hkey⟩
        cases heq
        exact ⟨t₂, hrecv, ⟨hsame₂ ▸ hsenders, hiff₂.mpr hkey⟩⟩

/-! ## Reports -/

/-- **A sender report leaves the receivers of all SSRCs but its own as they are** exactly
    when a receiver is registered under its SSRC, or the first receiver holds it already. -/
theorem receiveSenderReport_sameBut_iff (addr : Option SockAddr) (report : Rtcp.SenderReport) :
    (∃ t', receiveSenderReports addr [report] clock t = .ok t' ∧ SameBut report.getSsrc t t') ↔
      t.HasReceiver report.getSsrc ∨
        ∃ entry, t.rtpReceiveStreams.head? = some entry ∧
          Holds entry.2 report addr (clock 0) := by
  have hstore : ∀ {entry : UInt32 × RtpStreamReceiver},
      t.getStreamReceiverBySsrc report.getSsrc = .ok entry →
      ((∃ t', receiveSenderReports addr [report] clock t = .ok t' ∧
        SameBut report.getSsrc t t') ↔
        t.HasReceiver report.getSsrc ∨ Holds entry.2 report addr (clock 0)) := by
    intro entry hget
    have hfind : Table.find entry.1 t.rtpReceiveStreams = some (entry.1, entry.2) :=
      find_of_getStreamReceiverBySsrc hget
    rw [← getStreamReceiverBySsrc_fst hget, ← holds_iff, ← Table.sameBut_store_iff hfind]
    unfold receiveSenderReports
    rw [hget]
    constructor
    · rintro ⟨t', hok, hsame⟩
      cases hok
      exact hsame.receivers
    · exact fun hsame => ⟨_, rfl, .refl _ _, hsame⟩
  cases hget : t.getStreamReceiverBySsrc report.getSsrc with
  | ok entry =>
      rw [hstore hget]
      refine or_congr_right' fun hnot => ?_
      simp [head?_of_getStreamReceiverBySsrc hget hnot]
  | error fault =>
      obtain ⟨hnot, hnil⟩ := nil_of_getStreamReceiverBySsrc hget
      unfold receiveSenderReports
      rw [hget, hnil]
      constructor
      · rintro ⟨t', hok, -⟩
        cases hok
      · rintro (hhas | ⟨entry, hhead, -⟩)
        · exact absurd hhas hnot
        · cases hhead

/-- Receiver reports go to the sender of their SSRC only. -/
theorem receiveReceiverReports_sameBut (addr : Option SockAddr)
    (reports : List Rtcp.ReceiverReport) : ∀ {t : RtcTransport} {clock : Clock},
    (∀ report ∈ reports, report.getSsrc = ssrc) →
    SameBut ssrc t (receiveReceiverReports addr reports clock t) := by
  induction reports with
  | nil => exact fun _ => .refl _ _
  | cons report reports ih =>
      intro t clock honly
      obtain ⟨hssrc, honly⟩ := List.forall_mem_cons.mp honly
      unfold receiveReceiverReports getStreamSenderBySsrc
      cases hf : Table.find report.getSsrc t.rtpSendStreams with
      | none => exact ih honly
      | some entry =>
          have hkey : entry.1 = ssrc := (Table.find_fst hf).trans hssrc
          have hrest := @ih (t.storeSender entry.1 (updateSenderAddr
            (entry.2.receiveRtcpReceiverReport report clock) addr)) (clock.from 1) honly
          refine ⟨fun k hk => (hrest.senders k hk).trans ?_, hrest.receivers⟩
          exact Table.find_store_ne (hkey ▸ hk)

end Calls

/-! ## The demultiplexer -/

/-- `version` as the transport reads it. -/
theorem shift_of_byte {b : UInt8} (h1 : b > 127) (h2 : b < 192) :
    b >>> 6 = kExpectedVersion := by
  rw [gt_iff_lt, UInt8.lt_iff_toNat_lt] at h1
  rw [UInt8.lt_iff_toNat_lt] at h2
  simp only [UInt8.reduceToNat] at h1 h2
  rw [← UInt8.toNat_inj, UInt8.toNat_shiftRight]
  show b.toNat >>> 6 = 2
  rw [Nat.shiftRight_eq_div_pow]
  omega

theorem isRtcp_of_parse {data : List UInt8} {packet : RtcpPacket}
    (h : RtcpPacket.parse data = some packet) : isRtcp data = true := by
  have hrtcp : RtcpPacket.isRtcp data = true := by
    unfold RtcpPacket.parse at h
    cases data with
    | nil => cases h
    | cons byte rest =>
        rw [List.length_cons] at h
        unfold RtcpPacket.parseLoop at h
        split at h
        · split at h
          · assumption
          · cases h
        · cases h
  unfold RtcpPacket.isRtcp at hrtcp
  split at hrtcp
  · next hlen =>
      simp only [Bool.and_eq_true, decide_eq_true_eq] at hrtcp
      obtain ⟨⟨⟨⟨h1, h2⟩, -⟩, h3⟩, h4⟩ := hrtcp
      have hlen' : kRtcpMinHeaderLength ≤ data.length := hlen
      unfold isRtcp
      rw [dif_pos hlen']
      simp only [Bool.and_eq_true, decide_eq_true_eq, beq_iff_eq]
      exact ⟨⟨⟨h1, h2⟩, shift_of_byte h1 h2⟩, h3, h4⟩
  · cases hrtcp

theorem isRtp_of_parse {data : List UInt8} {p : RtpPacket}
    (h : RtpPacket.parse data = some p) : isRtp data = true := by
  have hrtp := (parse_isSome_iff data).mp (by rw [h]; rfl)
  unfold RtpPacket.isRtp at hrtp
  split at hrtp
  · next hlen =>
      simp only [Bool.and_eq_true, decide_eq_true_eq] at hrtp
      have hlen' : kRtpMinHeaderLength ≤ data.length := hlen
      unfold isRtp
      rw [dif_pos hlen']
      simp only [Bool.and_eq_true, decide_eq_true_eq, beq_iff_eq]
      exact ⟨hrtp.1, shift_of_byte hrtp.1.1 hrtp.1.2⟩
  · cases hrtp

/-! ## Packets of one SSRC -/

/-- The reports of the packet are all about `ssrc`. -/
def ReportsOnly (ssrc : UInt32) : RtcpPacket → Prop
  | .senderReport packet => ∀ report ∈ packet.reports, report.getSsrc = ssrc
  | .receiverReport packet => ∀ report ∈ packet.reports, report.getSsrc = ssrc
  | .feedbackRtpNack _ => False

/-- The datagram is an RTP packet of `ssrc`, or a sender or receiver report about it. -/
def CarriesOnly (ssrc : UInt32) (data : List UInt8) : Prop :=
  (isRtcp data = false ∧ ∃ p, RtpPacket.parse data = some p ∧ p.getSsrc = ssrc) ∨
  ∃ packet, RtcpPacket.parse data = some packet ∧ ReportsOnly ssrc packet

/-- `Dispatch` completes, and leaves the streams of all SSRCs but one as they are. -/
def Isolated (t : RtcTransport) (ssrc : UInt32) (data : List UInt8) (closed : Bool)
    (protocol : Protocol) (addr : Option SockAddr) (clock : Clock) : Prop :=
  ∃ t', t.dispatch data closed protocol addr clock = .ok t' ∧ SameBut ssrc t t'

/-- No stream but one of `ssrc` takes what the datagram carries. Over UDP, RTP and a sender
    report need a receiver registered under `ssrc`, and a sender report does no harm either
    where the first receiver holds it already. Over a WebSocket everything is read as RTP,
    with the SSRC that stands there. -/
def Addressed (t : RtcTransport) (ssrc : UInt32) (data : List UInt8) (closed : Bool)
    (addr : Option SockAddr) (clock : Clock) : Protocol → Prop
  | .udp =>
    match RtcpPacket.parse data with
    | none => t.HasReceiver ssrc
    | some (.senderReport packet) => ∀ report ∈ packet.reports, t.HasReceiver ssrc ∨
        ∃ entry, t.rtpReceiveStreams.head? = some entry ∧ Holds entry.2 report addr (clock 0)
    | some _ => True
  | .tcp => True
  | .websocket => closed = true ∨
      ∀ p, RtpPacket.parse data = some p → t.RtpStaysWith ssrc p.getSsrc

/-- **Exactly the datagrams that are addressed to streams of their SSRC** leave all other
    streams as they are, in every reachable state. -/
theorem isolated_iff {t : RtcTransport} {first last : UInt64} (hreach : Reachable first t)
    {ssrc : UInt32} {data : List UInt8} (hcarries : CarriesOnly ssrc data) (closed : Bool)
    (protocol : Protocol) (addr : Option SockAddr) (clock : Clock)
    (hclock : clock.Between first last) :
    t.Isolated ssrc data closed protocol addr clock ↔
      t.Addressed ssrc data closed addr clock protocol := by
  have h := ready_of_reachable hreach
  unfold Isolated
  cases protocol with
  | tcp => exact ⟨fun _ => trivial, fun _ => ⟨t, rfl, .refl _ _⟩⟩
  | websocket =>
      unfold Addressed dispatch
      dsimp only
      cases closed with
      | true => exact ⟨fun _ => Or.inl rfl, fun _ => ⟨t, rfl, .refl _ _⟩⟩
      | false =>
          rw [if_neg Bool.false_ne_true]
          cases hp : RtpPacket.parse data with
          | none => exact ⟨fun _ => by simp, fun _ => ⟨t, rfl, .refl _ _⟩⟩
          | some p =>
              rw [receiveRtpPacket_sameBut_iff h.senders h.receivers hclock p ssrc]
              simp
  | udp =>
      unfold Addressed dispatch
      dsimp only
      rcases hcarries with ⟨hnot, p, hp, hssrc⟩ | ⟨packet, hparse, honly⟩
      · have hnone : RtcpPacket.parse data = none := by
          cases hparse : RtcpPacket.parse data with
          | none => rfl
          | some packet => rw [isRtcp_of_parse hparse] at hnot; cases hnot
        rw [hnone, hnot, if_neg Bool.false_ne_true, if_pos (isRtp_of_parse hp), hp]
        have hiff := receiveRtpPacket_sameBut_iff h.senders h.receivers hclock p ssrc
        rw [RtpStaysWith, if_pos hssrc] at hiff
        exact hiff
      · rw [if_pos (isRtcp_of_parse hparse), hparse]
        have hone := atMostOneReport_of_parse hparse
        cases packet with
        | senderReport packet =>
            obtain ⟨reports⟩ := packet
            cases reports with
            | nil => exact ⟨fun _ => by simp, fun _ => ⟨t, rfl, .refl _ _⟩⟩
            | cons report rest =>
                have hrest : rest = [] := by
                  have : (report :: rest).length ≤ 1 := hone
                  exact List.eq_nil_of_length_eq_zero (by simpa using this)
                have hssrc : report.getSsrc = ssrc := honly report List.mem_cons_self
                subst hrest hssrc
                simp only [List.forall_mem_singleton]
                exact receiveSenderReport_sameBut_iff addr report
        | receiverReport packet =>
            exact ⟨fun _ => trivial,
              fun _ => ⟨_, rfl, receiveReceiverReports_sameBut addr packet.reports honly⟩⟩
        | feedbackRtpNack packet => exact absurd honly id

/-- An RTP packet and a sender report of SSRC 2, where SSRC 1 is the only receiver. -/
theorem not_isolated :
    Reachable 1 oneReceiver ∧
    CarriesOnly 2 [128, 96, 5, 0, 0, 0, 0, 0, 2, 0, 0, 0] ∧
    ¬ oneReceiver.Isolated 2 [128, 96, 5, 0, 0, 0, 0, 0, 2, 0, 0, 0] false .udp none still ∧
    CarriesOnly 2 ([128, 200, 0, 6, 0, 0, 0, 2] ++ List.replicate 20 0) ∧
    ¬ oneReceiver.Isolated 2 ([128, 200, 0, 6, 0, 0, 0, 2] ++ List.replicate 20 0) false .udp
      none still := by
  refine ⟨reachable_oneReceiver, Or.inl ⟨by decide, _, rfl, by decide⟩, ?_,
    Or.inr ⟨_, rfl, List.forall_mem_singleton.mpr (by decide)⟩, ?_⟩
  · rintro ⟨t', hok, hsame⟩
    cases hok
    have hcount := congrArg (Option.map fun entry => entry.2.mediaTransmissionCounter.packets)
      (hsame.receivers 1 (by decide))
    exact absurd hcount (by decide)
  · rintro ⟨t', hok, hsame⟩
    cases hok
    have hreceived := congrArg (Option.map fun entry => entry.2.lastSrReceived)
      (hsame.receivers 1 (by decide))
    exact absurd hreceived (by decide)

theorem isolated_own_packet :
    oneReceiver.Isolated 1 [128, 96, 5, 0, 0, 0, 0, 0, 1, 0, 0, 0] false .udp none still :=
  (isolated_iff reachable_oneReceiver (Or.inl ⟨by decide, _, rfl, by decide⟩) false .udp none
    still still_between).mpr (show oneReceiver.HasReceiver 1 from rfl)

end RtcTransport

end Bifrost.Rtc
