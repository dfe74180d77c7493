/-
  The round-trip time that a sender derives from a receiver report.

  All times on the way are 16.16 fixed-point seconds, the middle 32 bits of an NTP time: the
  time of the sender report (`compactNtp_toNat`), the delay at the receiver
  (`dlsrOf_toNat`) and the time of arrival. They count the same ticks, 65536 in 1000 ms, so
  what is left of the whole span is right up to two ticks (`TickCounter.left_of_span`).

  The register of the sender wraps every 65536 seconds. The subtraction follows the wrap;
  the comparison that guards it does not, and where the register wraps between the end of
  the delay and the arrival the time is given as 0. A receiver whose clock shows 0 when the
  sender report comes takes itself to have none. `rtt_accurate_iff`: these two are all that
  goes wrong.
-/
import Bifrost.Lib.TickCounter
import Bifrost.Rtc.RtpStreamReceiver
import Bifrost.Rtc.RtpStreamSender

namespace Bifrost.Rtc

open TickCounter

/-- The units of `2^-16` seconds in `ms` milliseconds. -/
def ntpUnits (ms : Nat) : Nat := ticks 65536 1000 ms

/-- The middle 32 bits of the NTP time. -/
def compactNtp (ms : UInt64) : UInt32 :=
  let ntp := timeMs2Ntp ms
  ((ntp.seconds &&& 0x0000FFFF) <<< 16) ||| ((ntp.fractions &&& 0xFFFF0000) >>> 16)

/-- Within a second nothing is lost by way of the 32-bit fractions. -/
theorem ntpUnits_eq (ms : Nat) :
    ntpUnits ms = ms / 1000 * 65536 + ms % 1000 * 2 ^ 32 / 1000 / 65536 := by
  unfold ntpUnits ticks
  omega

theorem timeMs2Ntp_seconds (ms : UInt64) :
    (timeMs2Ntp ms).seconds.toNat = ms.toNat / 1000 % 2 ^ 32 := by
  simp [timeMs2Ntp]

theorem timeMs2Ntp_fractions (ms : UInt64) :
    (timeMs2Ntp ms).fractions.toNat = ms.toNat % 1000 * 2 ^ 32 / 1000 := by
  simp only [timeMs2Ntp, UInt32.toNat_ofNat', UInt64.toNat_mod, UInt64.reduceToNat]
  omega

theorem compactNtp_toNat (ms : UInt64) :
    (compactNtp ms).toNat = ntpUnits ms.toNat % 2 ^ 32 := by
  have hfrac : (timeMs2Ntp ms).fractions.toNat < 2 ^ 32 := UInt32.toNat_lt _
  have hsec : ((timeMs2Ntp ms).seconds &&& 0x0000FFFF).toNat =
      (timeMs2Ntp ms).seconds.toNat % 65536 := by
    rw [UInt32.toNat_and]
    exact Nat.and_two_pow_sub_one_eq_mod _ 16
  have hhigh : (((timeMs2Ntp ms).fractions &&& 0xFFFF0000) >>> 16).toNat =
      (timeMs2Ntp ms).fractions.toNat / 65536 := by
    rw [UInt32.toNat_shiftRight, UInt32.toNat_and, Nat.shiftRight_and_distrib,
      Nat.shiftRight_eq_div_pow]
    show (timeMs2Ntp ms).fractions.toNat / 2 ^ 16 &&& 2 ^ 16 - 1 = _
    rw [Nat.and_two_pow_sub_one_eq_mod]
    omega
  have hlow : (timeMs2Ntp ms).fractions.toNat / 65536 < 2 ^ 16 := by omega
  unfold compactNtp
  dsimp only
  rw [UInt32.toNat_or, UInt32.toNat_shiftLeft, hsec, hhigh, Nat.shiftLeft_eq]
  simp only [UInt32.reduceToNat, Nat.reduceMod]
  rw [Nat.mod_eq_of_lt (show (timeMs2Ntp ms).seconds.toNat % 65536 * 2 ^ 16 < 2 ^ 32 by omega),
    Nat.or_comm, Bytes.or_eq_add_of_lt hlow, timeMs2Ntp_seconds, timeMs2Ntp_fractions, ntpUnits_eq]
  omega

/-- The form in which the receiver keeps it. -/
theorem lastSrTimestamp_toNat (ms : UInt64) :
    (((timeMs2Ntp ms).seconds <<< 16) + ((timeMs2Ntp ms).fractions >>> 16)).toNat =
      ntpUnits ms.toNat % 2 ^ 32 := by
  rw [UInt32.toNat_add, UInt32.toNat_shiftLeft, UInt32.toNat_shiftRight, timeMs2Ntp_seconds,
    timeMs2Ntp_fractions, Nat.shiftLeft_eq, Nat.shiftRight_eq_div_pow, ntpUnits_eq]
  simp only [UInt32.reduceToNat, Nat.reduceMod]
  omega

theorem dlsrOf_toNat {delayMs : UInt32} (h : delayMs.toNat < 65536000) :
    (RtpStreamReceiver.dlsrOf delayMs).toNat = ntpUnits delayMs.toNat := by
  have hlow : delayMs.toNat % 1000 * 65536 / 1000 < 2 ^ 16 := by omega
  unfold RtpStreamReceiver.dlsrOf
  rw [UInt32.toNat_or, UInt32.toNat_shiftLeft, UInt32.toNat_div, UInt32.toNat_div, UInt32.toNat_mul,
    UInt32.toNat_mod, Nat.shiftLeft_eq]
  simp only [UInt32.reduceToNat, Nat.reduceMod]
  rw [Nat.mod_eq_of_lt (show delayMs.toNat / 1000 * 2 ^ 16 < 2 ^ 32 by omega),
    Nat.mod_eq_of_lt (show delayMs.toNat % 1000 * 65536 < 2 ^ 32 by omega),
    Nat.or_comm, Bytes.or_eq_add_of_lt hlow]
  unfold ntpUnits ticks
  omega

/-! ## The reports on the way -/

theorem getNtpSec_getRtcpSenderReport (s : RtpStreamSender) (nowMs : UInt64) :
    (s.getRtcpSenderReport nowMs).2.getNtpSec = (timeMs2Ntp nowMs).seconds := by
  unfold RtpStreamSender.getRtcpSenderReport
  dsimp only
  rw [Rtcp.SenderReport.setRtpTs, Rtcp.SenderReport.getNtpSec_write (Or.inl (by decide)),
    Rtcp.SenderReport.setNtpFrac, Rtcp.SenderReport.getNtpSec_write (Or.inl (by decide)),
    Rtcp.SenderReport.getNtpSec_setNtpSec]

theorem getNtpFrac_getRtcpSenderReport (s : RtpStreamSender) (nowMs : UInt64) :
    (s.getRtcpSenderReport nowMs).2.getNtpFrac = (timeMs2Ntp nowMs).fractions := by
  unfold RtpStreamSender.getRtcpSenderReport
  dsimp only
  rw [Rtcp.SenderReport.setRtpTs, Rtcp.SenderReport.getNtpFrac_write (Or.inl (by decide)),
    Rtcp.SenderReport.getNtpFrac_setNtpFrac]

namespace RtpStreamReceiver

variable {r r' : RtpStreamReceiver}

theorem receiveRtcpSenderReport_lastSrTimestamp (report : Rtcp.SenderReport) (clock : Clock) :
    (r.receiveRtcpSenderReport report clock).lastSrTimestamp =
      (report.getNtpSec <<< 16) + (report.getNtpFrac >>> 16) := rfl

/-- Packets and reports leave what the last sender report set. -/
theorem step_lastSr {e : Event} (hok : r.step e = .ok r') :
    r'.lastSrReceived = r.lastSrReceived ∧ r'.lastSrTimestamp = r.lastSrTimestamp := by
  cases e with
  | getRtcpReceiverReport clock =>
      cases hok
      unfold getRtcpReceiverReport
      dsimp only
      split <;> exact ⟨rfl, rfl⟩
  | receivePacket p clock =>
      obtain ⟨⟨r₁, accepted⟩, hreceive, heq⟩ := bind_eq_ok.mp hok
      cases heq
      unfold receivePacket at hreceive
      dsimp only at hreceive
      split at hreceive
      · cases hreceive
        exact ⟨rfl, rfl⟩
      · obtain ⟨nackGenerator, -, hreceive⟩ := bind_eq_ok.mp hreceive
        obtain ⟨counter, -, hreceive⟩ := bind_eq_ok.mp hreceive
        cases hreceive
        exact ⟨rfl, rfl⟩

theorem run_lastSr {events : List Event} (hrun : Trace.runE step r events = .ok r') :
    r'.lastSrReceived = r.lastSrReceived ∧ r'.lastSrTimestamp = r.lastSrTimestamp :=
  Trace.runE_invariant
    (I := fun s => s.lastSrReceived = r.lastSrReceived ∧ s.lastSrTimestamp = r.lastSrTimestamp)
    (fun _ _ _ hs hok => ⟨(step_lastSr hok).1.trans hs.1, (step_lastSr hok).2.trans hs.2⟩)
    ⟨rfl, rfl⟩ hrun

/-- A report without a sender report behind it. -/
theorem report_of_none (h : r.lastSrReceived = 0) (clock : Clock) :
    (r.getRtcpReceiverReport clock).2.getLastSenderReport = 0 := by
  unfold getRtcpReceiverReport
  dsimp only
  have hnone : ¬ r.updateLost.lastSrReceived ≠ 0 := fun hne => hne h
  rw [if_neg hnone]
  exact Rtcp.ReceiverReport.getLastSenderReport_setLastSenderReport _

theorem report_of_some (h : r.lastSrReceived ≠ 0) (clock : Clock) :
    (r.getRtcpReceiverReport clock).2.getLastSenderReport = r.lastSrTimestamp ∧
    (r.getRtcpReceiverReport clock).2.getDelaySinceLastSenderReport =
      dlsrOf (clock 0 - r.lastSrReceived).toUInt32 := by
  unfold getRtcpReceiverReport
  dsimp only
  have hsome : r.updateLost.lastSrReceived ≠ 0 := h
  rw [if_pos hsome]
  exact ⟨Rtcp.ReceiverReport.getLastSenderReport_setLastSenderReport _, by
    rw [Rtcp.ReceiverReport.getDelaySinceLastSenderReport_setLastSenderReport,
      Rtcp.ReceiverReport.getDelaySinceLastSenderReport_setDelaySinceLastSenderReport]
    rfl⟩

end RtpStreamReceiver

namespace RtpStreamSender

theorem compactRtt_eq (report : Rtcp.ReceiverReport) (nowMs : UInt64) :
    compactRtt report nowMs =
      if report.getLastSenderReport ≠ 0 ∧ report.getDelaySinceLastSenderReport ≠ 0 ∧
          compactNtp nowMs > report.getDelaySinceLastSenderReport + report.getLastSenderReport then
        compactNtp nowMs - report.getDelaySinceLastSenderReport - report.getLastSenderReport
      else 0 := rfl

/-- Within three units of the time that went by on the way. -/
def Accurate (rtt : UInt32) (onTheWayMs : Nat) : Prop :=
  ((rtt.toNat : Int) * 1000 - onTheWayMs * 65536).natAbs ≤ 3 * 1000

instance (rtt : UInt32) (onTheWayMs : Nat) : Decidable (Accurate rtt onTheWayMs) :=
  inferInstanceAs (Decidable (_ ≤ _))

theorem accurate_zero_iff (onTheWayMs : Nat) : Accurate 0 onTheWayMs ↔ onTheWayMs = 0 := by
  unfold Accurate
  simp only [UInt32.toNat_zero]
  omega

theorem accurate_of_near {rtt : UInt32} {onTheWayMs : Nat}
    (hlow : onTheWayMs * 65536 < 1000 * rtt.toNat + 1000)
    (hhigh : 1000 * rtt.toNat < onTheWayMs * 65536 + 2 * 1000) : Accurate rtt onTheWayMs := by
  unfold Accurate
  omega

/-- The sender's register does not wrap between the end of the delay and the arrival. -/
def SameCycle (t0 h t1 : UInt64) : Prop :=
  (ntpUnits t0.toNat + ntpUnits h.toNat) / 2 ^ 32 = ntpUnits t1.toNat / 2 ^ 32

instance (t0 h t1 : UInt64) : Decidable (SameCycle t0 h t1) := inferInstanceAs (Decidable (_ = _))

/-- From a report with the right times: the ticks that are left of the span, or 0 when the
    register has wrapped. -/
theorem compactRtt_toNat {report : Rtcp.ReceiverReport} {t0 h t1 : UInt64} {left : Nat}
    (hlsr : report.getLastSenderReport.toNat = ntpUnits t0.toNat % 2 ^ 32)
    (hlsr₀ : report.getLastSenderReport ≠ 0)
    (hdlsr : report.getDelaySinceLastSenderReport.toNat = ntpUnits h.toNat)
    (hdlsr₀ : report.getDelaySinceLastSenderReport ≠ 0)
    (hspan : ntpUnits t1.toNat = ntpUnits t0.toNat + ntpUnits h.toNat + left)
    (hleft : left < 2 ^ 32) :
    (compactRtt report t1).toNat = if SameCycle t0 h t1 then left else 0 := by
  have hnow := compactNtp_toNat t1
  have hsum : (report.getDelaySinceLastSenderReport + report.getLastSenderReport).toNat =
      (ntpUnits t0.toNat + ntpUnits h.toNat) % 2 ^ 32 := by
    rw [UInt32.toNat_add, hlsr, hdlsr]
    omega
  have hguard : compactNtp t1 > report.getDelaySinceLastSenderReport +
      report.getLastSenderReport ↔ 0 < left ∧ SameCycle t0 h t1 := by
    rw [gt_iff_lt, UInt32.lt_iff_toNat_lt, hsum, hnow, hspan, mod_lt_mod_iff (by decide) hleft,
      SameCycle, hspan]
    exact and_congr_right fun _ => eq_comm
  rw [compactRtt_eq]
  by_cases hsame : SameCycle t0 h t1
  · rw [if_pos hsame]
    by_cases hpos : 0 < left
    · rw [if_pos ⟨hlsr₀, hdlsr₀, hguard.mpr ⟨hpos, hsame⟩⟩, UInt32.toNat_sub, UInt32.toNat_sub,
        hnow, hdlsr, hlsr, hspan]
      have hdelay := report.getDelaySinceLastSenderReport.toNat_lt
      rw [hdlsr] at hdelay
      omega
    · rw [if_neg fun hall => hpos (hguard.mp hall.2.2).1, UInt32.toNat_zero]
      omega
  · rw [if_neg hsame, if_neg fun hall => hsame (hguard.mp hall.2.2).2, UInt32.toNat_zero]

/-- What the receiver has kept of the sender report when it makes its own. -/
theorem kept_of_run {s : RtpStreamSender} {r r' : RtpStreamReceiver}
    {between : List RtpStreamReceiver.Event} {t0 received : UInt64}
    (hrun : Trace.runE RtpStreamReceiver.step
      (r.receiveRtcpSenderReport (s.getRtcpSenderReport t0).2 fun _ => received) between =
        .ok r') :
    r'.lastSrReceived = received ∧ r'.lastSrTimestamp.toNat = ntpUnits t0.toNat % 2 ^ 32 := by
  obtain ⟨hreceived, htimestamp⟩ := RtpStreamReceiver.run_lastSr hrun
  refine ⟨hreceived, ?_⟩
  rw [htimestamp, RtpStreamReceiver.receiveRtcpSenderReport_lastSrTimestamp,
    getNtpSec_getRtcpSenderReport, getNtpFrac_getRtcpSenderReport, lastSrTimestamp_toNat]

/-- The delay in a report that is made `h` milliseconds after the sender report came. -/
theorem dlsrOf_hold (received : UInt64) {h : UInt64} (hmax : h.toNat < 65536000) :
    (RtpStreamReceiver.dlsrOf (received + h - received).toUInt32).toNat = ntpUnits h.toNat := by
  have hdelayMs : (received + h - received).toUInt32.toNat = h.toNat := by
    rw [UInt64.add_comm, UInt64.add_sub_cancel, UInt64.toNat_toUInt32]
    omega
  rw [dlsrOf_toNat (by rw [hdelayMs]; exact hmax), hdelayMs]

/-- **The round-trip time is right exactly when** nothing was under way, or the receiver's
    clock did not show 0 when the sender report came and the sender's register has not
    wrapped since the end of the delay. In between the receiver may take packets and make
    reports. -/
theorem rtt_accurate_iff (s : RtpStreamSender) (r r' : RtpStreamReceiver)
    (between : List RtpStreamReceiver.Event) (t0 h t1 received : UInt64)
    (hcompact : compactNtp t0 ≠ 0) (hmin : 1 ≤ h.toNat) (hmax : h.toNat < 65536000)
    (hlate : t0.toNat + h.toNat ≤ t1.toNat)
    (hway : t1.toNat - t0.toNat - h.toNat < 2 ^ 15 * 1000)
    (hrun : Trace.runE RtpStreamReceiver.step
      (r.receiveRtcpSenderReport (s.getRtcpSenderReport t0).2 fun _ => received) between =
        .ok r') :
    Accurate (compactRtt (r'.getRtcpReceiverReport fun _ => received + h).2 t1)
        (t1.toNat - t0.toNat - h.toNat) ↔
      t1.toNat = t0.toNat + h.toNat ∨ (received ≠ 0 ∧ SameCycle t0 h t1) := by
  obtain ⟨hreceived, hlsr⟩ := kept_of_run hrun
  have hlsr₀ : r'.lastSrTimestamp ≠ 0 := by
    intro hzero
    rw [hzero, ← compactNtp_toNat] at hlsr
    exact hcompact (UInt32.toNat_inj.mp hlsr.symm)
  have hnoWay : t1.toNat - t0.toNat - h.toNat = 0 ↔ t1.toNat = t0.toNat + h.toNat := by omega
  by_cases hzero : received = 0
  · -- the receiver reports that it has no sender report
    have hnone := RtpStreamReceiver.report_of_none (hreceived.trans hzero) fun _ => received + h
    rw [compactRtt_eq, if_neg (fun hall => hall.1 hnone), accurate_zero_iff, hnoWay]
    simp [hzero]
  obtain ⟨hreport, hdelay⟩ := RtpStreamReceiver.report_of_some
    (show r'.lastSrReceived ≠ 0 by rw [hreceived]; exact hzero) fun _ => received + h
  have hdlsr : (RtpStreamReceiver.dlsrOf
      (received + h - r'.lastSrReceived).toUInt32).toNat = ntpUnits h.toNat := by
    rw [hreceived]
    exact dlsrOf_hold received hmax
  obtain ⟨left, hspan, hlow, hhigh⟩ := left_of_span (p := 65536) (q := 1000) (by decide)
    t0.toNat h.toNat (t1.toNat - t0.toNat - h.toNat)
  have hspan : ntpUnits t1.toNat = ntpUnits t0.toNat + ntpUnits h.toNat + left := by
    rw [show t1.toNat = t0.toNat + h.toNat + (t1.toNat - t0.toNat - h.toNat) by omega]
    exact hspan
  have hrtt := compactRtt_toNat (by rw [hreport]; exact hlsr) (by rw [hreport]; exact hlsr₀)
    (by rw [hdelay]; exact hdlsr)
    (by
      rw [hdelay]
      intro hnone
      rw [hnone] at hdlsr
      unfold ntpUnits ticks at hdlsr
      rw [UInt32.toNat_zero] at hdlsr
      omega)
    hspan (by omega)
  by_cases hsame : SameCycle t0 h t1
  · rw [if_pos hsame] at hrtt
    refine iff_of_true ?_ (Or.inr ⟨hzero, hsame⟩)
    exact accurate_of_near (by rw [hrtt]; exact hlow) (by rw [hrtt]; exact hhigh)
  · rw [if_neg hsame] at hrtt
    have hrtt₀ := UInt32.toNat_inj.mp (hrtt.trans UInt32.toNat_zero.symm)
    rw [hrtt₀, accurate_zero_iff, hnoWay]
    simp [hsame]

/-- An audio stream. -/
def oneStream : Params := { ssrc := 1, payloadType := 100, clockRate := 16000, useNack := true }

/-- The reading that the sender takes from the answer, `h` ms after its report of time `t0`
    has come to a new receiver at time 5000. -/
def readRtt (t0 h t1 : UInt64) : UInt32 :=
  compactRtt ((((RtpStreamReceiver.create oneStream 10 []).receiveRtcpSenderReport
    ((create oneStream []).getRtcpSenderReport t0).2 fun _ => 5000).getRtcpReceiverReport
      fun _ => 5000 + h).2) t1

/-- The register wraps while the answer is under way for 600 ms. -/
theorem rtt_lost_in_wrap :
    compactNtp 65535000 ≠ 0 ∧ readRtt 65535000 500 65536100 = 0 ∧
      ¬ Accurate (readRtt 65535000 500 65536100) (65536100 - 65535000 - 500) := by
  have hzero : readRtt 65535000 500 65536100 = 0 := by decide
  refine ⟨by decide, hzero, ?_⟩
  rw [hzero, accurate_zero_iff]
  decide

theorem rtt_accurate_before_wrap : Accurate (readRtt 65534000 500 65535100) 600 :=
  (rtt_accurate_iff (create oneStream []) (RtpStreamReceiver.create oneStream 10 []) _ []
    65534000 500 65535100 5000 (by decide) (by decide) (by decide) (by decide) (by decide) rfl).mpr
    (Or.inr ⟨by decide, by decide⟩)

end RtpStreamSender

end Bifrost.Rtc
