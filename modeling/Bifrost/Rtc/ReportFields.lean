/-
  The reports an endpoint builds itself: the setters of `SenderReport` and `ReceiverReport`
  (`rtc/rtcp/sender_report_packet.h`, `rtc/rtcp/receiver_report_packet.h`).

  Such a report holds its 24 bytes, zero at first, and a setter writes one member over them
  in network order. So a setter is a write of some bytes at an offset, and what a getter
  reads afterwards is what was written there last (`SenderReport.getNtpSec_write`,
  `ReceiverReport.getLastSenderReport_write`).
-/
import Bifrost.Rtc.RtcpPacket

namespace Bifrost.Rtc.Rtcp

namespace SenderReport

/-- `SenderReport()`. -/
def create : SenderReport := ⟨List.replicate 24 0, List.length_replicate⟩

/-- The report with `bytes` written over it from byte `i` on. -/
def write (r : SenderReport) (i : Nat) (bytes : List UInt8) (h : i + bytes.length ≤ 24) :
    SenderReport :=
  have hfits : i + bytes.length ≤ r.header.length := r.size ▸ h
  ⟨Bytes.patch r.header i bytes, (Bytes.length_patch hfits).trans r.size⟩

def setSsrc (r : SenderReport) (ssrc : UInt32) : SenderReport :=
  r.write 0 (Bytes.put32be ssrc) (by show 0 + 4 ≤ 24; decide)
def setNtpSec (r : SenderReport) (ntpSec : UInt32) : SenderReport :=
  r.write 4 (Bytes.put32be ntpSec) (by show 4 + 4 ≤ 24; decide)
def setNtpFrac (r : SenderReport) (ntpFrac : UInt32) : SenderReport :=
  r.write 8 (Bytes.put32be ntpFrac) (by show 8 + 4 ≤ 24; decide)
def setRtpTs (r : SenderReport) (rtpTs : UInt32) : SenderReport :=
  r.write 12 (Bytes.put32be rtpTs) (by show 12 + 4 ≤ 24; decide)
def setPacketCount (r : SenderReport) (packetCount : UInt32) : SenderReport :=
  r.write 16 (Bytes.put32be packetCount) (by show 16 + 4 ≤ 24; decide)
def setOctetCount (r : SenderReport) (octetCount : UInt32) : SenderReport :=
  r.write 20 (Bytes.put32be octetCount) (by show 20 + 4 ≤ 24; decide)

section Get

variable {r : SenderReport} {i : Nat} {bytes : List UInt8} {h : i + bytes.length ≤ 24}

theorem getNtpSec_write (hdisj : 8 ≤ i ∨ i + bytes.length ≤ 4) :
    (r.write i bytes h).getNtpSec = r.getNtpSec :=
  Bytes.u32be_patch_of_disjoint (r.size ▸ h) _ hdisj _

theorem getNtpFrac_write (hdisj : 12 ≤ i ∨ i + bytes.length ≤ 8) :
    (r.write i bytes h).getNtpFrac = r.getNtpFrac :=
  Bytes.u32be_patch_of_disjoint (r.size ▸ h) _ hdisj _

@[simp] theorem getNtpSec_setNtpSec (x : UInt32) : (r.setNtpSec x).getNtpSec = x :=
  Bytes.u32be_patch_self (by rw [r.size]; decide) _

@[simp] theorem getNtpFrac_setNtpFrac (x : UInt32) : (r.setNtpFrac x).getNtpFrac = x :=
  Bytes.u32be_patch_self (by rw [r.size]; decide) _

end Get

end SenderReport

namespace ReceiverReport

/-- `ReceiverReport()`. -/
def create : ReceiverReport := ⟨List.replicate 24 0, List.length_replicate⟩

/-- The report with `bytes` written over it from byte `i` on. -/
def write (r : ReceiverReport) (i : Nat) (bytes : List UInt8) (h : i + bytes.length ≤ 24) :
    ReceiverReport :=
  have hfits : i + bytes.length ≤ r.header.length := r.size ▸ h
  ⟨Bytes.patch r.header i bytes, (Bytes.length_patch hfits).trans r.size⟩

def setSsrc (r : ReceiverReport) (ssrc : UInt32) : ReceiverReport :=
  r.write 0 (Bytes.put32be ssrc) (by show 0 + 4 ≤ 24; decide)

def setFractionLost (r : ReceiverReport) (fractionLost : UInt8) : ReceiverReport :=
  r.write 4 [fractionLost] (by show 4 + 1 ≤ 24; decide)

/-- `SetTotalLost`: sign and magnitude, the magnitude limited. -/
def setTotalLost (r : ReceiverReport) (totalLost : Int32) : ReceiverReport :=
  let totalLost := totalLost.toInt
  let clamp : Int :=
    if totalLost ≥ 0 then if totalLost > 0x07FFFFF then 0x07FFFFF else totalLost
    else if -totalLost > 0x0800000 then 0x0800000 else -totalLost
  let value :=
    if totalLost ≥ 0 then UInt32.ofNat clamp.toNat &&& 0x07FFFFF
    else UInt32.ofNat clamp.toNat ||| 0x0800000
  r.write 5 (Bytes.put24be value) (by show 5 + 3 ≤ 24; decide)

def setLastSeq (r : ReceiverReport) (lastSeq : UInt32) : ReceiverReport :=
  r.write 8 (Bytes.put32be lastSeq) (by show 8 + 4 ≤ 24; decide)
def setJitter (r : ReceiverReport) (jitter : UInt32) : ReceiverReport :=
  r.write 12 (Bytes.put32be jitter) (by show 12 + 4 ≤ 24; decide)
def setLastSenderReport (r : ReceiverReport) (lsr : UInt32) : ReceiverReport :=
  r.write 16 (Bytes.put32be lsr) (by show 16 + 4 ≤ 24; decide)
def setDelaySinceLastSenderReport (r : ReceiverReport) (dlsr : UInt32) : ReceiverReport :=
  r.write 20 (Bytes.put32be dlsr) (by show 20 + 4 ≤ 24; decide)

section Get

variable {r : ReceiverReport} {i : Nat} {bytes : List UInt8} {h : i + bytes.length ≤ 24}

theorem getDelaySinceLastSenderReport_write (hdisj : i + bytes.length ≤ 20) :
    (r.write i bytes h).getDelaySinceLastSenderReport = r.getDelaySinceLastSenderReport :=
  Bytes.u32be_patch_of_disjoint (r.size ▸ h) _ (Or.inr hdisj) _

@[simp] theorem getLastSenderReport_setLastSenderReport (x : UInt32) :
    (r.setLastSenderReport x).getLastSenderReport = x :=
  Bytes.u32be_patch_self (by rw [r.size]; decide) _

@[simp] theorem getDelaySinceLastSenderReport_setDelaySinceLastSenderReport (x : UInt32) :
    (r.setDelaySinceLastSenderReport x).getDelaySinceLastSenderReport = x :=
  Bytes.u32be_patch_self (Nat.le_of_eq r.size.symm) _

@[simp] theorem getDelaySinceLastSenderReport_setLastSenderReport (x : UInt32) :
    (r.setLastSenderReport x).getDelaySinceLastSenderReport = r.getDelaySinceLastSenderReport :=
  getDelaySinceLastSenderReport_write (by show 16 + 4 ≤ 20; decide)

theorem getFractionLost_write (hdisj : 5 ≤ i ∨ i + bytes.length ≤ 4) :
    (r.write i bytes h).getFractionLost = r.getFractionLost :=
  Bytes.getElem_patch_of_disjoint (r.size ▸ h) _ _ (by omega)

theorem getTotalLost_write (hdisj : 8 ≤ i ∨ i + bytes.length ≤ 5) :
    (r.write i bytes h).getTotalLost = r.getTotalLost := by
  have hread (h₁) (h₂) : Bytes.u24be (r.write i bytes h).header 5 h₁ =
      Bytes.u24be r.header 5 h₂ := Bytes.u24be_patch_of_disjoint (r.size ▸ h) _ hdisj _
  have hsize : 5 + 3 ≤ r.header.length := by
    rw [r.size]
    decide
  simp only [getTotalLost, hread _ hsize]

@[simp] theorem getFractionLost_setFractionLost (x : UInt8) :
    (r.setFractionLost x).getFractionLost = x :=
  @Bytes.getElem_patch_self r.header [x] 4 (by rw [r.size]; exact Nat.le_of_ble_eq_true rfl) 0
    Nat.one_pos _

/-- A number of 23 bits in the field of the loss is read back. -/
theorem getTotalLost_write_self {x : UInt32} (hx : x.toNat < 2 ^ 23) (h) :
    (r.write 5 (Bytes.put24be x) h).getTotalLost = x := by
  have hsize : 5 + 3 ≤ r.header.length := by
    rw [r.size]
    decide
  have hread (h₁) : Bytes.u24be (r.write 5 (Bytes.put24be x) h).header 5 h₁ = x :=
    Bytes.u24be_patch_self (by omega) hsize _
  have hsign : (x >>> 23) &&& 1 = 0 := by
    rw [← UInt32.toNat_inj]
    simp only [UInt32.toNat_and, UInt32.toNat_shiftRight, UInt32.reduceToNat,
      Nat.shiftRight_eq_div_pow, Nat.reduceMod, Nat.div_eq_of_lt hx, Nat.zero_and]
  simp only [getTotalLost, hread]
  exact if_pos hsign

/-- A loss that is not negative is read back, up to the limit. -/
theorem getTotalLost_setTotalLost {totalLost : Int32} (hpos : 0 ≤ totalLost.toInt) :
    ((r.setTotalLost totalLost).getTotalLost.toNat : Int) = min totalLost.toInt 0x7FFFFF := by
  have hclamp : (if totalLost.toInt > 0x7FFFFF then 0x7FFFFF else totalLost.toInt) =
      min totalLost.toInt 0x7FFFFF := by omega
  have hvalue : (UInt32.ofNat (min totalLost.toInt 0x7FFFFF).toNat &&& 0x7FFFFF).toNat =
      (min totalLost.toInt 0x7FFFFF).toNat := by
    rw [UInt32.toNat_and, UInt32.toNat_ofNat']
    simp only [UInt32.reduceToNat]
    rw [Nat.mod_eq_of_lt (by omega), show 0x7FFFFF = 2 ^ 23 - 1 from rfl,
      Nat.and_two_pow_sub_one_eq_mod, Nat.mod_eq_of_lt (by omega)]
  unfold setTotalLost
  dsimp only
  simp only [if_pos (show totalLost.toInt ≥ 0 from hpos), hclamp]
  rw [getTotalLost_write_self (by rw [hvalue]; omega), hvalue]
  omega

end Get

end ReceiverReport

end Bifrost.Rtc.Rtcp
