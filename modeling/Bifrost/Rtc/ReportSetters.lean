/-
  A receiver report under its setters, and read back after it was sent.

  The report is a record of seven members in 24 bytes, two of them in one word: the fraction
  lost in its first byte, the total lost in the other three, by sign and magnitude. A setter
  writes the bytes of its own member only, so every getter finds what its setter wrote last
  (`readsLast_calls` after any calls, `readsLast_parse` after `Serialize` and `Parse` too).
  The total is limited to `-0x800000 … 0x7FFFFF` on the way in and its sign is undone on the
  way out, also for the least number, whose magnitude is the sign bit itself
  (`totalLost_setTotalLost`).
-/
import Bifrost.Rtc.CompoundRoundTrip
import Bifrost.Rtc.ReportFields

namespace Bifrost.Rtc.Rtcp.ReceiverReport

/-- The `int32_t` that `GetTotalLost` returns. -/
def totalLost (r : ReceiverReport) : Int := r.getTotalLost.toInt32.toInt

/-- What the 24 bits of the field can hold. -/
def saturate (totalLost : Int) : Int := max (-0x800000) (min totalLost 0x7FFFFF)

/-- A call of one of the setters. -/
inductive Setter where
  | ssrc (ssrc : UInt32)
  | fractionLost (fractionLost : UInt8)
  /-- A total with a negation in `int32_t`, which `SetTotalLost` computes. -/
  | totalLost (totalLost : Int32) (hneg : -2147483648 < totalLost.toInt)
  | lastSeq (lastSeq : UInt32)
  | jitter (jitter : UInt32)
  | lastSenderReport (lsr : UInt32)
  | delaySinceLastSenderReport (dlsr : UInt32)

def call (r : ReceiverReport) : Setter → ReceiverReport
  | .ssrc x => r.setSsrc x
  | .fractionLost x => r.setFractionLost x
  | .totalLost x _ => r.setTotalLost x
  | .lastSeq x => r.setLastSeq x
  | .jitter x => r.setJitter x
  | .lastSenderReport x => r.setLastSenderReport x
  | .delaySinceLastSenderReport x => r.setDelaySinceLastSenderReport x

namespace Setter

def ssrc? : Setter → Option UInt32
  | .ssrc x => some x
  | _ => none

def fractionLost? : Setter → Option UInt8
  | .fractionLost x => some x
  | _ => none

def totalLost? : Setter → Option Int
  | .totalLost x _ => some (saturate x.toInt)
  | _ => none

def lastSeq? : Setter → Option UInt32
  | .lastSeq x => some x
  | _ => none

def jitter? : Setter → Option UInt32
  | .jitter x => some x
  | _ => none

def lastSenderReport? : Setter → Option UInt32
  | .lastSenderReport x => some x
  | _ => none

def delaySinceLastSenderReport? : Setter → Option UInt32
  | .delaySinceLastSenderReport x => some x
  | _ => none

end Setter

/-- Every getter of `p` returns what `setters` set last, or what it returned on `r`. -/
structure ReadsLast (r : ReceiverReport) (setters : List Setter) (p : ReceiverReport) : Prop where
  ssrc : p.getSsrc = Trace.lastWritten Setter.ssrc? r.getSsrc setters
  fractionLost : p.getFractionLost =
    Trace.lastWritten Setter.fractionLost? r.getFractionLost setters
  totalLost : p.totalLost = Trace.lastWritten Setter.totalLost? r.totalLost setters
  lastSeq : p.getLastSeq = Trace.lastWritten Setter.lastSeq? r.getLastSeq setters
  jitter : p.getJitter = Trace.lastWritten Setter.jitter? r.getJitter setters
  lastSenderReport : p.getLastSenderReport =
    Trace.lastWritten Setter.lastSenderReport? r.getLastSenderReport setters
  delaySinceLastSenderReport : p.getDelaySinceLastSenderReport =
    Trace.lastWritten Setter.delaySinceLastSenderReport? r.getDelaySinceLastSenderReport setters

section Word

variable {r : ReceiverReport} {i j : Nat}

/-- A word of the report. -/
def word (r : ReceiverReport) (i : Nat) (h : i + 4 ≤ 24) : UInt32 :=
  Bytes.u32be r.header i (r.size ▸ h)

theorem word_write {bytes : List UInt8} (h : i + bytes.length ≤ 24) (hj : j + 4 ≤ 24)
    (hdisj : j + 4 ≤ i ∨ i + bytes.length ≤ j) : (r.write i bytes h).word j hj = r.word j hj :=
  Bytes.u32be_patch_of_disjoint (r.size ▸ h) _ hdisj _

theorem word_write_self (x : UInt32) (hi : i + 4 ≤ 24) :
    (r.write i (Bytes.put32be x) hi).word i hi = x :=
  Bytes.u32be_patch_self (r.size ▸ hi) _

end Word

section TotalLost

theorem toInt_toInt32 {x : UInt32} (hx : x.toNat < 2 ^ 31) : x.toInt32.toInt = x.toNat := by
  rw [Int32.toInt, UInt32.toBitVec_toInt32, BitVec.toInt_eq_toNat_of_lt]
  · rfl
  · rw [UInt32.toNat_toBitVec]
    omega

theorem toInt_toInt32_neg {x : UInt32} (hpos : 0 < x.toNat) (hx : x.toNat ≤ 2 ^ 31) :
    (-x).toInt32.toInt = -x.toNat := by
  have hneg : (-x).toNat = 2 ^ 32 - x.toNat := by
    rw [UInt32.toNat_neg]
    exact Nat.mod_eq_of_lt (Nat.sub_lt (by decide) hpos)
  rw [Int32.toInt, UInt32.toBitVec_toInt32, BitVec.toInt_eq_toNat_cond, UInt32.toNat_toBitVec, hneg]
  omega

/-- The magnitude below the sign bit, put under it and taken out again. -/
theorem clear_sign {m : UInt32} (hm : m.toNat < 2 ^ 23) :
    (m ||| (0x800000 : UInt32)) &&& ~~~((1 : UInt32) <<< 23) = m := by
  have hmask : m.toNat &&& 0x7FFFFF = m.toNat := by
    rw [show 0x7FFFFF = 2 ^ 23 - 1 from rfl, Nat.and_two_pow_sub_one_eq_mod, Nat.mod_eq_of_lt hm]
  rw [← UInt32.toNat_inj, UInt32.toNat_and, UInt32.toNat_or]
  calc (m.toNat ||| 0x800000) &&& 0xFF7FFFFF
      = (m.toNat &&& 0x7FFFFF) &&& 0xFF7FFFFF ||| 0x800000 &&& 0xFF7FFFFF := by
        rw [Nat.and_or_distrib_right, hmask]
    _ = m.toNat &&& 0x7FFFFF := by rw [Nat.and_assoc]; exact Nat.or_zero _
    _ = m.toNat := hmask

theorem toNat_or_sign {m : UInt32} (hm : m.toNat < 2 ^ 23) :
    (m ||| (0x800000 : UInt32)).toNat = 2 ^ 23 + m.toNat := by
  rw [UInt32.toNat_or, Nat.or_comm, show (0x800000 : UInt32).toNat = 2 ^ 23 from rfl]
  exact (Nat.two_pow_add_eq_or_of_lt hm 1).symm

variable {r : ReceiverReport}

/-- A magnitude with the sign bit set is read back as the negative number. -/
theorem totalLost_write_negative {m : UInt32} (hpos : 0 < m.toNat) (hm : m.toNat ≤ 2 ^ 23) (h) :
    (r.write 5 (Bytes.put24be (m ||| (0x800000 : UInt32))) h).totalLost = -m.toNat := by
  have hsize : 5 + 3 ≤ r.header.length := by
    rw [r.size]
    decide
  rcases Nat.lt_or_eq_of_le hm with hlt | heq
  · have hv := toNat_or_sign hlt
    have hread (h₁) : Bytes.u24be (r.write 5 (Bytes.put24be (m ||| (0x800000 : UInt32))) h).header 5
        h₁ = m ||| (0x800000 : UInt32) := Bytes.u24be_patch_self (by omega) hsize _
    have hsign : ((m ||| (0x800000 : UInt32)) >>> 23) &&& 1 ≠ 0 := by
      rw [ne_eq, ← UInt32.toNat_inj, UInt32.toNat_and, UInt32.toNat_shiftRight, hv,
        Nat.shiftRight_eq_div_pow, show (23 : UInt32).toNat % 32 = 23 from rfl,
        Nat.div_eq_of_lt_le (show 1 * 2 ^ 23 ≤ _ by omega) (by omega)]
      decide
    have hne : m ||| (0x800000 : UInt32) ≠ 0x0800000 := by
      rw [ne_eq, ← UInt32.toNat_inj, hv, show (0x0800000 : UInt32).toNat = 2 ^ 23 from rfl]
      omega
    simp only [totalLost, getTotalLost, hread, if_neg hsign, if_pos hne, clear_sign hlt]
    exact toInt_toInt32_neg hpos (by omega)
  · -- the magnitude is the sign bit itself
    obtain rfl : m = 0x800000 := UInt32.toNat_inj.mp heq
    have hread (h₁) : Bytes.u24be (r.write 5 (Bytes.put24be
        ((0x800000 : UInt32) ||| (0x800000 : UInt32))) h).header 5 h₁ = 0x800000 :=
      Bytes.u24be_patch_self (by decide) hsize _
    simp only [totalLost, getTotalLost, hread]
    decide

theorem totalLost_setTotalLost (total : Int32) :
    (r.setTotalLost total).totalLost = saturate total.toInt := by
  rcases Int.lt_or_le total.toInt 0 with hneg | hpos
  · have hclamp : (if -total.toInt > 0x800000 then 0x800000 else -total.toInt) =
        min (-total.toInt) 0x800000 := by omega
    have hm : (UInt32.ofNat (min (-total.toInt) 0x800000).toNat).toNat =
        (min (-total.toInt) 0x800000).toNat := by
      rw [UInt32.toNat_ofNat']
      exact Nat.mod_eq_of_lt (by omega)
    unfold setTotalLost
    dsimp only
    simp only [if_neg (show ¬ total.toInt ≥ 0 by omega), hclamp]
    rw [totalLost_write_negative (by omega) (by omega), hm, saturate]
    omega
  · have hread := @getTotalLost_setTotalLost r total hpos
    rw [totalLost, toInt_toInt32 (by omega), hread, saturate]
    omega

end TotalLost

section Calls

theorem totalLost_write {r : ReceiverReport} {i : Nat} {bytes : List UInt8}
    (h : i + bytes.length ≤ 24) (hdisj : 8 ≤ i ∨ i + bytes.length ≤ 5) :
    (r.write i bytes h).totalLost = r.totalLost := by
  rw [totalLost, getTotalLost_write hdisj, totalLost]

variable (r : ReceiverReport) (s : Setter)

theorem getSsrc_call : (r.call s).getSsrc = s.ssrc?.getD r.getSsrc := by
  cases s
  case ssrc x => exact word_write_self x (by decide)
  all_goals exact word_write (by simp) (by decide) (by simp)

theorem getFractionLost_call :
    (r.call s).getFractionLost = s.fractionLost?.getD r.getFractionLost := by
  cases s
  case fractionLost x => exact getFractionLost_setFractionLost x
  all_goals exact @getFractionLost_write r _ _ (by simp) (by simp)

theorem totalLost_call : (r.call s).totalLost = s.totalLost?.getD r.totalLost := by
  cases s
  case totalLost x _ => exact totalLost_setTotalLost x
  all_goals exact totalLost_write (by simp) (by simp)

theorem getLastSeq_call : (r.call s).getLastSeq = s.lastSeq?.getD r.getLastSeq := by
  cases s
  case lastSeq x => exact word_write_self x (by decide)
  all_goals exact word_write (by simp) (by decide) (by simp)

theorem getJitter_call : (r.call s).getJitter = s.jitter?.getD r.getJitter := by
  cases s
  case jitter x => exact word_write_self x (by decide)
  all_goals exact word_write (by simp) (by decide) (by simp)

theorem getLastSenderReport_call :
    (r.call s).getLastSenderReport = s.lastSenderReport?.getD r.getLastSenderReport := by
  cases s
  case lastSenderReport x => exact word_write_self x (by decide)
  all_goals exact word_write (by simp) (by decide) (by simp)

theorem getDelaySinceLastSenderReport_call :
    (r.call s).getDelaySinceLastSenderReport =
      s.delaySinceLastSenderReport?.getD r.getDelaySinceLastSenderReport := by
  cases s
  case delaySinceLastSenderReport x => exact word_write_self x (by decide)
  all_goals exact word_write (by simp) (by decide) (by simp)

/-- No sequence of calls loses what a setter wrote, whatever else is set before or after. -/
theorem readsLast_calls (setters : List Setter) :
    ReadsLast r setters (setters.foldl call r) where
  ssrc := Trace.foldl_lastWritten getSsrc_call setters r
  fractionLost := Trace.foldl_lastWritten getFractionLost_call setters r
  totalLost := Trace.foldl_lastWritten totalLost_call setters r
  lastSeq := Trace.foldl_lastWritten getLastSeq_call setters r
  jitter := Trace.foldl_lastWritten getJitter_call setters r
  lastSenderReport := Trace.foldl_lastWritten getLastSenderReport_call setters r
  delaySinceLastSenderReport :=
    Trace.foldl_lastWritten getDelaySinceLastSenderReport_call setters r

/-- Neither does sending the report: `Parse` finds it in front of whatever follows. -/
theorem readsLast_parse (setters : List Setter) (rest : List UInt8) :
    ∃ p, parse ((setters.foldl call r).serialize ++ rest) = some p ∧ ReadsLast r setters p :=
  ⟨_, parse_serialize _ rest, readsLast_calls r setters⟩

end Calls

end Bifrost.Rtc.Rtcp.ReceiverReport
