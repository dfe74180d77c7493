/-
  `RtpPacket::Parse` reads inside the datagram, whatever it holds.

  `parseChecked` is `Parse` once more, with every read and every subtraction of the source
  checked. That it never ends in a breach and gives what `parse` gives is `parseChecked_eq`;
  with the bounds of the window it is `parse_inBounds`.
-/
import Bifrost.Lib.Checked
import Bifrost.Rtc.RtpWindow

namespace Bifrost.Rtc.RtpPacket

open Checked

/-! ## The accesses of the source -/

/-- `IsRtp`: nothing is read of a datagram that is too short. -/
def isRtpChecked (data : List UInt8) : Except Breach Bool :=
  if kHeaderSize ≤ data.length then do
    let byte0 ← read data 0 1 (Bytes.u8 data 0)
    let header ← read data 0 kHeaderSize fun h => readHeader data (by omega)
    .ok (decide (byte0 > 127) && decide (byte0 < 192) && header.version == 2)
  else .ok false

/-- The constructor from the payload on; `ptr` is the offset in the packet's copy. -/
def newPayloadChecked (data : List UInt8) (p : RtpPacket) (ptr : Nat) :
    Except Breach RtpPacket := do
  let payloadLength ← sub data.length ptr
  let p := { p with payload := some ptr, payloadLength := UInt32.ofNat payloadLength }
  if p.header.padding = 0 then .ok p
  else if p.payloadLength = 0 then .ok p
  else
    let last ← sub data.length 1
    let payloadPadding ← read data last 1 (Bytes.u8 data last)
    let p := { p with payloadPadding }
    if p.payloadPadding = 0 then .ok p
    else if p.payloadLength.toNat < p.payloadPadding.toNat then .ok p
    else
      let payloadLength ← sub p.payloadLength.toNat p.payloadPadding.toNat
      .ok { p with payloadLength := UInt32.ofNat payloadLength }

/-- The constructor. -/
def newChecked (data : List UInt8) : Except Breach RtpPacket := do
  let header ← read data 0 kHeaderSize fun h => readHeader data (by omega)
  let p : RtpPacket :=
    { header, body := data.drop kHeaderSize, size := UInt32.ofNat data.length }
  let csrcListSize := header.csrcCount.toNat * 4
  if header.csrcCount ≠ 0 ∧ data.length < kHeaderSize + csrcListSize then .ok p
  else
    let ptr := kHeaderSize + csrcListSize
    if header.extension = 1 then
      if data.length < ptr + 4 then .ok p
      else
        let extensionValueSize ← read data ptr 4 (Bytes.u32le data ptr)
        if data.length < ptr + 4 + extensionValueSize.toNat then .ok p
        else newPayloadChecked data p (ptr + 4 + extensionValueSize.toNat)
    else newPayloadChecked data p ptr

def parseChecked (data : List UInt8) : Except Breach (Option RtpPacket) := do
  if ← isRtpChecked data then some <$> newChecked data else .ok none

/-! ## No access goes wrong -/

theorem isRtpChecked_eq (data : List UInt8) : isRtpChecked data = .ok (isRtp data) := by
  unfold isRtpChecked isRtp
  by_cases h : kHeaderSize ≤ data.length
  · have h' : 12 ≤ data.length := h
    rw [if_pos h, dif_pos h, read_ok (by omega), read_ok (by omega)]
    rfl
  · rw [if_neg h, dif_neg h]

theorem newPayloadChecked_eq {data : List UInt8} {p : RtpPacket} {ptr : Nat}
    (hptr : ptr ≤ data.length) (hlen : 0 < data.length) :
    newPayloadChecked data p ptr = .ok (stripPadding (Bytes.u8 data (data.length - 1) (by omega))
      { p with payload := some ptr, payloadLength := UInt32.ofNat (data.length - ptr) }) := by
  unfold newPayloadChecked stripPadding
  rw [sub_ok hptr]
  simp only [bind, Except.bind]
  by_cases hpadding : p.header.padding = 0
  · rw [if_pos hpadding, if_pos hpadding]
  rw [if_neg hpadding, if_neg hpadding]
  by_cases hzero : UInt32.ofNat (data.length - ptr) = 0
  · rw [if_pos hzero, if_pos hzero]
  rw [if_neg hzero, if_neg hzero, sub_ok hlen]
  dsimp only
  rw [read_ok (by omega)]
  dsimp only
  generalize hcount : Bytes.u8 data (data.length - 1) _ = count
  by_cases hnone : count = 0
  · rw [if_pos hnone, if_pos hnone]
  rw [if_neg hnone, if_neg hnone]
  by_cases hshort : (UInt32.ofNat (data.length - ptr)).toNat < count.toNat
  · rw [if_pos hshort, if_pos hshort]
  rw [if_neg hshort, if_neg hshort, sub_ok (by omega)]
  dsimp only
  congr 2
  rw [← UInt32.toNat_inj, UInt32.toNat_sub_of_le, UInt32.toNat_ofNat', UInt8.toNat_toUInt32,
    Nat.mod_eq_of_lt]
  · have := (UInt32.ofNat (data.length - ptr)).toNat_lt
    omega
  · rw [UInt32.le_iff_toNat_le, UInt8.toNat_toUInt32]
    exact Nat.le_of_not_lt hshort

theorem newChecked_eq {data : List UInt8} (h : kHeaderSize ≤ data.length) :
    newChecked data = .ok (new data h) := by
  have h' : 12 ≤ data.length := h
  unfold newChecked new payloadOffset
  rw [read_ok (by omega)]
  simp only [bind, Except.bind]
  generalize readHeader data h = header
  by_cases hcsrc : header.csrcCount ≠ 0 ∧ data.length < kHeaderSize + header.csrcCount.toNat * 4
  · rw [if_pos hcsrc, if_pos hcsrc]
  rw [if_neg hcsrc, if_neg hcsrc]
  have hptr : kHeaderSize + header.csrcCount.toNat * 4 ≤ data.length := by
    by_cases hzero : header.csrcCount = 0
    · rw [hzero]
      exact h
    · exact Nat.le_of_not_lt fun hlt => hcsrc ⟨hzero, hlt⟩
  by_cases hext : header.extension = 1
  · rw [if_pos hext, if_pos hext]
    by_cases hword : data.length < kHeaderSize + header.csrcCount.toNat * 4 + 4
    · rw [if_pos hword, dif_pos hword]
    have hread : kHeaderSize + header.csrcCount.toNat * 4 + 4 ≤ data.length := by omega
    rw [if_neg hword, dif_neg hword, read_ok hread]
    dsimp only
    by_cases hvalue : data.length < kHeaderSize + header.csrcCount.toNat * 4 + 4 +
        (Bytes.u32le data (kHeaderSize + header.csrcCount.toNat * 4) hread).toNat
    · rw [if_pos hvalue, if_pos hvalue]
    · rw [if_neg hvalue, if_neg hvalue]
      exact newPayloadChecked_eq (by omega) (by omega)
  · rw [if_neg hext, if_neg hext]
    exact newPayloadChecked_eq hptr (by omega)

theorem parseChecked_eq (data : List UInt8) : parseChecked data = .ok (parse data) := by
  unfold parseChecked parse
  rw [isRtpChecked_eq]
  simp only [bind, Except.bind]
  by_cases h : kHeaderSize ≤ data.length
  · rw [dif_pos h, newChecked_eq h]
    split_ifs <;> rfl
  · have hnot : isRtp data = false := dif_neg h
    rw [dif_neg h, hnot]
    rfl

/-! ## The window -/

/-- The payload is null and of length 0, or lies in the packet's copy behind the header. -/
def InCopy (p : RtpPacket) : Prop :=
  p.payload = none ∧ p.payloadLength = 0 ∨
  ∃ offset, p.payload = some offset ∧ kHeaderSize ≤ offset ∧
    offset + p.payloadLength.toNat ≤ kHeaderSize + p.body.length

theorem new_body (data : List UInt8) (h : kHeaderSize ≤ data.length) :
    (new data h).body = data.drop kHeaderSize := by
  unfold new
  dsimp only
  split
  · rfl
  · unfold stripPadding
    dsimp only
    split_ifs <;> rfl

theorem kHeaderSize_le_partsEnd (header : Header) (extensionSize : Nat) :
    kHeaderSize ≤ partsEnd header extensionSize :=
  Nat.le_trans (Nat.le_add_right _ _) (Nat.le_add_right _ _)

theorem new_inCopy {data : List UInt8} (h : kHeaderSize ≤ data.length) : InCopy (new data h) := by
  have hleaves := new_leaves h
  have hmod := Nat.mod_le (data.length -
    partsEnd (readHeader data h) (measuredSize (readHeader data h) data)) (2 ^ 32)
  dsimp only [Leaves] at hleaves
  split_ifs at hleaves with hstart hshort
  · exact Or.inl ⟨hleaves.1, UInt32.toNat_inj.mp hleaves.2⟩
  all_goals
    refine Or.inr ⟨_, hleaves.1, kHeaderSize_le_partsEnd _ _, ?_⟩
    rw [hleaves.2, new_body, List.length_drop]
    omega

/-- The payload lies in the packet, all `GetPayloadLength()` bytes of it: the copy of it reads
    nothing else. -/
theorem length_payloadBytes {data : List UInt8} {p : RtpPacket} (h : parse data = some p) :
    p.payloadBytes.length = p.payloadLength.toNat := by
  obtain ⟨hlen, rfl⟩ := parse_eq_some h
  unfold payloadBytes
  rcases new_inCopy hlen with ⟨hnone, hzero⟩ | ⟨offset, hpayload, hlow, hhigh⟩
  · rw [hnone, hzero]
    rfl
  · rw [hpayload]
    dsimp only
    rw [List.length_take, List.length_drop]
    omega

/-- **Parsing stays in bounds.** For data of any length and contents no read misses the data
    and no subtraction goes below zero, and the window of a packet lies in its own copy of
    the data, which is whole. -/
theorem parse_inBounds (data : List UInt8) :
    parseChecked data = .ok (parse data) ∧
    match parse data with
    | none => True
    | some p => kHeaderSize + p.body.length = data.length ∧ InCopy p := by
  refine ⟨parseChecked_eq data, ?_⟩
  cases hp : parse data with
  | none => trivial
  | some p =>
      obtain ⟨h, rfl⟩ := parse_eq_some hp
      refine ⟨?_, new_inCopy h⟩
      rw [new_body, List.length_drop]
      omega

end Bifrost.Rtc.RtpPacket
