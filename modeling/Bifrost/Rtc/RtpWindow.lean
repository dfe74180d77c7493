/-
  The payload window of a parsed RTP packet, and the window of the format.

  The format counts the extension in 32-bit words, in a 16-bit field, as the comment in the
  constructor says: it is the last two bytes of the extension's first word, in network order.
  The constructor takes the whole first word, low byte first, and counts bytes. That is never
  less, and the same only if the word is zero (`formatSize_cases`). Padding that does not fit is
  left in the payload. What comes out of both is `window_iff`.
-/
import Bifrost.Rtc.RtpPacket

namespace Bifrost.Rtc.RtpPacket

/-! ## The parts in front of the payload -/

def csrcEnd (header : Header) : Nat := kHeaderSize + header.csrcCount.toNat * 4

/-- The size of the extension behind its first word, in the format. -/
def formatSize (header : Header) (data : List UInt8) : Nat :=
  if h : csrcEnd header + 4 ≤ data.length then
    4 * (Bytes.u16be data (csrcEnd header + 2) (by omega)).toNat
  else 0

/-- The same as the constructor measures it. -/
def measuredSize (header : Header) (data : List UInt8) : Nat :=
  if h : csrcEnd header + 4 ≤ data.length then (Bytes.u32le data (csrcEnd header) h).toNat else 0

/-- Where the payload starts, for an extension of this size. -/
def partsEnd (header : Header) (extensionSize : Nat) : Nat :=
  csrcEnd header + if header.extension = 1 then 4 + extensionSize else 0

/-- Start and length of the payload in the format; `none` if a part does not fit. The padding
    count is the last byte, so it takes a byte behind the other parts to hold it. -/
def formatWindow (data : List UInt8) : Option (Nat × Nat) :=
  if h : kHeaderSize ≤ data.length then
    let header := readHeader data h
    let start := partsEnd header (formatSize header data)
    let paddingCount := (Bytes.u8 data (data.length - 1) (last_lt h)).toNat
    if data.length < start then none
    else if header.padding = 0 then some (start, data.length - start)
    else if data.length = start ∨ data.length - start < paddingCount then none
    else some (start, data.length - start - paddingCount)
  else none

/-- The packet's window is this one; without one no payload is exposed. -/
def HasWindow (p : RtpPacket) : Option (Nat × Nat) → Prop
  | some (start, length) => p.payload = some start ∧ p.payloadLength.toNat = length
  | none => p.payloadLength = 0

/-- The cases in which the constructor is right. If the format has a window: there is no
    extension or its first word is zero, and the length fits in 32 bits. If not: nothing is
    left behind the parts as the constructor measures them. -/
def WellMeasured (data : List UInt8) (header : Header) : Prop :=
  match formatWindow data with
  | some (start, _) => (header.extension = 0 ∨ measuredSize header data = 0) ∧
      data.length - start < 2 ^ 32
  | none => data.length ≤ partsEnd header (measuredSize header data)

/-- The size the constructor takes is never less than the one of the format. -/
theorem formatSize_cases (header : Header) (data : List UInt8) :
    measuredSize header data = 0 ∧ formatSize header data = 0 ∨
      formatSize header data < measuredSize header data := by
  unfold formatSize measuredSize
  split_ifs with h
  · have hlast : data[csrcEnd header + 2 + 1] = data[csrcEnd header + 3] := rfl
    rw [Bytes.toNat_u32le, Bytes.toNat_u16be, hlast]
    omega
  · exact Or.inl ⟨rfl, rfl⟩

theorem extension_cases (header : Header) : header.extension = 0 ∨ header.extension = 1 := by
  have h : ∀ bit : BitVec 1, bit = 0 ∨ bit = 1 := by decide
  exact h header.extension

/-- Both ends are the same, or the constructor's is behind the other. -/
theorem partsEnd_cases (header : Header) (data : List UInt8) :
    (header.extension = 0 ∨ measuredSize header data = 0) ∧
        partsEnd header (formatSize header data) = partsEnd header (measuredSize header data) ∨
      ¬ (header.extension = 0 ∨ measuredSize header data = 0) ∧
        partsEnd header (formatSize header data) < partsEnd header (measuredSize header data) := by
  unfold partsEnd
  rcases extension_cases header with h | h
  · left
    simp [h]
  · rcases formatSize_cases header data with ⟨hm, hf⟩ | hlt
    · left
      simp [hm, hf]
    · right
      simp only [h, if_true]
      exact ⟨by simp; omega, by omega⟩

/-! ## The constructor -/

theorem payloadOffset_eq {header : Header} {data : List UInt8} (h : kHeaderSize ≤ data.length) :
    payloadOffset header data =
      if data.length < partsEnd header (measuredSize header data) then none
      else some (partsEnd header (measuredSize header data)) := by
  have hcsrc : kHeaderSize + header.csrcCount.toNat * 4 = csrcEnd header := rfl
  unfold payloadOffset partsEnd
  simp only [hcsrc]
  by_cases hfits : data.length < csrcEnd header
  · have hcount : header.csrcCount ≠ 0 := by
      intro hzero
      rw [csrcEnd, hzero] at hfits
      exact absurd h (Nat.not_le_of_lt hfits)
    rw [if_pos ⟨hcount, hfits⟩, if_pos (by omega)]
  rw [if_neg (fun hc => hfits hc.2)]
  by_cases hext : header.extension = 1
  · rw [if_pos hext, if_pos hext]
    by_cases hword : data.length < csrcEnd header + 4
    · rw [dif_pos hword, if_pos (by omega)]
    · have hsize : measuredSize header data =
          (Bytes.u32le data (csrcEnd header) (by omega)).toNat := dif_pos (by omega)
      rw [dif_neg hword, ← hsize, Nat.add_assoc]
  · rw [if_neg hext, if_neg hext, Nat.add_zero, if_neg hfits]

theorem stripPadding_payload (lastByte : UInt8) (p : RtpPacket) :
    (stripPadding lastByte p).payload = p.payload := by
  unfold stripPadding
  dsimp only
  split_ifs <;> rfl

theorem stripPadding_payloadLength (lastByte : UInt8) (p : RtpPacket) :
    (stripPadding lastByte p).payloadLength =
      if p.header.padding = 0 ∨ p.payloadLength.toNat < lastByte.toNat then p.payloadLength
      else p.payloadLength - lastByte.toUInt32 := by
  unfold stripPadding
  dsimp only
  by_cases hpadding : p.header.padding = 0
  · rw [if_pos hpadding, if_pos (Or.inl hpadding)]
  rw [if_neg hpadding]
  by_cases hlength : p.payloadLength = 0
  · rw [if_pos hlength]
    split_ifs with hshort
    · rfl
    · have hlast : lastByte = 0 := by
        rw [← UInt8.toNat_inj]
        have hzero : p.payloadLength.toNat = 0 := congrArg UInt32.toNat hlength
        have := mt Or.inr hshort
        show lastByte.toNat = 0
        omega
      rw [hlast]
      exact (UInt32.sub_zero _).symm
  rw [if_neg hlength]
  by_cases hlast : lastByte = 0
  · rw [if_pos hlast, if_neg (not_or.mpr ⟨hpadding, by simp [hlast]⟩), hlast]
    exact (UInt32.sub_zero _).symm
  rw [if_neg hlast]
  by_cases hshort : p.payloadLength.toNat < lastByte.toNat
  · rw [if_pos hshort, if_pos (Or.inr hshort)]
  · rw [if_neg hshort, if_neg (not_or.mpr ⟨hpadding, hshort⟩)]

/-- The bytes that the padding takes, itself counted by the last one. -/
def paddingBytes (header : Header) (lastByte : UInt8) : Nat :=
  if header.padding = 0 then 0 else lastByte.toNat

theorem paddingBytes_lt (header : Header) (lastByte : UInt8) :
    paddingBytes header lastByte < 256 := by
  have := lastByte.toNat_lt
  unfold paddingBytes
  split_ifs <;> omega

theorem toNat_stripPadding (lastByte : UInt8) (p : RtpPacket) :
    (stripPadding lastByte p).payloadLength.toNat =
      if p.payloadLength.toNat < paddingBytes p.header lastByte then p.payloadLength.toNat
      else p.payloadLength.toNat - paddingBytes p.header lastByte := by
  rw [stripPadding_payloadLength]
  unfold paddingBytes
  by_cases hpadding : p.header.padding = 0
  · rw [if_pos (Or.inl hpadding), if_pos hpadding, if_neg (Nat.not_lt_zero _), Nat.sub_zero]
  rw [if_neg hpadding]
  by_cases hshort : p.payloadLength.toNat < lastByte.toNat
  · rw [if_pos (Or.inr hshort), if_pos hshort]
  · rw [if_neg (not_or.mpr ⟨hpadding, hshort⟩), if_neg hshort, UInt32.toNat_sub_of_le,
      UInt8.toNat_toUInt32]
    rw [UInt32.le_iff_toNat_le, UInt8.toNat_toUInt32]
    exact Nat.le_of_not_lt hshort

/-- What the constructor leaves of data of length `len`, for an offset `measured`. -/
def Leaves (p : RtpPacket) (len measured padding : Nat) : Prop :=
  if len < measured then p.payload = none ∧ p.payloadLength.toNat = 0
  else p.payload = some measured ∧ p.payloadLength.toNat =
    if (len - measured) % 2 ^ 32 < padding then (len - measured) % 2 ^ 32
    else (len - measured) % 2 ^ 32 - padding

theorem new_leaves {data : List UInt8} (h : kHeaderSize ≤ data.length) :
    let header := readHeader data h
    Leaves (new data h) data.length (partsEnd header (measuredSize header data))
      (paddingBytes header (Bytes.u8 data (data.length - 1) (last_lt h))) := by
  intro header
  have hoffset : payloadOffset header data = _ := payloadOffset_eq h
  unfold Leaves new
  by_cases hfits : data.length < partsEnd header (measuredSize header data)
  · rw [if_pos hfits] at hoffset ⊢
    dsimp only
    rw [hoffset]
    exact ⟨rfl, rfl⟩
  · rw [if_neg hfits] at hoffset ⊢
    dsimp only
    rw [hoffset]
    refine ⟨stripPadding_payload _ _, (toNat_stripPadding _ _).trans ?_⟩
    rw [UInt32.toNat_ofNat']

/-! ## Both windows -/

theorem parse_eq_some {data : List UInt8} {p : RtpPacket} (hp : parse data = some p) :
    ∃ h : kHeaderSize ≤ data.length, p = new data h := by
  unfold parse at hp
  split_ifs at hp with h
  exact ⟨h, (Option.some.inj hp).symm⟩

/-- The window of the format in the same terms. -/
theorem formatWindow_eq {data : List UInt8} (h : kHeaderSize ≤ data.length) :
    let header := readHeader data h
    let start := partsEnd header (formatSize header data)
    let padding := paddingBytes header (Bytes.u8 data (data.length - 1) (last_lt h))
    formatWindow data =
      if data.length < start ∨ (header.padding ≠ 0 ∧ data.length = start) ∨
        data.length - start < padding then none
      else some (start, data.length - start - padding) := by
  intro header start padding
  have hpad : padding = if header.padding = 0 then 0
    else (Bytes.u8 data (data.length - 1) (last_lt h)).toNat := rfl
  unfold formatWindow
  rw [dif_pos h]
  dsimp only
  by_cases hstart : data.length < start
  · rw [if_pos hstart, if_pos (Or.inl hstart)]
  rw [if_neg hstart]
  by_cases hpadding : header.padding = 0
  · rw [if_pos hpadding] at hpad ⊢
    rw [if_neg (by rw [hpad]; simp [hstart, hpadding]), hpad, Nat.sub_zero]
  · rw [if_neg hpadding] at hpad ⊢
    simp only [hpad, hstart, hpadding, ne_eq, not_false_eq_true, true_and, false_or]
    rfl

section Windows

variable {p : RtpPacket} {len start measured padding : Nat} {wellSized : Prop}

/-- Measured too far, the window cannot start where it should. -/
theorem Leaves.payload_ne (hp : Leaves p len measured padding) (hlt : start < measured) :
    p.payload ≠ some start := by
  intro hpayload
  unfold Leaves at hp
  by_cases hmeasured : len < measured
  · rw [if_pos hmeasured, hpayload] at hp
    cases hp.1
  · rw [if_neg hmeasured, hpayload] at hp
    have := Option.some.inj hp.1
    omega

/-- The format has a window: the packet has it if it starts there and its length fits. -/
theorem Leaves.some_iff (hp : Leaves p len measured padding)
    (hends : wellSized ∧ start = measured ∨ ¬ wellSized ∧ start < measured)
    (hpadding : padding < 256) (hstart : start ≤ len) (hfits : padding ≤ len - start) :
    (p.payload = some start ∧ p.payloadLength.toNat = len - start - padding) ↔
      wellSized ∧ len - start < 2 ^ 32 := by
  rcases hends with ⟨hsized, rfl⟩ | ⟨hsized, hlt⟩
  · rw [Leaves, if_neg (Nat.not_lt_of_le hstart)] at hp
    simp only [hp.1, hp.2, hsized, true_and]
    split_ifs <;> omega
  · exact iff_of_false (fun hboth => hp.payload_ne hlt hboth.1) (fun hboth => hsized hboth.1)

/-- The format has none: nor has the packet if nothing is left behind the parts. -/
theorem Leaves.none_iff (hp : Leaves p len measured padding) (hle : start ≤ measured)
    (hpadding : padding < 256) (hmisfit : len < start ∨ len = start ∨ len - start < padding) :
    p.payloadLength = 0 ↔ len ≤ measured := by
  have hzero : p.payloadLength = 0 ↔ p.payloadLength.toNat = 0 := by
    rw [← UInt32.toNat_inj]
    rfl
  rw [hzero]
  unfold Leaves at hp
  split_ifs at hp <;> omega

end Windows

/-- **The payload window.** A packet has the window of the format exactly when its parts are
    well measured. -/
theorem window_iff {data : List UInt8} {p : RtpPacket} (hp : parse data = some p) :
    HasWindow p (formatWindow data) ↔ WellMeasured data p.header := by
  obtain ⟨h, rfl⟩ := parse_eq_some hp
  have hleaves := new_leaves h
  have hformat := formatWindow_eq h
  have hends := partsEnd_cases (readHeader data h) data
  have hpadding := paddingBytes_lt (readHeader data h)
    (Bytes.u8 data (data.length - 1) (last_lt h))
  unfold WellMeasured
  rw [new_header]
  dsimp only at hleaves hformat
  split_ifs at hformat with hmisfit
  · rw [hformat]
    exact hleaves.none_iff (by omega) hpadding (hmisfit.imp_right (Or.imp_left And.right))
  · rw [not_or, not_or] at hmisfit
    rw [hformat]
    exact hleaves.some_iff hends hpadding (Nat.le_of_not_lt hmisfit.1)
      (Nat.le_of_not_lt hmisfit.2.2)

/-- An extension of one word, and two bytes of payload. -/
def extensionData : List UInt8 :=
  [144, 96, 0, 1, 0, 0, 0, 0, 0, 0, 0, 1, 190, 222, 0, 1, 16, 170, 0, 0, 7, 8]

/-- The format has the window at 20, of length 2; the packet has none. -/
theorem not_hasWindow : ¬ ∀ data p, parse data = some p → HasWindow p (formatWindow data) := by
  intro h
  have hwindow := h extensionData (new extensionData (by decide)) rfl
  exact absurd hwindow.1 (by decide)

theorem window_iff_extensionData :
    HasWindow (new extensionData (by decide)) (formatWindow extensionData) ↔
      WellMeasured extensionData (new extensionData (by decide)).header :=
  @window_iff extensionData _ rfl

end Bifrost.Rtc.RtpPacket
