/-
  What a well-formed datagram is: an RTP packet, or a compound of RTCP packets.

  These readers are no part of the code. They follow the layouts that the headers of the
  source draw, and hold what a packet announces against what is there: the numbers of CSRCs,
  report blocks, chunks and sources, the lengths of extensions and items, and the padding.
  They share nothing with `RtpPacket::Parse` and `RtcpPacket::Parse`, which are compared with
  them.
-/
import Bifrost.Lib.Bytes

namespace Bifrost.Rtc

namespace DatagramFormat

/-! ## RTP -/

section Twelve

variable {data : List UInt8} (h : 12 ≤ data.length)
include h

theorem zero_lt_of_twelve_le : 0 < data.length := Nat.lt_of_lt_of_le (by decide) h

theorem last_lt_of_twelve_le : data.length - 1 < data.length :=
  Nat.sub_lt (zero_lt_of_twelve_le h) (by decide)

end Twelve

/-- Where CSRC list and extension of an RTP packet end, if they lie in the data. The last
    two bytes of the extension's first word count the words behind it, in network order. -/
def headerEnd (data : List UInt8) (h : 12 ≤ data.length) : Option Nat :=
  let byte0 := Bytes.u8 data 0 (zero_lt_of_twelve_le h)
  let csrcEnd := 12 + 4 * (byte0 % 16).toNat
  if byte0 / 16 % 2 = 0 then
    if csrcEnd ≤ data.length then some csrcEnd else none
  else if h : csrcEnd + 4 ≤ data.length then
    let extensionEnd := csrcEnd + 4 + 4 * (Bytes.u16be data (csrcEnd + 2) h).toNat
    if extensionEnd ≤ data.length then some extensionEnd else none
  else none

/-- An RTP packet: version 2; CSRC list and extension lie in the data; and so does the
    padding, which the last byte counts, itself included. -/
def isWellFormedRtp (data : List UInt8) : Bool :=
  if h : 12 ≤ data.length then
    let byte0 := Bytes.u8 data 0 (zero_lt_of_twelve_le h)
    let lastByte := Bytes.u8 data (data.length - 1) (last_lt_of_twelve_le h)
    match headerEnd data h with
    | none => false
    | some payload =>
      byte0 / 64 == 2 && (byte0 / 32 % 2 == 0 ||
        decide (1 ≤ lastByte.toNat) && decide (payload + lastByte.toNat ≤ data.length))
  else false

/-! ## RTCP -/

/-- The bytes that the items of a chunk take, with the zero byte behind them. An item is its
    type, its length and so many bytes of text; `fuel` bounds the items. -/
def itemsLen : Nat → List UInt8 → Option Nat
  | 0, _ => none
  | fuel + 1, data =>
    match data with
    | [] => none
    | 0 :: _ => some 1
    | [_] => none
    | _ :: length :: text =>
      if length.toNat ≤ text.length then
        (itemsLen fuel (text.drop length.toNat)).map (length.toNat + 2 + ·)
      else none

/-- A source description's chunks, `count` of them and nothing behind: a source and its items,
    filled up to the next word. -/
def chunksFit : Nat → List UInt8 → Bool
  | 0, data => data.isEmpty
  | count + 1, data =>
    match itemsLen data.length (data.drop 4) with
    | none => false
    | some length =>
      let chunk := (4 + length + 3) / 4 * 4
      decide (chunk ≤ data.length) && chunksFit count (data.drop chunk)

/-- The sources of a goodbye, and the reason behind them if there is one: its length and so
    many bytes. -/
def sourcesFit (count : Nat) (data : List UInt8) : Bool :=
  decide (4 * count ≤ data.length) &&
    match data.drop (4 * count) with
    | [] => true
    | length :: reason => decide (length.toNat ≤ reason.length)

/-- The blocks of an extended report: each has a word of its own, whose last two bytes count
    the words behind it. `fuel` bounds the blocks. -/
def blocksFit : Nat → List UInt8 → Bool
  | _, [] => true
  | 0, _ :: _ => false
  | fuel + 1, data =>
    if h : 2 + 2 ≤ data.length then
      let block := 4 + 4 * (Bytes.u16be data 2 h).toNat
      decide (block ≤ data.length) && blocksFit fuel (data.drop block)
    else false

/-- What the common header announces is there. `packet` has no padding, and `count` is the
    header's: the report blocks, chunks or sources. For the feedback types it is the message
    type, and they name two sources; the types without a layout carry anything. -/
def contentFits (type : UInt8) (count : Nat) (packet : List UInt8) : Bool :=
  if type = 200 then decide (28 + 24 * count ≤ packet.length)
  else if type = 201 then decide (8 + 24 * count ≤ packet.length)
  else if type = 202 then chunksFit count (packet.drop 4)
  else if type = 203 then sourcesFit count (packet.drop 4)
  else if type = 204 ∨ type = 205 ∨ type = 206 then decide (12 ≤ packet.length)
  else if type = 207 then decide (8 ≤ packet.length) && blocksFit packet.length (packet.drop 8)
  else true

/-- The packet without its padding: the last byte counts it, itself included, in words. -/
def unpadded (packet : List UInt8) : Option (List UInt8) :=
  match packet.getLast? with
  | none => none
  | some last =>
    if 4 ≤ last.toNat ∧ last.toNat % 4 = 0 ∧ 4 + last.toNat ≤ packet.length then
      some (packet.take (packet.length - last.toNat))
    else none

/-- One RTCP packet after the other: version 2, a type from 192 to 223, as long as its header
    says, and with what its header announces. Padding is for the last one only. Every packet
    takes at least four bytes, so the length is enough rounds. -/
def packetsFit : Nat → List UInt8 → Bool
  | _, [] => true
  | 0, _ :: _ => false
  | fuel + 1, data =>
    if h : 4 ≤ data.length then
      let byte0 := Bytes.u8 data 0 (Bytes.zero_lt_of_four_le h)
      let type := Bytes.u8 data 1 (Bytes.one_lt_of_four_le h)
      let length := 4 * ((Bytes.u16be data 2 h).toNat + 1)
      let padded := byte0 / 32 % 2 == 1
      let packet := data.take length
      byte0 / 64 == 2 && decide (192 ≤ type) && decide (type ≤ 223) &&
        decide (length ≤ data.length) && (!padded || decide (length = data.length)) &&
        (match if padded then unpadded packet else some packet with
          | none => false
          | some packet => contentFits type (byte0 % 32).toNat packet) &&
        packetsFit fuel (data.drop length)
    else false

/-- A compound: at least one packet. -/
def isWellFormedRtcp (data : List UInt8) : Bool := !data.isEmpty && packetsFit data.length data

/-- The fuel of `isWellFormedRtcp` is enough: more rounds change nothing. -/
theorem packetsFit_fuel (fuel : Nat) : ∀ data : List UInt8, data.length ≤ fuel →
    packetsFit (fuel + 1) data = packetsFit fuel data := by
  induction fuel with
  | zero =>
      intro data hlen
      rw [List.eq_nil_of_length_eq_zero (Nat.le_zero.mp hlen)]
      rfl
  | succ fuel ih =>
      intro data hlen
      cases data with
      | nil => rfl
      | cons byte rest =>
          rw [packetsFit.eq_def, packetsFit.eq_def (fuel + 1)]
          dsimp only
          split
          · rw [ih _ (by rw [List.length_drop]; omega)]
          · rfl

/-- A report with as many blocks as it counts, a goodbye, and padding. A sender report that
    counts a block and holds none. -/
example : isWellFormedRtcp ([0x81, 201, 0, 7] ++ List.replicate 28 0) = true ∧
    isWellFormedRtcp [0xA1, 203, 0, 2, 0, 0, 0, 1, 0, 0, 0, 4] = true ∧
    isWellFormedRtcp ([0x81, 200, 0, 6] ++ List.replicate 24 0) = false := by decide

end DatagramFormat

/-! ## Datagrams -/

/-- The bytes are an RTP packet or a compound of RTCP packets. -/
def WellFormed (data : List UInt8) : Prop :=
  DatagramFormat.isWellFormedRtp data = true ∨ DatagramFormat.isWellFormedRtcp data = true

instance (data : List UInt8) : Decidable (WellFormed data) := inferInstanceAs (Decidable (_ ∨ _))

end Bifrost.Rtc
