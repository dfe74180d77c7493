/-
  The bytes of a packet that `OnSendPacket` builds, at the other end.

  The builder zeroes the header and sets five members; the parser derives the payload from
  the CSRC count, the extension and the padding bit. On a header with none of them the two
  agree (`parse_plain`). The one thing that goes wrong is a payload longer than the room
  behind the header, which `CopyPayload` does not check (`roundTrips_iff`).
-/
import Bifrost.Rtc.SendContinuity

namespace Bifrost.Rtc

namespace RtpPacket

/-- The header of a packet that is a header and a payload. -/
structure Plain (header : Header) : Prop where
  version : header.version = 2
  csrcCount : header.csrcCount = 0
  extension : header.extension = 0
  padding : header.padding = 0

theorem length_writeHeader (header : Header) : (writeHeader header).length = kHeaderSize := rfl

theorem kHeaderSize_le (header : Header) (body : List UInt8) :
    kHeaderSize ≤ (writeHeader header ++ body).length := by
  rw [List.length_append, length_writeHeader]
  exact Nat.le_add_right _ _

/-- The first byte says version 2 and nothing else. -/
theorem firstByte_plain {header : Header} (h : Plain header) (body : List UInt8)
    (hlen : 0 < (writeHeader header ++ body).length) :
    Bytes.u8 (writeHeader header ++ body) 0 hlen = 128 := by
  obtain ⟨csrcCount, extension, padding, version, _, _, _, _, _⟩ := header
  obtain ⟨hversion, hcsrc, hextension, hpadding⟩ := h
  dsimp only at hversion hcsrc hextension hpadding
  subst hversion hcsrc hextension hpadding
  show UInt8.ofBitVec ((2 : BitVec 2) ++ (0 : BitVec 1) ++ (0 : BitVec 1) ++ (0 : BitVec 4)) = 128
  decide

theorem isRtp_plain {header : Header} (h : Plain header) (body : List UInt8) :
    isRtp (writeHeader header ++ body) = true := by
  unfold isRtp
  rw [dif_pos (kHeaderSize_le header body)]
  dsimp only
  rw [firstByte_plain h, readHeader_writeHeader, h.version]
  rfl

theorem payloadOffset_plain {header : Header} (h : Plain header) (data : List UInt8) :
    payloadOffset header data = some kHeaderSize := by
  unfold payloadOffset
  simp only [h.csrcCount, h.extension]
  rfl

/-- **A plain packet is parsed as it was built**, its payload all that stands behind the
    header. -/
theorem parse_plain {header : Header} (h : Plain header) (body : List UInt8) :
    parse (writeHeader header ++ body) = some
      { header, body
        size := UInt32.ofNat (kHeaderSize + body.length)
        payload := some kHeaderSize
        payloadLength := UInt32.ofNat body.length } := by
  have hlen : (writeHeader header ++ body).length = kHeaderSize + body.length := by
    rw [List.length_append, length_writeHeader]
  unfold parse new
  rw [dif_pos (kHeaderSize_le header body), if_pos (isRtp_plain h body)]
  simp only [readHeader_writeHeader, payloadOffset_plain h]
  unfold stripPadding
  rw [if_pos h.padding, List.drop_left' (length_writeHeader header), hlen,
    Nat.add_sub_cancel_left]

/-- And that payload is the body. -/
theorem payloadBytes_plain {header : Header} (h : Plain header) {body : List UInt8}
    (hlen : body.length < 2 ^ 32) {p : RtpPacket}
    (hp : parse (writeHeader header ++ body) = some p) : p.payloadBytes = body := by
  rw [parse_plain h, Option.some_inj] at hp
  subst hp
  unfold payloadBytes
  dsimp only
  rw [Nat.sub_self, List.drop_zero, UInt32.toNat_ofNat_of_lt' hlen, List.take_length]

end RtpPacket

namespace RtcTransport

theorem plain_sendHeader (ssrc : UInt32) (seq : UInt16) (timestamp : UInt32) :
    RtpPacket.Plain (sendHeader ssrc seq timestamp) := ⟨rfl, rfl, rfl, rfl⟩

section Built

variable (t : RtcTransport) (ssrc : UInt32) {data : List UInt8}

theorem bytes_builtPacket (hlen : data.length ≤ RtpPacket.kPayloadRoom) :
    (t.builtPacket ssrc data).bytes =
      RtpPacket.writeHeader (sendHeader ssrc t.testSeq (t.timestamp + 100)) ++ data := by
  have hroom : data.length ≤ 1388 := hlen
  have hsize : (t.builtPacket ssrc data).size.toNat = 12 + data.length := by
    show ((0 : UInt32) + UInt32.ofNat (12 + data.length)).toNat = 12 + data.length
    rw [UInt32.zero_add, UInt32.toNat_ofNat_of_lt' (show _ < 4294967296 by omega)]
  unfold RtpPacket.bytes
  rw [hsize]
  apply List.take_of_length_le
  rw [List.length_append, RtpPacket.length_writeHeader]
  exact Nat.le_refl _

/-- The payload type 100 keeps the second byte out of the RTCP range. -/
theorem isRtcp_sendHeader (seq : UInt16) (timestamp : UInt32) (body : List UInt8) :
    isRtcp (RtpPacket.writeHeader (sendHeader ssrc seq timestamp) ++ body) = false := by
  have hsecond : ∀ h, Bytes.u8 (RtpPacket.writeHeader (sendHeader ssrc seq timestamp) ++ body) 1
      h = 100 := by
    intro h
    show UInt8.ofBitVec ((0 : BitVec 1) ++ (100 : BitVec 7)) = 100
    decide
  unfold isRtcp
  split
  · dsimp only
    rw [hsecond]
    simp
  · rfl

end Built

/-- What `OnSendPacket` hands over is taken for RTP at the other end, and parsed there into
    the same SSRC, sequence number, timestamp, payload type and payload; and the call
    completes, so that `CopyPayload` stays in the packet. -/
def RoundTrips (t : RtcTransport) (ssrc : UInt32) (data : List UInt8) (clock : Clock) : Prop :=
  ∃ t' out, t.sendPacket ssrc data clock = .ok (t', out) ∧ ∀ p, out = some p →
    isRtcp p.bytes = false ∧ isRtp p.bytes = true ∧
    ∃ q, RtpPacket.parse p.bytes = some q ∧ q.getSsrc = ssrc ∧
      q.getSequenceNumber = t.testSeq ∧ q.getTimestamp = t.timestamp + 100 ∧
      q.getPayloadType = 100 ∧ q.payloadBytes = data

/-- **The round trip works exactly for the payloads that fit in the packet.** -/
theorem roundTrips_iff {t : RtcTransport} {first last : UInt64} (hreach : Reachable first t)
    (ssrc : UInt32) (data : List UInt8) (clock : Clock) (hclock : clock.Between first last) :
    t.RoundTrips ssrc data clock ↔
      (t.hasSender ssrc = true → data.length ≤ RtpPacket.kPayloadRoom) := by
  cases hreg : t.hasSender ssrc with
  | false =>
      exact ⟨fun _ h => (by cases h),
        fun _ => ⟨t, none, sendPacket_none hreg, fun p hp => (by cases hp)⟩⟩
  | true =>
      constructor
      · rintro ⟨t', out, hok, -⟩ -
        exact (sendPacket_ok hreg hok).1
      · intro hfits
        have hlen := hfits rfl
        obtain ⟨⟨key, s⟩, hget⟩ := Option.isSome_iff_exists.mp hreg
        obtain rfl : key = ssrc := Table.find_fst hget
        obtain ⟨s', accepted, hrecv, -⟩ := RtpStreamSender.receivePacket_ready
          ((ready_of_reachable hreach).senders _ (Table.find_mem hget)) hclock
          (t.builtPacket key data)
        refine ⟨_, _, sendPacket_eq hget hlen hrecv, fun p hp => ?_⟩
        obtain rfl : t.builtPacket key data = p := by
          cases accepted with
          | false => cases hp
          | true => exact Option.some_inj.mp hp
        have hplain := plain_sendHeader key t.testSeq (t.timestamp + 100)
        have hparse := RtpPacket.parse_plain hplain data
        have hroom : data.length ≤ 1388 := hlen
        rw [bytes_builtPacket t key hlen]
        exact ⟨isRtcp_sendHeader key _ _ data, isRtp_of_parse hparse, _, hparse, rfl, rfl, rfl,
          rfl, RtpPacket.payloadBytes_plain hplain (by omega) hparse⟩

/-- One byte more than there is room for. -/
theorem not_roundTrips :
    Reachable 1 twoSenders ∧ still.Between 1 1 ∧
    twoSenders.sendPacket 1 (List.replicate 1389 0) still = .error .outOfRange ∧
    ¬ twoSenders.RoundTrips 1 (List.replicate 1389 0) still := by
  have hfault : twoSenders.sendPacket 1 (List.replicate 1389 0) still = .error .outOfRange := by
    refine sendPacket_error rfl ?_
    rw [List.length_replicate]
    decide
  refine ⟨reachable_twoSenders, still_between, hfault, ?_⟩
  rintro ⟨t', out, hok, -⟩
  rw [hfault] at hok
  cases hok

theorem roundTrips_full :
    twoSenders.RoundTrips 1 (List.replicate 1388 0) still :=
  (roundTrips_iff reachable_twoSenders 1 _ still still_between).mpr fun _ => by
    rw [List.length_replicate]
    exact Nat.le_refl _

end RtcTransport

end Bifrost.Rtc
