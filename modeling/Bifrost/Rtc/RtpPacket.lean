/-
  `RTC::RtpPacket` (`rtc/rtp_packet.h`, `rtc/rtp_packet.cpp`).

  `Header` is laid over the first twelve bytes of the packet's copy of the datagram, on a
  little-endian host, and the getters return its members as they stand in memory, without
  `ntohs` or `ntohl`. The rest of the copy is `body`. The constructor cannot report
  failure: where the CSRC list, the extension or the padding does not fit, it stops and
  leaves the remaining members at their initial values.

  `header_extension_` is set by the constructor and read nowhere; it has no counterpart.
-/
import Bifrost.Lib.Bytes

namespace Bifrost.Rtc

structure Header where
  csrcCount : BitVec 4
  extension : BitVec 1
  padding : BitVec 1
  version : BitVec 2
  payloadType : BitVec 7
  marker : BitVec 1
  sequenceNumber : UInt16
  timestamp : UInt32
  ssrc : UInt32
  deriving DecidableEq

structure RtpPacket where
  header : Header
  /-- The bytes of `data_` behind the header. -/
  body : List UInt8
  size : UInt32 := 0
  /-- The offset of `payload_` in `data_`, `none` for the null pointer. -/
  payload : Option Nat := none
  payloadLength : UInt32 := 0
  payloadPadding : UInt8 := 0
  deriving DecidableEq

namespace RtpPacket

def kHeaderSize : Nat := 12

section Bounds

variable {data : List UInt8} (h : kHeaderSize ≤ data.length)
include h

theorem byte0_lt : 0 < data.length := Nat.lt_of_lt_of_le (by decide) h

theorem byte1_lt : 1 < data.length := Nat.lt_of_lt_of_le (by decide) h

theorem sequenceNumber_le : 2 + 2 ≤ data.length := Nat.le_trans (by decide) h

theorem timestamp_le : 4 + 4 ≤ data.length := Nat.le_trans (by decide) h

theorem last_lt : data.length - 1 < data.length := Nat.sub_lt (byte0_lt h) Nat.one_pos

end Bounds

/-- The members of `Header` in the first twelve bytes; bit-fields fill a byte from its low
    end. -/
def readHeader (data : List UInt8) (h : kHeaderSize ≤ data.length) : Header :=
  let byte0 := (Bytes.u8 data 0 (byte0_lt h)).toBitVec
  let byte1 := (Bytes.u8 data 1 (byte1_lt h)).toBitVec
  { csrcCount := byte0.extractLsb' 0 4
    extension := byte0.extractLsb' 4 1
    padding := byte0.extractLsb' 5 1
    version := byte0.extractLsb' 6 2
    payloadType := byte1.extractLsb' 0 7
    marker := byte1.extractLsb' 7 1
    sequenceNumber := Bytes.u16le data 2 (sequenceNumber_le h)
    timestamp := Bytes.u32le data 4 (timestamp_le h)
    ssrc := Bytes.u32le data 8 h }

def isRtp (data : List UInt8) : Bool :=
  if h : kHeaderSize ≤ data.length then
    let byte0 := Bytes.u8 data 0 (byte0_lt h)
    decide (byte0 > 127) && decide (byte0 < 192) && (readHeader data h).version == 2
  else false

/-- Where the payload starts: behind the CSRC list and the extension, when they fit. The
    extension's `length` is read as a 32-bit number and counted in bytes. -/
def payloadOffset (header : Header) (data : List UInt8) : Option Nat :=
  let csrcListSize := header.csrcCount.toNat * 4
  if header.csrcCount ≠ 0 ∧ data.length < kHeaderSize + csrcListSize then none
  else
    let ptr := kHeaderSize + csrcListSize
    if header.extension = 1 then
      if h : data.length < ptr + 4 then none
      else
        let extensionValueSize := (Bytes.u32le data ptr (by omega)).toNat
        if data.length < ptr + 4 + extensionValueSize then none
        else some (ptr + 4 + extensionValueSize)
    else some ptr

/-- The last part of the constructor: the padding count in the last byte. -/
def stripPadding (lastByte : UInt8) (p : RtpPacket) : RtpPacket :=
  if p.header.padding = 0 then p
  else if p.payloadLength = 0 then p
  else
    let p := { p with payloadPadding := lastByte }
    if p.payloadPadding = 0 then p
    else if p.payloadLength.toNat < p.payloadPadding.toNat then p
    else { p with payloadLength := p.payloadLength - p.payloadPadding.toUInt32 }

/-- `RtpPacket(const uint8_t* data, size_t size)`. -/
def new (data : List UInt8) (h : kHeaderSize ≤ data.length) : RtpPacket :=
  let p : RtpPacket :=
    { header := readHeader data h
      body := data.drop kHeaderSize
      size := UInt32.ofNat data.length }
  match payloadOffset p.header data with
  | none => p
  | some ptr => stripPadding (Bytes.u8 data (data.length - 1) (last_lt h))
      { p with payload := some ptr, payloadLength := UInt32.ofNat (data.length - ptr) }

/-- `Parse`: `none` is the null pointer. -/
def parse (data : List UInt8) : Option RtpPacket :=
  if h : kHeaderSize ≤ data.length then
    if isRtp data then some (new data h) else none
  else none

/-- `RtpPacket(Header header)`. The buffer behind the header has room for 1388 bytes; until
    they are written nothing reads them. -/
def ofHeader (header : Header) : RtpPacket := { header, body := [] }

/-- The room behind the header of a packet made by `ofHeader`. -/
def kPayloadRoom : Nat := 1388

/-- `CopyPayload`; `none` is a write past the end of the buffer. -/
def copyPayload (p : RtpPacket) (payload : List UInt8) : Option RtpPacket :=
  if payload.length ≤ kPayloadRoom then
    some { p with body := payload, size := p.size + UInt32.ofNat (kHeaderSize + payload.length) }
  else none

def getSize (p : RtpPacket) : UInt32 := p.size
def getPayloadType (p : RtpPacket) : BitVec 7 := p.header.payloadType
def getSequenceNumber (p : RtpPacket) : UInt16 := p.header.sequenceNumber
def getTimestamp (p : RtpPacket) : UInt32 := p.header.timestamp
def getSsrc (p : RtpPacket) : UInt32 := p.header.ssrc
def getPayloadLength (p : RtpPacket) : UInt32 := p.payloadLength

/-- The twelve bytes of a `Header`. -/
def writeHeader (header : Header) : List UInt8 :=
  [.ofBitVec (header.version ++ header.padding ++ header.extension ++ header.csrcCount),
    .ofBitVec (header.marker ++ header.payloadType)] ++
  Bytes.put16le header.sequenceNumber ++ Bytes.put32le header.timestamp ++
  Bytes.put32le header.ssrc

/-- The `GetSize()` bytes from `GetData()` on. -/
def bytes (p : RtpPacket) : List UInt8 := (writeHeader p.header ++ p.body).take p.size.toNat

/-- The `GetPayloadLength()` bytes from `GetPayload()` on; of the null pointer none. -/
def payloadBytes (p : RtpPacket) : List UInt8 :=
  match p.payload with
  | none => []
  | some offset => (p.body.drop (offset - kHeaderSize)).take p.payloadLength.toNat

/-- A bare media packet, as `Parse` returns it for a datagram that is a header alone. -/
def media (seq : UInt16) (timestamp : UInt32) : RtpPacket :=
  { header :=
      { csrcCount := 0, extension := 0, padding := 0, version := 2, payloadType := 96,
        marker := 0, sequenceNumber := seq, timestamp := timestamp, ssrc := 1 }
    body := []
    size := 12
    payload := some 12 }

@[simp] theorem getSequenceNumber_media (seq : UInt16) (timestamp : UInt32) :
    (media seq timestamp).getSequenceNumber = seq := rfl

/-- The constructor takes the header over as it is in the data. -/
@[simp] theorem new_header (data : List UInt8) (h : kHeaderSize ≤ data.length) :
    (new data h).header = readHeader data h := by
  unfold new
  dsimp only
  split
  · rfl
  · unfold stripPadding
    dsimp only
    split_ifs <;> rfl

/-- What is written as a header is read as that header. -/
theorem readHeader_writeHeader (header : Header) (body : List UInt8)
    (h : kHeaderSize ≤ (writeHeader header ++ body).length) :
    readHeader (writeHeader header ++ body) h = header := by
  obtain ⟨csrcCount, extension, padding, version, payloadType, marker, seq, timestamp, ssrc⟩ :=
    header
  unfold readHeader
  rw [Header.mk.injEq]
  refine ⟨BitVec.extractLsb'_append_eq_right, ?_, ?_, ?_, BitVec.extractLsb'_append_eq_right,
    BitVec.extractLsb'_append_eq_left, Bytes.u16le_put16le seq [],
    Bytes.u32le_put32le timestamp [], Bytes.u32le_put32le ssrc []⟩
  · show @BitVec.extractLsb' (2 + 1 + 1 + 4) 4 1 (version ++ padding ++ extension ++ csrcCount) =
      extension
    rw [BitVec.extractLsb'_append_eq_of_le (by omega)]
    exact BitVec.extractLsb'_append_eq_right
  · show @BitVec.extractLsb' (2 + 1 + 1 + 4) 5 1 (version ++ padding ++ extension ++ csrcCount) =
      padding
    rw [BitVec.extractLsb'_append_eq_of_le (by omega),
      BitVec.extractLsb'_append_eq_of_le (by omega)]
    exact BitVec.extractLsb'_append_eq_right
  · show @BitVec.extractLsb' (2 + 1 + 1 + 4) 6 2 (version ++ padding ++ extension ++ csrcCount) =
      version
    rw [BitVec.extractLsb'_append_eq_of_le (by omega),
      BitVec.extractLsb'_append_eq_of_le (by omega)]
    exact BitVec.extractLsb'_append_eq_left

example : parse [128, 96, 5, 0, 160, 0, 0, 0, 1, 0, 0, 0] = some (media 5 160) := by decide

end RtpPacket

end Bifrost.Rtc
