/-
  `RTCP::HeartbeatPacket` (`rtc/rtcp/heart_beat_packet.h`, `heart_beat_packet.cpp`).

  Where `Create` packs the flags, and `Parse` unpacks them, there stand `<` and `>`. They
  compare. `Create` so writes 1 whatever the flags are (`flags_eq_one`), and from 1 `Parse`
  reads the first value of each (`parse_bytes`): only these come back
  (`codec_iff`). What `SetTime` patches is right for all.

  A persistent packet keeps its bytes in a `CopyOnWriteBuffer` of capacity 20; here it is the
  list of these bytes. What the memory held before is a parameter.
-/
import Bifrost.Lib.Bytes

namespace Bifrost.Rtc

namespace Rtcp

open Bytes

/-- `HeartbeatPacket::Type`. -/
inductive HeartbeatType where
  | req
  | res
  deriving DecidableEq

inductive Network where
  | udp
  | tcp
  deriving DecidableEq

inductive Protocol where
  | ipv4
  | ipv6
  deriving DecidableEq

def HeartbeatType.value : HeartbeatType → UInt8
  | req => 0
  | res => 1

def Network.value : Network → UInt8
  | udp => 1
  | tcp => 2

def Protocol.value : Protocol → UInt8
  | ipv4 => 0
  | ipv6 => 1

structure HeartbeatPacket where
  version : Int
  ssrc : UInt32
  time : UInt64
  type : HeartbeatType
  network : Network
  protocol : Protocol
  persistent : Bool := false
  packet : List UInt8 := []
  deriving DecidableEq

namespace HeartbeatPacket

def kMagicCookie : List UInt8 := [0x21, 0x12, 0xA4, 0x42]
def kPacketLength : Nat := 20

def isHeartbeatPacket (data : List UInt8) : Bool :=
  if h : data.length = 20 then
    decide (u8 data 0 (by omega) < 3) && slice data 4 4 == kMagicCookie
  else false

theorem length_of_isHeartbeatPacket {data : List UInt8} (h : isHeartbeatPacket data = true) :
    data.length = 20 := by
  unfold isHeartbeatPacket at h
  split_ifs at h with hlen
  exact hlen

/-- `Parse`. A comparison is 0 or 1, and `& 1` is after it. -/
def parse (data : List UInt8) : Option HeartbeatPacket :=
  if h : isHeartbeatPacket data = true then
    have hlen := length_of_isHeartbeatPacket h
    let flags := u8 data 1 (by omega)
    if u8 data 0 (by omega) ≠ 0 then none
    else if (u16be data 2 (by omega)).toNat ≠ kPacketLength then none
    else
      some
        { version := if flags > 6 then 1 else 0
          network := if (decide (flags > 5)).toUInt8 &&& 1 = 0 then .udp else .tcp
          protocol := if (decide (flags > 4)).toUInt8 &&& 1 = 0 then .ipv4 else .ipv6
          type := if (decide (flags > 3)).toUInt8 &&& 1 = 0 then .req else .res
          ssrc := u32be data 8 (by omega)
          time := u64be data 12 (by omega) }
  else none

/-- The second byte that `Create` writes. -/
def flags (p : HeartbeatPacket) : UInt8 :=
  (decide (p.version < 6)).toUInt8 ||| (decide (p.network.value < 5)).toUInt8 |||
    (decide (p.protocol.value < 4)).toUInt8 ||| (decide (p.type.value < 3)).toUInt8

/-- `Create`: what it returns, and the memory after it. -/
def create (p : HeartbeatPacket) (packet : List UInt8) : Bool × List UInt8 :=
  if packet.length < kPacketLength then (false, packet)
  else
    let packet := patch packet 0 [0]
    let packet := patch packet 1 [p.flags]
    let packet := patch packet 2 (put16be (UInt16.ofNat kPacketLength))
    let packet := patch packet 4 kMagicCookie
    let packet := patch packet 8 (put32be p.ssrc)
    let packet := patch packet 12 (put64be p.time)
    (true, packet)

/-- The constructor with `persistent`; `memory` is what `EnsureCapacity` gives it. -/
def persist (p : HeartbeatPacket) (memory : List UInt8) : HeartbeatPacket :=
  { p with persistent := true, packet := (p.create memory).2 }

def setTime (p : HeartbeatPacket) (time : UInt64) : HeartbeatPacket :=
  { p with
    time
    packet := if p.persistent then patch p.packet 12 (put64be time) else p.packet }

def getPacket (p : HeartbeatPacket) : List UInt8 := if p.persistent then p.packet else []

/-! ## The bytes -/

/-- The twenty bytes of a packet. -/
def bytes (p : HeartbeatPacket) : List UInt8 :=
  [0, p.flags, 0, 20] ++ kMagicCookie ++ put32be p.ssrc ++ put64be p.time

theorem length_bytes (p : HeartbeatPacket) : p.bytes.length = kPacketLength := rfl

theorem create_eq (p : HeartbeatPacket) {memory : List UInt8} (h : kPacketLength ≤ memory.length) :
    p.create memory = (true, p.bytes ++ memory.drop kPacketLength) := by
  have hall := @patchAll_eq [[0], [p.flags], put16be (UInt16.ofNat kPacketLength), kMagicCookie,
    put32be p.ssrc, put64be p.time] memory 0 h
  unfold create
  rw [if_neg (Nat.not_lt.mpr h)]
  exact congrArg (fun written => (true, written.1)) hall

theorem flags_eq_one (p : HeartbeatPacket) : p.flags = 1 := by
  unfold flags
  by_cases hversion : p.version < 6
  · rw [decide_eq_true hversion]
    cases p.network <;> cases p.protocol <;> cases p.type <;> rfl
  · rw [decide_eq_false hversion]
    cases p.network <;> cases p.protocol <;> cases p.type <;> rfl

/-- **What comes back**: the SSRC and the time, and the first value of each flag. -/
theorem parse_bytes (p : HeartbeatPacket) : parse p.bytes =
    some
      { version := 0, ssrc := p.ssrc, time := p.time, type := .req, network := .udp,
        protocol := .ipv4 } := by
  have hssrc : ∀ h, u32be p.bytes 8 h = p.ssrc := fun _ => u32be_put32be p.ssrc (put64be p.time)
  have htime : ∀ h, u64be p.bytes 12 h = p.time := fun _ => u64be_put64be p.time []
  have hflags : ∀ h, u8 p.bytes 1 h = 1 := fun _ => p.flags_eq_one
  have hvalid : isHeartbeatPacket p.bytes = true := rfl
  have hfirst : ∀ h, u8 p.bytes 0 h = 0 := fun _ => rfl
  have hlength : ∀ h, (u16be p.bytes 2 h).toNat = kPacketLength := fun _ =>
    congrArg UInt16.toNat (u16be_put16be 20 (kMagicCookie ++ put32be p.ssrc ++ put64be p.time))
  unfold parse
  rw [dif_pos hvalid]
  dsimp only
  rw [hfirst, if_neg (not_not_intro rfl), hlength, if_neg (not_not_intro rfl), hflags, hssrc, htime]
  rfl

/-- `SetTime` writes over the old time only. -/
theorem patch_bytes (p : HeartbeatPacket) (t : UInt64) :
    patch p.bytes 12 (put64be t) = { p with time := t }.bytes := by
  have htake : p.bytes.take 12 = [0, p.flags, 0, 20] ++ kMagicCookie ++ put32be p.ssrc := rfl
  have hdrop : p.bytes.drop (12 + (put64be t).length) = [] := rfl
  rw [patch, htake, hdrop, List.append_nil]
  rfl

/-! ## The codec -/

/-- What `Parse` gets of a packet, in the order of its constructor. -/
def fields (p : HeartbeatPacket) : Int × UInt32 × UInt64 × HeartbeatType × Network × Protocol :=
  (p.version, p.ssrc, p.time, p.type, p.network, p.protocol)

/-- `Parse` on the bytes that `Create` writes returns a packet with the same fields. -/
def RoundTrips (p : HeartbeatPacket) (memory : List UInt8) : Prop :=
  (parse ((p.create memory).2.take kPacketLength)).map fields = some p.fields

instance (p : HeartbeatPacket) (memory : List UInt8) : Decidable (RoundTrips p memory) :=
  inferInstanceAs (Decidable (_ = _))

/-- After `SetTime` on the persistent packet its bytes are those that `Create` writes with the
    new time. -/
def KeepsTime (p : HeartbeatPacket) (memory : List UInt8) : Prop :=
  ∀ t, ((p.persist memory).setTime t).getPacket = ({ p with time := t }.create memory).2

theorem keepsTime {memory : List UInt8} (h : memory.length = kPacketLength)
    (p : HeartbeatPacket) : KeepsTime p memory := by
  intro t
  show patch (p.create memory).2 12 (put64be t) = _
  have hnone : memory.drop kPacketLength = [] := List.drop_of_length_le (Nat.le_of_eq h)
  rw [create_eq _ (Nat.le_of_eq h.symm), create_eq _ (Nat.le_of_eq h.symm), hnone,
    List.append_nil, List.append_nil, patch_bytes]

/-- **Both hold exactly of the packets with the first value of each flag.** -/
theorem codec_iff (p : HeartbeatPacket) (memory : List UInt8)
    (h : memory.length = kPacketLength) :
    RoundTrips p memory ∧ KeepsTime p memory ↔
      p.version = 0 ∧ p.network = .udp ∧ p.protocol = .ipv4 ∧ p.type = .req := by
  unfold RoundTrips
  rw [and_iff_left (keepsTime h p), create_eq p (Nat.le_of_eq h.symm),
    List.take_left' p.length_bytes, p.parse_bytes, Option.map_some, Option.some_inj]
  unfold fields
  simp only [Prod.mk.injEq, true_and]
  constructor
  · rintro ⟨hversion, htype, hnetwork, hprotocol⟩
    exact ⟨hversion.symm, hnetwork.symm, hprotocol.symm, htype.symm⟩
  · rintro ⟨hversion, hnetwork, hprotocol, htype⟩
    exact ⟨hversion.symm, htype.symm, hnetwork.symm, hprotocol.symm⟩

theorem codec_iff_zero :
    RoundTrips ⟨0, 1, 2, .req, .udp, .ipv4, false, []⟩ (List.replicate 20 0) ∧
      KeepsTime ⟨0, 1, 2, .req, .udp, .ipv4, false, []⟩ (List.replicate 20 0) :=
  (codec_iff ⟨0, 1, 2, .req, .udp, .ipv4, false, []⟩ (List.replicate 20 0) rfl).mpr
    ⟨rfl, rfl, rfl, rfl⟩

/-- A response over TCP and IPv6 with version 2 comes back as a request over UDP and IPv4 with
    version 0. -/
theorem flags_lost :
    ¬ RoundTrips ⟨2, 1, 2, .res, .tcp, .ipv6, false, []⟩ (List.replicate 20 0) := by
  decide +kernel

end HeartbeatPacket

end Rtcp

end Bifrost.Rtc
