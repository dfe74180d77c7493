/-
  `RTC::RtpStream` (`rtc/rtp_stream.h`, `rtc/rtp_stream.cpp`): the sequence counters of one
  stream and the rule that accepts or discards a packet.

  The listener, the thread and the chained stream play no part in the state and are left
  out.
-/
import Bifrost.Rtc.RtpPacket
import Bifrost.Rtc.Runtime
import Bifrost.Rtc.SeqManager

namespace Bifrost.Rtc

open SeqManager

/-- `RtpStream::Params`. -/
structure Params where
  ssrc : UInt32
  payloadType : UInt8
  clockRate : UInt32
  useNack : Bool
  deriving DecidableEq

/-- The bytes of a `sockaddr_storage`. -/
abbrev SockAddr := List UInt8

structure RtpStream where
  params : Params
  udpRemoteAddr : SockAddr := []
  maxSeq : UInt16 := 0
  cycles : UInt32 := 0
  baseSeq : UInt32 := 0
  badSeq : UInt32 := 0
  maxPacketTs : UInt32 := 0
  maxPacketMs : UInt64 := 0
  packetsDiscarded : UInt64 := 0
  rtt : Float32 := 0
  packetsLost : UInt32 := 0
  lastSenderReportNtpMs : UInt64 := 0
  lastSenderReportTs : UInt32 := 0
  fractionLost : UInt8 := 0
  started : Bool := false

namespace RtpStream

def kMaxDropout : UInt16 := 3000
def kMaxMisorder : UInt16 := 1500
def kRtpSeqMod : UInt32 := (1 : UInt32) <<< 16

def getSsrc (st : RtpStream) : UInt32 := st.params.ssrc

def setUdpRemoteTargetAddr (st : RtpStream) (addr : SockAddr) : RtpStream :=
  { st with udpRemoteAddr := addr }

def initSequence (st : RtpStream) (seq : UInt16) : RtpStream :=
  { st with
    baseSeq := seq.toUInt32
    maxSeq := seq
    -- so that `seq == bad_seq_` is false
    badSeq := kRtpSeqMod + 1 }

def updateSequence (st : RtpStream) (p : RtpPacket) (nowMs : UInt64) : RtpStream × Bool :=
  let seq := p.getSequenceNumber
  let udelta := seq - st.maxSeq
  if udelta < kMaxDropout then
    -- in order, with permissible gap
    let st := if seq < st.maxSeq then { st with cycles := st.cycles + kRtpSeqMod } else st
    ({ st with maxSeq := seq }, true)
  else if udelta.toUInt32 ≤ kRtpSeqMod - kMaxMisorder.toUInt32 then
    -- a very large jump: two sequential packets re-synchronise, the latter is accepted
    if seq.toUInt32 = st.badSeq then
      ({ st.initSequence seq with maxPacketTs := p.getTimestamp, maxPacketMs := nowMs }, true)
    else
      ({ st with
         badSeq := (seq.toUInt32 + 1) &&& (kRtpSeqMod - 1)
         packetsDiscarded := st.packetsDiscarded + 1 }, false)
  else
    -- acceptable misorder
    (st, true)

/-- The first lines of `ReceiveStreamPacket`: what the first packet sets up. -/
def start (st : RtpStream) (p : RtpPacket) (nowMs : UInt64) : RtpStream :=
  if st.started then st
  else
    { st.initSequence p.getSequenceNumber with
      started := true
      maxSeq := p.getSequenceNumber - 1
      maxPacketTs := p.getTimestamp
      maxPacketMs := nowMs }

/-- The last lines of `ReceiveStreamPacket`: the highest timestamp seen. -/
def noteTimestamp (st : RtpStream) (p : RtpPacket) (nowMs : UInt64) : RtpStream :=
  if isSeqHigherThan p.getTimestamp st.maxPacketTs then
    { st with maxPacketTs := p.getTimestamp, maxPacketMs := nowMs }
  else st

def receiveStreamPacket (st : RtpStream) (p : RtpPacket) (clock : Clock) : RtpStream × Bool :=
  let (st, valid) := (st.start p (clock 0)).updateSequence p (clock 1)
  if valid then (st.noteTimestamp p (clock 2), true) else (st, false)

/-- A packet and the clock of the call that receives it. -/
structure Arrival where
  packet : RtpPacket
  clock : Clock

/-- `RtpStreamReceiver::GetExpectedPackets`, which reads these counters only. -/
def getExpectedPackets (st : RtpStream) : UInt32 :=
  (st.cycles + st.maxSeq.toUInt32) - st.baseSeq + 1

/-! ## What one packet does -/

/-- What `UpdateSequence` does with a packet, by the distance from the maximum. -/
inductive Verdict where
  | inOrder
  | resync
  | bad
  | misorder
  deriving DecidableEq

def verdict (st : RtpStream) (seq : UInt16) : Verdict :=
  if (seq - st.maxSeq).toNat < 3000 then .inOrder
  else if (seq - st.maxSeq).toNat ≤ 64036 then
    if seq.toUInt32 = st.badSeq then .resync else .bad
  else .misorder

theorem udelta_lt_iff (st : RtpStream) (seq : UInt16) :
    seq - st.maxSeq < kMaxDropout ↔ (seq - st.maxSeq).toNat < 3000 := by
  rw [UInt16.lt_iff_toNat_lt]
  rfl

theorem udelta_le_iff (st : RtpStream) (seq : UInt16) :
    (seq - st.maxSeq).toUInt32 ≤ kRtpSeqMod - kMaxMisorder.toUInt32 ↔
      (seq - st.maxSeq).toNat ≤ 64036 := by
  have hk : (kRtpSeqMod - kMaxMisorder.toUInt32).toNat = 64036 := by decide
  rw [UInt32.le_iff_toNat_le, UInt16.toNat_toUInt32, hk]

/-- `UpdateSequence`, by the verdict on the packet. -/
theorem updateSequence_eq (st : RtpStream) (p : RtpPacket) (nowMs : UInt64) :
    st.updateSequence p nowMs = match st.verdict p.getSequenceNumber with
      | .inOrder =>
        ({ st with
           maxSeq := p.getSequenceNumber
           cycles := if p.getSequenceNumber < st.maxSeq then st.cycles + kRtpSeqMod
             else st.cycles }, true)
      | .resync =>
        ({ st.initSequence p.getSequenceNumber with
           maxPacketTs := p.getTimestamp, maxPacketMs := nowMs }, true)
      | .bad =>
        ({ st with
           badSeq := (p.getSequenceNumber.toUInt32 + 1) &&& (kRtpSeqMod - 1)
           packetsDiscarded := st.packetsDiscarded + 1 }, false)
      | .misorder => (st, true) := by
  unfold verdict updateSequence
  simp only [udelta_lt_iff, udelta_le_iff]
  by_cases hlt : (p.getSequenceNumber - st.maxSeq).toNat < 3000
  · simp only [if_pos hlt]
    split <;> rfl
  · by_cases hle : (p.getSequenceNumber - st.maxSeq).toNat ≤ 64036
    · by_cases hbad : p.getSequenceNumber.toUInt32 = st.badSeq
      · simp only [if_neg hlt, if_pos hle, if_pos hbad]
      · simp only [if_neg hlt, if_pos hle, if_neg hbad]
    · simp only [if_neg hlt, if_neg hle]

theorem start_of_started {st : RtpStream} {p : RtpPacket} {nowMs : UInt64}
    (h : st.started = true) : st.start p nowMs = st := by
  rw [start, if_pos h]

theorem noteTimestamp_eq (st : RtpStream) (p : RtpPacket) (nowMs : UInt64) :
    ∃ ts ms, st.noteTimestamp p nowMs = { st with maxPacketTs := ts, maxPacketMs := ms } := by
  unfold noteTimestamp
  split
  · exact ⟨_, _, rfl⟩
  · exact ⟨st.maxPacketTs, st.maxPacketMs, rfl⟩

section Receive

variable {st : RtpStream} {p : RtpPacket} {clock : Clock} {nowMs : UInt64}

theorem receive_inOrder
    (hv : (st.start p (clock 0)).verdict p.getSequenceNumber = .inOrder) :
    ∃ ts ms, st.receiveStreamPacket p clock =
      ({ st.start p (clock 0) with
         maxSeq := p.getSequenceNumber
         cycles :=
           if p.getSequenceNumber < (st.start p (clock 0)).maxSeq then
             (st.start p (clock 0)).cycles + kRtpSeqMod
           else (st.start p (clock 0)).cycles
         maxPacketTs := ts, maxPacketMs := ms }, true) := by
  unfold receiveStreamPacket
  rw [updateSequence_eq, hv]
  dsimp only
  obtain ⟨ts, ms, h⟩ := noteTimestamp_eq { st.start p (clock 0) with
    maxSeq := p.getSequenceNumber
    cycles :=
      if p.getSequenceNumber < (st.start p (clock 0)).maxSeq then
        (st.start p (clock 0)).cycles + kRtpSeqMod
      else (st.start p (clock 0)).cycles } p (clock 2)
  rw [if_pos rfl, h]
  exact ⟨ts, ms, rfl⟩

theorem receive_resync
    (hv : (st.start p (clock 0)).verdict p.getSequenceNumber = .resync) :
    ∃ ts ms, st.receiveStreamPacket p clock =
      ({ (st.start p (clock 0)).initSequence p.getSequenceNumber with
         maxPacketTs := ts, maxPacketMs := ms }, true) := by
  unfold receiveStreamPacket
  rw [updateSequence_eq, hv]
  dsimp only
  obtain ⟨ts, ms, h⟩ := noteTimestamp_eq
    { (st.start p (clock 0)).initSequence p.getSequenceNumber with
      maxPacketTs := p.getTimestamp, maxPacketMs := clock 1 } p (clock 2)
  rw [if_pos rfl, h]
  exact ⟨ts, ms, rfl⟩

theorem receive_bad (hv : (st.start p (clock 0)).verdict p.getSequenceNumber = .bad) :
    st.receiveStreamPacket p clock =
      ({ st.start p (clock 0) with
         badSeq := (p.getSequenceNumber.toUInt32 + 1) &&& (kRtpSeqMod - 1)
         packetsDiscarded := (st.start p (clock 0)).packetsDiscarded + 1 }, false) := by
  unfold receiveStreamPacket
  rw [updateSequence_eq, hv]
  rfl

theorem receive_misorder
    (hv : (st.start p (clock 0)).verdict p.getSequenceNumber = .misorder) :
    ∃ ts ms, st.receiveStreamPacket p clock =
      ({ st.start p (clock 0) with maxPacketTs := ts, maxPacketMs := ms }, true) := by
  unfold receiveStreamPacket
  rw [updateSequence_eq, hv]
  dsimp only
  obtain ⟨ts, ms, h⟩ := noteTimestamp_eq (st.start p (clock 0)) p (clock 2)
  rw [if_pos rfl, h]
  exact ⟨ts, ms, rfl⟩

theorem start_params : (st.start p nowMs).params = st.params := by
  unfold start
  split <;> rfl

theorem receive_params : (st.receiveStreamPacket p clock).1.params = st.params := by
  rw [← @start_params st p (clock 0)]
  cases hv : (st.start p (clock 0)).verdict p.getSequenceNumber with
  | inOrder => obtain ⟨ts, ms, h⟩ := receive_inOrder hv; rw [h]
  | resync => obtain ⟨ts, ms, h⟩ := receive_resync hv; rw [h]; rfl
  | bad => rw [receive_bad hv]
  | misorder => obtain ⟨ts, ms, h⟩ := receive_misorder hv; rw [h]

/-- The only packets discarded are the bad ones. -/
theorem receive_accepted_iff : (st.receiveStreamPacket p clock).2 = true ↔
    (st.start p (clock 0)).verdict p.getSequenceNumber ≠ .bad := by
  cases hv : (st.start p (clock 0)).verdict p.getSequenceNumber with
  | inOrder => obtain ⟨ts, ms, h⟩ := receive_inOrder hv; rw [h]; simp
  | resync => obtain ⟨ts, ms, h⟩ := receive_resync hv; rw [h]; simp
  | bad => rw [receive_bad hv]; simp
  | misorder => obtain ⟨ts, ms, h⟩ := receive_misorder hv; rw [h]; simp

theorem verdict_of_discarded {st' : RtpStream}
    (h : st.receiveStreamPacket p clock = (st', false)) :
    (st.start p (clock 0)).verdict p.getSequenceNumber = .bad := by
  by_contra hv
  have hacc := receive_accepted_iff.mpr hv
  rw [h] at hacc
  cases hacc

/-- A discarded packet is counted. -/
theorem receive_discarded {st' : RtpStream} (h : st.receiveStreamPacket p clock = (st', false)) :
    st'.packetsDiscarded = st.packetsDiscarded + 1 := by
  have hstart : (st.start p (clock 0)).packetsDiscarded = st.packetsDiscarded := by
    unfold start
    split <;> rfl
  rw [receive_bad (verdict_of_discarded h)] at h
  rw [← hstart, ← (Prod.mk.inj h).1]

/-- The first packet of a stream is in order: `maxSeq` has been set to its predecessor. -/
theorem verdict_first (hst : st.started = false) :
    (st.start p (clock 0)).verdict p.getSequenceNumber = .inOrder := by
  have := p.getSequenceNumber.toNat_lt
  unfold verdict
  apply if_pos
  simp only [start, hst, Bool.false_eq_true, if_false, UInt16.toNat_sub, UInt16.reduceToNat]
  omega

end Receive

end RtpStream

end Bifrost.Rtc
