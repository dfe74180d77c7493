/-
  The length that the application gets with its audio.

  The buffer that goes through the queue is the payload of a packet, as long as the RTP
  parser says (`RtpPacket.length_payloadBytes`). But the length that goes to the application
  is the `total_len` of a header in that payload, which nothing compares with it. It is in
  bounds in every run whose datagrams announce no more than they bring, and in these only
  (`audio_inBounds_iff`).
-/
import Bifrost.Api.RtcFactory
import Bifrost.Lib.Trace
import Bifrost.Rtc.RtpRoundTrip

namespace Bifrost.Rtc

namespace RtpStreamReceiver

/-- What the stream inside a receiver does with a packet. -/
theorem receivePacket_stream {r r' : RtpStreamReceiver} {p : RtpPacket} {clock : Clock}
    {accepted : Bool} (hok : r.receivePacket p clock = .ok (r', accepted)) :
    r.toRtpStream.receiveStreamPacket p clock = (r'.toRtpStream, accepted) := by
  unfold receivePacket at hok
  cases hr : r.toRtpStream.receiveStreamPacket p clock with
  | mk stream ok =>
      rw [hr] at hok
      cases ok with
      | false =>
          cases hok
          rfl
      | true =>
          dsimp only at hok
          rw [if_neg (by simp)] at hok
          obtain ⟨generator, -, hok⟩ := bind_eq_ok.mp hok
          obtain ⟨counter, -, hok⟩ := bind_eq_ok.mp hok
          cases hok
          rfl

/-- A receiver takes its first packet. -/
theorem receivePacket_first (params : Params) (sendNackDelayMs : UInt32) (addr : SockAddr)
    {clock : Clock} {first last : UInt64} (hclock : clock.Between first last) (p : RtpPacket) :
    ∃ r, (create params sendNackDelayMs addr).receivePacket p clock = .ok (r, true) := by
  obtain ⟨r, accepted, hok, -⟩ :=
    receivePacket_ready (ready_create params sendNackDelayMs addr first) hclock p
  have htaken : accepted = true := by
    have hnext := (@RtpStream.receive_next (create params sendNackDelayMs addr).toRtpStream p
      clock fun h => by cases h).1
    rw [receivePacket_stream hok] at hnext
    exact hnext
  rw [htaken] at hok
  exact ⟨r, hok⟩

end RtpStreamReceiver

namespace RtcTransport

/-- `Dispatch` takes the datagram for RTP. -/
def TakenAsRtp (data : List UInt8) (closed : Bool) : Protocol → Prop
  | .udp => isRtcp data = false
  | .tcp => False
  | .websocket => closed = false

section Output

variable {t t' : RtcTransport} {data : List UInt8} {closed : Bool} {protocol : Protocol}
  {addr : Option SockAddr} {clock : Clock} {p q : RtpPacket}

theorem receiveRtpPacketOut_some (h : t.receiveRtpPacketOut p clock = .ok (t', some q)) :
    q = p := by
  unfold receiveRtpPacketOut at h
  obtain ⟨t₁, -, h⟩ := bind_eq_ok.mp h
  unfold passToReceiverOut at h
  obtain ⟨⟨ssrc, stream⟩, -, h⟩ := bind_eq_ok.mp h
  obtain ⟨⟨stream', accepted⟩, -, h⟩ := bind_eq_ok.mp h
  cases accepted with
  | false => cases h
  | true =>
      cases h
      rfl

/-- What comes out of `Dispatch` is the datagram, parsed. -/
theorem dispatchOut_some (h : t.dispatchOut data closed protocol addr clock = .ok (t', some p)) :
    TakenAsRtp data closed protocol ∧ RtpPacket.parse data = some p := by
  unfold dispatchOut at h
  cases protocol with
  | tcp => cases h
  | websocket =>
      dsimp only at h
      cases closed with
      | true => cases h
      | false =>
          rw [if_neg Bool.false_ne_true] at h
          cases hparse : RtpPacket.parse data with
          | none =>
              rw [hparse] at h
              cases h
          | some q =>
              rw [hparse] at h
              rw [receiveRtpPacketOut_some h]
              exact ⟨rfl, rfl⟩
  | udp =>
      dsimp only at h
      cases hrtcp : isRtcp data with
      | true =>
          rw [hrtcp, if_pos rfl] at h
          obtain ⟨packet, -, h⟩ := bind_eq_ok.mp h
          obtain ⟨t₁, -, h⟩ := bind_eq_ok.mp h
          cases h
      | false =>
          rw [hrtcp, if_neg Bool.false_ne_true] at h
          split at h
          · obtain ⟨q, hq, h⟩ := bind_eq_ok.mp h
            cases hparse : RtpPacket.parse data with
            | none =>
                rw [hparse] at hq
                cases hq
            | some q' =>
                rw [hparse] at hq
                cases hq
                rw [receiveRtpPacketOut_some h]
                exact ⟨hrtcp, rfl⟩
          · cases h

end Output

end RtcTransport

end Bifrost.Rtc

namespace Bifrost.Api

open Bifrost.Rtc RtcTransport

/-- The application reads in the buffer only. -/
def AudioCall.InBounds (call : AudioCall) : Prop := call.len.toNat ≤ call.data.length

/-- A payload of 20 bytes or more starts with a 16-bit length that is not longer than it. -/
def AnnouncesWithin (payload : List UInt8) : Prop :=
  ∀ h : 20 ≤ payload.length, (Bytes.u16le payload 0 (by omega)).toNat ≤ payload.length

namespace RtcFactory

theorem hasContinuousPacketCall_iff (buffer : CopyOnWriteBuffer) :
    (∀ call, hasContinuousPacketCall buffer = some call → call.InBounds) ↔
      AnnouncesWithin buffer := by
  unfold hasContinuousPacketCall AnnouncesWithin
  by_cases hshort : buffer.length < 20
  · rw [dif_pos hshort]
    exact ⟨fun _ h => absurd hshort (Nat.not_lt.mpr h), fun _ call h => by cases h⟩
  · rw [dif_neg hshort]
    constructor
    · intro h _
      have hcall := h _ rfl
      unfold AudioCall.InBounds at hcall
      rw [UInt16.toNat_toUInt32] at hcall
      exact hcall
    · rintro h call heq
      cases heq
      unfold AudioCall.InBounds
      rw [UInt16.toNat_toUInt32]
      exact h (Nat.not_lt.mp hshort)

/-- The payload of an RTP packet that is dispatched is of the kind `D`. -/
def Event.Carries (D : List UInt8 → Prop) : Event → Prop
  | .transport (.dispatch data closed protocol _) _ =>
    TakenAsRtp data closed protocol → ∀ p, RtpPacket.parse data = some p → D p.payloadBytes
  | _ => True

/-- The payloads in the queue are of the kind `D`. -/
def Holds (D : List UInt8 → Prop) (f : RtcFactory) : Prop :=
  ∀ entry ∈ f.threadQueue.packetMap, D entry.2

theorem popLoop_mem (map : List (UInt32 × CopyOnWriteBuffer)) : ∀ (waitePopSeq : UInt32),
    (∀ b ∈ (ThreadRtpPacketQueue.popLoop waitePopSeq map).1, ∃ entry ∈ map, entry.2 = b) ∧
    ∀ entry ∈ (ThreadRtpPacketQueue.popLoop waitePopSeq map).2.2, entry ∈ map := by
  induction map with
  | nil => exact fun _ => ⟨List.forall_mem_nil _, fun _ h => h⟩
  | cons e rest ih =>
      intro waitePopSeq
      obtain ⟨key, b⟩ := e
      rw [ThreadRtpPacketQueue.popLoop]
      split
      · obtain ⟨hout, hleft⟩ := ih (waitePopSeq + 1)
        refine ⟨List.forall_mem_cons.mpr ⟨⟨_, List.mem_cons_self, rfl⟩, fun b' hb' => ?_⟩,
          fun entry hentry => List.mem_cons_of_mem _ (hleft entry hentry)⟩
        obtain ⟨entry, hmem, heq⟩ := hout b' hb'
        exact ⟨entry, List.mem_cons_of_mem _ hmem, heq⟩
      · exact ⟨List.forall_mem_nil _, fun _ h => h⟩

/-- One step: what goes in was dispatched, what comes out was in. -/
theorem holds_step {D : List UInt8 → Prop} (hD : ∀ x, D x → AnnouncesWithin x)
    (f : RtcFactory) (e : Event) (f' : RtcFactory) (calls : List AudioCall) (h : Holds D f)
    (hcarries : e.Carries D) (hok : f.step e = .ok (f', calls)) :
    Holds D f' ∧ ∀ call ∈ calls, call.InBounds := by
  have hother : ∀ t : RtcTransport, f' = { f with rtcTransport := t } → calls = [] →
      Holds D f' ∧ ∀ call ∈ calls, call.InBounds := by
    rintro t rfl rfl
    exact ⟨h, List.forall_mem_nil _⟩
  cases e with
  | pop =>
      cases hok
      obtain ⟨hout, hleft⟩ := popLoop_mem f.threadQueue.packetMap f.threadQueue.waitePopSeq
      refine ⟨fun entry hentry => h entry (hleft entry hentry), fun call hcall => ?_⟩
      obtain ⟨b, hb, hmake⟩ := List.mem_filterMap.mp hcall
      obtain ⟨entry, hentry, rfl⟩ := hout b hb
      exact (hasContinuousPacketCall_iff entry.2).mpr (hD _ (h entry hentry)) call hmake
  | transport e clock =>
      cases e with
      | createRtpStream ssrc streamType target =>
          cases hok
          exact hother _ rfl rfl
      | deleteRtpStream ssrc =>
          cases hok
          exact hother _ rfl rfl
      | onSendPacket ssrc data =>
          obtain ⟨t, -, hok⟩ := bind_eq_ok.mp hok
          cases hok
          exact hother t rfl rfl
      | dispatch data closed protocol addr =>
          obtain ⟨⟨t, received⟩, hout, hok⟩ := bind_eq_ok.mp hok
          cases hok
          cases received with
          | none => exact ⟨h, List.forall_mem_nil _⟩
          | some p =>
              obtain ⟨htaken, hparse⟩ := dispatchOut_some hout
              refine ⟨fun entry hentry => ?_, List.forall_mem_nil _⟩
              unfold onRtpStreamReceiveRtpPacket onPacketReceived at hentry
              dsimp only at hentry
              rw [ThreadRtpPacketQueue.push_packetMap] at hentry
              rcases OrderedMap.mem_of_mem_emplace hentry with hold | hnew
              · exact h entry hold
              · rw [hnew]
                exact hcarries htaken p hparse

/-! ## Every payload of the kind gets there -/

/-- The packet 0 of the stream 1 with the payload `x`. -/
def firstDatagram (x : List UInt8) : List UInt8 := RtpPacket.writeHeader (sendHeader 1 0 0) ++ x

/-- A receiver, its first packet, and a `Pop`. -/
def delivery (x : List UInt8) : List Event :=
  [.transport (.createRtpStream 1 .streamReceiver (some [])) still,
    .transport (.dispatch (firstDatagram x) false .udp none) still, .pop]

theorem carries_delivery {D : List UInt8 → Prop} {x : List UInt8} (hx : D x)
    (hlen : x.length < 2 ^ 32) : ∀ e ∈ delivery x, e.Carries D := by
  have hpacket : Event.Carries D (.transport (.dispatch (firstDatagram x) false .udp none) still) :=
    fun _ p hp => by
      rw [RtpPacket.payloadBytes_plain (plain_sendHeader 1 0 0) hlen hp]
      exact hx
  rintro e he
  rcases List.mem_cons.mp he with rfl | he
  · trivial
  · rcases List.mem_cons.mp he with rfl | he
    · exact hpacket
    · rw [List.mem_singleton.mp he]
      trivial

theorem receiveRtpPacketOut_first {p : RtpPacket} (hssrc : p.getSsrc = 1) :
    ∃ t, oneReceiver.receiveRtpPacketOut p still = .ok (t, some p) := by
  obtain ⟨r, hr⟩ := RtpStreamReceiver.receivePacket_first
    { ssrc := 1, payloadType := 100, clockRate := 16000, useNack := true } kSendNackDelay []
    (still_between.from 4) p
  have hsender : oneReceiver.passToSender p still = .ok oneReceiver := rfl
  have hfound : oneReceiver.getStreamReceiverBySsrc p.getSsrc = .ok (1, .create
      { ssrc := 1, payloadType := 100, clockRate := 16000, useNack := true }
      kSendNackDelay []) := by
    rw [hssrc]
    rfl
  refine ⟨oneReceiver.storeReceiver 1 r, ?_⟩
  unfold receiveRtpPacketOut passToReceiverOut
  rw [bind_eq_ok]
  refine ⟨oneReceiver, hsender, ?_⟩
  rw [bind_eq_ok]
  refine ⟨_, hfound, ?_⟩
  rw [bind_eq_ok]
  exact ⟨_, hr, rfl⟩

/-- The receiver takes it. -/
theorem dispatchOut_first (x : List UInt8) : ∃ t p,
    oneReceiver.dispatchOut (firstDatagram x) false .udp none still = .ok (t, some p) ∧
    RtpPacket.parse (firstDatagram x) = some p ∧ p.getSequenceNumber = 0 := by
  obtain ⟨p, hparse, hssrc, hseq⟩ : ∃ p, RtpPacket.parse (firstDatagram x) = some p ∧
      p.getSsrc = 1 ∧ p.getSequenceNumber = 0 :=
    ⟨_, RtpPacket.parse_plain (plain_sendHeader 1 0 0) x, rfl, rfl⟩
  have hrtcp : isRtcp (firstDatagram x) = false := isRtcp_sendHeader 1 0 0 x
  obtain ⟨t, ht⟩ := receiveRtpPacketOut_first hssrc
  refine ⟨t, p, ?_, hparse, hseq⟩
  unfold dispatchOut
  dsimp only
  rw [hrtcp, if_neg Bool.false_ne_true, if_pos (isRtp_of_parse hparse), hparse]
  exact ht

theorem runOut_pop (f : RtcFactory) :
    Trace.runOut step f [.pop] = .ok (f.tryCallData.1, f.tryCallData.2) :=
  Trace.runOut_cons_iff.mpr ⟨_, _, [], rfl, rfl, (List.append_nil _).symm⟩

/-- What the application gets from it. -/
theorem run_delivery {x : List UInt8} (hlen : x.length < 2 ^ 32) :
    ∃ f, Trace.runOut step {} (delivery x) = .ok (f, (hasContinuousPacketCall x).toList) := by
  obtain ⟨t, p, hout, hparse, hseq⟩ := dispatchOut_first x
  have hbytes : p.payloadBytes = x :=
    RtpPacket.payloadBytes_plain (plain_sendHeader 1 0 0) hlen hparse
  have hcreate : step {} (.transport (.createRtpStream 1 .streamReceiver (some [])) still) =
      .ok ({ rtcTransport := oneReceiver }, []) := rfl
  have hdispatch : step { rtcTransport := oneReceiver }
      (.transport (.dispatch (firstDatagram x) false .udp none) still) =
        .ok (({ rtcTransport := t } : RtcFactory).onPacketReceived 0 x, []) := by
    unfold step
    dsimp only
    rw [hout, ← hseq, ← hbytes]
    rfl
  have hqueue : (({} : ThreadRtpPacketQueue CopyOnWriteBuffer).push 0 x).pop.2 = [x] := rfl
  have hpop : (({ rtcTransport := t } : RtcFactory).onPacketReceived 0 x).tryCallData.2 =
      (hasContinuousPacketCall x).toList := by
    unfold tryCallData onPacketReceived
    dsimp only
    rw [hqueue]
    cases h : hasContinuousPacketCall x with
    | none => rw [List.filterMap_cons_none h, List.filterMap_nil, Option.toList_none]
    | some call => rw [List.filterMap_cons_some h, List.filterMap_nil, Option.toList_some]
  have hlast := runOut_pop (({ rtcTransport := t } : RtcFactory).onPacketReceived 0 x)
  rw [hpop] at hlast
  have hrest := Trace.runOut_cons_iff.mpr ⟨_, [], _, hdispatch, hlast, (List.nil_append _).symm⟩
  exact ⟨_, Trace.runOut_cons_iff.mpr ⟨_, [], _, hcreate, hrest, (List.nil_append _).symm⟩⟩

/-- **The application reads in the buffer exactly on the payloads that announce no more than
    they bring**: in all runs whose datagrams carry payloads of a kind, if and only if all
    payloads of that kind do. -/
theorem audio_inBounds_iff (D : List UInt8 → Prop) :
    (∀ es f calls, (∀ e ∈ es, e.Carries D) → Trace.runOut step {} es = .ok (f, calls) →
      ∀ call ∈ calls, call.InBounds) ↔ ∀ x, D x → AnnouncesWithin x := by
  constructor
  · intro h x hx hlen
    by_contra hover
    have hshort : x.length < 2 ^ 32 := by
      have := (Bytes.u16le x 0 (by omega)).toNat_lt
      omega
    obtain ⟨f, hrun⟩ := run_delivery hshort
    refine hover ((hasContinuousPacketCall_iff x).mp (fun call hcall => ?_) hlen)
    exact h _ f _ (carries_delivery hx hshort) hrun call (Option.mem_toList.mpr hcall)
  · intro hD es f calls hcarries hrun
    exact (Trace.runOut_invariant (holds_step hD) es (show Holds D {} from List.forall_mem_nil _)
      hcarries hrun).2

/-- Twenty bytes that announce 65535. -/
theorem not_inBounds :
    ∃ f call, Trace.runOut step {} (delivery (255 :: 255 :: List.replicate 18 0)) =
      .ok (f, [call]) ∧ call.data.length = 20 ∧ call.len = 65535 ∧ ¬ call.InBounds := by
  obtain ⟨f, hrun⟩ := @run_delivery (255 :: 255 :: List.replicate 18 0) (by decide)
  refine ⟨f, _, hrun, rfl, rfl, ?_⟩
  unfold AudioCall.InBounds
  decide

end RtcFactory

end Bifrost.Api
