/-
  Streams on which every call completes.

  A receiver is `Ready` when it has the generator it is told to use and its counter's ring
  is in order; a sender, when its buffer is a window with a clock rate and its counter's
  ring is in order. New streams are ready, and every call on a ready stream completes and
  leaves it ready, as long as the clock does not go back. A packet never leaves a stream as it
  was: it is counted, as received or as discarded (`receivePacket_ready`).
-/
import Bifrost.Rtc.RateRing
import Bifrost.Rtc.RetransmissionWindow
import Bifrost.Rtc.RtpStreamReceiver
import Bifrost.Rtc.RtpStreamSender

namespace Bifrost.Rtc

namespace RtpStreamReceiver

/-- Every call completes, on a clock that has read at most `now`. -/
structure Ready (r : RtpStreamReceiver) (now : UInt64) : Prop where
  nack : r.params.useNack = true → r.nackGenerator ≠ none
  ring : r.mediaTransmissionCounter.rate.Ring now

theorem Ready.mono {r : RtpStreamReceiver} {now last : UInt64} (h : r.Ready now)
    (hle : now ≤ last) : r.Ready last := ⟨h.nack, h.ring.mono hle⟩

theorem ready_create (params : Params) (sendNackDelayMs : UInt32) (addr : SockAddr)
    (now : UInt64) : (create params sendNackDelayMs addr).Ready now where
  nack huse := by
    rw [create_nackGenerator, if_pos (show params.useNack = true from huse)]
    simp
  ring := by
    rw [create_counter]
    exact RtpDataCounter.ring_default now

theorem ready_setLastSenderReport {r : RtpStreamReceiver} {now : UInt64} (h : r.Ready now)
    (received : UInt64) (timestamp : UInt32) (ntpMs : UInt64) (ts : UInt32) :
    (r.setLastSenderReport received timestamp ntpMs ts).Ready now := ⟨h.nack, h.ring⟩

theorem ready_senderReport {r : RtpStreamReceiver} {now : UInt64} (h : r.Ready now)
    (report : Rtcp.SenderReport) (clock : Clock) :
    (r.receiveRtcpSenderReport report clock).Ready now :=
  ready_setLastSenderReport h _ _ _ _

theorem ready_setUdpRemoteTargetAddr {r : RtpStreamReceiver} {now : UInt64} (h : r.Ready now)
    (addr : SockAddr) : (r.setUdpRemoteTargetAddr addr).Ready now := ⟨h.nack, h.ring⟩

theorem passToNackGenerator_ok {r : RtpStreamReceiver} (p : RtpPacket) (clock : Clock)
    (h : r.params.useNack = true → r.nackGenerator ≠ none) :
    ∃ g, r.passToNackGenerator p clock = .ok g ∧ (r.params.useNack = true → g ≠ none) := by
  unfold passToNackGenerator
  split
  · next huse =>
      obtain ⟨g, hg⟩ := Option.ne_none_iff_exists'.mp (h huse)
      rw [hg]
      exact ⟨some (g.receivePacket p false clock).1, rfl, fun _ => by simp⟩
  · next huse => exact ⟨r.nackGenerator, rfl, fun h => absurd h huse⟩

/-- **A packet on a ready receiver**: the call completes, the receiver stays ready, and it
    is not the receiver it was. -/
theorem receivePacket_ready {r : RtpStreamReceiver} {first last : UInt64} {clock : Clock}
    (h : r.Ready first) (hclock : clock.Between first last) (p : RtpPacket) :
    ∃ r' accepted, r.receivePacket p clock = .ok (r', accepted) ∧ r'.Ready last ∧ r' ≠ r := by
  have hparams := @RtpStream.receive_params r.toRtpStream p clock
  unfold receivePacket
  cases hs : r.toRtpStream.receiveStreamPacket p clock with
  | mk stream accepted =>
      rw [hs] at hparams
      have hnack : stream.params.useNack = true → r.nackGenerator ≠ none := by
        rw [hparams]
        exact h.nack
      cases accepted with
      | false =>
          refine ⟨{ r with toRtpStream := stream }, false, rfl,
            ⟨hnack, h.ring.mono hclock.le⟩, fun heq => ?_⟩
          have hcount := RtpStream.receive_discarded hs
          rw [show r.toRtpStream = stream from (congrArg toRtpStream heq).symm] at hcount
          simp at hcount
      | true =>
          obtain ⟨g, hg, hsome⟩ := @passToNackGenerator_ok { r with toRtpStream := stream } p
            (clock.from 3) hnack
          obtain ⟨c, hc, hring, hcount⟩ := RtpDataCounter.update_ring h.ring
            (hclock.first_le 65540) p.getSize
          refine ⟨{ r with
            toRtpStream := stream, nackGenerator := g, mediaTransmissionCounter := c }, true, ?_,
            ⟨hsome, hring.mono (hclock.le_last 65540)⟩, fun heq => ?_⟩
          · dsimp only
            rw [if_neg (by simp), bind_eq_ok]
            refine ⟨g, hg, ?_⟩
            rw [bind_eq_ok]
            exact ⟨c, hc, rfl⟩
          · rw [show c = r.mediaTransmissionCounter from
              congrArg mediaTransmissionCounter heq] at hcount
            simp at hcount

end RtpStreamReceiver

namespace RtpStreamSender

/-- Every call completes, on a clock that has read at most `now`. -/
structure Ready (s : RtpStreamSender) (now : UInt64) : Prop where
  window : ∀ b, s.retransmissionBuffer = some b → b.InWindow ∧ b.clockRate ≠ 0
  ring : s.waitTransmissionCounter.rate.Ring now

theorem Ready.mono {s : RtpStreamSender} {now last : UInt64} (h : s.Ready now)
    (hle : now ≤ last) : s.Ready last := ⟨h.window, h.ring.mono hle⟩

theorem ready_create {params : Params} (hrate : params.clockRate ≠ 0) (addr : SockAddr)
    (now : UInt64) : (create params addr).Ready now where
  window b hb := by
    rw [create_retransmissionBuffer] at hb
    split at hb
    · cases hb
      exact ⟨RtpRetransmissionBuffer.inWindow_create _ _ _, hrate⟩
    · cases hb
  ring := by
    rw [create_counter]
    exact RtpDataCounter.ring_default now

theorem ready_setReported {s : RtpStreamSender} {now : UInt64} (h : s.Ready now)
    (rtt : Float32) (packetsLost : UInt32) (fractionLost : UInt8) :
    (s.setReported rtt packetsLost fractionLost).Ready now := ⟨h.window, h.ring⟩

theorem ready_receiverReport {s : RtpStreamSender} {now : UInt64} (h : s.Ready now)
    (report : Rtcp.ReceiverReport) (clock : Clock) :
    (s.receiveRtcpReceiverReport report clock).Ready now :=
  ready_setReported h _ _ _

theorem ready_setUdpRemoteTargetAddr {s : RtpStreamSender} {now : UInt64} (h : s.Ready now)
    (addr : SockAddr) : (s.setUdpRemoteTargetAddr addr).Ready now := ⟨h.window, h.ring⟩

theorem storePacket_ok {b : RtpRetransmissionBuffer} (p : RtpPacket) (h : b.InWindow)
    (hrate : b.clockRate ≠ 0) :
    ∃ b', storePacket b p = .ok b' ∧ b'.InWindow ∧ b'.clockRate ≠ 0 := by
  unfold storePacket
  split
  · exact ⟨b, rfl, h, hrate⟩
  · obtain ⟨b', hok⟩ := RtpRetransmissionBuffer.insert_completes p h hrate
    obtain ⟨slots, hframe⟩ := RtpRetransmissionBuffer.insert_frame h hok
    exact ⟨b', hok, RtpRetransmissionBuffer.inWindow_insert h hok, by rw [hframe]; exact hrate⟩

theorem storeIfNack_ok {s : RtpStreamSender} (p : RtpPacket)
    (h : ∀ b, s.retransmissionBuffer = some b → b.InWindow ∧ b.clockRate ≠ 0) :
    ∃ buffer, s.storeIfNack p = .ok buffer ∧
      ∀ b, buffer = some b → b.InWindow ∧ b.clockRate ≠ 0 := by
  unfold storeIfNack
  cases hb : s.retransmissionBuffer with
  | none => exact ⟨none, rfl, fun _ hnone => by cases hnone⟩
  | some b =>
      obtain ⟨hwin, hrate⟩ := h b hb
      obtain ⟨b', hok, hwin', hrate'⟩ := storePacket_ok p hwin hrate
      refine ⟨some b', ?_, fun _ hsome => by cases hsome; exact ⟨hwin', hrate'⟩⟩
      dsimp only
      rw [hok]
      rfl

/-- **A packet on a ready sender**: the call completes, the sender stays ready, and it is
    not the sender it was. -/
theorem receivePacket_ready {s : RtpStreamSender} {first last : UInt64} {clock : Clock}
    (h : s.Ready first) (hclock : clock.Between first last) (p : RtpPacket) :
    ∃ s' accepted, s.receivePacket p clock = .ok (s', accepted) ∧ s'.Ready last ∧ s' ≠ s := by
  unfold receivePacket
  cases hs : s.toRtpStream.receiveStreamPacket p clock with
  | mk stream accepted =>
      cases accepted with
      | false =>
          refine ⟨{ s with toRtpStream := stream }, false, rfl,
            ⟨h.window, h.ring.mono hclock.le⟩, fun heq => ?_⟩
          have hcount := RtpStream.receive_discarded hs
          rw [show s.toRtpStream = stream from (congrArg toRtpStream heq).symm] at hcount
          simp at hcount
      | true =>
          obtain ⟨buffer, hstore, hwin⟩ := @storeIfNack_ok { s with toRtpStream := stream } p
            h.window
          obtain ⟨c, hc, hring, hcount⟩ := RtpDataCounter.update_ring h.ring (hclock.first_le 3)
            p.getSize
          refine ⟨{ s with
            toRtpStream := stream, retransmissionBuffer := buffer, waitTransmissionCounter := c },
            true, ?_, ⟨hwin, hring.mono (hclock.le_last 3)⟩, fun heq => ?_⟩
          · dsimp only
            rw [if_neg (by simp), bind_eq_ok]
            refine ⟨buffer, hstore, ?_⟩
            rw [bind_eq_ok]
            exact ⟨c, hc, rfl⟩
          · rw [show c = s.waitTransmissionCounter from
              congrArg waitTransmissionCounter heq] at hcount
            simp at hcount

end RtpStreamSender

end Bifrost.Rtc
