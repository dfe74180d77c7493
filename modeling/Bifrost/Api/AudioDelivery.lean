/-
  Audio from one application to the other.

  One factory sends frames on a stream (`OnSendAudio`), the datagrams cross a network that
  loses, repeats and reorders them, and another factory hands the frames up (`OnReceiveAudio`).
  Its network thread takes datagrams in and its callback thread pops, in any interleaving.

  * Of up to 32768 frames the application hears the first ones, each once and in order, whatever
    the network does (`audio_in_order`): neither the stream nor the queue skips a frame.
  * When datagrams come at most once and in the window of the stream, it hears every frame
    before the first that is lost (`audio_until_lost`).

  To hear a frame is what `HasContinuousPacketCall` makes of it (`audio`): it drops a buffer of
  less than 20 bytes, and announces any other with the length that its header says. A frame is
  handed up as it was sent if it has 20 bytes and its header says its length (`Whole`).
-/
import Bifrost.Api.AudioBounds
import Bifrost.Rtc.QueueStream
import Bifrost.Rtc.RtpStreamSequence

namespace Bifrost.Rtc.RtcTransport

/-! ## The sender -/

/-- A transport with one sender. -/
def oneSender (ssrc : UInt32) (addr : SockAddr) : RtcTransport :=
  ({} : RtcTransport).createRtpStream ssrc .streamSender (some addr)

/-- The datagrams that `OnPacketSent` gets. -/
def wire (outs : List (Option RtpPacket)) : List (List UInt8) :=
  (outs.filterMap id).map RtpPacket.bytes

/-- The datagram with the `i`th frame. -/
def datagram (ssrc : UInt32) (i : Nat) (data : List UInt8) : List UInt8 :=
  RtpPacket.writeHeader (sendHeader ssrc (UInt16.ofNat i) (UInt32.ofNat (2100 + 100 * i))) ++ data

/-- After `n` frames: the next number is `n` and the stream has seen the one before. -/
structure Numbered (ssrc : UInt32) (t : RtcTransport) (n : Nat) : Prop where
  seq : t.testSeq = UInt16.ofNat n
  timestamp : t.timestamp = UInt32.ofNat (2000 + 100 * n)
  next : ∃ s, t.getStreamSenderBySsrc ssrc = some (ssrc, s) ∧
    (s.started = true → s.maxSeq + 1 = t.testSeq)

section Send

variable {ssrc : UInt32}

theorem numbered_oneSender (ssrc : UInt32) (addr : SockAddr) :
    Numbered ssrc (oneSender ssrc addr) 0 := by
  refine ⟨rfl, rfl, ?_⟩
  exact ⟨.create { ssrc, payloadType := 100, clockRate := 16000, useNack := true } addr,
    Table.find_head _ [], fun h => by cases h⟩

theorem sendersReady_oneSender (ssrc : UInt32) (addr : SockAddr) (now : UInt64) :
    (oneSender ssrc addr).SendersReady now := by
  intro entry hmem
  obtain rfl := List.mem_singleton.mp hmem
  exact RtpStreamSender.ready_create (show (16000 : UInt32) ≠ 0 by decide) addr now

/-- The next frame goes out with the next number. -/
theorem sendPacket_numbered {t : RtcTransport} {n : Nat} {first last : UInt64} {clock : Clock}
    {data : List UInt8} (h : Numbered ssrc t n) (hs : t.SendersReady first)
    (hclock : clock.Between first last) (hlen : data.length ≤ RtpPacket.kPayloadRoom) :
    ∃ t' p, t.sendPacket ssrc data clock = .ok (t', some p) ∧ p.bytes = datagram ssrc n data ∧
      Numbered ssrc t' (n + 1) ∧ t'.SendersReady last := by
  obtain ⟨s, hget, hnext⟩ := h.next
  obtain ⟨s', accepted, hrecv, hready, -⟩ := RtpStreamSender.receivePacket_ready
    (hs _ (Table.find_mem hget)) hclock (t.builtPacket ssrc data)
  obtain ⟨hacc, hstarted, hmax⟩ := @RtpStream.receive_next s.toRtpStream
    (t.builtPacket ssrc data) clock fun hst => (hnext hst).symm
  rw [RtpStreamSender.receivePacket_stream hrecv] at hacc hstarted hmax
  dsimp only at hacc hmax
  subst hacc
  have hstep : UInt32.ofNat (2000 + 100 * n) + 100 = UInt32.ofNat (2000 + 100 * (n + 1)) := by
    rw [← UInt32.toNat_inj, UInt32.toNat_add, UInt32.toNat_ofNat', UInt32.toNat_ofNat']
    simp only [UInt32.reduceToNat]
    omega
  refine ⟨_, _, sendPacket_eq hget hlen hrecv, ?_, ⟨?_, ?_, ?_⟩, (hs.mono hclock.le).store hready
    ssrc⟩
  · rw [bytes_builtPacket t ssrc hlen, h.seq, h.timestamp, hstep, datagram,
      show 2000 + 100 * (n + 1) = 2100 + 100 * n by omega]
  · show t.testSeq + 1 = _
    rw [h.seq, UInt16.ofNat_add]
    rfl
  · show t.timestamp + 100 = _
    rw [h.timestamp, hstep]
  · exact ⟨s', Table.find_store_self hget, fun _ => congrArg (· + 1) hmax⟩

/-- **The datagrams carry the frames, numbered from 0 on.** -/
theorem wire_sendAll (frames : List (List UInt8 × Clock)) : ∀ {t : RtcTransport} {n : Nat}
    {first : UInt64}, Numbered ssrc t n → t.SendersReady first →
    Timely first (frames.map fun c => ⟨ssrc, c.1, c.2⟩) →
    (∀ c ∈ frames, c.1.length ≤ RtpPacket.kPayloadRoom) →
    ∃ t' outs, t.sendAll (frames.map fun c => ⟨ssrc, c.1, c.2⟩) = .ok (t', outs) ∧
      wire outs = (frames.map Prod.fst).mapIdx fun i data => datagram ssrc (n + i) data := by
  induction frames with
  | nil => exact fun _ _ _ _ => ⟨_, [], rfl, rfl⟩
  | cons c frames ih =>
      intro t n first h hs htimely hfits
      obtain ⟨hlen, hfits⟩ := List.forall_mem_cons.mp hfits
      obtain ⟨last, hclock, htimely⟩ := htimely
      obtain ⟨t₁, p, hsend, hbytes, h₁, hs₁⟩ := sendPacket_numbered h hs hclock hlen
      obtain ⟨t', outs, hrun, hwire⟩ := ih h₁ hs₁ htimely hfits
      refine ⟨t', some p :: outs, sendAll_cons.mpr ⟨t₁, some p, outs, hsend, hrun, rfl⟩, ?_⟩
      rw [List.map_cons, List.mapIdx_cons, wire, List.filterMap_cons, id_eq]
      dsimp only
      rw [List.map_cons, hbytes, ← wire, hwire]
      simp only [Nat.add_zero, Nat.add_assoc, Nat.add_comm 1]

end Send

/-! ## At the far end -/

section Receive

variable {t : RtcTransport} {ssrc : UInt32}

theorem isRtcp_datagram (ssrc : UInt32) (i : Nat) (data : List UInt8) :
    isRtcp (datagram ssrc i data) = false := isRtcp_sendHeader ssrc _ _ data

theorem parse_datagram (ssrc : UInt32) (i : Nat) {data : List UInt8}
    (hlen : data.length ≤ RtpPacket.kPayloadRoom) :
    ∃ p, RtpPacket.parse (datagram ssrc i data) = some p ∧ p.getSsrc = ssrc ∧
      p.getSequenceNumber = UInt16.ofNat i ∧ p.payloadBytes = data := by
  have hplain := plain_sendHeader ssrc (UInt16.ofNat i) (UInt32.ofNat (2100 + 100 * i))
  have hparse := RtpPacket.parse_plain hplain data
  exact ⟨_, hparse, rfl, rfl, RtpPacket.payloadBytes_plain hplain
    (Nat.lt_of_le_of_lt hlen (by decide : RtpPacket.kPayloadRoom < 2 ^ 32)) hparse⟩

theorem dispatchOut_rtp {data : List UInt8} {p : RtpPacket} (hrtcp : isRtcp data = false)
    (hparse : RtpPacket.parse data = some p) (closed : Bool) (addr : Option SockAddr)
    (clock : Clock) :
    t.dispatchOut data closed .udp addr clock = t.receiveRtpPacketOut p clock := by
  unfold dispatchOut
  dsimp only
  rw [hrtcp, if_neg Bool.false_ne_true, if_pos (isRtp_of_parse hparse), hparse]
  rfl

/-- A packet of the only stream there is. -/
theorem receiveRtpPacketOut_alone {p : RtpPacket} {r r' : RtpStreamReceiver} {clock : Clock}
    {accepted : Bool} (hsenders : t.rtpSendStreams = [])
    (hreceivers : t.rtpReceiveStreams = [(ssrc, r)]) (hssrc : p.getSsrc = ssrc)
    (hrecv : r.receivePacket p (clock.from 4) = .ok (r', accepted)) :
    t.receiveRtpPacketOut p clock = .ok
      ({ t with rtpReceiveStreams := [(ssrc, r')] }, if accepted then some p else none) := by
  have hpass : t.passToSender p clock = .ok t := by
    unfold passToSender getStreamSenderBySsrc
    rw [hsenders]
    rfl
  have hget : t.getStreamReceiverBySsrc p.getSsrc = .ok (ssrc, r) := by
    unfold getStreamReceiverBySsrc
    rw [hreceivers, hssrc, show Table.find ssrc [(ssrc, r)] = some (ssrc, r) from
      Table.find_head _ []]
  have hstore : t.storeReceiver ssrc r' = { t with rtpReceiveStreams := [(ssrc, r')] } := by
    unfold storeReceiver Table.store
    rw [hreceivers, List.map_singleton, if_pos rfl]
  unfold receiveRtpPacketOut passToReceiverOut
  rw [bind_eq_ok]
  refine ⟨t, hpass, ?_⟩
  rw [bind_eq_ok]
  refine ⟨(ssrc, r), hget, ?_⟩
  rw [bind_eq_ok]
  exact ⟨(r', accepted), hrecv, by rw [← hstore]⟩

end Receive

end Bifrost.Rtc.RtcTransport

namespace Bifrost.Api

open Bifrost.Rtc ThreadRtpPacketQueue

/-! ## The receiver -/

/-- What happens at the far end: the `i`th datagram comes in, or the callback thread pops. -/
inductive Happening where
  | datagram (i : Nat) (closed : Bool) (addr : Option SockAddr) (clock : Clock)
  | pop

namespace Happening

def toEvent (wire : List (List UInt8)) : Happening → RtcFactory.Event
  | .datagram i closed addr clock =>
    .transport (.dispatch (wire.getD i []) closed .udp addr) clock
  | .pop => .pop

/-- The call on the queue, if the stream takes the packet. -/
def toCall : Happening → StreamCall
  | .datagram i _ _ _ => .packet i
  | .pop => .pop

/-- The clock does not go back between the datagrams. -/
def Punctual : UInt64 → List Happening → Prop
  | _, [] => True
  | first, .datagram _ _ _ clock :: happenings =>
    ∃ last, clock.Between first last ∧ Punctual last happenings
  | first, .pop :: happenings => Punctual first happenings

theorem punctual_concat_pop (happenings : List Happening) : ∀ {first : UInt64},
    Punctual first happenings → Punctual first (happenings ++ [pop]) := by
  induction happenings with
  | nil => exact fun _ => trivial
  | cons happening happenings ih =>
      intro first h
      cases happening with
      | datagram i closed addr clock =>
          obtain ⟨last, hclock, hrest⟩ := h
          exact ⟨last, hclock, ih hrest⟩
      | pop => exact ih h

end Happening

/-- The datagrams that come in, in order. -/
def cameIn (happenings : List Happening) : List Nat := arrivals (happenings.map Happening.toCall)

/-- Every datagram is less than 1500 numbers below and less than 3000 above the highest before
    it. -/
def Within : Nat → List Nat → Prop
  | _, [] => True
  | hi, i :: order => i < hi + 3000 ∧ hi < i + 1500 ∧ Within (max hi i) order

instance Within.decidable : ∀ hi order, Decidable (Within hi order)
  | _, [] => isTrue trivial
  | hi, i :: order =>
    have := Within.decidable (max hi i) order
    inferInstanceAs (Decidable (_ ∧ _ ∧ _))

theorem Within.near {order : List Nat} : ∀ {hi : Nat} {pre : List Nat} {i : Nat} {post : List Nat},
    Within hi order → order = pre ++ i :: post →
    i < pre.foldl max hi + 3000 ∧ pre.foldl max hi < i + 1500 := by
  induction order with
  | nil =>
      intro hi pre i post _ heq
      cases pre <;> cases heq
  | cons j order ih =>
      intro hi pre i post ⟨habove, hbelow, hrest⟩ heq
      cases pre with
      | nil =>
          cases heq
          exact ⟨habove, hbelow⟩
      | cons j' pre =>
          cases heq
          exact @ih (max hi j) pre i post hrest rfl

/-- A stream that has seen nothing above index `hi`, nor anything else when `hi` is 0. -/
structure Heard (st : RtpStream) (hi : Nat) : Prop where
  maxSeq : st.started = true → st.maxSeq.toNat = hi % 65536
  fresh : st.started = false → hi = 0

/-- A stream takes a packet in its window. -/
theorem heard_receive {st : RtpStream} {hi i : Nat} {p : RtpPacket} {clock : Clock}
    (h : Heard st hi) (hp : p.getSequenceNumber = UInt16.ofNat i) (habove : i < hi + 3000)
    (hbelow : hi < i + 1500) :
    (st.receiveStreamPacket p clock).2 = true ∧
      Heard (st.receiveStreamPacket p clock).1 (max hi i) := by
  have hnumber : p.getSequenceNumber.toNat = i % 65536 := by rw [hp, UInt16.toNat_ofNat']
  cases hst : st.started with
  | false =>
      obtain ⟨hacc, hstarted, hmax⟩ := @RtpStream.receive_next st p clock fun h => by
        rw [hst] at h
        cases h
      refine ⟨hacc, fun _ => ?_, fun hnot => ?_⟩
      · rw [hmax, hnumber, h.fresh hst, Nat.zero_max]
      · rw [hstarted] at hnot
        cases hnot
  | true =>
      have hseq := h.maxSeq hst
      obtain ⟨hacc, -, hfollow⟩ := @RtpStream.follows_receive st
        (st.cycles.toNat - 65536 * ((hi : Int) / 65536)) hi
        ⟨hst, by omega, by have := st.cycles.toNat_lt; omega⟩ ⟨⟨p, clock⟩, i, by dsimp only; omega⟩
        (by dsimp only; omega) (by dsimp only; omega)
      refine ⟨hacc, fun _ => ?_, fun hnot => ?_⟩
      · have := hfollow.maxSeq
        dsimp only at this ⊢
        omega
      · rw [hfollow.started] at hnot
        cases hnot

namespace RtcFactory

/-- A factory with one receiver. -/
def listening (ssrc : UInt32) (addr : SockAddr) : RtcFactory :=
  (({} : RtcFactory).createRtpReceiverStream ssrc (some addr)).1

/-- The factory has one receiver and no sender. -/
structure Listens (ssrc : UInt32) (f : RtcFactory) (r : RtpStreamReceiver) (now : UInt64) :
    Prop where
  senders : f.rtcTransport.rtpSendStreams = []
  receivers : f.rtcTransport.rtpReceiveStreams = [(ssrc, r)]
  ready : r.Ready now

section Receive

variable {ssrc : UInt32} {f : RtcFactory} {r : RtpStreamReceiver} {first last : UInt64}
  {clock : Clock}

theorem listens_listening (ssrc : UInt32) (addr : SockAddr) (now : UInt64) :
    ∃ r, Listens ssrc (listening ssrc addr) r now ∧ Heard r.toRtpStream 0 :=
  ⟨_, ⟨rfl, rfl, RtpStreamReceiver.ready_create _ RtcTransport.kSendNackDelay addr now⟩,
    (fun h => by cases h), fun _ => rfl⟩

/-- A datagram of the stream goes into the queue if the stream takes it. -/
theorem step_datagram (h : Listens ssrc f r first) (hclock : clock.Between first last) {i : Nat}
    {data : List UInt8} (hlen : data.length ≤ RtpPacket.kPayloadRoom) (closed : Bool)
    (addr : Option SockAddr) :
    ∃ f' r' accepted, f.step (.transport (.dispatch (RtcTransport.datagram ssrc i data) closed .udp
        addr) clock) = .ok (f', []) ∧ Listens ssrc f' r' last ∧
      f'.threadQueue =
        (if accepted then f.threadQueue.push (UInt16.ofNat i) data else f.threadQueue) ∧
      ∀ hi, Heard r.toRtpStream hi → i < hi + 3000 → hi < i + 1500 →
        accepted = true ∧ Heard r'.toRtpStream (max hi i) := by
  obtain ⟨p, hparse, hssrc, hseq, hbody⟩ := RtcTransport.parse_datagram ssrc i hlen
  obtain ⟨r', accepted, hrecv, hready, -⟩ :=
    RtpStreamReceiver.receivePacket_ready h.ready (hclock.from 4) p
  have hstream := RtpStreamReceiver.receivePacket_stream hrecv
  have hdispatch : f.rtcTransport.dispatchOut (RtcTransport.datagram ssrc i data) closed .udp addr
      clock = _ :=
    (RtcTransport.dispatchOut_rtp (RtcTransport.isRtcp_datagram ssrc i data) hparse closed addr
      clock).trans (RtcTransport.receiveRtpPacketOut_alone h.senders h.receivers hssrc hrecv)
  refine ⟨_, r', accepted, bind_eq_ok.mpr ⟨_, hdispatch, rfl⟩, ⟨?_, ?_, hready⟩, ?_, ?_⟩
  · rw [onRtpStreamReceiveRtpPacket_rtcTransport]
    exact h.senders
  · rw [onRtpStreamReceiveRtpPacket_rtcTransport]
  · cases accepted with
    | false => rfl
    | true =>
        show f.threadQueue.push p.getSequenceNumber p.payloadBytes = _
        rw [hseq, hbody, if_pos rfl]
  · intro hi hheard habove hbelow
    have hnext := @heard_receive _ hi i p (clock.from 4) hheard hseq habove hbelow
    rwa [hstream] at hnext

/-- The stream takes the packets that its calls say, and the listener gets what the queue gives
    out. -/
theorem listens_run {frames : List (List UInt8)}
    (hfits : ∀ data ∈ frames, data.length ≤ RtpPacket.kPayloadRoom)
    (happenings : List Happening) : ∀ {f : RtcFactory} {r : RtpStreamReceiver} {first : UInt64},
    Listens ssrc f r first → Happening.Punctual first happenings →
    (∀ i ∈ cameIn happenings, i < frames.length) →
    ∃ f' calls, Trace.runOut RtcFactory.step f
        (happenings.map (Happening.toEvent (frames.mapIdx (RtcTransport.datagram ssrc)))) =
      .ok (f', (Trace.outputs ThreadRtpPacketQueue.step f.threadQueue
        (calls.map (StreamCall.toCall fun i => frames.getD i []))).filterMap
          hasContinuousPacketCall) ∧
      (arrivals calls).Sublist (cameIn happenings) ∧
      ∀ hi, Heard r.toRtpStream hi → Within hi (cameIn happenings) →
        calls = happenings.map Happening.toCall := by
  induction happenings with
  | nil => exact fun _ _ _ => ⟨_, [], rfl, .slnil, fun _ _ _ => rfl⟩
  | cons happening happenings ih =>
      intro f r first h hpunctual hcame
      cases happening with
      | pop =>
          obtain ⟨f', calls, hrun, hsub, hall⟩ := @ih f.tryCallData.1 r first
            ⟨h.senders, h.receivers, h.ready⟩ hpunctual hcame
          refine ⟨f', .pop :: calls, ?_, hsub, fun hi hheard hwithin => ?_⟩
          · refine Trace.runOut_cons_iff.mpr ⟨_, _, _, rfl, hrun, ?_⟩
            rw [List.map_cons, Trace.outputs_cons, List.filterMap_append]
            rfl
          · rw [hall hi hheard hwithin]
            rfl
      | datagram i closed addr clock =>
          obtain ⟨last, hclock, hpunctual⟩ := hpunctual
          obtain ⟨hi, hcame⟩ := List.forall_mem_cons.mp hcame
          have hget : frames.getD i [] = frames[i] := by
            rw [List.getD_eq_getElem?_getD, List.getElem?_eq_getElem hi, Option.getD_some]
          have hwire : (frames.mapIdx (RtcTransport.datagram ssrc)).getD i [] =
              RtcTransport.datagram ssrc i frames[i] := by
            rw [List.getD_eq_getElem?_getD, List.getElem?_mapIdx, List.getElem?_eq_getElem hi]
            rfl
          obtain ⟨f₁, r₁, accepted, hstep, h₁, hqueue, htaken⟩ :=
            step_datagram h hclock (hfits _ (List.getElem_mem hi)) closed addr
          rw [← hwire] at hstep
          obtain ⟨f', calls, hrun, hsub, hall⟩ := ih h₁ hpunctual hcame
          have hfirst := Trace.runOut_cons_iff.mpr ⟨f₁, [], _, hstep, hrun, rfl⟩
          rw [List.nil_append] at hfirst
          cases accepted with
          | false =>
              rw [hqueue, if_neg Bool.false_ne_true] at hfirst
              refine ⟨f', calls, hfirst, hsub.cons i, fun j hheard hwithin => ?_⟩
              cases (htaken j hheard hwithin.1 hwithin.2.1).1
          | true =>
              rw [hqueue, if_pos rfl, ← hget] at hfirst
              refine ⟨f', .packet i :: calls, hfirst, hsub.cons_cons i, fun j hheard hwithin => ?_⟩
              rw [hall _ (htaken j hheard hwithin.1 hwithin.2.1).2 hwithin.2.2]
              rfl

end Receive

end RtcFactory

/-! ## From one end to the other -/

section EndToEnd

open RtcFactory
open RtcTransport (still still_between)

variable {frames : List (CopyOnWriteBuffer × Clock)} {t : RtcTransport}
  {outs : List (Option RtpPacket)}

/-- The calls of `OnSendAudio`, each with its clock. -/
def audioCalls (ssrc : UInt32) (frames : List (CopyOnWriteBuffer × Clock)) :
    List RtcTransport.SendCall := frames.map fun c => ⟨ssrc, c.1, c.2⟩

/-- What the listener is called with for the first `k` frames. -/
def audio (frames : List (CopyOnWriteBuffer × Clock)) (k : Nat) : List AudioCall :=
  ((frames.take k).map Prod.fst).filterMap hasContinuousPacketCall

/-- The frame is handed up, and with its own length. -/
def Whole (frame : CopyOnWriteBuffer) : Prop :=
  ∃ call, hasContinuousPacketCall frame = some call ∧ call.len = UInt32.ofNat frame.length

theorem Whole.call {frame : CopyOnWriteBuffer} (h : Whole frame) :
    hasContinuousPacketCall frame =
      some { data := frame, len := UInt32.ofNat frame.length } := by
  obtain ⟨call, hcall, hlen⟩ := h
  rw [hcall, ← hlen]
  unfold hasContinuousPacketCall at hcall
  split at hcall
  · cases hcall
  · cases hcall
    rfl

/-- The calls are the frames themselves. -/
theorem audio_whole (h : ∀ c ∈ frames, Whole c.1) (k : Nat) : audio frames k =
    (frames.take k).map fun c => { data := c.1, len := UInt32.ofNat c.1.length } := by
  rw [audio, List.filterMap_map, ← List.filterMap_eq_map]
  exact List.filterMap_congr fun c hc => (h c (List.mem_of_mem_take hc)).call

theorem wire_oneSender (ssrc : UInt32) (addr : SockAddr) {now : UInt64}
    (htimely : RtcTransport.Timely now (audioCalls ssrc frames))
    (hfits : ∀ c ∈ frames, c.1.length ≤ RtpPacket.kPayloadRoom)
    (hsent : (RtcTransport.oneSender ssrc addr).sendAll (audioCalls ssrc frames) =
      .ok (t, outs)) :
    RtcTransport.wire outs = (frames.map Prod.fst).mapIdx (RtcTransport.datagram ssrc) := by
  obtain ⟨t', outs', hrun, hwire⟩ := RtcTransport.wire_sendAll frames
    (RtcTransport.numbered_oneSender ssrc addr)
    (RtcTransport.sendersReady_oneSender ssrc addr now) htimely hfits
  cases hrun.symm.trans hsent
  rw [hwire]
  simp only [Nat.zero_add]

theorem map_getD_range {k : Nat} (hk : k ≤ frames.length) :
    (List.range k).map (fun i => (frames.map Prod.fst).getD i []) =
      (frames.take k).map Prod.fst := by
  refine List.ext_getElem (by simp [Nat.min_eq_left hk]) fun i hi hi' => ?_
  have hlt : i < frames.length := by
    rw [List.length_map, List.length_range] at hi
    omega
  simp [hlt]

/-- **The application hears the frames in order, without a gap and each once**: of up to 32768
    frames, whatever datagrams the network loses, repeats or brings out of order, the listener is
    called with those before some `k`, but for what `HasContinuousPacketCall` drops of them, and
    all datagrams of these have come in. If all frames are whole, the calls are these frames. -/
theorem audio_in_order (ssrc : UInt32) (addr addr' : SockAddr) {now now' : UInt64}
    (htimely : RtcTransport.Timely now (audioCalls ssrc frames))
    (hfits : ∀ c ∈ frames, c.1.length ≤ RtpPacket.kPayloadRoom)
    (hsent : (RtcTransport.oneSender ssrc addr).sendAll (audioCalls ssrc frames) = .ok (t, outs))
    (hcount : frames.length ≤ 32768) (happenings : List Happening)
    (hpunctual : Happening.Punctual now' happenings)
    (hcame : ∀ i ∈ cameIn happenings, i < frames.length) :
    ∃ f k, Trace.runOut RtcFactory.step (listening ssrc addr')
        (happenings.map (Happening.toEvent (RtcTransport.wire outs))) = .ok (f, audio frames k) ∧
      (∀ i < k, i ∈ cameIn happenings) ∧ ((∀ c ∈ frames, Whole c.1) → audio frames k =
        (frames.take k).map fun c => { data := c.1, len := UInt32.ofNat c.1.length }) := by
  rw [wire_oneSender ssrc addr htimely hfits hsent]
  obtain ⟨r, hlistens, -⟩ := listens_listening ssrc addr' now'
  obtain ⟨f, calls, hrun, hsub, -⟩ := listens_run (List.forall_mem_map.mpr hfits) happenings
    hlistens hpunctual (by rwa [List.length_map])
  have hnear : Nearby 32768 (arrivals calls) := nearby_of_lt fun i hi =>
    Nat.lt_of_lt_of_le (hcame i (hsub.subset hi)) hcount
  obtain ⟨k, hdelivered, hall⟩ := stream_delivered
    (fun i => (frames.map Prod.fst).getD i []) (by decide) hnear
  refine ⟨f, k, ?_, fun i hi => hsub.subset (hall i hi), fun h => audio_whole h k⟩
  have hk : k ≤ frames.length := by
    by_contra hlt
    exact absurd (hcame _ (hsub.subset (hall frames.length (by omega)))) (Nat.lt_irrefl _)
  rw [hrun, audio, ← map_getD_range hk, ← hdelivered]
  rfl

/-- Two frames of 20 bytes, whose header announces them. -/
def twoFrames : List (CopyOnWriteBuffer × Clock) :=
  [(20 :: List.replicate 19 0, still), (20 :: 0 :: List.replicate 18 7, still)]

theorem whole_twoFrames : ∀ c ∈ twoFrames, Whole c.1 :=
  List.forall_mem_cons.mpr ⟨⟨_, rfl, rfl⟩, List.forall_mem_singleton.mpr ⟨_, rfl, rfl⟩⟩

/-- They come in the other order, and the second comes twice. -/
theorem audio_in_order_repeated : ∃ t outs f k,
    (RtcTransport.oneSender 7 []).sendAll (audioCalls 7 twoFrames) = .ok (t, outs) ∧
    Trace.runOut RtcFactory.step (listening 7 [])
      ([.datagram 1 false none still, .pop, .datagram 0 false none still,
        .datagram 1 false none still, .pop].map
          (Happening.toEvent (RtcTransport.wire outs))) =
      .ok (f, (twoFrames.take k).map fun c => { data := c.1, len := UInt32.ofNat c.1.length }) := by
  have htimely : RtcTransport.Timely 1 (audioCalls 7 twoFrames) :=
    ⟨1, still_between, 1, still_between, trivial⟩
  obtain ⟨t, outs, hsent, -⟩ := RtcTransport.wire_sendAll twoFrames
    (RtcTransport.numbered_oneSender 7 []) (RtcTransport.sendersReady_oneSender 7 [] 1) htimely
    (by decide)
  obtain ⟨f, k, hrun, -, hwhole⟩ := @audio_in_order twoFrames t outs 7 [] [] 1 1 htimely
    (by decide) hsent (by decide)
    [.datagram 1 false none still, .pop, .datagram 0 false none still,
      .datagram 1 false none still, .pop]
    ⟨1, still_between, 1, still_between, 1, still_between, trivial⟩ (by decide)
  exact ⟨t, outs, f, k, hsent, hwhole whole_twoFrames ▸ hrun⟩

/-- **The application hears every frame before the first that is lost**, when no datagram comes
    twice, each comes in the window of the stream and none of an earlier 65536-cycle than the
    highest before it: after a last `Pop` the listener has been called with the frames before
    `k`, but for what `HasContinuousPacketCall` drops of them, and the datagram with frame `k` has
    not come in. If all frames are whole, the calls are these frames. -/
theorem audio_until_lost (ssrc : UInt32) (addr addr' : SockAddr) {now now' : UInt64}
    (htimely : RtcTransport.Timely now (audioCalls ssrc frames))
    (hfits : ∀ c ∈ frames, c.1.length ≤ RtpPacket.kPayloadRoom)
    (hsent : (RtcTransport.oneSender ssrc addr).sendAll (audioCalls ssrc frames) = .ok (t, outs))
    (hcount : frames.length < 2 ^ 32) (happenings : List Happening)
    (hpunctual : Happening.Punctual now' happenings)
    (hcame : ∀ i ∈ cameIn happenings, i < frames.length)
    (honce : (cameIn happenings).Nodup) (hwithin : Within 0 (cameIn happenings))
    (hcycle : NoneFromEarlierCycle (cameIn happenings)) :
    ∃ f k, Trace.runOut RtcFactory.step (listening ssrc addr')
        ((happenings ++ [Happening.pop]).map (Happening.toEvent (RtcTransport.wire outs))) =
      .ok (f, audio frames k) ∧ (∀ i < k, i ∈ cameIn happenings) ∧ k ∉ cameIn happenings ∧
      ((∀ c ∈ frames, Whole c.1) → audio frames k =
        (frames.take k).map fun c => { data := c.1, len := UInt32.ofNat c.1.length }) := by
  rw [wire_oneSender ssrc addr htimely hfits hsent]
  obtain ⟨r, hlistens, hheard⟩ := listens_listening ssrc addr' now'
  have hlast : cameIn (happenings ++ [Happening.pop]) = cameIn happenings := by
    rw [cameIn, List.map_append, List.map_singleton]
    exact arrivals_concat_pop _
  obtain ⟨f, calls, hrun, -, hall⟩ := listens_run (List.forall_mem_map.mpr hfits)
    (happenings ++ [Happening.pop]) hlistens (Happening.punctual_concat_pop happenings hpunctual)
    (by rw [hlast, List.length_map]; exact hcame)
  rw [hall 0 hheard (by rwa [hlast])] at hrun
  have hnear : Nearby frames.length (cameIn happenings) := by
    refine ⟨hcame, fun pre i post heq => ?_, hcycle⟩
    obtain ⟨habove, hbelow⟩ := hwithin.near heq
    rw [highest]
    omega
  obtain ⟨k, hdelivered, hbefore, hmissing⟩ := stream_complete
    (fun i => (frames.map Prod.fst).getD i []) hcount hnear honce
  refine ⟨f, k, ?_, hbefore, hmissing, fun h => audio_whole h k⟩
  have hk : k ≤ frames.length := by
    by_contra hlt
    exact absurd (hcame _ (hbefore frames.length (by omega))) (Nat.lt_irrefl _)
  rw [hrun, audio, ← map_getD_range hk, ← hdelivered, List.map_append]
  rfl

/-- The first comes and the second does not. -/
theorem audio_until_lost_second : ∃ t outs f,
    (RtcTransport.oneSender 7 []).sendAll (audioCalls 7 twoFrames) = .ok (t, outs) ∧
    Trace.runOut RtcFactory.step (listening 7 [])
      (([Happening.datagram 0 false none still] ++ [Happening.pop]).map
        (Happening.toEvent (RtcTransport.wire outs))) =
      .ok (f, [{ data := 20 :: List.replicate 19 0, len := 20 }]) := by
  have htimely : RtcTransport.Timely 1 (audioCalls 7 twoFrames) :=
    ⟨1, still_between, 1, still_between, trivial⟩
  obtain ⟨t, outs, hsent, -⟩ := RtcTransport.wire_sendAll twoFrames
    (RtcTransport.numbered_oneSender 7 []) (RtcTransport.sendersReady_oneSender 7 [] 1) htimely
    (by decide)
  obtain ⟨f, k, hrun, hbefore, hmissing, hwhole⟩ := @audio_until_lost twoFrames t outs 7 [] [] 1 1
    htimely (by decide) hsent (by decide) [.datagram 0 false none still] ⟨1, still_between, trivial⟩
    (by decide) (by decide) (by decide) (noneFromEarlierCycle_of_lt (by decide))
  have hk : k = 1 := by
    have hne : k ≠ 0 := fun h => hmissing (h ▸ List.mem_cons_self)
    have hle : ¬ 1 < k := fun h => absurd (hbefore 1 h) (by decide)
    omega
  rw [hwhole whole_twoFrames, hk] at hrun
  exact ⟨t, outs, f, hsent, hrun⟩

end EndToEnd

end Bifrost.Api
