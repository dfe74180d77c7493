/-
  The sequence numbers of several senders that share one counter.

  `OnSendPacket` numbers all packets from `test_seq_`, whatever stream they are for. The
  numbers of a stream are then the draws of a client from a shared counter, and a stream
  accepts a packet whose number follows its maximum. So the numbers of every stream are
  successive exactly when it always comes back after a multiple of `2^16` packets of
  other streams, and no payload is longer than the packet (`continuous_iff`).
-/
import Bifrost.Lib.SharedCounter
import Bifrost.Lib.Trace
import Bifrost.Rtc.StreamIsolation

namespace Bifrost.Rtc

open SharedCounter

namespace RtpStream

/-- A stream takes the first packet, and the one that follows its maximum. -/
theorem receive_next {st : RtpStream} {p : RtpPacket} {clock : Clock}
    (h : st.started = true → p.getSequenceNumber = st.maxSeq + 1) :
    (st.receiveStreamPacket p clock).2 = true ∧
    (st.receiveStreamPacket p clock).1.started = true ∧
    (st.receiveStreamPacket p clock).1.maxSeq = p.getSequenceNumber := by
  have hv : (st.start p (clock 0)).verdict p.getSequenceNumber = .inOrder := by
    cases hst : st.started with
    | false => exact verdict_first hst
    | true =>
        have hnext : (st.maxSeq + 1 - st.maxSeq).toNat = 1 := by
          rw [UInt16.toNat_sub, UInt16.toNat_add, UInt16.toNat_one]
          have := st.maxSeq.toNat_lt
          omega
        rw [start_of_started hst, h hst]
        unfold verdict
        rw [if_pos (by omega)]
  have hstart : (st.start p (clock 0)).started = true := by
    unfold start
    split
    · assumption
    · rfl
  obtain ⟨ts, ms, hr⟩ := receive_inOrder hv
  rw [hr]
  exact ⟨rfl, hstart, rfl⟩

end RtpStream

namespace RtpStreamSender

/-- What the stream inside a sender does with a packet. -/
theorem receivePacket_stream {s s' : RtpStreamSender} {p : RtpPacket} {clock : Clock}
    {accepted : Bool} (hok : s.receivePacket p clock = .ok (s', accepted)) :
    s.toRtpStream.receiveStreamPacket p clock = (s'.toRtpStream, accepted) := by
  unfold receivePacket at hok
  cases hs : s.toRtpStream.receiveStreamPacket p clock with
  | mk stream ok =>
      rw [hs] at hok
      cases ok with
      | false =>
          cases hok
          rfl
      | true =>
          dsimp only at hok
          rw [if_neg (by simp)] at hok
          obtain ⟨buffer, -, hok⟩ := bind_eq_ok.mp hok
          obtain ⟨counter, -, hok⟩ := bind_eq_ok.mp hok
          cases hok
          rfl

end RtpStreamSender

namespace RtcTransport

/-- A sender is registered under the SSRC. -/
def hasSender (t : RtcTransport) (ssrc : UInt32) : Bool := (t.getStreamSenderBySsrc ssrc).isSome

/-- The packet `OnSendPacket` builds. -/
def builtPacket (t : RtcTransport) (ssrc : UInt32) (data : List UInt8) : RtpPacket :=
  { header := sendHeader ssrc t.testSeq (t.timestamp + 100)
    body := data
    size := 0 + UInt32.ofNat (RtpPacket.kHeaderSize + data.length) }

/-! ## One call -/

section Call

variable {t t' : RtcTransport} {ssrc : UInt32} {data : List UInt8} {clock : Clock}
  {out : Option RtpPacket}

theorem sendPacket_none (h : t.hasSender ssrc = false) :
    t.sendPacket ssrc data clock = .ok (t, none) := by
  unfold hasSender at h
  unfold sendPacket
  rw [Option.isSome_eq_false_iff, Option.isNone_iff_eq_none] at h
  rw [h]

/-- A payload that is longer than the room in the packet is written past its end. -/
theorem sendPacket_error (h : t.hasSender ssrc = true)
    (hlen : ¬ data.length ≤ RtpPacket.kPayloadRoom) :
    t.sendPacket ssrc data clock = .error .outOfRange := by
  obtain ⟨entry, hget⟩ := Option.isSome_iff_exists.mp h
  unfold sendPacket
  rw [hget]
  dsimp only
  unfold RtpPacket.copyPayload
  rw [if_neg hlen]

/-- A call for a registered SSRC that completes. -/
theorem sendPacket_ok (h : t.hasSender ssrc = true)
    (hok : t.sendPacket ssrc data clock = .ok (t', out)) :
    data.length ≤ RtpPacket.kPayloadRoom ∧
    ∃ s s' accepted, t.getStreamSenderBySsrc ssrc = some (ssrc, s) ∧
      s.receivePacket (t.builtPacket ssrc data) clock = .ok (s', accepted) ∧
      t' = { t.storeSender ssrc s' with testSeq := t.testSeq + 1, timestamp := t.timestamp + 100 } ∧
      out = if accepted then some (t.builtPacket ssrc data) else none := by
  obtain ⟨⟨key, s⟩, hget⟩ := Option.isSome_iff_exists.mp h
  have hkey : key = ssrc := Table.find_fst hget
  subst hkey
  unfold sendPacket at hok
  rw [hget] at hok
  dsimp only at hok
  unfold RtpPacket.copyPayload at hok
  split at hok
  · cases hok
  · next p hp =>
      split at hp
      · next hlen =>
          cases hp
          obtain ⟨⟨s', accepted⟩, hrecv, heq⟩ := bind_eq_ok.mp hok
          cases heq
          exact ⟨hlen, s, s', accepted, hget, hrecv, rfl, rfl⟩
      · cases hp

theorem sendPacket_eq {s s' : RtpStreamSender} {accepted : Bool}
    (hget : t.getStreamSenderBySsrc ssrc = some (ssrc, s))
    (hlen : data.length ≤ RtpPacket.kPayloadRoom)
    (hrecv : s.receivePacket (t.builtPacket ssrc data) clock = .ok (s', accepted)) :
    t.sendPacket ssrc data clock = .ok
      ({ t.storeSender ssrc s' with testSeq := t.testSeq + 1, timestamp := t.timestamp + 100 },
        if accepted then some (t.builtPacket ssrc data) else none) := by
  unfold sendPacket
  rw [hget]
  dsimp only
  unfold RtpPacket.copyPayload
  rw [if_pos hlen]
  dsimp only
  rw [bind_eq_ok]
  exact ⟨(s', accepted), hrecv, rfl⟩

/-- No call registers or removes a sender. -/
theorem hasSender_storeSender {s s' : RtpStreamSender} (hfind : Table.find ssrc t.rtpSendStreams =
    some (ssrc, s)) (k : UInt32) : (t.storeSender ssrc s').hasSender k = t.hasSender k := by
  unfold hasSender getStreamSenderBySsrc storeSender
  by_cases hk : k = ssrc
  · rw [hk, hfind]
    dsimp only
    rw [Table.find_store_self hfind]
    rfl
  · dsimp only
    rw [Table.find_store_ne hk]

theorem hasSender_of_sendPacket (hok : t.sendPacket ssrc data clock = .ok (t', out)) :
    t'.hasSender = t.hasSender := by
  cases h : t.hasSender ssrc with
  | false =>
      rw [sendPacket_none h] at hok
      cases hok
      rfl
  | true =>
      obtain ⟨-, s, s', accepted, hget, -, rfl, -⟩ := sendPacket_ok h hok
      funext k
      exact hasSender_storeSender hget k

end Call

/-! ## Runs of calls -/

/-- A call of `OnSendPacket`. -/
structure SendCall where
  ssrc : UInt32
  data : List UInt8
  clock : Clock

/-- A call lets out what it hands to `OnPacketSent`, if anything. -/
def sendStep (t : RtcTransport) (c : SendCall) :
    Except Fault (RtcTransport × List (Option RtpPacket)) :=
  (t.sendPacket c.ssrc c.data c.clock).map fun (t, out) => (t, [out])

theorem sendStep_eq_ok {t t' : RtcTransport} {c : SendCall} {outs : List (Option RtpPacket)} :
    t.sendStep c = .ok (t', outs) ↔
      ∃ out, t.sendPacket c.ssrc c.data c.clock = .ok (t', out) ∧ outs = [out] := by
  unfold sendStep
  cases t.sendPacket c.ssrc c.data c.clock with
  | error f => exact ⟨fun h => (by cases h), fun ⟨_, h, _⟩ => (by cases h)⟩
  | ok so =>
      constructor
      · intro h
        cases h
        exact ⟨so.2, rfl, rfl⟩
      · rintro ⟨out, h, rfl⟩
        cases h
        rfl

/-- The calls one after the other. -/
def sendAll (t : RtcTransport) (cs : List SendCall) :
    Except Fault (RtcTransport × List (Option RtpPacket)) := Trace.runOut sendStep t cs

theorem sendAll_cons {t t' : RtcTransport} {c : SendCall} {cs : List SendCall}
    {outs : List (Option RtpPacket)} :
    t.sendAll (c :: cs) = .ok (t', outs) ↔
      ∃ t₁ out rest, t.sendPacket c.ssrc c.data c.clock = .ok (t₁, out) ∧
        t₁.sendAll cs = .ok (t', rest) ∧ outs = out :: rest := by
  unfold sendAll
  rw [Trace.runOut_cons_iff]
  constructor
  · rintro ⟨t₁, out, rest, hstep, hrun, rfl⟩
    obtain ⟨out, hsend, rfl⟩ := sendStep_eq_ok.mp hstep
    exact ⟨t₁, out, rest, hsend, hrun, rfl⟩
  · rintro ⟨t₁, out, rest, hsend, hrun, rfl⟩
    exact ⟨t₁, [out], rest, sendStep_eq_ok.mpr ⟨out, hsend, rfl⟩, hrun, rfl⟩

/-- The SSRCs of the calls that have a sender. -/
def served (t : RtcTransport) (cs : List SendCall) : List UInt32 :=
  (cs.map SendCall.ssrc).filter t.hasSender

/-- The sequence numbers of the packets sent on `ssrc`. -/
def numbersOf (ssrc : UInt32) (outs : List (Option RtpPacket)) : List UInt16 :=
  (outs.filterMap id).filterMap fun p =>
    if p.getSsrc = ssrc then some p.getSequenceNumber else none

/-- The call's own packet is handed over, if it has a sender. -/
def HandedOver (t : RtcTransport) (c : SendCall) (out : Option RtpPacket) : Prop :=
  t.hasSender c.ssrc = true → ∃ p, out = some p ∧ p.getSsrc = c.ssrc ∧ p.body = c.data

/-- The calls complete, hand over every packet that has a sender, and the numbers on every
    SSRC are successive. -/
def Continuous (t : RtcTransport) (cs : List SendCall) : Prop :=
  ∃ t' outs, t.sendAll cs = .ok (t', outs) ∧ List.Forall₂ t.HandedOver cs outs ∧
    ∀ ssrc, (numbersOf ssrc outs).IsChain fun a b => b = a + 1

/-- The clock does not go back between the calls. -/
def Timely : UInt64 → List SendCall → Prop
  | _, [] => True
  | first, c :: cs => ∃ last, c.clock.Between first last ∧ Timely last cs

/-! ## The numbers that are sent -/

theorem served_cons (t : RtcTransport) (c : SendCall) (cs : List SendCall) :
    t.served (c :: cs) =
      if t.hasSender c.ssrc = true then c.ssrc :: t.served cs else t.served cs := by
  unfold served
  rw [List.map_cons, List.filter_cons]

theorem served_congr {t t' : RtcTransport} (h : t'.hasSender = t.hasSender)
    (cs : List SendCall) : t'.served cs = t.served cs := by
  unfold served
  rw [h]

theorem forall₂_handedOver_congr {t t' : RtcTransport} (h : t'.hasSender = t.hasSender)
    {cs : List SendCall} {outs : List (Option RtpPacket)} :
    List.Forall₂ t'.HandedOver cs outs ↔ List.Forall₂ t.HandedOver cs outs := by
  unfold HandedOver
  rw [h]

theorem numbersOf_cons_none (ssrc : UInt32) (outs : List (Option RtpPacket)) :
    numbersOf ssrc (none :: outs) = numbersOf ssrc outs := rfl

theorem numbersOf_cons_some (ssrc : UInt32) (p : RtpPacket) (outs : List (Option RtpPacket)) :
    numbersOf ssrc (some p :: outs) =
      if p.getSsrc = ssrc then p.getSequenceNumber :: numbersOf ssrc outs
      else numbersOf ssrc outs := by
  unfold numbersOf
  rw [List.filterMap_cons, id_eq]
  dsimp only
  rw [List.filterMap_cons]
  split <;> simp_all

/-- When every packet is handed over, the numbers of an SSRC are its draws from the counter,
    and all payloads fit. -/
theorem numbersOf_sendAll (cs : List SendCall) : ∀ {t t' : RtcTransport}
    {outs : List (Option RtpPacket)} {n : Nat}, t.testSeq = UInt16.ofNat n →
    t.sendAll cs = .ok (t', outs) → List.Forall₂ t.HandedOver cs outs →
    (∀ c ∈ cs, t.hasSender c.ssrc = true → c.data.length ≤ RtpPacket.kPayloadRoom) ∧
    ∀ ssrc, numbersOf ssrc outs = (draws ssrc n (t.served cs)).map UInt16.ofNat := by
  induction cs with
  | nil =>
      intro t t' outs n _ hok _
      cases hok
      exact ⟨by simp, fun ssrc => rfl⟩
  | cons c cs ih =>
      intro t t' outs n hn hok hall
      obtain ⟨t₁, out, rest, hsend, hrun, rfl⟩ := sendAll_cons.mp hok
      obtain ⟨hhead, htail⟩ := List.forall₂_cons.mp hall
      have hsame := hasSender_of_sendPacket hsend
      rw [← forall₂_handedOver_congr hsame] at htail
      rw [served_cons]
      cases hreg : t.hasSender c.ssrc with
      | false =>
          rw [sendPacket_none hreg] at hsend
          cases hsend
          obtain ⟨hfits, hnumbers⟩ := ih hn hrun htail
          refine ⟨List.forall_mem_cons.mpr ⟨fun h => ?_, hfits⟩, fun ssrc => ?_⟩
          · rw [hreg] at h
            cases h
          · rw [numbersOf_cons_none, hnumbers, if_neg Bool.false_ne_true]
      | true =>
          obtain ⟨hlen, s, s', accepted, -, -, rfl, hout⟩ := sendPacket_ok hreg hsend
          obtain ⟨hfits, hnumbers⟩ := ih (n := n + 1) (by simp [hn]) hrun htail
          rw [hsame] at hfits
          rw [served_congr hsame] at hnumbers
          refine ⟨List.forall_mem_cons.mpr ⟨fun _ => hlen, hfits⟩, fun ssrc => ?_⟩
          obtain ⟨p, hp, -⟩ := hhead hreg
          rw [hout] at hp
          cases accepted with
          | false => cases hp
          | true =>
              rw [hout, if_pos rfl, numbersOf_cons_some, hnumbers, if_pos rfl, draws]
              show (if c.ssrc = ssrc then t.testSeq :: _ else _) = _
              rw [hn]
              split <;> rfl

/-- `UInt16.ofNat` turns successive numbers modulo `2^16` into successive numbers. -/
theorem isChain_ofNat_iff (l : List Nat) :
    (l.map UInt16.ofNat).IsChain (fun a b => b = a + 1) ↔
      l.IsChain fun i j => j ≡ i + 1 [MOD 65536] := by
  rw [List.isChain_map]
  refine iff_of_eq (congrArg (List.IsChain · l) ?_)
  funext i j
  rw [← UInt16.ofNat_one, ← UInt16.ofNat_add, ← UInt16.toNat_inj, UInt16.toNat_ofNat',
    UInt16.toNat_ofNat']
  rfl

/-! ## Runs in which every number is the next -/

/-- Successive modulo `2^16`. -/
def Successive (l : List Nat) : Prop := l.IsChain fun i j => j ≡ i + 1 [MOD 65536]

/-- Before the calls `cs`: the counter is at `n`, and the draws still to come on an SSRC
    follow the maximum of its stream, if it has started. -/
structure InTurn (t : RtcTransport) (n : Nat) (cs : List SendCall) : Prop where
  seq : t.testSeq = UInt16.ofNat n
  draws : ∀ k, Successive (draws k n (t.served cs))
  started : ∀ k s, t.getStreamSenderBySsrc k = some (k, s) → s.started = true →
    ∃ j, s.maxSeq = UInt16.ofNat j ∧ Successive (j :: SharedCounter.draws k n (t.served cs))

section Step

variable {t : RtcTransport} {n : Nat} {c : SendCall} {cs : List SendCall} {first last : UInt64}

theorem InTurn.skip (h : InTurn t n (c :: cs)) (hreg : t.hasSender c.ssrc = false) :
    InTurn t n cs := by
  have hserved : t.served (c :: cs) = t.served cs := by
    rw [served_cons, hreg, if_neg Bool.false_ne_true]
  exact ⟨h.seq, hserved ▸ h.draws, hserved ▸ h.started⟩

/-- A call in turn is accepted, and the calls after it are in turn. -/
theorem InTurn.step (h : InTurn t n (c :: cs)) (hs : t.SendersReady first)
    (hclock : c.clock.Between first last) (hreg : t.hasSender c.ssrc = true)
    (hlen : c.data.length ≤ RtpPacket.kPayloadRoom) :
    ∃ t', t.sendPacket c.ssrc c.data c.clock = .ok (t', some (t.builtPacket c.ssrc c.data)) ∧
      t'.SendersReady last ∧ InTurn t' (n + 1) cs := by
  obtain ⟨⟨key, s⟩, hget⟩ := Option.isSome_iff_exists.mp hreg
  obtain rfl : key = c.ssrc := Table.find_fst hget
  have hserved : t.served (c :: cs) = c.ssrc :: t.served cs := by
    rw [served_cons, hreg, if_pos rfl]
  have hdraws : ∀ k, SharedCounter.draws k n (t.served (c :: cs)) =
      if c.ssrc = k then n :: SharedCounter.draws k (n + 1) (t.served cs)
      else SharedCounter.draws k (n + 1) (t.served cs) := fun k => by rw [hserved]; rfl
  obtain ⟨s', accepted, hrecv, hready, -⟩ := RtpStreamSender.receivePacket_ready
    (hs _ (Table.find_mem hget)) hclock (t.builtPacket c.ssrc c.data)
  -- the number follows the stream's maximum, so that the stream takes the packet
  have hnext : s.started = true →
      (t.builtPacket c.ssrc c.data).getSequenceNumber = s.maxSeq + 1 := by
    intro hstarted
    obtain ⟨j, hj, hchain⟩ := h.started c.ssrc s hget hstarted
    rw [hdraws, if_pos rfl] at hchain
    have hmod := (List.isChain_cons_cons.mp hchain).1
    show t.testSeq = s.maxSeq + 1
    rw [h.seq, hj, ← UInt16.toNat_inj, UInt16.toNat_ofNat', UInt16.toNat_add,
      UInt16.toNat_ofNat', UInt16.toNat_one, Nat.mod_add_mod]
    exact hmod
  obtain ⟨hacc, hstarted, hmax⟩ := @RtpStream.receive_next s.toRtpStream _ c.clock hnext
  rw [RtpStreamSender.receivePacket_stream hrecv] at hacc hstarted hmax
  dsimp only at hacc hstarted hmax
  subst hacc
  refine ⟨_, sendPacket_eq hget hlen hrecv, (hs.mono hclock.le).store hready c.ssrc, ?_⟩
  have hsame := hasSender_of_sendPacket (sendPacket_eq hget hlen hrecv)
  refine ⟨by simp [h.seq], ?_, ?_⟩
  · intro k
    rw [served_congr hsame]
    have hk := h.draws k
    rw [hdraws] at hk
    split at hk
    · exact (List.isChain_cons.mp hk).2
    · exact hk
  · intro k s₁ hget₁ hstarted₁
    rw [served_congr hsame]
    by_cases hk : c.ssrc = k
    · subst hk
      have hfind : Table.find c.ssrc (Table.store c.ssrc s' t.rtpSendStreams) =
        some (c.ssrc, s') := Table.find_store_self hget
      cases hfind.symm.trans hget₁
      refine ⟨n, hmax.trans h.seq, ?_⟩
      have hk := h.draws c.ssrc
      rw [hdraws, if_pos rfl] at hk
      exact hk
    · have hfind : Table.find k (Table.store c.ssrc s' t.rtpSendStreams) =
        Table.find k t.rtpSendStreams := Table.find_store_ne (Ne.symm hk)
      obtain ⟨j, hj, hchain⟩ := h.started k s₁ (hfind.symm.trans hget₁) hstarted₁
      rw [hdraws, if_neg hk] at hchain
      exact ⟨j, hj, hchain⟩

end Step

theorem InTurn.run (cs : List SendCall) : ∀ {t : RtcTransport} {n : Nat} {first : UInt64},
    InTurn t n cs → t.SendersReady first → Timely first cs →
    (∀ c ∈ cs, t.hasSender c.ssrc = true → c.data.length ≤ RtpPacket.kPayloadRoom) →
    ∃ t' outs, t.sendAll cs = .ok (t', outs) ∧ List.Forall₂ t.HandedOver cs outs := by
  induction cs with
  | nil => exact fun _ _ _ _ => ⟨_, [], rfl, .nil⟩
  | cons c cs ih =>
      intro t n first h hs htime hfits
      obtain ⟨last, hclock, htime⟩ := htime
      obtain ⟨hfit, hfits⟩ := List.forall_mem_cons.mp hfits
      cases hreg : t.hasSender c.ssrc with
      | false =>
          obtain ⟨t', outs, hrun, hall⟩ := ih (h.skip hreg) (hs.mono hclock.le) htime hfits
          refine ⟨t', none :: outs,
            sendAll_cons.mpr ⟨t, none, outs, sendPacket_none hreg, hrun, rfl⟩,
            .cons (fun h => ?_) hall⟩
          rw [hreg] at h
          cases h
      | true =>
          obtain ⟨t₁, hsend, hs₁, h₁⟩ := h.step hs hclock hreg (hfit hreg)
          have hsame := hasSender_of_sendPacket hsend
          obtain ⟨t', outs, hrun, hall⟩ := ih h₁ hs₁ htime (hsame ▸ hfits)
          exact ⟨t', some (t.builtPacket c.ssrc c.data) :: outs,
            sendAll_cons.mpr ⟨t₁, _, outs, hsend, hrun, rfl⟩,
            .cons (fun _ => ⟨_, rfl, rfl, rfl⟩) ((forall₂_handedOver_congr hsame).mp hall)⟩

/-- No sender has taken a packet yet. -/
def Unstarted (t : RtcTransport) : Prop := ∀ entry ∈ t.rtpSendStreams, entry.2.started = false

/-- The run is right exactly when all payloads fit and the draws of every SSRC are
    successive. -/
theorem continuous_iff_draws {t : RtcTransport} {first : UInt64} (hs : t.SendersReady first)
    (hfresh : t.Unstarted) {cs : List SendCall} (htime : Timely first cs) :
    t.Continuous cs ↔
      (∀ c ∈ cs, t.hasSender c.ssrc = true → c.data.length ≤ RtpPacket.kPayloadRoom) ∧
      ∀ k, Successive (draws k t.testSeq.toNat (t.served cs)) := by
  have hseq : t.testSeq = UInt16.ofNat t.testSeq.toNat := UInt16.ofNat_toNat.symm
  constructor
  · rintro ⟨t', outs, hok, hall, hchain⟩
    obtain ⟨hfits, hnumbers⟩ := numbersOf_sendAll cs hseq hok hall
    refine ⟨hfits, fun k => ?_⟩
    have hk := hchain k
    rw [hnumbers, isChain_ofNat_iff] at hk
    exact hk
  · rintro ⟨hfits, hdraws⟩
    have hturn : InTurn t t.testSeq.toNat cs := by
      refine ⟨hseq, hdraws, fun k s hget hstarted => ?_⟩
      rw [hfresh _ (Table.find_mem hget)] at hstarted
      cases hstarted
    obtain ⟨t', outs, hok, hall⟩ := hturn.run cs hs htime hfits
    refine ⟨t', outs, hok, hall, fun k => ?_⟩
    rw [(numbersOf_sendAll cs hseq hok hall).2, isChain_ofNat_iff]
    exact hdraws k

/-- **The numbers on every stream are successive, and every packet goes out**, exactly when
    the payloads fit and a stream always comes back after a multiple of `2^16` packets of
    other streams. -/
theorem continuous_iff {t : RtcTransport} {first : UInt64} (hreach : Reachable first t)
    (hfresh : t.Unstarted) (cs : List SendCall) (htime : Timely first cs) :
    t.Continuous cs ↔
      (∀ c ∈ cs, t.hasSender c.ssrc = true → c.data.length ≤ RtpPacket.kPayloadRoom) ∧
      Returns 65536 (t.served cs) := by
  rw [continuous_iff_draws (ready_of_reachable hreach).senders hfresh htime]
  exact and_congr_right fun _ => isChain_draws_iff 65536 (t.served cs) t.testSeq.toNat

/-- A transport with the senders 1 and 2. -/
def twoSenders : RtcTransport :=
  (({} : RtcTransport).createRtpStream 1 .streamSender (some [])).createRtpStream 2 .streamSender
    (some [])

theorem reachable_twoSenders : Reachable 1 twoSenders :=
  @Reachable.step 1 1 _ twoSenders (.createRtpStream 2 .streamSender (some [])) still
    (@Reachable.step 1 1 {} _ (.createRtpStream 1 .streamSender (some [])) still (.init 1)
      still_between rfl) still_between rfl

theorem unstarted_twoSenders : twoSenders.Unstarted :=
  List.forall_mem_cons.mpr ⟨rfl, List.forall_mem_singleton.mpr rfl⟩

/-- A call without a payload, at the one time of `still`. -/
def bareCall (ssrc : UInt32) : SendCall := { ssrc, data := [], clock := still }

/-- Two senders in turn: the numbers of the first are 0 and 2. -/
theorem not_continuous :
    Reachable 1 twoSenders ∧ twoSenders.Unstarted ∧
    Timely 1 [bareCall 1, bareCall 2, bareCall 1] ∧
    ¬ twoSenders.Continuous [bareCall 1, bareCall 2, bareCall 1] := by
  have htime : Timely 1 [bareCall 1, bareCall 2, bareCall 1] :=
    ⟨1, still_between, 1, still_between, 1, still_between, trivial⟩
  refine ⟨reachable_twoSenders, unstarted_twoSenders, htime, ?_⟩
  rw [continuous_iff_draws (ready_of_reachable reachable_twoSenders).senders
    unstarted_twoSenders htime]
  rintro ⟨-, hdraws⟩
  have hserved : twoSenders.served [bareCall 1, bareCall 2, bareCall 1] = [1, 2, 1] := rfl
  have hchain := hdraws 1
  rw [hserved] at hchain
  exact absurd (List.isChain_cons_cons.mp hchain).1 (by decide)

/-- Each sender sends all its packets before the other starts. -/
theorem continuous_bursts :
    twoSenders.Continuous [bareCall 1, bareCall 1, bareCall 3, bareCall 2, bareCall 2] := by
  have htime : Timely 1 [bareCall 1, bareCall 1, bareCall 3, bareCall 2, bareCall 2] :=
    ⟨1, still_between, 1, still_between, 1, still_between, 1, still_between, 1, still_between,
      trivial⟩
  have hreturns : Returns 65536 [(1 : UInt32), 1, 2, 2] := by
    refine (isChain_draws_iff 65536 _ 0).mp fun k => ?_
    by_cases h1 : 1 = k
    · subst h1
      simp [draws, Nat.ModEq]
    · by_cases h2 : 2 = k
      · subst h2
        simp [draws, Nat.ModEq]
      · simp [draws, h1, h2]
  exact (continuous_iff reachable_twoSenders unstarted_twoSenders _ htime).mpr
    ⟨by simp [bareCall], hreturns⟩

end RtcTransport

end Bifrost.Rtc
