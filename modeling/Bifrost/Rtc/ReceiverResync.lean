/-
  What a re-synchronisation does to a receiver.

  `UpdateSequence` re-synchronises by `InitSequence`, "pretend this was the first packet".
  `InitSequence` sets `base_seq_`, `max_seq_` and `bad_seq_` but not `cycles_`, and nothing
  tells the NACK generator, whose `Reset` is never called. So, for runs of `ReceivePacket`:

  * `fresh_iff`: the expected packets count from the re-sync on exactly when no cycle had
    been counted before it;
  * `head_agrees_iff`: the generator keeps the stream's `max_seq_` exactly as long as no
    re-sync goes backwards.
-/
import Bifrost.Rtc.RtpStreamReceiver
import Bifrost.Rtc.RtpStreamSequence

namespace Bifrost.Rtc.RtpStreamReceiver

open SeqManager RtpStream

/-! ## What a call does -/

/-- A call that completes does to the stream what `ReceiveStreamPacket` does. A packet that
    is not accepted changes nothing else. -/
theorem receivePacket_cases {r r' : RtpStreamReceiver} {p : RtpPacket} {clock : Clock}
    {accepted : Bool} (h : r.receivePacket p clock = .ok (r', accepted)) :
    r.toRtpStream.receiveStreamPacket p clock = (r'.toRtpStream, accepted) ∧
    if accepted then
      ({ r with toRtpStream := r'.toRtpStream } : RtpStreamReceiver).passToNackGenerator p
        (clock.from 3) = .ok r'.nackGenerator
    else
      r' = { r with toRtpStream := r'.toRtpStream } := by
  unfold receivePacket at h
  cases hs : r.toRtpStream.receiveStreamPacket p clock with
  | mk stream ok =>
      rw [hs] at h
      cases ok with
      | false => cases h; exact ⟨rfl, rfl⟩
      | true =>
          dsimp only at h
          rw [if_neg (by simp), bind_eq_ok] at h
          obtain ⟨nack, hnack, h⟩ := h
          rw [bind_eq_ok] at h
          obtain ⟨counter, -, h⟩ := h
          cases h
          exact ⟨rfl, hnack⟩

theorem params_receivePacket {r r' : RtpStreamReceiver} {p : RtpPacket} {clock : Clock}
    {accepted : Bool} (h : r.receivePacket p clock = .ok (r', accepted)) :
    r'.params = r.params := by
  have hparams := @receive_params r.toRtpStream p clock
  rwa [(receivePacket_cases h).1] at hparams

theorem receive_cases {r r' : RtpStreamReceiver} {a : Arrival} (h : r.receive a = .ok r') :
    ∃ accepted, r.receivePacket a.packet a.clock = .ok (r', accepted) := by
  unfold receive at h
  rw [bind_eq_ok] at h
  obtain ⟨⟨s, accepted⟩, hs, h⟩ := h
  cases h
  exact ⟨accepted, hs⟩

/-- A run of a receiver is one of its stream. -/
theorem runE_receive_stream (as : List Indexed) : ∀ {r r' : RtpStreamReceiver},
    Trace.runE receive r (as.map Indexed.toArrival) = .ok r' →
      r'.toRtpStream = Trace.run RtpStream.step r.toRtpStream as := by
  induction as with
  | nil => intro r r' h; cases h; rfl
  | cons a as ih =>
      intro r r' h
      simp only [List.map_cons, Trace.runE] at h
      cases hr : r.receive a.toArrival with
      | error f => rw [hr] at h; cases h
      | ok m =>
          rw [hr] at h
          obtain ⟨accepted, hp⟩ := receive_cases hr
          rw [ih h, Trace.run_cons, RtpStream.step, (receivePacket_cases hp).1]

/-! ## The expected packets -/

/-- The packet completes a re-sync. -/
def Resyncs (st : RtpStream) (p : RtpPacket) : Prop :=
  st.started = true ∧ st.verdict p.getSequenceNumber = .resync

instance (st : RtpStream) (p : RtpPacket) : Decidable (Resyncs st p) :=
  inferInstanceAs (Decidable (_ ∧ _))

/-- After a re-sync the counters follow the index again, on top of the cycles counted
    before. -/
theorem follows_resync {st : RtpStream} {a : Indexed} (h : Resyncs st a.packet) :
    (RtpStream.step st a).1.baseSeq = a.packet.getSequenceNumber.toUInt32 ∧
    Follows (RtpStream.step st a).1 (st.cycles.toNat - 65536 * (a.index / 65536)) a.index := by
  have hv := h.2
  rw [← @start_of_started st a.packet (a.clock 0) h.1] at hv
  obtain ⟨ts, ms, hr⟩ := receive_resync hv
  rw [RtpStream.step, hr, start_of_started h.1]
  refine ⟨rfl, h.1, a.number, ?_⟩
  have := st.cycles.toNat_lt
  show (st.cycles.toNat : Int) = _
  omega

/-- **A re-sync is a fresh start exactly when no cycle had been counted**: from any state
    and along any packets in the window that follow, the expected packets are those from
    the re-sync on. -/
theorem fresh_iff {r r' : RtpStreamReceiver} {a : Indexed} {rest : List Indexed}
    (hresync : Resyncs r.toRtpStream a.packet) (hwin : Windowed a.index rest)
    (hrun : Trace.runE receive r ((a :: rest).map Indexed.toArrival) = .ok r') :
    (r'.getExpectedPackets.toNat : Int) = (highestIndex a.index rest - a.index + 1) % 2 ^ 32 ↔
      r.cycles = 0 := by
  obtain ⟨hbase, hfollow⟩ := follows_resync hresync
  obtain ⟨-, hbase', hfollow'⟩ := follows_run rest hfollow hwin
  have hstream : r'.toRtpStream =
      Trace.run RtpStream.step (RtpStream.step r.toRtpStream a).1 rest :=
    runE_receive_stream (a :: rest) hrun
  have hext := extent_toNat hfollow'
  rw [hbase', hbase, UInt16.toNat_toUInt32, a.number, ← hstream] at hext
  have hlt := r.cycles.toNat_lt
  have hexp : (r'.getExpectedPackets.toNat : Int) =
      (r.cycles.toNat + (highestIndex a.index rest - a.index + 1)) % 2 ^ 32 := by
    rw [getExpectedPackets_eq, UInt32.toNat_add]
    simp only [UInt32.reduceToNat]
    omega
  rw [hexp, ← UInt32.toNat_inj]
  simp only [UInt32.reduceToNat]
  omega

/-- A receiver as the transport creates it, for stream 1. -/
def receiver : RtpStreamReceiver := create ⟨1, 100, 16000, true⟩ 10 []

/-- Packets with these numbers, all at one time. -/
def arrivals (seqs : List Nat) : List Arrival := seqs.map fun i => (indexed i).toArrival

/-- The receiver after these packets. -/
def after (seqs : List Nat) : RtpStreamReceiver :=
  (Trace.runE receive receiver (arrivals seqs)).toOption.getD receiver

/-- After a wrap of the number, a re-sync leaves the cycle counted. -/
theorem resync_keeps_cycle :
    ∃ r r', Trace.runE receive receiver (arrivals [65534, 65535, 65536, 30000]) = .ok r ∧
      Resyncs r.toRtpStream (indexed 30001).packet ∧
      r.receive (indexed 30001).toArrival = .ok r' ∧ r'.getExpectedPackets = 65537 :=
  ⟨_, _, rfl, by decide, rfl, by decide⟩

theorem fresh_after_resync :
    Trace.runE receive receiver (arrivals [5, 6, 30000]) = .ok (after [5, 6, 30000]) ∧
    Trace.runE receive (after [5, 6, 30000]) (arrivals [30001, 30004, 30002]) =
      .ok (after [5, 6, 30000, 30001, 30004, 30002]) ∧
    ((after [5, 6, 30000, 30001, 30004, 30002]).getExpectedPackets.toNat : Int) =
      (highestIndex 30001 [indexed 30004, indexed 30002] - 30001 + 1) % 2 ^ 32 :=
  ⟨rfl, rfl, (@fresh_iff (after [5, 6, 30000]) _ (indexed 30001) [indexed 30004, indexed 30002]
    (by decide) (by decide) rfl).mpr (by decide)⟩

/-! ## The head of the NACK generator -/

theorem addPacketsToNackList_started (g : NackGenerator) (seqStart seqEnd : UInt16)
    (clock : Clock) : (g.addPacketsToNackList seqStart seqEnd clock).1.started = g.started := by
  unfold NackGenerator.addPacketsToNackList
  dsimp only
  split_ifs <;> rfl

/-- `last_seq_` after a packet: an older packet leaves it, a newer one and the first one set
    it. -/
theorem lastSeq_receivePacket (g : NackGenerator) (p : RtpPacket) (clock : Clock) :
    (g.receivePacket p false clock).1.started = true ∧
    (g.receivePacket p false clock).1.lastSeq =
      if g.started = true ∧ isSeqLowerThan p.getSequenceNumber g.lastSeq = true then g.lastSeq
      else p.getSequenceNumber := by
  unfold NackGenerator.receivePacket
  dsimp only
  rcases Bool.eq_false_or_eq_true g.started with hst | hst
  · rw [if_neg (by simp [hst])]
    by_cases hsame : p.getSequenceNumber = g.lastSeq
    · rw [if_pos hsame, hsame, ite_self]
      exact ⟨hst, rfl⟩
    rw [if_neg hsame]
    by_cases hlow : isSeqLowerThan p.getSequenceNumber g.lastSeq = true
    · rw [if_pos hlow, if_pos ⟨hst, hlow⟩]
      split <;> exact ⟨hst, rfl⟩
    · rw [if_neg hlow, if_neg (by simp [hlow])]
      refine ⟨?_, rfl⟩
      exact (addPacketsToNackList_started _ _ _ clock).trans hst
  · rw [if_pos (by simp [hst]), if_neg (by simp [hst])]
    exact ⟨rfl, rfl⟩

/-- The generator's `last_seq_` is the stream's `max_seq_`. -/
def HeadAgrees (r : RtpStreamReceiver) : Prop :=
  r.nackGenerator.map NackGenerator.lastSeq = some r.maxSeq

instance (r : RtpStreamReceiver) : Decidable (HeadAgrees r) :=
  inferInstanceAs (Decidable (_ = _))

/-- The packet completes a re-sync to a number below `max_seq_`. -/
def ResyncsBackward (st : RtpStream) (p : RtpPacket) : Prop :=
  Resyncs st p ∧ isSeqLowerThan p.getSequenceNumber st.maxSeq = true

instance (st : RtpStream) (p : RtpPacket) : Decidable (ResyncsBackward st p) :=
  inferInstanceAs (Decidable (_ ∧ _))

/-- The stream and its generator have started together, and agree since. -/
structure Paired (r : RtpStreamReceiver) : Prop where
  useNack : r.params.useNack = true
  head : ∃ g, r.nackGenerator = some g ∧ g.started = r.started ∧
    (r.started = true → g.lastSeq = r.maxSeq)

theorem paired_create {params : Params} (hnack : params.useNack = true)
    (sendNackDelayMs : UInt32) (addr : SockAddr) : Paired (create params sendNackDelayMs addr) where
  useNack := hnack
  head := ⟨.create sendNackDelayMs, if_pos hnack, rfl, fun h => by cases h⟩

/-- The stream after an accepted packet: it has started, and its maximum is the packet's
    number unless the packet was an acceptable misorder. -/
theorem maxSeq_receive {st st' : RtpStream} {p : RtpPacket} {clock : Clock}
    (h : st.receiveStreamPacket p clock = (st', true)) :
    st'.started = true ∧ st'.maxSeq =
      if st.started = true ∧ st.verdict p.getSequenceNumber = .misorder then st.maxSeq
      else p.getSequenceNumber := by
  rcases Bool.eq_false_or_eq_true st.started with hst | hst
  · have hs := @start_of_started st p (clock 0) hst
    cases hv : st.verdict p.getSequenceNumber with
    | inOrder =>
        obtain ⟨ts, ms, hr⟩ := receive_inOrder (hs ▸ hv)
        rw [hs, h] at hr
        cases hr
        exact ⟨hst, by simp⟩
    | resync =>
        obtain ⟨ts, ms, hr⟩ := receive_resync (hs ▸ hv)
        rw [hs, h] at hr
        cases hr
        exact ⟨hst, by simp [initSequence]⟩
    | bad =>
        have hr := receive_bad (hs ▸ hv)
        rw [h] at hr
        cases hr
    | misorder =>
        obtain ⟨ts, ms, hr⟩ := receive_misorder (hs ▸ hv)
        rw [hs, h] at hr
        cases hr
        exact ⟨hst, by simp [hst]⟩
  · obtain ⟨ts, ms, hr⟩ := receive_inOrder (@verdict_first st p clock hst)
    rw [h] at hr
    cases hr
    exact ⟨by simp [start, hst], by simp [hst]⟩

theorem isSeqLowerThan_of_misorder {st : RtpStream} {seq : UInt16}
    (hv : st.verdict seq = .misorder) : isSeqLowerThan seq st.maxSeq = true := by
  have := seq.toNat_lt
  have := st.maxSeq.toNat_lt
  rw [isSeqLowerThan16_iff]
  unfold verdict at hv
  split_ifs at hv
  simp only [UInt16.toNat_sub] at *
  omega

theorem not_isSeqLowerThan_of_inOrder {st : RtpStream} {seq : UInt16}
    (hv : st.verdict seq = .inOrder) : ¬ isSeqLowerThan seq st.maxSeq = true := by
  have := seq.toNat_lt
  have := st.maxSeq.toNat_lt
  rw [isSeqLowerThan16_iff]
  unfold verdict at hv
  split_ifs at hv
  simp only [UInt16.toNat_sub] at *
  omega

theorem passToNackGenerator_eq {r : RtpStreamReceiver} {g : NackGenerator} (p : RtpPacket)
    (clock : Clock) (huse : r.params.useNack = true) (hg : r.nackGenerator = some g) :
    r.passToNackGenerator p clock = .ok (some (g.receivePacket p false clock).1) := by
  unfold passToNackGenerator
  rw [if_pos huse, hg]
  rfl

section Call

variable {r r' : RtpStreamReceiver} {p : RtpPacket} {clock : Clock}

/-- The generator after an accepted packet. -/
theorem nackGenerator_of_accepted {g : NackGenerator} (huse : r.params.useNack = true)
    (hg : r.nackGenerator = some g) (hok : r.receivePacket p clock = .ok (r', true)) :
    r'.nackGenerator = some (g.receivePacket p false (clock.from 3)).1 := by
  obtain ⟨-, hpass⟩ := receivePacket_cases hok
  have huse' : r'.params.useNack = true := by
    rw [params_receivePacket hok]
    exact huse
  rw [if_pos rfl] at hpass
  exact Except.ok.inj (hpass.symm.trans (passToNackGenerator_eq p _ huse' hg))

/-- After an accepted packet the heads agree, unless it completed a re-sync backwards. -/
theorem headAgrees_iff (h : Paired r) (hok : r.receivePacket p clock = .ok (r', true)) :
    HeadAgrees r' ↔ ¬ ResyncsBackward r.toRtpStream p := by
  obtain ⟨g, hg, hstart, hhead⟩ := h.head
  obtain ⟨hstream, -⟩ := receivePacket_cases hok
  obtain ⟨-, hmax⟩ := maxSeq_receive hstream
  obtain ⟨-, hlast⟩ := lastSeq_receivePacket g p (clock.from 3)
  have hagrees : HeadAgrees r' ↔
      (g.receivePacket p false (clock.from 3)).1.lastSeq = r'.maxSeq := by
    unfold HeadAgrees
    rw [nackGenerator_of_accepted h.useNack hg hok, Option.map_some, Option.some_inj]
  rw [hagrees, hlast, hmax]
  unfold ResyncsBackward Resyncs
  rcases Bool.eq_false_or_eq_true r.started with hst | hst
  · rw [hstart, hhead hst]
    simp only [hst, true_and]
    cases hv : r.verdict p.getSequenceNumber with
    | inOrder => simp [not_isSeqLowerThan_of_inOrder hv]
    | misorder => simp [isSeqLowerThan_of_misorder hv]
    | bad =>
        rw [← @start_of_started r.toRtpStream p (clock 0) hst] at hv
        exact absurd hv (receive_accepted_iff.mp (congrArg Prod.snd hstream))
    | resync =>
        -- the generator takes a lower number for a late packet
        by_cases hlow : isSeqLowerThan p.getSequenceNumber r.maxSeq = true
        · have hne : r.maxSeq ≠ p.getSequenceNumber := by
            intro heq
            rw [heq, isSeqLowerThan_irrefl] at hlow
            cases hlow
          simp [hlow, hne]
        · simp [hlow]
  · simp [hstart, hst]

/-- Stream and generator stay paired, except through a re-sync backwards. -/
theorem paired_receivePacket {accepted : Bool} (h : Paired r)
    (hback : ¬ ResyncsBackward r.toRtpStream p)
    (hok : r.receivePacket p clock = .ok (r', accepted)) : Paired r' := by
  obtain ⟨g, hg, hstart, hhead⟩ := h.head
  obtain ⟨hstream, hrest⟩ := receivePacket_cases hok
  have huse : r'.params.useNack = true := by
    rw [params_receivePacket hok]
    exact h.useNack
  cases accepted with
  | true =>
      refine ⟨huse, _, nackGenerator_of_accepted h.useNack hg hok, ?_, fun _ => ?_⟩
      · rw [(lastSeq_receivePacket g p _).1, (maxSeq_receive hstream).1]
      · have hhead' := (headAgrees_iff h hok).mpr hback
        unfold HeadAgrees at hhead'
        rw [nackGenerator_of_accepted h.useNack hg hok] at hhead'
        exact Option.some.inj hhead'
  | false =>
      -- a discarded packet is not the first one, and leaves the maximum
      have hv := verdict_of_discarded hstream
      have hst : r.started = true := by
        by_contra hst
        rw [verdict_first (by simpa using hst)] at hv
        cases hv
      rw [receive_bad hv, start_of_started hst] at hstream
      have hmax : r'.maxSeq = r.maxSeq := by rw [← congrArg (·.1.maxSeq) hstream]
      have hst' : r'.started = r.started := by rw [← congrArg (·.1.started) hstream]
      rw [if_neg (by simp)] at hrest
      have hnack : r'.nackGenerator = r.nackGenerator := by rw [hrest]
      refine ⟨huse, g, hnack.trans hg, hst' ▸ hstart, fun _ => ?_⟩
      rw [hmax]
      exact hhead hst

end Call

/-- **The heads agree after every accepted packet exactly when no step of the run completes
    a re-sync backwards.** -/
theorem head_agrees_iff (params : Params) (hnack : params.useNack = true)
    (sendNackDelayMs : UInt32) (addr : SockAddr) (arrivals : List Arrival)
    (r : RtpStreamReceiver)
    (hrun : Trace.runE receive (create params sendNackDelayMs addr) arrivals = .ok r) :
    Trace.EachStep receive
      (fun r a => ∀ r', r.receivePacket a.packet a.clock = .ok (r', true) → HeadAgrees r')
      (create params sendNackDelayMs addr) arrivals ↔
    Trace.EachStep receive (fun r a => ¬ ResyncsBackward r.toRtpStream a.packet)
      (create params sendNackDelayMs addr) arrivals := by
  refine Trace.eachStep_iff (I := Paired) ?_ ?_ (paired_create hnack _ _) hrun
  · intro r a r' h hr
    obtain ⟨accepted, hok⟩ := receive_cases hr
    constructor
    · intro hagree hback
      -- a re-sync is accepted
      have hv := hback.1.2
      rw [← @start_of_started r.toRtpStream a.packet (a.clock 0) hback.1.1] at hv
      have hsnd := congrArg Prod.snd (receivePacket_cases hok).1
      obtain rfl : accepted = true :=
        hsnd.symm.trans (receive_accepted_iff.mpr (by rw [hv]; simp))
      exact (headAgrees_iff h hok).mp (hagree r' hok) hback
    · intro hback r'' hok'
      exact (headAgrees_iff h hok').mpr hback
  · intro r a r' h hback hr
    obtain ⟨accepted, hok⟩ := receive_cases hr
    exact paired_receivePacket h hback hok

/-- A re-sync backwards leaves the generator at the old head. -/
theorem resync_backward_splits :
    ∃ r r', Trace.runE receive receiver (arrivals [40000, 10000]) = .ok r ∧
      r.receivePacket (indexed 10001).packet (indexed 10001).clock = .ok (r', true) ∧
      ¬ HeadAgrees r' :=
  ⟨_, _, rfl, rfl, by decide⟩

theorem heads_agree_in_window :
    Trace.EachStep receive
      (fun r a => ∀ r', r.receivePacket a.packet a.clock = .ok (r', true) → HeadAgrees r')
      receiver (arrivals [5, 6, 9, 7]) :=
  (head_agrees_iff ⟨1, 100, 16000, true⟩ rfl 10 [] (arrivals [5, 6, 9, 7]) _ rfl).mpr (by decide)

end Bifrost.Rtc.RtpStreamReceiver
