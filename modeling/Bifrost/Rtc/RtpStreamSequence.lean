/-
  `RtpStream` against the unwrapped sequence number.

  A packet has an unwrapped index in ℤ and carries it modulo `2^16` (`Indexed`). Along
  packets that stay in the window around the highest index, `Follows st c hi` is invariant:
  `maxSeq` is the low half of the highest index `hi` and `cycles` its cycle, up to a
  constant `c` (`follows_receive`, `follows_run`). The constant decides everything:

  * a stream starts with `c` that makes the counters exact, except when its first number is
    0. `ReceiveStreamPacket` sets `max_seq_ = seq - 1 = 65535` for the first packet, and the
    wrap test of `UpdateSequence` then counts a cycle that did not happen;
  * so the counters track the index exactly when the first number is not 0 (`tracks_iff`).
-/
import Bifrost.Lib.Trace
import Bifrost.Rtc.RtpStream

namespace Bifrost.Rtc.RtpStream

/-- An arrival with the unwrapped index of its packet. -/
structure Indexed extends Arrival where
  index : Int
  number : (packet.getSequenceNumber.toNat : Int) = index % 65536

/-- Every index lies between 1499 below and 2999 above the highest index before it. -/
def Windowed : Int → List Indexed → Prop
  | _, [] => True
  | hi, a :: as => hi - 1499 ≤ a.index ∧ a.index ≤ hi + 2999 ∧ Windowed (max hi a.index) as

instance : ∀ hi as, Decidable (Windowed hi as)
  | _, [] => isTrue trivial
  | hi, a :: as =>
    have := instDecidableWindowed (max hi a.index) as
    inferInstanceAs (Decidable (_ ∧ _ ∧ _))

/-- The highest index of `hi` and those of the packets. -/
def highestIndex (hi : Int) (as : List Indexed) : Int :=
  as.foldl (fun h a => max h a.index) hi

/-- Every index is the one before it plus one. -/
def Consecutive : Int → List Indexed → Prop
  | _, [] => True
  | i, a :: as => a.index = i + 1 ∧ Consecutive a.index as

def step (st : RtpStream) (a : Indexed) : RtpStream × List Bool :=
  ((st.receiveStreamPacket a.packet a.clock).1, [(st.receiveStreamPacket a.packet a.clock).2])

/-- The counters follow the index: `maxSeq` and `cycles` are the two halves of the highest
    index, up to the constant `c`. -/
structure Follows (st : RtpStream) (c hi : Int) : Prop where
  started : st.started = true
  maxSeq : (st.maxSeq.toNat : Int) = hi % 65536
  cycles : (st.cycles.toNat : Int) = (c + 65536 * (hi / 65536)) % 2 ^ 32

/-! ## One packet in the window -/

theorem verdict_window {st : RtpStream} {s : UInt16} {hi i : Int}
    (hm : (st.maxSeq.toNat : Int) = hi % 65536) (hs : (s.toNat : Int) = i % 65536)
    (h1 : hi - 1499 ≤ i) (h2 : i ≤ hi + 2999) :
    st.verdict s = if hi ≤ i then .inOrder else .misorder := by
  unfold verdict
  have hsub := UInt16.toNat_sub s st.maxSeq
  have := s.toNat_lt
  have := st.maxSeq.toNat_lt
  by_cases hle : hi ≤ i
  · rw [if_pos hle, if_pos (by omega)]
  · rw [if_neg hle, if_neg (by omega), if_neg (by omega)]

/-- A packet in the window is accepted, and the counters follow the new highest index. -/
theorem follows_receive {st : RtpStream} {c hi : Int} (h : Follows st c hi) (a : Indexed)
    (h1 : hi - 1499 ≤ a.index) (h2 : a.index ≤ hi + 2999) :
    (st.receiveStreamPacket a.packet a.clock).2 = true ∧
    (st.receiveStreamPacket a.packet a.clock).1.baseSeq = st.baseSeq ∧
    Follows (st.receiveStreamPacket a.packet a.clock).1 c (max hi a.index) := by
  have hv := verdict_window h.maxSeq a.number h1 h2
  rw [← @start_of_started st a.packet (a.clock 0) h.started] at hv
  by_cases hle : hi ≤ a.index
  · rw [if_pos hle] at hv
    obtain ⟨ts, ms, hr⟩ := receive_inOrder hv
    rw [hr, start_of_started h.started]
    have hn := a.number
    have hm := h.maxSeq
    have hc := h.cycles
    refine ⟨rfl, rfl, h.started, ?_, ?_⟩
    · rw [hn]
      omega
    · simp only [UInt16.lt_iff_toNat_lt]
      -- a smaller number at a higher index is the first of the next cycle
      split
      · rw [UInt32.toNat_add, show kRtpSeqMod.toNat = 65536 from by decide]
        omega
      · omega
  · rw [if_neg hle] at hv
    obtain ⟨ts, ms, hr⟩ := receive_misorder hv
    rw [hr, start_of_started h.started, show max hi a.index = hi by omega]
    exact ⟨rfl, rfl, h.started, h.maxSeq, h.cycles⟩

/-! ## Runs in the window -/

theorem follows_run {c : Int} (as : List Indexed) :
    ∀ {st : RtpStream} {hi : Int}, Follows st c hi → Windowed hi as →
      (∀ ok ∈ Trace.outputs step st as, ok = true) ∧
      (Trace.run step st as).baseSeq = st.baseSeq ∧
      Follows (Trace.run step st as) c (highestIndex hi as) := by
  induction as with
  | nil => intro st hi h _; exact ⟨by simp, rfl, h⟩
  | cons a as ih =>
      intro st hi h ⟨h1, h2, hrest⟩
      obtain ⟨hok, hbase, hnext⟩ := follows_receive h a h1 h2
      obtain ⟨hoks, hbase', hrun⟩ := ih hnext hrest
      refine ⟨?_, hbase'.trans hbase, hrun⟩
      intro ok hmem
      rw [Trace.outputs_cons, List.mem_append] at hmem
      rcases hmem with hmem | hmem
      · rw [List.mem_singleton.mp hmem]
        exact hok
      · exact hoks ok hmem

/-- `cycles_ + max_seq_ - base_seq_`. -/
def extent (st : RtpStream) : UInt32 := st.cycles + st.maxSeq.toUInt32 - st.baseSeq

theorem getExpectedPackets_eq (st : RtpStream) : st.getExpectedPackets = st.extent + 1 := rfl

theorem extent_toNat {st : RtpStream} {c hi : Int} (h : Follows st c hi) :
    (st.extent.toNat : Int) = (c + hi - st.baseSeq.toNat) % 2 ^ 32 := by
  have hm := h.maxSeq
  have hc := h.cycles
  have := st.baseSeq.toNat_lt
  unfold extent
  rw [UInt32.toNat_sub, UInt32.toNat_add, UInt16.toNat_toUInt32]
  omega

theorem highestIndex_consecutive (as : List Indexed) :
    ∀ i, Consecutive i as → highestIndex i as = i + as.length := by
  induction as with
  | nil => intro i _; simp [highestIndex]
  | cons a as ih =>
      intro i ⟨ha, has⟩
      have hmax : max i a.index = a.index := by omega
      have := ih a.index has
      simp only [highestIndex, List.foldl_cons, hmax] at this ⊢
      rw [this, ha]
      simp only [List.length_cons]
      omega

/-! ## The first packet -/

/-- The cycle that the first packet counts by mistake when its number is 0. -/
def startOffset (seq : UInt16) : Int := if seq = 0 then 65536 else 0

theorem follows_first (params : Params) (a : Indexed) :
    (step { params } a).2 = [true] ∧
    (((step { params } a).1.baseSeq.toNat : Int) = a.index % 65536) ∧
    Follows (step { params } a).1
      (startOffset a.packet.getSequenceNumber - 65536 * (a.index / 65536)) a.index := by
  have hn := a.number
  have hlt := a.packet.getSequenceNumber.toNat_lt
  obtain ⟨ts, ms, hr⟩ := @receive_inOrder { params } a.packet a.clock (verdict_first rfl)
  simp only [step, hr]
  refine ⟨trivial, ?_, rfl, hn, ?_⟩
  · simp only [start, Bool.false_eq_true, if_false, initSequence]
    rw [UInt16.toNat_toUInt32, hn]
  · simp only [start, Bool.false_eq_true, if_false, initSequence, startOffset,
      UInt16.lt_iff_toNat_lt, UInt16.toNat_sub, UInt16.reduceToNat, ← UInt16.toNat_inj]
    by_cases h0 : a.packet.getSequenceNumber.toNat = 0
    · rw [if_pos (by omega), if_pos h0, UInt32.toNat_add,
        show kRtpSeqMod.toNat = 65536 from by decide]
      simp only [UInt32.reduceToNat]
      omega
    · rw [if_neg (by omega), if_neg h0]
      simp only [UInt32.reduceToNat]
      omega

/-- **The counters track the unwrapped index exactly when the first number is not 0**: every
    packet in the window is accepted in any case, and `cycles_ + max_seq_ - base_seq_` is the
    distance of the highest index from the first one. -/
theorem tracks_iff (params : Params) (first : Indexed) (rest : List Indexed)
    (hwin : Windowed first.index rest) :
    let st := Trace.run step { params } (first :: rest)
    ((∀ ok ∈ Trace.outputs step { params } (first :: rest), ok = true) ∧
      (st.extent.toNat : Int) = (highestIndex first.index rest - first.index) % 2 ^ 32 ∧
      (Consecutive first.index rest →
        st.getExpectedPackets = UInt32.ofNat (first :: rest).length)) ↔
    first.packet.getSequenceNumber ≠ 0 := by
  intro st
  obtain ⟨hok, hbase, hfollow⟩ := follows_first params first
  obtain ⟨hoks, hbase', hrun⟩ := follows_run rest hfollow hwin
  have hext : (st.extent.toNat : Int) =
      (startOffset first.packet.getSequenceNumber +
        (highestIndex first.index rest - first.index)) % 2 ^ 32 := by
    have := extent_toNat hrun
    rw [hbase', hbase] at this
    rw [show st.extent = (Trace.run step (step { params } first).1 rest).extent from rfl, this]
    omega
  constructor
  · rintro ⟨-, htrack, -⟩ h0
    rw [hext, startOffset, if_pos h0] at htrack
    omega
  · intro hne
    rw [startOffset, if_neg hne, Int.zero_add] at hext
    refine ⟨?_, hext, fun hcons => ?_⟩
    · intro ok hmem
      rw [Trace.outputs_cons, hok] at hmem
      rcases List.mem_append.mp hmem with hmem | hmem
      · exact List.mem_singleton.mp hmem
      · exact hoks ok hmem
    · rw [highestIndex_consecutive rest _ hcons] at hext
      rw [getExpectedPackets_eq, ← UInt32.toNat_inj, UInt32.toNat_add, UInt32.toNat_ofNat',
        List.length_cons]
      simp only [UInt32.reduceToNat]
      omega

/-- A packet with index `i` and its number. -/
def indexed (i : Nat) : Indexed where
  index := i
  packet := .media (UInt16.ofNat i) 0
  clock := fun _ => 1
  number := by
    rw [RtpPacket.getSequenceNumber_media, UInt16.toNat_ofNat']
    omega

/-- A stream that starts at number 0 has counted a cycle after its first packet. -/
theorem starts_at_zero_off_by_cycle :
    Windowed (indexed 0).index [] ∧
    ¬ ((Trace.run step { params := ⟨1, 96, 16000, true⟩ } [indexed 0]).extent.toNat : Int) =
      (highestIndex (indexed 0).index [] - (indexed 0).index) % 2 ^ 32 :=
  ⟨trivial, by decide⟩

theorem tracks_from_five :
    ((Trace.run step { params := ⟨1, 96, 16000, true⟩ }
      [indexed 5, indexed 6, indexed 8, indexed 7]).extent.toNat : Int) = 3 :=
  ((tracks_iff ⟨1, 96, 16000, true⟩ (indexed 5) [indexed 6, indexed 8, indexed 7]
    (by decide)).mpr (by decide)).2.1

end Bifrost.Rtc.RtpStream
