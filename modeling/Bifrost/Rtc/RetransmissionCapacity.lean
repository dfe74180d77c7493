/-
  The capacity of `RtpRetransmissionBuffer`: when does the deque stay within `max_items_`?

  A packet in order that does not fit makes the code compute how many slots have to go and
  call `RemoveOldest` with that number, but `RemoveOldest(numItems)` has an `if` where the
  removal needs a loop: one item goes, and the blank slots behind it.

  * `RoomMade`: that much is enough for this packet (or the packet takes another branch).
  * `insert_length_le_iff`: one `Insert` into a deque within the bound stays within it
    exactly when room is made.
  * `capacity_iff`: the same over whole runs.
-/
import Bifrost.Rtc.RetransmissionWindow

namespace Bifrost.Rtc.RtpRetransmissionBuffer

open SeqManager SparseWindow

/-- If `p` comes in order and the removal of `need` slots, not of all, makes it fit, then the
    front item and the blank slots right behind it are that many. -/
def RoomMade (b : RtpRetransmissionBuffer) (p : RtpPacket) : Prop :=
  match b.getNewest with
  | none => True
  | some newestItem =>
    let slots := b.live (newestTimestamp p newestItem)
    let gap := p.getSequenceNumber - newestItem.sequenceNumber - 1
    let need := slots.length + gap.toNat + 1 - b.maxItems.toNat
    isSeqHigherThan p.getSequenceNumber newestItem.sequenceNumber = true →
    isSeqLowerThan p.getTimestamp newestItem.timestamp = false →
    need < slots.length → need ≤ 1 + (slots.tail.takeWhile Option.isNone).length

instance (b : RtpRetransmissionBuffer) (p : RtpPacket) : Decidable (RoomMade b p) := by
  unfold RoomMade
  split <;> infer_instance

/-! ## One insertion -/

theorem length_dropWhile_add {α : Type} (q : α → Bool) (l : List α) :
    (l.takeWhile q).length + (l.dropWhile q).length = l.length := by
  rw [← List.length_append, List.takeWhile_append_dropWhile]

theorem insertInOrder_length_le_iff {b b' : RtpRetransmissionBuffer} {p : RtpPacket}
    {newestItem : Item} (h : InWindow b) (hy : b.buffer.getLast? = some (some newestItem))
    (hlen : b.buffer.length ≤ b.maxItems.toNat)
    (hhigh : isSeqHigherThan p.getSequenceNumber newestItem.sequenceNumber = true)
    (hok : b.insertInOrder p newestItem = .ok b') :
    b'.buffer.length ≤ b.maxItems.toNat ↔
      (isSeqLowerThan p.getTimestamp newestItem.timestamp = false →
        let need := b.buffer.length +
          (p.getSequenceNumber - newestItem.sequenceNumber - 1).toNat + 1 - b.maxItems.toNat
        need < b.buffer.length → need ≤ 1 + (b.buffer.tail.takeWhile Option.isNone).length) := by
  have hne : b.buffer ≠ [] := by rintro hnil; simp [hnil] at hy
  have hpos := List.length_pos_iff.mpr hne
  have hmax := b.maxItems.toNat_lt
  have hgap : (p.getSequenceNumber - newestItem.sequenceNumber - 1).toNat < 65535 := by
    have h1 := ((isSeqHigherThan16_iff _ _).mp hhigh).1
    have h2 := (p.getSequenceNumber - newestItem.sequenceNumber).toNat_lt
    rw [UInt16.toNat_sub]
    simp only [UInt16.reduceToNat]
    omega
  generalize hg : (p.getSequenceNumber - newestItem.sequenceNumber - 1).toNat = gap at *
  unfold insertInOrder at hok
  dsimp only at hok
  rw [hg] at hok
  split_ifs at hok with hts hfull hmany
  · -- the packet is dropped
    cases hok
    exact ⟨fun _ hts' => absurd (hts.symm.trans hts') (by decide), fun _ => hlen⟩
  · -- the deque is emptied
    cases hok
    rw [UInt16.toNat_ofNat', Nat.mod_eq_of_lt (by omega)] at hmany
    simp only [clear, pushBack, List.nil_append, List.length_singleton]
    exact ⟨fun _ _ hneed => by omega, fun _ => by omega⟩
  · -- some slots are removed
    rw [UInt16.toNat_ofNat', Nat.mod_eq_of_lt (by omega)] at hmany
    have hneed : 1 < b.buffer.length := by omega
    have hrem : b.removeOldestItems (UInt16.ofNat (b.buffer.length + gap + 1 -
        b.maxItems.toNat)) = b.removeOldest := by
      have hn : (UInt16.ofNat (b.buffer.length + gap + 1 - b.maxItems.toNat)).toNat =
          b.buffer.length + gap + 1 - b.maxItems.toNat := by
        rw [UInt16.toNat_ofNat']
        omega
      unfold removeOldestItems
      rw [hn]
      exact if_pos (by omega)
    obtain ⟨slots, hslots, -, -, -, hdef⟩ := removeOldest_eq h hy hneed
    rw [hrem, hslots] at hok
    cases hok
    have hsplit := length_dropWhile_add Option.isNone b.buffer.tail
    rw [← hdef, List.length_tail] at hsplit
    simp only [withSlots_buffer, List.length_append, List.length_replicate,
      List.length_singleton]
    constructor
    · intro hle _ _
      omega
    · intro hroom
      have := hroom (by simpa using hts) (by omega)
      omega
  · -- everything fits
    cases hok
    simp only [List.length_append, List.length_replicate, List.length_singleton]
    exact ⟨fun _ _ _ => by omega, fun _ => by omega⟩

theorem insertOlder_length_le {b b' : RtpRetransmissionBuffer} {p : RtpPacket}
    {oldestItem newestItem : Item} (hlen : b.buffer.length ≤ b.maxItems.toNat)
    (hok : b.insertOlder p oldestItem newestItem = .ok b') :
    b'.buffer.length ≤ b.maxItems.toNat := by
  rcases b.insertOlder_cases p oldestItem newestItem with ⟨herr, -⟩ | hdrop | ⟨-, -, hroom, heq⟩
  · cases herr.symm.trans hok
  · rw [← Except.ok.inj (hdrop.symm.trans hok)]
    exact hlen
  · rw [← Except.ok.inj (heq.symm.trans hok)]
    simp only [withSlots_buffer, List.length_cons, List.length_append, List.length_replicate]
    omega

theorem insertBetween_length_le {b b' : RtpRetransmissionBuffer} {p : RtpPacket}
    {oldestItem : Item} (hok : b.insertBetween p oldestItem = .ok b') :
    b'.buffer.length = b.buffer.length := by
  unfold insertBetween at hok
  simp only [bind, Except.bind] at hok
  split at hok
  · cases hok
  split at hok
  · cases hok; rfl
  split at hok
  · cases hok
  split_ifs at hok
  · cases hok; rfl
  · cases hok; rfl
  · cases hok; exact List.length_set

/-- A full step: within the bound before, within the bound after exactly when room is made. -/
theorem insert_length_le_iff {b b' : RtpRetransmissionBuffer} {p : RtpPacket} (h : InWindow b)
    (hmax : 1 ≤ b.maxItems.toNat) (hlen : b.buffer.length ≤ b.maxItems.toNat)
    (hok : b.insert p = .ok b') : b'.buffer.length ≤ b.maxItems.toNat ↔ RoomMade b p := by
  have hlive (n : UInt32) : (b.withSlots (b.live n)).buffer.length ≤
      (b.withSlots (b.live n)).maxItems.toNat := (b.live_length_le n).trans hlen
  cases insert_cases h hok with
  | first hnil heq =>
      have hroom : RoomMade b p := by simp [RoomMade, getNewest, hnil]
      exact iff_of_true (by simpa [heq] using hmax) hroom
  | afresh z y hz hy hfresh heq =>
      have hnew : b.getNewest = some y := by rw [getNewest, hy]; rfl
      simp only [RoomMade, hnew]
      refine iff_of_true (by simpa [heq] using hmax) fun hhigh _ hneed => ?_
      rcases hfresh with hlow | hnil
      · rw [isSeqLowerThan_asymm hlow] at hhigh
        cases hhigh
      · rw [hnil] at hneed
        exact absurd hneed (Nat.not_lt_zero _)
  | inOrder z y z' hc hhigh hok =>
      have hnew : b.getNewest = some y := by rw [getNewest, hc.newest]; rfl
      have hins := insertInOrder_length_le_iff hc.window hc.back (hlive _) hhigh hok
      simp only [withSlots_buffer, withSlots_maxItems] at hins
      simp only [RoomMade, hnew]
      rw [hins]
      exact ⟨fun hr _ => hr, fun hr => hr hhigh⟩
  | older z y z' hc hhigh hok =>
      have hnew : b.getNewest = some y := by rw [getNewest, hc.newest]; rfl
      have hins := insertOlder_length_le (hlive _) hok
      simp only [RoomMade, hnew]
      exact iff_of_true hins fun hh => absurd hh hhigh
  | between z y z' hc hhigh hlow hok =>
      have hnew : b.getNewest = some y := by rw [getNewest, hc.newest]; rfl
      simp only [RoomMade, hnew]
      refine iff_of_true ?_ fun hh => absurd hh hhigh
      rw [insertBetween_length_le hok]
      exact hlive _

/-! ## Whole runs -/

theorem maxItems_step (b : RtpRetransmissionBuffer) (c : Call) (b' : RtpRetransmissionBuffer)
    (h : InWindow b) (hok : step b c = .ok b') : b'.maxItems = b.maxItems := by
  cases c with
  | clear => cases hok; rfl
  | insert p =>
      obtain ⟨slots, rfl⟩ := insert_frame h hok
      rfl

section Runs

variable {maxItems : UInt16} {maxRetransmissionDelayMs clockRate : UInt32}

/-- **The capacity over whole runs.** The deque stays within `maxItems` after every call that
    completes exactly when every insertion that completes had room made for it. -/
theorem capacity_iff (maxItems : UInt16) (maxRetransmissionDelayMs clockRate : UInt32)
    (hmax : 1 ≤ maxItems.toNat) (calls : List Call) :
    let after := Trace.runE step (create maxItems maxRetransmissionDelayMs clockRate)
    (∀ pre post b, calls = pre ++ post → after pre = .ok b →
      b.buffer.length ≤ maxItems.toNat) ↔
    (∀ pre p post b b', calls = pre ++ .insert p :: post → after pre = .ok b →
      b.insert p = .ok b' → RoomMade b p) := by
  intro after
  have hiff := @Trace.eachState_iff _ _ _ step
    (fun b => b.buffer.length ≤ maxItems.toNat)
    (fun b => InWindow b ∧ b.maxItems = maxItems)
    (fun b c => ∀ p, c = .insert p → RoomMade b p)
    (create maxItems maxRetransmissionDelayMs clockRate)
    ⟨inWindow_create _ _ _, rfl⟩ (Nat.zero_le _)
    (fun b c b' ⟨h, hm⟩ hok => ⟨inWindow_step b c b' h hok, (maxItems_step b c b' h hok).trans hm⟩)
    ?_ calls
  · refine hiff.trans ⟨fun h pre p post b b' hsplit hpre hok => ?_,
      fun h pre c post b b' hsplit hpre hok p hc => ?_⟩
    · exact h pre (.insert p) post b b' hsplit hpre hok p rfl
    · subst hc
      exact h pre p post b b' hsplit hpre hok
  · intro b c b' ⟨hw, hm⟩ hlen hok
    cases c with
    | clear =>
        cases hok
        exact iff_of_true (Nat.zero_le _) (fun p hc => by cases hc)
    | insert p =>
        rw [← hm] at hmax hlen ⊢
        rw [insert_length_le_iff hw hmax hlen hok]
        exact ⟨fun h q hq => by cases hq; exact h, fun h => h p rfl⟩

end Runs

/-- Packets 1, 2, 3 fill a buffer of three; packet 5 leaves a gap. -/
def gapCalls : List Call :=
  [.insert (.media 1 160), .insert (.media 2 320), .insert (.media 3 480),
    .insert (.media 5 800)]

theorem gap_exceeds_capacity :
    ¬ ∀ b, Trace.runE step (create 3 1000 16000) gapCalls = .ok b → b.buffer.length ≤ 3 := by
  intro h
  have hlen := h _ rfl
  exact absurd hlen (by decide)

theorem capacity_iff_three :
    let after := Trace.runE step (create 3 1000 16000)
    (∀ pre post b, gapCalls = pre ++ post → after pre = .ok b → b.buffer.length ≤ 3) ↔
    (∀ pre p post b b', gapCalls = pre ++ .insert p :: post → after pre = .ok b →
      b.insert p = .ok b' → RoomMade b p) :=
  capacity_iff 3 1000 16000 (by decide) gapCalls

end Bifrost.Rtc.RtpRetransmissionBuffer
