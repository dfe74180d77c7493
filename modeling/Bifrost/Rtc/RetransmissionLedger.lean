/-
  Which packets a NACK retransmits, over whole runs.

  The buffer changes in between by any insertions and clearings, `rtt_` by any report. What
  the run stores and sends is written down in a log, and the last retransmission of a packet
  is read off the log, not off the buffer: it is the last entry that sends its number since
  the number was stored.

  * `Ledger`: the items know of themselves what the log says. A number can stand in two
    slots when the deque spans more than the whole circle; then this is so for the upper one,
    and nothing was sent from the slots `Get` does not reach.
  * `ledger_insert`, `ledger_nack`: every call keeps the ledger.
  * `exact_item_iff`: a NACK item retransmits exactly the stored packets asked for that are
    due, in order, if and only if `rtt_` fits the 16 bits it is cast to and all of these
    packets stand in slots that `Get` reads.
  * `exact_retransmission_iff`: the same along every run.
-/
import Bifrost.Rtc.RetransmissionNack

namespace Bifrost.Rtc

open SeqManager SparseWindow

namespace RtpStreamSender

open RtpRetransmissionBuffer

/-! ## Runs and their log -/

/-- What a run writes down. -/
inductive Entry where
  | stored (seq : UInt16)
  | sent (p : RtpPacket) (atMs : UInt64)

/-- What happens to a sender: its buffer is filled and cleared, a report sets `rtt_`, and an
    item of a NACK arrives. -/
inductive NackEvent where
  | buffer (call : Call)
  | rtt (ms : Float32)
  | nack (nackItem : Rtcp.FeedbackRtpNackItem) (now : UInt64)

/-- The entry of a buffer call that leaves `b`: the packet stands in it, not yet resent. -/
def callEntries (b : RtpRetransmissionBuffer) : Call → List Entry
  | .insert p => if some (newItem p) ∈ b.buffer then [.stored p.getSequenceNumber] else []
  | .clear => []

theorem callEntries_insert (b : RtpRetransmissionBuffer) (p : RtpPacket) :
    callEntries b (.insert p) =
      if some (newItem p) ∈ b.buffer then [.stored p.getSequenceNumber] else [] := rfl

/-- A state and the log so far. -/
structure Logged where
  state : NackState
  log : List Entry

def nackStep (l : Logged) : NackEvent → Except Fault Logged
  | .buffer call =>
    match l.state.sender.retransmissionBuffer with
    | none => .ok l
    | some b => (RtpRetransmissionBuffer.step b call).map fun b' =>
        { state := { l.state with
            sender := { l.state.sender with retransmissionBuffer := some b' } }
          log := l.log ++ callEntries b' call }
  | .rtt ms => .ok { l with state := { l.state with sender := { l.state.sender with rtt := ms } } }
  | .nack nackItem now => (receiveNackItem l.state nackItem now).map fun r =>
      { state := r.1, log := l.log ++ r.2.map fun p => .sent p now }

/-- The effect of one entry on what is known about number `seq`. -/
def note (seq : UInt16) (last : Option UInt64) : Entry → Option UInt64
  | .stored s => if s = seq then none else last
  | .sent p atMs => if p.getSequenceNumber = seq then some atMs else last

/-- When number `seq` was last retransmitted, since it was last stored. -/
def lastSent (log : List Entry) (seq : UInt16) : Option UInt64 := log.foldl (note seq) none

/-- The last retransmission, if any, lies more than `rtt` back. -/
def Due (log : List Entry) (seq : UInt16) (rtt : UInt16) (now : UInt64) : Prop :=
  ∀ t, lastSent log seq = some t → rtt.toNat < now.toNat - t.toNat

instance (log : List Entry) (seq : UInt16) (rtt : UInt16) (now : UInt64) :
    Decidable (Due log seq rtt now) :=
  match h : lastSent log seq with
  | none => isTrue fun t ht => by rw [h] at ht; cases ht
  | some t => decidable_of_iff (rtt.toNat < now.toNat - t.toNat) (by simp [Due, h])

/-- The packets with number `seq` that are in the buffer. -/
def storedPackets (s : RtpStreamSender) (seq : UInt16) : List RtpPacket :=
  match s.retransmissionBuffer with
  | none => []
  | some b => b.buffer.filterMap fun slot => slot.bind fun item =>
      if item.sequenceNumber = seq then item.rtpPacket else none

/-- The item retransmits exactly the stored packets it asks for that are due, in the order of
    their numbers. The call reads `rtt_` if there is a buffer. -/
def Exact (l : Logged) (nackItem : Rtcp.FeedbackRtpNackItem) (now : UInt64) : Prop :=
  ∃ st' rtt, (l.state.sender.retransmissionBuffer ≠ none → l.state.sender.rttMs = .ok rtt) ∧
    receiveNackItem l.state nackItem now =
      .ok (st', (requestedNumbers nackItem.packetId nackItem.lostPacketBitmask).flatMap fun seq =>
        if Due l.log seq rtt now then l.state.sender.storedPackets seq else [])

/-- If there is a buffer, `rtt_` is a 16-bit number of milliseconds, and the stored packets
    asked for that are due stand in slots that `Get` reads. -/
def AllInReach (l : Logged) (nackItem : Rtcp.FeedbackRtpNackItem) (now : UInt64) : Prop :=
  ∀ b, l.state.sender.retransmissionBuffer = some b →
    ∃ rtt, l.state.sender.rttMs = .ok rtt ∧
      ∀ seq ∈ requestedNumbers nackItem.packetId nackItem.lostPacketBitmask,
        Due l.log seq rtt now →
        ∀ i item, b.buffer[i]? = some (some item) → item.sequenceNumber = seq → b.InReach seq i

/-! ## Reading the log -/

theorem lastSent_append (xs ys : List Entry) (seq : UInt16) :
    lastSent (xs ++ ys) seq = ys.foldl (note seq) (lastSent xs seq) := List.foldl_append

theorem lastSent_stored (log : List Entry) (s seq : UInt16) :
    lastSent (log ++ [.stored s]) seq = if s = seq then none else lastSent log seq :=
  lastSent_append _ _ _

theorem lastSent_sent (log : List Entry) (p : RtpPacket) (t : UInt64) (seq : UInt16) :
    lastSent (log ++ [.sent p t]) seq =
      if p.getSequenceNumber = seq then some t else lastSent log seq :=
  lastSent_append _ _ _

theorem sent_of_lastSent {log : List Entry} {seq : UInt16} {t : UInt64}
    (h : lastSent log seq = some t) : ∃ p, .sent p t ∈ log := by
  induction log using List.reverseRecOn with
  | nil => cases h
  | append_singleton log e ih =>
      have hmem : ∀ {p}, Entry.sent p t ∈ log → ∃ p, Entry.sent p t ∈ log ++ [e] :=
        fun hp => ⟨_, List.mem_append_left _ hp⟩
      cases e with
      | stored s =>
          rw [lastSent_stored] at h
          split_ifs at h
          obtain ⟨p, hp⟩ := ih h
          exact hmem hp
      | sent p u =>
          rw [lastSent_sent] at h
          split_ifs at h
          · obtain rfl := Option.some.inj h
            exact ⟨p, List.mem_append_right _ List.mem_cons_self⟩
          · obtain ⟨q, hq⟩ := ih h
            exact hmem hq

/-- The log's times are positive and not after `now`. -/
def Before (log : List Entry) (now : UInt64) : Prop :=
  ∀ p t, .sent p t ∈ log → 0 < t ∧ t ≤ now

/-! ## The ledger -/

/-- The items know of themselves what the log says. -/
structure Ledger (b : RtpRetransmissionBuffer) (log : List Entry) : Prop where
  window : InWindow b
  intact : AllIntact b
  /-- Of the slots with one number the uppermost is the one the log speaks of. -/
  books : ∀ (i : Nat) (item : Item), b.buffer[i]? = some (some item) →
    (∀ (j : Nat) (other : Item), i < j → b.buffer[j]? = some (some other) →
      other.sequenceNumber ≠ item.sequenceNumber) →
    item.resentAtMs = (lastSent log item.sequenceNumber).getD 0
  /-- Beyond the whole circle nothing has been sent. -/
  beyond : ∀ (i : Nat) (item : Item), 65536 ≤ i → b.buffer[i]? = some (some item) →
    lastSent log item.sequenceNumber = none

/-- An item that agrees with the log is due when the log says so. -/
theorem due_iff {item : Item} {log : List Entry} {seq rtt : UInt16} {now : UInt64}
    (hbook : item.resentAtMs = (lastSent log seq).getD 0) (hlog : Before log now) :
    (item.resentAtMs ≠ 0 ∧ now - item.resentAtMs ≤ rtt.toUInt64) ↔ ¬ Due log seq rtt now := by
  cases hlast : lastSent log seq with
  | none =>
      rw [hlast] at hbook
      simp [Due, hlast, hbook]
  | some t =>
      rw [hlast] at hbook
      obtain ⟨p, hp⟩ := sent_of_lastSent hlast
      obtain ⟨hpos, hle⟩ := hlog p t hp
      have hne : t ≠ 0 := by
        rintro rfl
        exact absurd hpos (by decide)
      simp only [Due, hlast, Option.some.injEq, forall_eq', hbook, Option.getD_some]
      rw [UInt64.le_iff_toNat_le, UInt64.toNat_sub_of_le _ _ hle, UInt16.toNat_toUInt64]
      exact ⟨fun h => by omega, fun h => ⟨hne, by omega⟩⟩

/-! ## One number of a NACK item -/

theorem filterMap_eq_singleton {α β : Type} {f : α → Option β} {l : List α} {i : Nat} {x : α}
    {v : β} (hi : l[i]? = some x) (hx : f x = some v)
    (hother : ∀ j y, j ≠ i → l[j]? = some y → f y = none) : l.filterMap f = [v] := by
  obtain ⟨hlt, rfl⟩ := List.getElem?_eq_some_iff.mp hi
  have hbelow : (l.take i).filterMap f = [] := by
    rw [List.filterMap_eq_nil_iff]
    intro y hy
    obtain ⟨j, hj, rfl⟩ := List.mem_take_iff_getElem.mp hy
    exact hother j _ (by omega) (List.getElem?_eq_getElem _)
  have habove : (l.drop (i + 1)).filterMap f = [] := by
    rw [List.filterMap_eq_nil_iff]
    intro y hy
    obtain ⟨j, hj, rfl⟩ := List.mem_drop_iff_getElem.mp hy
    exact hother (i + 1 + j) _ (by omega) (List.getElem?_eq_getElem _)
  rw [← List.take_append_drop i l, List.filterMap_append, hbelow, ← List.getElem_cons_drop hlt,
    List.filterMap_cons, hx, habove]
  rfl

theorem two_le_length_filterMap {α β : Type} {f : α → Option β} {l : List α} {i j : Nat}
    {x y : α} (hi : l[i]? = some x) (hj : l[j]? = some y) (hij : i < j) (hx : f x ≠ none)
    (hy : f y ≠ none) : 2 ≤ (l.filterMap f).length := by
  obtain ⟨hlt, rfl⟩ := List.getElem?_eq_some_iff.mp hi
  have habove : (l.drop (i + 1)).filterMap f ≠ [] := by
    intro hnil
    rw [List.filterMap_eq_nil_iff] at hnil
    refine hy (hnil y (List.mem_of_getElem? (i := j - (i + 1)) ?_))
    rw [List.getElem?_drop, show i + 1 + (j - (i + 1)) = j by omega, hj]
  obtain ⟨v, hv⟩ := Option.ne_none_iff_exists'.mp hx
  have := List.length_pos_iff.mpr habove
  rw [← List.take_append_drop i l, List.filterMap_append, ← List.getElem_cons_drop hlt,
    List.filterMap_cons, hv, List.length_append, List.length_cons]
  omega

section Number

variable {b : RtpRetransmissionBuffer} {log : List Entry} {now : UInt64} {seq rtt : UInt16}

/-- The packet of a slot, if it has number `seq`. -/
def packetOf (seq : UInt16) (slot : Option Item) : Option RtpPacket :=
  slot.bind fun item => if item.sequenceNumber = seq then item.rtpPacket else none

theorem packetOf_ne_none (hintact : AllIntact b) {i : Nat} {item : Item}
    (hi : b.buffer[i]? = some (some item)) (hseq : item.sequenceNumber = seq) :
    packetOf seq (some item) = item.rtpPacket ∧ item.rtpPacket ≠ none := by
  obtain ⟨p, hp, -⟩ := hintact item (List.mem_of_getElem? hi)
  refine ⟨if_pos hseq, ?_⟩
  rw [hp]
  exact Option.some_ne_none p

theorem packetOf_eq_none {slot : Option Item}
    (h : ∀ item, slot = some item → item.sequenceNumber ≠ seq) : packetOf seq slot = none := by
  cases slot with
  | none => rfl
  | some item => exact if_neg (h item rfl)

/-- What is stored with number `seq` and due is in reach. -/
def InReachWhenDue (b : RtpRetransmissionBuffer) (log : List Entry) (now : UInt64)
    (rtt seq : UInt16) : Prop :=
  Due log seq rtt now → ∀ (i : Nat) (item : Item), b.buffer[i]? = some (some item) →
    item.sequenceNumber = seq → b.InReach seq i

theorem stored_of_absent (hnone : ∀ (i : Nat) (item : Item), b.buffer[i]? = some (some item) →
    item.sequenceNumber ≠ seq) : b.buffer.filterMap (packetOf seq) = [] := by
  rw [List.filterMap_eq_nil_iff]
  intro slot hslot
  obtain ⟨i, hi⟩ := List.mem_iff_getElem?.mp hslot
  exact packetOf_eq_none fun item hitem => hnone i item (hitem ▸ hi)

theorem dueItem_of_absent (hw : InWindow b) (hnone : ∀ (i : Nat) (item : Item),
    b.buffer[i]? = some (some item) → item.sequenceNumber ≠ seq) :
    dueItem now rtt b seq = none := by
  cases hd : dueItem now rtt b seq with
  | none => rfl
  | some item =>
      have hget := get_of_dueItem hd
      obtain ⟨i, -, hi⟩ := get_eq_some_iff.mp hget
      exact absurd (get_number hw hget) (hnone i item hi)

section TwoSlots

variable {i j : Nat} {x y : Item} (hi : b.buffer[i]? = some (some x))
  (hj : b.buffer[j]? = some (some y)) (hx : x.sequenceNumber = seq) (hy : y.sequenceNumber = seq)
  (hij : i ≠ j)
include hi hj hx hy hij

/-- Of two slots with one number the upper one is beyond the whole circle. -/
theorem beyond_of_twice (hw : InWindow b) : ∃ k z, 65536 ≤ k ∧ b.buffer[k]? = some (some z) ∧
    z.sequenceNumber = seq := by
  rcases Nat.lt_or_gt_of_ne hij with hlt | hlt
  · have := same_number hw hi hj (hx.trans hy.symm) hlt
    exact ⟨j, y, by omega, hj, hy⟩
  · have := same_number hw hj hi (hy.trans hx.symm) hlt
    exact ⟨i, x, by omega, hi, hx⟩

theorem stored_of_twice (hintact : AllIntact b) :
    2 ≤ (b.buffer.filterMap (packetOf seq)).length := by
  obtain ⟨hpx, hsomex⟩ := packetOf_ne_none hintact hi hx
  obtain ⟨hpy, hsomey⟩ := packetOf_ne_none hintact hj hy
  rcases Nat.lt_or_gt_of_ne hij with hlt | hlt
  · exact two_le_length_filterMap hi hj hlt (by rwa [hpx]) (by rwa [hpy])
  · exact two_le_length_filterMap hj hi hlt (by rwa [hpy]) (by rwa [hpx])

end TwoSlots

/-- Beyond the circle nothing was sent, so what stands there is due. -/
theorem due_of_beyond (h : Ledger b log) {k : Nat} {z : Item} (hk : 65536 ≤ k)
    (hz : b.buffer[k]? = some (some z)) (hseq : z.sequenceNumber = seq) :
    Due log seq rtt now := by
  intro t ht
  rw [← hseq, h.beyond k z hk hz] at ht
  cases ht

section OneSlot

variable {i : Nat} {item : Item} (hi : b.buffer[i]? = some (some item))
  (hseq : item.sequenceNumber = seq) (hone : ∀ (j : Nat) (other : Item), i ≠ j →
    b.buffer[j]? = some (some other) → other.sequenceNumber ≠ seq)
include hi hone

theorem stored_of_once {p : RtpPacket} (hp : packetOf seq (some item) = some p) :
    b.buffer.filterMap (packetOf seq) = [p] := by
  refine filterMap_eq_singleton hi hp fun j slot hji hj => ?_
  exact packetOf_eq_none fun other hother => hone j other (Ne.symm hji) (hother ▸ hj)

include hseq

theorem get_of_once (hw : InWindow b) (x : Item) :
    b.get seq = .ok (some x) ↔ b.InReach seq i ∧ x = item := by
  rw [get_eq_some_iff]
  constructor
  · rintro ⟨j, hreach, hj⟩
    have hxseq := get_number hw (get_eq_some_iff.mpr ⟨j, hreach, hj⟩)
    by_cases hij : i = j
    · subst hij
      rw [hi] at hj
      exact ⟨hreach, (Option.some.inj (Option.some.inj hj)).symm⟩
    · exact absurd hxseq (hone j x hij hj)
  · rintro ⟨hreach, rfl⟩
    exact ⟨i, hreach, hi⟩

theorem inReachWhenDue_of_once : InReachWhenDue b log now rtt seq ↔
    (Due log seq rtt now → b.InReach seq i) := by
  refine forall_congr' fun _ => ⟨fun hk => hk i item hi hseq, fun hreach k x hk hx => ?_⟩
  by_cases hik : i = k
  · exact hik ▸ hreach
  · exact absurd hx (hone k x hik hk)

/-- The item there knows when it was sent. -/
theorem book_of_once (h : Ledger b log) : item.resentAtMs = (lastSent log seq).getD 0 := by
  rw [← hseq]
  refine h.books i item hi fun j other hij hj => ?_
  rw [hseq]
  exact hone j other (Nat.ne_of_lt hij) hj

theorem exact_of_once (h : Ledger b log) (hlog : Before log now) :
    ((dueItem now rtt b seq).bind Item.rtpPacket).toList =
        (if Due log seq rtt now then b.buffer.filterMap (packetOf seq) else []) ↔
      InReachWhenDue b log now rtt seq := by
  obtain ⟨hpacket, hsome⟩ := packetOf_ne_none h.intact hi hseq
  obtain ⟨p, hp⟩ := Option.ne_none_iff_exists'.mp hsome
  have hbook := book_of_once hi hseq hone h
  have hget := get_of_once hi hseq hone h.window
  rw [stored_of_once hi hone (hpacket.trans hp), inReachWhenDue_of_once hi hseq hone]
  by_cases hreach : b.InReach seq i
  · have hfound : dueItem now rtt b seq = if Due log seq rtt now then some item else none := by
      unfold dueItem
      rw [(hget item).mpr ⟨hreach, rfl⟩]
      simp only [due_iff hbook hlog, ite_not]
    rw [hfound]
    refine ⟨fun _ _ => hreach, fun _ => ?_⟩
    split_ifs
    · rw [Option.bind_some, hp]
      rfl
    · rfl
  · have hfound : dueItem now rtt b seq = none := by
      cases hd : dueItem now rtt b seq with
      | none => rfl
      | some x => exact absurd ((hget x).mp (get_of_dueItem hd)).1 hreach
    rw [hfound]
    by_cases hdue : Due log seq rtt now
    · rw [if_pos hdue]
      exact ⟨fun heq => (by cases heq), fun hr => absurd (hr hdue) hreach⟩
    · rw [if_neg hdue]
      exact ⟨fun _ h => absurd h hdue, fun _ => rfl⟩

end OneSlot

/-- **For one number**: what is sent is what is stored and due, exactly when that is in
    reach. -/
theorem exact_number_iff (h : Ledger b log) (hlog : Before log now) :
    ((dueItem now rtt b seq).bind Item.rtpPacket).toList =
        (if Due log seq rtt now then b.buffer.filterMap (packetOf seq) else []) ↔
      InReachWhenDue b log now rtt seq := by
  by_cases hnone : ∀ (i : Nat) (item : Item), b.buffer[i]? = some (some item) →
      item.sequenceNumber ≠ seq
  · -- the number is not stored
    rw [dueItem_of_absent h.window hnone, stored_of_absent hnone]
    simp only [Option.bind_none, Option.toList_none, ite_self, true_iff]
    exact fun _ i item hi hseq => absurd hseq (hnone i item hi)
  push Not at hnone
  obtain ⟨i, item, hi, hseq⟩ := hnone
  by_cases htwo : ∃ j other, i ≠ j ∧ b.buffer[j]? = some (some other) ∧
      other.sequenceNumber = seq
  · -- it stands in two slots: the upper one is out of reach and was never sent
    obtain ⟨j, other, hij, hj, hseq'⟩ := htwo
    obtain ⟨k, z, hk, hz, hzseq⟩ := beyond_of_twice hi hj hseq hseq' hij h.window
    have hdue : Due log seq rtt now := due_of_beyond h hk hz hzseq
    have hlen := stored_of_twice hi hj hseq hseq' hij h.intact
    rw [if_pos hdue]
    constructor
    · intro heq
      have := Option.length_toList_le (o := (dueItem now rtt b seq).bind Item.rtpPacket)
      rw [heq] at this
      omega
    · intro hreach
      exact absurd (hreach hdue k z hz hzseq).lt (by omega)
  · push Not at htwo
    exact exact_of_once hi hseq htwo h hlog

end Number

/-! ## One NACK item -/

/-- Two lists of keyed pieces agree when the pieces do. -/
theorem flatMap_eq_iff {α β : Type} [DecidableEq α] (key : β → α) {f g : α → List β}
    {l : List α} (hn : l.Nodup) (hf : ∀ a, ∀ x ∈ f a, key x = a) (hg : ∀ a, ∀ x ∈ g a, key x = a) :
    l.flatMap f = l.flatMap g ↔ ∀ a ∈ l, f a = g a := by
  have hpiece : ∀ {h : α → List β}, (∀ a, ∀ x ∈ h a, key x = a) → ∀ {l : List α}, l.Nodup →
      ∀ a ∈ l, (l.flatMap h).filter (fun x => decide (key x = a)) = h a := by
    intro h hh l
    induction l with
    | nil => exact fun _ a ha => by cases ha
    | cons c l ih =>
        intro hn a ha
        obtain ⟨hc, hn⟩ := List.nodup_cons.mp hn
        rw [List.flatMap_cons, List.filter_append]
        by_cases hac : a = c
        · subst hac
          rw [List.filter_eq_self.mpr (fun x hx => decide_eq_true (hh a x hx)),
            List.filter_eq_nil_iff.mpr, List.append_nil]
          intro x hx
          obtain ⟨d, hd, hxd⟩ := List.mem_flatMap.mp hx
          rw [hh d x hxd, decide_eq_true_eq]
          rintro rfl
          exact hc hd
        · rw [List.filter_eq_nil_iff.mpr, List.nil_append,
            ih hn a ((List.mem_cons.mp ha).resolve_left hac)]
          intro x hx
          rw [hh c x hx, decide_eq_true_eq]
          exact Ne.symm hac
  constructor
  · intro heq a ha
    rw [← hpiece hf hn a ha, heq, hpiece hg hn a ha]
  · exact fun h => List.flatMap_congr h

theorem sentPackets_eq_flatMap (now : UInt64) (rtt : UInt16) (b : RtpRetransmissionBuffer)
    (numbers : List UInt16) : sentPackets now rtt b numbers =
      numbers.flatMap fun seq => ((dueItem now rtt b seq).bind Item.rtpPacket).toList := by
  rw [sentPackets, List.filterMap_eq_flatMap_toList]

theorem packetOf_number {b : RtpRetransmissionBuffer} (hintact : AllIntact b) {seq : UInt16}
    {p : RtpPacket} (h : p ∈ b.buffer.filterMap (packetOf seq)) : p.getSequenceNumber = seq := by
  obtain ⟨slot, hslot, hp⟩ := List.mem_filterMap.mp h
  obtain ⟨item, rfl, hitem⟩ := Option.bind_eq_some_iff.mp hp
  split_ifs at hitem with hseq
  obtain ⟨q, hq, -, hnum, -⟩ := hintact item hslot
  rw [hq] at hitem
  rw [← Option.some.inj hitem, ← hnum, hseq]

theorem dueItem_number {b : RtpRetransmissionBuffer} (hw : InWindow b) (hintact : AllIntact b)
    {now : UInt64} {rtt seq : UInt16} {p : RtpPacket}
    (h : (dueItem now rtt b seq).bind Item.rtpPacket = some p) : p.getSequenceNumber = seq := by
  obtain ⟨item, hdue, hp⟩ := Option.bind_eq_some_iff.mp h
  have hget := get_of_dueItem hdue
  obtain ⟨i, -, hi⟩ := get_eq_some_iff.mp hget
  obtain ⟨q, hq, -, hnum, -⟩ := hintact item (List.mem_of_getElem? hi)
  rw [hp] at hq
  rw [Option.some.inj hq, ← hnum, get_number hw hget]

/-- **One NACK item**, with the ledger in order. -/
theorem exact_item_iff {l : Logged} {now : UInt64}
    (hledger : ∀ b, l.state.sender.retransmissionBuffer = some b → Ledger b l.log)
    (hlen : l.state.container.length = kMaxRequestedPackets + 1) (hlog : Before l.log now)
    (nackItem : Rtcp.FeedbackRtpNackItem) :
    Exact l nackItem now ↔ AllInReach l nackItem now := by
  unfold Exact AllInReach
  cases hbuf : l.state.sender.retransmissionBuffer with
  | none =>
      obtain ⟨container, -, hok⟩ := receiveNackItem_none hbuf hlen nackItem now
      refine ⟨fun _ b hb => (by cases hb), fun _ => ⟨{ l.state with container }, 0, ?_, ?_⟩⟩
      · exact fun hne => absurd rfl hne
      · rw [hok]
        simp [storedPackets, hbuf]
  | some b =>
      have h := hledger b hbuf
      have hstored : ∀ seq, l.state.sender.storedPackets seq = b.buffer.filterMap (packetOf seq) :=
        fun seq => by rw [storedPackets, hbuf]; rfl
      cases hrtt : l.state.sender.rttMs with
      | error fault =>
          rw [receiveNackItem_error hbuf hlen hrtt nackItem now]
          constructor
          · rintro ⟨st', rtt, -, hok⟩
            cases hok
          · intro hreach
            obtain ⟨rtt, hok, -⟩ := hreach b rfl
            cases hok
      | ok rtt =>
          obtain ⟨container, -, hok⟩ :=
            receiveNackItem_eq hbuf h.window h.intact hlen hrtt nackItem now
          simp only [Option.some.injEq, forall_eq', ne_eq, reduceCtorEq, not_false_eq_true,
            forall_const, hok, sentPackets_eq_flatMap, hstored, Except.ok.injEq, Prod.mk.injEq,
            exists_eq_left']
          rw [flatMap_eq_iff RtpPacket.getSequenceNumber (nodup_requestedNumbers _ _)]
          · exact forall₂_congr fun seq _ => exact_number_iff h hlog
          · intro seq p hp
            exact dueItem_number h.window h.intact (Option.mem_toList.mp hp)
          · intro seq p hp
            split_ifs at hp
            · exact packetOf_number h.intact hp
            · cases hp

/-! ## Buffer calls keep the ledger -/

theorem allIntact_live {b : RtpRetransmissionBuffer} (h : AllIntact b) (n : UInt32) :
    AllIntact (b.withSlots (b.live n)) :=
  fun item hitem => h item ((b.live_suffix n).subset hitem)

theorem ledger_live {b : RtpRetransmissionBuffer} {log : List Entry} (h : Ledger b log)
    (n : UInt32) : Ledger (b.withSlots (b.live n)) log := by
  obtain ⟨pre, hpre⟩ := b.live_suffix n
  have hslot : ∀ i, b.buffer[pre.length + i]? = (b.live n)[i]? := fun i => by
    rw [← hpre, List.getElem?_append_right (Nat.le_add_right _ _), Nat.add_sub_cancel_left]
  refine ⟨inWindow_live h.window n, allIntact_live h.intact n, ?_, ?_⟩
  · intro i item hi hupper
    refine h.books (pre.length + i) item (by rw [hslot]; exact hi) fun j other hij hj => ?_
    refine hupper (j - pre.length) other (by omega) ?_
    rw [withSlots_buffer, ← hslot, show pre.length + (j - pre.length) = j by omega, hj]
  · intro i item hle hi
    exact h.beyond (pre.length + i) item (by omega) (by rw [hslot]; exact hi)

/-- Beside the new packet `b'` has items of `b` only, none above its place there unless the
    buffer is not too long, and what stood above one of them still does. -/
def Origin (b : RtpRetransmissionBuffer) (p : RtpPacket) (b' : RtpRetransmissionBuffer) : Prop :=
  ∀ (i : Nat) (item : Item), b'.buffer[i]? = some (some item) → item = newItem p ∨
    ∃ k : Nat, (i ≤ k ∨ b'.buffer.length ≤ 65536) ∧ b.buffer[k]? = some (some item) ∧
      ∀ (j : Nat) (other : Item), k < j → b.buffer[j]? = some (some other) →
        ∃ i' : Nat, i < i' ∧ b'.buffer[i']? = some (some other)

theorem ledger_stored {b b' : RtpRetransmissionBuffer} {log : List Entry} {p : RtpPacket}
    (h : Ledger b log) (hw : InWindow b') (hnew : some (newItem p) ∈ b'.buffer)
    (horigin : Origin b p b') : Ledger b' (log ++ [.stored p.getSequenceNumber]) := by
  have hlast : ∀ seq, p.getSequenceNumber ≠ seq →
      lastSent (log ++ [.stored p.getSequenceNumber]) seq = lastSent log seq :=
    fun seq hne => (lastSent_stored _ _ _).trans (if_neg hne)
  have hlast_new : lastSent (log ++ [.stored p.getSequenceNumber]) p.getSequenceNumber = none :=
    (lastSent_stored _ _ _).trans (if_pos rfl)
  refine ⟨hw, ?_, ?_, ?_⟩
  · intro item hitem
    obtain ⟨i, hi⟩ := List.mem_iff_getElem?.mp hitem
    rcases horigin i item hi with rfl | ⟨k, -, hk, -⟩
    · exact intact_newItem p
    · exact h.intact item (List.mem_of_getElem? hk)
  · intro i item hi hupper
    rcases horigin i item hi with rfl | ⟨k, hik, hk, hhigher⟩
    · rw [show (newItem p).sequenceNumber = p.getSequenceNumber from rfl, hlast_new]
      rfl
    have hbook := h.books k item hk fun j other hkj hj => by
      obtain ⟨i', hi', hget⟩ := hhigher j other hkj hj
      exact hupper i' other hi' hget
    by_cases hseq : p.getSequenceNumber = item.sequenceNumber
    · -- the new packet has the same number and stands below: this slot is beyond the circle
      obtain ⟨j, hj⟩ := List.mem_iff_getElem?.mp hnew
      have hlt : i < b'.buffer.length := (List.getElem?_eq_some_iff.mp hi).1
      rcases Nat.lt_trichotomy i j with hij | rfl | hji
      · exact absurd hseq (hupper j (newItem p) hij hj)
      · rw [hi] at hj
        rw [← hseq, hlast_new, Option.some.inj (Option.some.inj hj)]
        rfl
      · have := same_number hw hj hi hseq hji
        rw [hbook, h.beyond k item (by omega) hk, ← hseq, hlast_new]
    · rw [hbook, hlast _ hseq]
  · intro i item hle hi
    have hlt : i < b'.buffer.length := (List.getElem?_eq_some_iff.mp hi).1
    rcases horigin i item hi with rfl | ⟨k, hik, hk, -⟩
    · exact hlast_new
    · by_cases hseq : p.getSequenceNumber = item.sequenceNumber
      · rw [← hseq, hlast_new]
      · rw [hlast _ hseq, h.beyond k item (by omega) hk]

section Branches

variable (b : RtpRetransmissionBuffer) (p : RtpPacket)

theorem origin_dropped : Origin b p b :=
  fun i _ hi => Or.inr ⟨i, Or.inl (Nat.le_refl i), hi, fun j _ hij hj => ⟨j, hij, hj⟩⟩

theorem origin_inOrder {slots : List (Option Item)} (hsuf : slots <:+ b.buffer) (g : Nat) :
    Origin b p (b.withSlots (slots ++ List.replicate g none ++ [some (newItem p)])) := by
  intro i item hi
  obtain ⟨pre, hpre⟩ := hsuf
  have hslot : ∀ k, k < slots.length → b.buffer[pre.length + k]? = slots[k]? := fun k _ => by
    rw [← hpre, List.getElem?_append_right (Nat.le_add_right _ _), Nat.add_sub_cancel_left]
  rw [withSlots_buffer, List.append_assoc] at hi ⊢
  rcases Nat.lt_or_ge i slots.length with hlt | hge
  · rw [List.getElem?_append_left hlt] at hi
    refine Or.inr ⟨pre.length + i, Or.inl (by omega), by rw [hslot i hlt, hi],
      fun j other hij hj => ⟨j - pre.length, by omega, ?_⟩⟩
    have hj' : j - pre.length < slots.length := by
      have := (List.getElem?_eq_some_iff.mp hj).1
      rw [← hpre, List.length_append] at this
      omega
    rw [List.getElem?_append_left hj', ← hslot _ hj',
      show pre.length + (j - pre.length) = j by omega, hj]
  · rw [List.getElem?_append_right hge] at hi
    have := List.mem_of_getElem? hi
    exact Or.inl (by simpa using this)

theorem origin_older {g : Nat} (hroom : b.buffer.length + g + 1 ≤ b.maxItems.toNat) :
    Origin b p (b.withSlots (some (newItem p) :: (List.replicate g none ++ b.buffer))) := by
  have hmax := b.maxItems.toNat_lt
  intro i item hi
  rw [withSlots_buffer] at hi ⊢
  cases i with
  | zero => exact Or.inl (Option.some.inj (Option.some.inj hi)).symm
  | succ i =>
      rw [List.getElem?_cons_succ] at hi
      have hge : g ≤ i := by
        by_contra hlt
        rw [List.getElem?_append_left (by simpa using hlt),
          List.getElem?_replicate_of_lt (by omega)] at hi
        cases hi
      rw [List.getElem?_append_right (by simpa using hge), List.length_replicate] at hi
      refine Or.inr ⟨i - g, Or.inr ?_, hi, fun j other hij hj => ⟨j + g + 1, by omega, ?_⟩⟩
      · simp only [List.length_cons, List.length_append, List.length_replicate]
        omega
      · rw [List.getElem?_cons_succ, List.getElem?_append_right (by simp), List.length_replicate,
          Nat.add_sub_cancel, hj]

theorem origin_between {idx : Nat} (hblank : b.buffer[idx]? = some none) :
    Origin b p (b.withSlots (b.buffer.set idx (some (newItem p)))) := by
  have hlt := (List.getElem?_eq_some_iff.mp hblank).1
  intro i item hi
  rw [withSlots_buffer] at hi ⊢
  by_cases hidx : idx = i
  · subst hidx
    rw [List.getElem?_set_self hlt] at hi
    exact Or.inl (Option.some.inj (Option.some.inj hi)).symm
  · rw [List.getElem?_set_ne hidx] at hi
    refine Or.inr ⟨i, Or.inl (Nat.le_refl i), hi, fun j other hij hj => ⟨j, hij, ?_⟩⟩
    have hj' : idx ≠ j := by
      rintro rfl
      rw [hblank] at hj
      cases hj
    rw [List.getElem?_set_ne hj', hj]

end Branches

theorem ledger_outcome {b b' : RtpRetransmissionBuffer} {log : List Entry} {p : RtpPacket}
    (h : Ledger b log) (ho : Outcome b p b') :
    Ledger b' (log ++ callEntries b' (.insert p)) := by
  have hw := inWindow_outcome h.window ho
  rw [callEntries_insert]
  cases ho with
  | only =>
      rw [if_pos (by simp)]
      refine ledger_stored h hw (by simp) fun i item hi => Or.inl ?_
      have := List.mem_of_getElem? hi
      simpa using this
  | dropped =>
      split_ifs with hmem
      · exact ledger_stored h hw hmem (origin_dropped b p)
      · rwa [List.append_nil]
  | inOrder slots newestItem g hsuf hfront hnewest hnum =>
      rw [if_pos (by simp)]
      exact ledger_stored h hw (by simp) (origin_inOrder b p hsuf g)
  | older oldestItem g holdest hnum hroom =>
      rw [if_pos (by simp)]
      exact ledger_stored h hw (by simp) (origin_older b p hroom)
  | between oldestItem idx holdest hblank hnum =>
      have hlt := (List.getElem?_eq_some_iff.mp hblank).1
      have hmem : some (newItem p) ∈ (b.withSlots (b.buffer.set idx (some (newItem p)))).buffer :=
        List.mem_of_getElem? (List.getElem?_set_self hlt)
      rw [if_pos hmem]
      exact ledger_stored h hw hmem (origin_between b p hblank)

/-- **A buffer call keeps the ledger.** -/
theorem ledger_call {b b' : RtpRetransmissionBuffer} {log : List Entry} {call : Call}
    (h : Ledger b log) (hok : RtpRetransmissionBuffer.step b call = .ok b') :
    Ledger b' (log ++ callEntries b' call) := by
  cases call with
  | insert p =>
      obtain ⟨n, ho⟩ := outcome_of_insert h.window hok
      exact ledger_outcome (ledger_live h n) ho
  | clear =>
      cases hok
      refine ⟨window_nil, fun item hitem => (by cases hitem), ?_, ?_⟩
      · exact fun i item hi => by simp [clear] at hi
      · exact fun i item _ hi => by simp [clear] at hi

/-! ## A NACK keeps the ledger -/

section Nack

variable {b : RtpRetransmissionBuffer} {log : List Entry} {now : UInt64} {rtt seq : UInt16}

/-- Then the number stands in one slot only. -/
theorem unique_slot (h : Ledger b log) (hreach : InReachWhenDue b log now rtt seq) {i j : Nat}
    {x y : Item} (hi : b.buffer[i]? = some (some x)) (hj : b.buffer[j]? = some (some y))
    (hx : x.sequenceNumber = seq) (hy : y.sequenceNumber = seq) : i = j := by
  by_contra hij
  obtain ⟨k, z, hk, hz, hzseq⟩ := beyond_of_twice hi hj hx hy hij h.window
  exact absurd (hreach (due_of_beyond h hk hz hzseq) k z hz hzseq).lt (by omega)

/-- What one number of a NACK writes into the log. -/
def sentEntries (now : UInt64) (rtt : UInt16) (b : RtpRetransmissionBuffer) (seq : UInt16) :
    List Entry :=
  ((dueItem now rtt b seq).bind Item.rtpPacket).toList.map fun p => .sent p now

theorem sentEntries_number (hw : InWindow b) (hintact : AllIntact b) {t : UInt16} (hne : t ≠ seq) :
    lastSent (log ++ sentEntries now rtt b seq) t = lastSent log t := by
  unfold sentEntries
  cases hp : (dueItem now rtt b seq).bind Item.rtpPacket with
  | none => rw [Option.toList_none, List.map_nil, List.append_nil]
  | some p =>
      rw [Option.toList_some, List.map_singleton, lastSent_sent, if_neg]
      rw [dueItem_number hw hintact hp]
      exact Ne.symm hne

theorem ledger_markDue (h : Ledger b log) (hreach : InReachWhenDue b log now rtt seq) :
    Ledger (markDue now rtt b seq) (log ++ sentEntries now rtt b seq) := by
  cases hdue : dueItem now rtt b seq with
  | none =>
      rw [markDue_of_none hdue, sentEntries, hdue]
      simpa using h
  | some item =>
      obtain ⟨i, -, hi, heq⟩ := markDue_eq hdue
      have hseq : item.sequenceNumber = seq := get_number h.window (get_of_dueItem hdue)
      obtain ⟨p, hp, -, hnum, -⟩ := h.intact item (List.mem_of_getElem? hi)
      have hentries : sentEntries now rtt b seq = [.sent p now] := by
        rw [sentEntries, hdue, Option.bind_some, hp]
        rfl
      have hlt := (List.getElem?_eq_some_iff.mp hi).1
      have hself : (markDue now rtt b seq).buffer[i]? = some (some (resent now item)) := by
        rw [heq, withSlots_buffer, List.getElem?_set_self hlt]
      have hother : ∀ (k : Nat), k ≠ i → (markDue now rtt b seq).buffer[k]? = b.buffer[k]? := by
        intro k hk
        rw [heq, withSlots_buffer, List.getElem?_set_ne (Ne.symm hk)]
      -- an item in another slot has another number, and the log has not changed for it
      have hlast : ∀ (k : Nat) (x : Item), k ≠ i → b.buffer[k]? = some (some x) →
          lastSent (log ++ sentEntries now rtt b seq) x.sequenceNumber =
            lastSent log x.sequenceNumber := by
        intro k x hk hx
        refine sentEntries_number h.window h.intact fun hxseq => hk ?_
        exact unique_slot h hreach hx hi hxseq hseq
      refine ⟨inWindow_markDue h.window now rtt seq, allIntact_markDue h.intact now rtt seq, ?_, ?_⟩
      · intro k x hk hupper
        by_cases hki : k = i
        · subst hki
          rw [hself] at hk
          obtain rfl := Option.some.inj (Option.some.inj hk)
          rw [hentries, lastSent_sent,
            show (resent now item).sequenceNumber = p.getSequenceNumber from hnum, if_pos rfl]
          rfl
        · rw [hother k hki] at hk
          rw [hlast k x hki hk]
          refine h.books k x hk fun j other hkj hj => ?_
          by_cases hji : j = i
          · subst hji
            rw [hi] at hj
            obtain rfl := Option.some.inj (Option.some.inj hj)
            exact hupper j (resent now item) hkj hself
          · exact hupper j other hkj (by rw [hother j hji, hj])
      · intro k x hle hk
        have hki : k ≠ i := by
          rintro rfl
          obtain ⟨j, hreach', hj⟩ := get_eq_some_iff.mp (get_of_dueItem hdue)
          have := hreach'.lt
          exact absurd (unique_slot h hreach hj hi hseq hseq) (by omega)
        rw [hother k hki] at hk
        rw [hlast k x hki hk, h.beyond k x hle hk]

/-- The other numbers do not notice. -/
theorem inReachWhenDue_markDue (h : Ledger b log) {t : UInt16} (hne : t ≠ seq)
    (hreach : InReachWhenDue b log now rtt t) :
    InReachWhenDue (markDue now rtt b seq) (log ++ sentEntries now rtt b seq) now rtt t := by
  intro hdue i item hi ht
  rw [inReach_markDue]
  refine hreach (fun u hu => hdue u ?_) i item ?_ ht
  · rw [sentEntries_number h.window h.intact hne, hu]
  · cases hd : dueItem now rtt b seq with
    | none => rwa [markDue_of_none hd] at hi
    | some x =>
        obtain ⟨j, -, hj, heq⟩ := markDue_eq hd
        have hxseq : x.sequenceNumber = seq := get_number h.window (get_of_dueItem hd)
        rw [heq, withSlots_buffer, List.getElem?_set] at hi
        split_ifs at hi
        · obtain rfl := Option.some.inj (Option.some.inj hi)
          exact absurd (ht.symm.trans hxseq) hne
        · exact hi

/-- **A NACK item keeps the ledger**, when all it asks for is in reach. -/
theorem ledger_nack (numbers : List UInt16) : ∀ {b : RtpRetransmissionBuffer} {log : List Entry},
    Ledger b log → numbers.Nodup → (∀ seq ∈ numbers, InReachWhenDue b log now rtt seq) →
      Ledger (numbers.foldl (markDue now rtt) b)
        (log ++ (sentPackets now rtt b numbers).map fun p => .sent p now) := by
  induction numbers with
  | nil =>
      intro b log h _ _
      simpa [sentPackets] using h
  | cons seq numbers ih =>
      intro b log h hnodup hreach
      obtain ⟨hseq, hnodup⟩ := List.nodup_cons.mp hnodup
      have hne : ∀ t ∈ numbers, t ≠ seq := by
        rintro t ht rfl
        exact hseq ht
      have hrest := ih (ledger_markDue h (hreach seq List.mem_cons_self)) hnodup fun t ht =>
        inReachWhenDue_markDue h (hne t ht) (hreach t (List.mem_cons_of_mem _ ht))
      have hsent : sentPackets now rtt (markDue now rtt b seq) numbers =
          sentPackets now rtt b numbers := by
        unfold sentPackets
        refine List.filterMap_congr fun t ht => ?_
        rw [dueItem_markDue h.window (hne t ht)]
      rw [hsent, List.append_assoc] at hrest
      rw [List.foldl_cons]
      convert hrest using 2
      rw [sentPackets_eq_flatMap, List.flatMap_cons, List.map_append, ← sentPackets_eq_flatMap]
      rfl

end Nack

/-! ## Whole runs -/

/-- The clock reading of an event. -/
def NackEvent.reading : NackEvent → Option UInt64
  | .nack _ now => some now
  | _ => none

/-- The clock is positive and does not go back. -/
structure Timely (events : List NackEvent) : Prop where
  positive : ∀ t ∈ events.filterMap NackEvent.reading, 0 < t
  ordered : (events.filterMap NackEvent.reading).Pairwise (· ≤ ·)

/-- The books are right after the events `pre`. -/
structure Settled (pre : List NackEvent) (l : Logged) : Prop where
  ledger : ∀ b, l.state.sender.retransmissionBuffer = some b → Ledger b l.log
  container : l.state.container.length = kMaxRequestedPackets + 1
  times : ∀ p t, .sent p t ∈ l.log → t ∈ pre.filterMap NackEvent.reading

theorem Settled.before {pre post : List NackEvent} {l : Logged} (h : Settled pre l)
    {nackItem : Rtcp.FeedbackRtpNackItem} {now : UInt64}
    (htime : Timely (pre ++ .nack nackItem now :: post)) : Before l.log now := by
  intro p t hmem
  have ht := h.times p t hmem
  have hpos := htime.positive t
  have hord := htime.ordered
  rw [List.filterMap_append, List.filterMap_cons] at hpos hord
  exact ⟨hpos (List.mem_append_left _ ht),
    (List.pairwise_append.mp hord).2.2 t ht now List.mem_cons_self⟩

theorem settled_create (params : Params) (addr : SockAddr) {container : List (Option Item)}
    (hlen : container.length = kMaxRequestedPackets + 1) :
    Settled [] { state := { sender := create params addr, container }, log := [] } where
  ledger b hb := by
    rw [create_retransmissionBuffer] at hb
    split_ifs at hb
    cases hb
    refine ⟨window_nil, fun item hitem => (by cases hitem), ?_, ?_⟩
    · exact fun i item hi => (by simp [RtpRetransmissionBuffer.create] at hi)
    · exact fun i item _ hi => (by simp [RtpRetransmissionBuffer.create] at hi)
  container := hlen
  times p t hmem := by cases hmem

theorem Settled.earlier {pre : List NackEvent} {l : Logged} (h : Settled pre l) (e : NackEvent)
    {p : RtpPacket} {t : UInt64} (hmem : .sent p t ∈ l.log) :
    t ∈ (pre ++ [e]).filterMap NackEvent.reading := by
  rw [List.filterMap_append]
  exact List.mem_append_left _ (h.times p t hmem)

theorem sent_notMem_callEntries {b : RtpRetransmissionBuffer} {call : Call} {p : RtpPacket}
    {t : UInt64} : .sent p t ∉ callEntries b call := by
  cases call with
  | clear => exact List.not_mem_nil
  | insert q =>
      rw [callEntries_insert]
      split_ifs <;> simp

theorem settled_call {pre : List NackEvent} {l l' : Logged} {call : Call} (h : Settled pre l)
    (hok : nackStep l (.buffer call) = .ok l') : Settled (pre ++ [.buffer call]) l' := by
  simp only [nackStep] at hok
  cases hbuf : l.state.sender.retransmissionBuffer with
  | none =>
      rw [hbuf] at hok
      cases hok
      exact ⟨h.ledger, h.container, fun p t => h.earlier _⟩
  | some b =>
      simp only [hbuf] at hok
      cases hstep : RtpRetransmissionBuffer.step b call with
      | error f => rw [hstep] at hok; cases hok
      | ok b' =>
          rw [hstep] at hok
          cases hok
          refine ⟨fun c hc => ?_, h.container, fun p t hmem => ?_⟩
          · cases hc
            exact ledger_call (h.ledger b hbuf) hstep
          · rcases List.mem_append.mp hmem with hmem | hmem
            · exact h.earlier _ hmem
            · exact absurd hmem sent_notMem_callEntries

theorem settled_nackItem {pre : List NackEvent} {l l' : Logged}
    {nackItem : Rtcp.FeedbackRtpNackItem} {now : UInt64} (h : Settled pre l)
    (hreach : AllInReach l nackItem now) (hok : nackStep l (.nack nackItem now) = .ok l') :
    Settled (pre ++ [.nack nackItem now]) l' := by
  simp only [nackStep] at hok
  cases hbuf : l.state.sender.retransmissionBuffer with
  | none =>
      obtain ⟨container, hclen, hitem⟩ := receiveNackItem_none hbuf h.container nackItem now
      rw [hitem] at hok
      cases hok
      refine ⟨fun b hb => ?_, hclen, fun p t hmem => h.earlier _ (by simpa using hmem)⟩
      exact absurd (hbuf.symm.trans hb) (by simp)
  | some b =>
      have hl := h.ledger b hbuf
      obtain ⟨rtt, hrtt, hreach⟩ := hreach b hbuf
      obtain ⟨container, hclen, hitem⟩ :=
        receiveNackItem_eq hbuf hl.window hl.intact h.container hrtt nackItem now
      rw [hitem] at hok
      cases hok
      refine ⟨fun c hc => ?_, hclen, fun p t hmem => ?_⟩
      · cases hc
        exact ledger_nack _ hl (nodup_requestedNumbers _ _)
          fun seq hseq hdue => hreach seq hseq hdue
      · rcases List.mem_append.mp hmem with hmem | hmem
        · exact h.earlier _ hmem
        · obtain ⟨q, -, hq⟩ := List.mem_map.mp hmem
          cases hq
          rw [List.filterMap_append]
          exact List.mem_append_right _ List.mem_cons_self

/-- One more event keeps the books right, as long as the NACKs ask for what is in reach. -/
theorem settled_step {pre : List NackEvent} {l l' : Logged} {e : NackEvent} (h : Settled pre l)
    (hreach : ∀ nackItem now, e = .nack nackItem now → AllInReach l nackItem now)
    (hok : nackStep l e = .ok l') : Settled (pre ++ [e]) l' := by
  cases e with
  | rtt ms =>
      cases hok
      exact ⟨h.ledger, h.container, fun p t => h.earlier _⟩
  | buffer call => exact settled_call h hok
  | nack nackItem now => exact settled_nackItem h (hreach nackItem now rfl) hok

/-- **Exact retransmission, over whole runs.** Whatever is inserted and cleared in between and
    whatever `rtt_` becomes, every NACK item retransmits exactly the stored packets it asks
    for that are due, in order, if and only if every NACK item finds a `rtt_` of 16 bits and
    these packets in slots that `Get` reads. -/
theorem exact_retransmission_iff (params : Params) (addr : SockAddr)
    (container : List (Option Item)) (hlen : container.length = kMaxRequestedPackets + 1)
    (events : List NackEvent) (htime : Timely events) :
    let run := Trace.runE nackStep
      { state := { sender := create params addr, container }, log := [] }
    (∀ pre nackItem now post l, events = pre ++ .nack nackItem now :: post → run pre = .ok l →
      Exact l nackItem now) ↔
    (∀ pre nackItem now post l, events = pre ++ .nack nackItem now :: post → run pre = .ok l →
      AllInReach l nackItem now) := by
  intro run
  have hiff := @Trace.eachPrefix_iff _ _ _ nackStep Settled
    (fun l e => ∀ nackItem now, e = .nack nackItem now → Exact l nackItem now)
    (fun l e => ∀ nackItem now, e = .nack nackItem now → AllInReach l nackItem now) _ events
    (settled_create params addr hlen) (fun _ _ _ _ h hreach hok => settled_step h hreach hok)
    (by
      rintro pre e post l rfl h
      refine forall₂_congr fun nackItem now => forall_congr' fun he => ?_
      subst he
      exact exact_item_iff h.ledger h.container (h.before htime) nackItem)
  constructor
  · intro hexact pre nackItem now post l hsplit hl
    refine hiff.mp (fun pre e post l hsplit hl nackItem now he => ?_) pre _ post l hsplit hl
      nackItem now rfl
    exact hexact pre nackItem now post l (he ▸ hsplit) hl
  · intro hreach pre nackItem now post l hsplit hl
    refine hiff.mpr (fun pre e post l hsplit hl nackItem now he => ?_) pre _ post l hsplit hl
      nackItem now rfl
    exact hreach pre nackItem now post l (he ▸ hsplit) hl

/-- A packet stored, asked for twice at once, and again 200 ms later. -/
def askedThrice : List NackEvent :=
  [.buffer (.insert (.media 5 160)), .nack { packetId := 5, lostPacketBitmask := 0 } 1,
    .nack { packetId := 4, lostPacketBitmask := 1 } 1,
    .nack { packetId := 5, lostPacketBitmask := 0 } 201]

theorem timely_askedThrice : Timely askedThrice where
  positive := show ∀ t ∈ [1, 1, 201], 0 < t by simp
  ordered := show List.Pairwise (· ≤ ·) [1, 1, 201] by decide

theorem exact_retransmission_askedThrice :
    let run := Trace.runE nackStep
      { state :=
          { sender :=
              create { ssrc := 1, payloadType := 100, clockRate := 16000, useNack := true } []
            container := List.replicate 18 none }
        log := [] }
    (∀ pre nackItem now post l, askedThrice = pre ++ .nack nackItem now :: post →
      run pre = .ok l → Exact l nackItem now) ↔
    (∀ pre nackItem now post l, askedThrice = pre ++ .nack nackItem now :: post →
      run pre = .ok l → AllInReach l nackItem now) :=
  exact_retransmission_iff { ssrc := 1, payloadType := 100, clockRate := 16000, useNack := true } []
    (List.replicate 18 none) rfl askedThrice timely_askedThrice

/-! ## A deque that has outgrown the comparison -/

section Burst

/-- Number `i`; all packets have one timestamp. -/
def burstPacket (i : Nat) : RtpPacket := .media (UInt16.ofNat i) 0

/-- Twenty packets in a row, and then fourteen with 2490 numbers left out before each. -/
def burst : List RtpPacket :=
  (List.range 20).map burstPacket ++ (List.range 14).map fun k => burstPacket (2510 + 2491 * k)

/-- The deque when `k` of the fourteen are in: each made one slot go and brought 2491. -/
def spread (k : Nat) : List (Option Item) :=
  (List.range' k (20 - k)).map (fun i => some (newItem (burstPacket i))) ++
    (List.range k).flatMap fun j =>
      List.replicate 2490 none ++ [some (newItem (burstPacket (2510 + 2491 * j)))]

/-- The parameters of the sender's buffer, and its slots. -/
def audioBuffer (slots : List (Option Item)) : RtpRetransmissionBuffer :=
  (RtpRetransmissionBuffer.create 2500 1000 16000).withSlots slots

theorem length_spread (k : Nat) : (spread k).length = 20 - k + 2491 * k := by
  have hparts : ((List.range k).flatMap fun j => List.replicate 2490 none ++
      [some (newItem (burstPacket (2510 + 2491 * j)))]).length = 2491 * k := by
    induction k with
    | zero => rfl
    | succ k ih =>
        rw [List.range_succ, List.flatMap_append, List.length_append, ih]
        simp only [List.flatMap_cons, List.flatMap_nil, List.length_append, List.length_replicate,
          List.length_singleton, List.length_nil]
        omega
  rw [spread, List.length_append, hparts, List.length_map, List.length_range']

theorem spread_front {k : Nat} (hk : k < 20) :
    spread k = some (newItem (burstPacket k)) :: (spread k).tail := by
  obtain ⟨n, hn⟩ : ∃ n, 20 - k = n + 1 := ⟨19 - k, by omega⟩
  rw [spread, hn, List.range'_succ]
  rfl

theorem spread_newest (k : Nat) :
    (spread k).getLast? = some (some (newItem (burstPacket (19 + 2491 * k)))) := by
  cases k with
  | zero => rfl
  | succ k =>
      rw [spread, List.range_succ, List.flatMap_append, ← List.append_assoc, List.flatMap_cons,
        List.flatMap_nil, List.append_nil, ← List.append_assoc, List.getLast?_concat,
        show 19 + 2491 * (k + 1) = 2510 + 2491 * k by omega]

theorem spread_tail {k : Nat} (hk : k < 19) :
    (spread k).tail.dropWhile Option.isNone = (spread k).tail := by
  obtain ⟨n, hn⟩ : ∃ n, 20 - k = n + 2 := ⟨18 - k, by omega⟩
  rw [spread, hn, List.range'_succ, List.range'_succ]
  rfl

theorem spread_succ {k : Nat} (hk : k < 20) : spread (k + 1) = (spread k).tail ++
    List.replicate 2490 none ++ [some (newItem (burstPacket (2510 + 2491 * k)))] := by
  obtain ⟨n, hn⟩ : ∃ n, 20 - k = n + 1 := ⟨19 - k, by omega⟩
  rw [spread, spread, hn, show 20 - (k + 1) = n by omega, List.range'_succ, List.range_succ,
    List.flatMap_append]
  simp only [List.map_cons, List.cons_append, List.tail_cons, List.flatMap_cons, List.flatMap_nil,
    List.append_nil, List.append_assoc]

/-- Each of the fourteen is 2491 numbers ahead of the newest one. -/
theorem burst_numbers : ∀ k < 14,
    isSeqLowerThan (burstPacket (2510 + 2491 * k)).getSequenceNumber
      (burstPacket (19 + 2491 * k)).getSequenceNumber = false ∧
    isSeqHigherThan (burstPacket (2510 + 2491 * k)).getSequenceNumber
      (burstPacket (19 + 2491 * k)).getSequenceNumber = true ∧
    ((burstPacket (2510 + 2491 * k)).getSequenceNumber -
      (burstPacket (19 + 2491 * k)).getSequenceNumber - 1).toNat = 2490 := by decide

/-- The slots that have to go are the first one and the blanks behind it. -/
theorem removeOldestItems_spread {k : Nat} (hk : k < 14) :
    (audioBuffer (spread k)).removeOldestItems (UInt16.ofNat (11 + 2490 * k)) =
      .ok (audioBuffer (spread k).tail) := by
  have hold : (audioBuffer (spread k)).removeOldest =
      .ok (audioBuffer ((spread k).tail.dropWhile Option.isNone)) := by
    rw [removeOldest, audioBuffer, withSlots_buffer, spread_front (by omega)]
    rfl
  have hn : (UInt16.ofNat (11 + 2490 * k)).toNat = 11 + 2490 * k :=
    UInt16.toNat_ofNat_of_lt' (show 11 + 2490 * k < 65536 by omega)
  rw [removeOldestItems, hn, audioBuffer, withSlots_buffer, length_spread k, if_pos (by omega),
    ← audioBuffer, hold, spread_tail (by omega)]

theorem insertInOrder_spread {k : Nat} (hk : k < 14) :
    (audioBuffer (spread k)).insertInOrder (burstPacket (2510 + 2491 * k))
      (newItem (burstPacket (19 + 2491 * k))) = .ok (audioBuffer (spread (k + 1))) := by
  have hslots : (audioBuffer (spread k)).buffer.length = 20 + 2490 * k := by
    rw [audioBuffer, withSlots_buffer, length_spread k]
    omega
  have hmax : (audioBuffer (spread k)).maxItems.toNat = 2500 := rfl
  have hts : isSeqLowerThan (burstPacket (2510 + 2491 * k)).getTimestamp
      (newItem (burstPacket (19 + 2491 * k))).timestamp = false :=
    show isSeqLowerThan (0 : UInt32) 0 = false by decide
  rw [insertInOrder, hts, if_neg Bool.false_ne_true]
  dsimp only
  rw [show ((burstPacket (2510 + 2491 * k)).getSequenceNumber -
    (newItem (burstPacket (19 + 2491 * k))).sequenceNumber - 1).toNat = 2490 from
      (burst_numbers k hk).2.2,
    hslots, hmax, if_pos (by omega),
    show 20 + 2490 * k + 2490 + 1 - 2500 = 11 + 2490 * k by omega,
    UInt16.toNat_ofNat_of_lt' (show 11 + 2490 * k < 65536 by omega), if_neg (by omega),
    removeOldestItems_spread hk, spread_succ (by omega)]
  rfl

/-- The next packet of the fourteen. -/
theorem insert_spread {k : Nat} (hk : k < 14) (hw : InWindow (audioBuffer (spread k))) :
    (audioBuffer (spread k)).insert (burstPacket (2510 + 2491 * k)) =
      .ok (audioBuffer (spread (k + 1))) := by
  have hfront : (audioBuffer (spread k)).buffer.head? = some (some (newItem (burstPacket k))) := by
    rw [audioBuffer, withSlots_buffer, spread_front (by omega)]
    rfl
  have hnewest := spread_newest k
  have hnow : newestTimestamp (burstPacket (2510 + 2491 * k))
      (newItem (burstPacket (19 + 2491 * k))) = 0 := ite_self _
  have hlive : (audioBuffer (spread k)).live 0 = spread k :=
    live_eq_buffer hfront (show (RtpRetransmissionBuffer.create 2500 1000 16000).tooOld 0 0 = false
      by decide)
  obtain ⟨hlow, hhigh, -⟩ := burst_numbers k hk
  rcases insert_eq (burstPacket (2510 + 2491 * k)) hw hnewest with ⟨-, hzero⟩ | hins
  · exact absurd hzero (show ¬ (16000 : UInt32) = 0 by decide)
  rw [hins, hnow, hlive, if_neg]
  · change (audioBuffer (spread k)).insertLive (burstPacket (2510 + 2491 * k)) = _
    rw [insertLive_eq _ hfront hnewest]
    exact (if_pos hhigh).trans (insertInOrder_spread hk)
  · rintro (⟨hl, -⟩ | hnil)
    · rw [show isSeqLowerThan (burstPacket (2510 + 2491 * k)).getSequenceNumber
        (newItem (burstPacket (19 + 2491 * k))).sequenceNumber = false from hlow] at hl
      cases hl
    · rw [hnil] at hnewest
      cases hnewest

theorem insert_burst : Trace.runE RtpRetransmissionBuffer.insert (audioBuffer []) burst =
    .ok (audioBuffer (spread 14)) := by
  have hrun : ∀ k ≤ 14, Trace.runE RtpRetransmissionBuffer.insert (audioBuffer [])
      ((List.range 20).map burstPacket ++
        (List.range k).map fun k => burstPacket (2510 + 2491 * k)) =
      .ok (audioBuffer (spread k)) := by
    intro k
    induction k with
    | zero => exact fun _ => rfl
    | succ k ih =>
        intro hk
        have hpre := ih (by omega)
        rw [@List.range_succ k, List.map_append, List.map_singleton, ← List.append_assoc,
          Trace.runE_concat_iff]
        refine ⟨_, hpre, insert_spread (by omega) ?_⟩
        exact Trace.runE_invariant (I := InWindow) (fun b p b' h hok => inWindow_insert h hok)
          (inWindow_create 2500 1000 16000) hpre
  exact hrun 14 (Nat.le_refl 14)

/-- Insertions alone: the sender's buffer goes through them. -/
theorem run_insertions (packets : List RtpPacket) : ∀ {l : Logged} {b b' : RtpRetransmissionBuffer},
    l.state.sender.retransmissionBuffer = some b →
    Trace.runE RtpRetransmissionBuffer.insert b packets = .ok b' →
    ∃ l', Trace.runE nackStep l (packets.map fun p => .buffer (.insert p)) = .ok l' ∧
      l'.state.sender.retransmissionBuffer = some b' := by
  induction packets with
  | nil =>
      intro l b b' hbuf hrun
      cases hrun
      exact ⟨l, rfl, hbuf⟩
  | cons p packets ih =>
      intro l b b' hbuf hrun
      simp only [Trace.runE] at hrun
      cases hins : b.insert p with
      | error f => rw [hins] at hrun; cases hrun
      | ok m =>
          rw [hins] at hrun
          have hstep : nackStep l (.buffer (.insert p)) = .ok
              { state := { l.state with
                  sender := { l.state.sender with retransmissionBuffer := some m } }
                log := l.log ++ callEntries m (.insert p) } := by
            simp only [nackStep, hbuf, RtpRetransmissionBuffer.step, hins]
            rfl
          rw [List.map_cons, Trace.runE, hstep]
          exact ih rfl hrun

def audioParams : Params := { ssrc := 1, payloadType := 100, clockRate := 16000, useNack := true }

/-- A NACK for the newest packet, which nobody asked for before, retransmits nothing: the
    packet is in the buffer, but `Get` takes its number for one below the oldest. -/
theorem newest_not_retransmitted :
    ∃ l, Trace.runE nackStep
        { state := { sender := create audioParams [], container := List.replicate 18 none }
          log := [] }
        (burst.map fun p => .buffer (.insert p)) = .ok l ∧
      ¬ Exact l { packetId := 34893, lostPacketBitmask := 0 } 1 := by
  obtain ⟨l, hrun, hbuf⟩ := run_insertions burst
    (l := { state := { sender := create audioParams [], container := List.replicate 18 none }
            log := [] }) rfl insert_burst
  refine ⟨l, hrun, fun hexact => ?_⟩
  have hnone : ∀ pre nackItem now post, burst.map (fun p => NackEvent.buffer (.insert p)) ≠
      pre ++ .nack nackItem now :: post := by
    intro pre nackItem now post h
    have hmem : NackEvent.nack nackItem now ∈
        burst.map (fun p => NackEvent.buffer (.insert p)) := by simp [h]
    obtain ⟨p, -, hp⟩ := List.mem_map.mp hmem
    cases hp
  have hsettled := @Trace.invariant_along _ _ _ nackStep Settled
    (fun l e => ∀ nackItem now, e = .nack nackItem now → AllInReach l nackItem now) _ _
    (settled_create audioParams [] (by rfl)) (fun _ _ _ _ h hreach hok => settled_step h hreach hok)
    (fun pre e post _ hsplit _ _ nackItem now he =>
      absurd (he ▸ hsplit) (hnone pre nackItem now post)) _ [] l (List.append_nil _).symm hrun
  have hempty : ∀ p t, .sent p t ∉ l.log := by
    intro p t hmem
    obtain ⟨e, he, ht⟩ := List.mem_filterMap.mp (hsettled.times p t hmem)
    obtain ⟨q, -, rfl⟩ := List.mem_map.mp he
    cases ht
  obtain ⟨rtt, -, hall⟩ := (exact_item_iff hsettled.ledger hsettled.container
    (fun p t hmem => absurd hmem (hempty p t)) _).mp hexact _ hbuf
  have hreach := hall 34893 (by decide) (fun t ht => by
    obtain ⟨p, hp⟩ := sent_of_lastSent ht
    exact absurd hp (hempty p t))
  have hlast := spread_newest 14
  rw [List.getLast?_eq_getElem?] at hlast
  have hslot := hreach _ _ hlast (by decide)
  unfold InReach at hslot
  rw [show (audioBuffer (spread 14)).getOldest = some (newItem (burstPacket 14)) by
    rw [getOldest, audioBuffer, withSlots_buffer, spread_front (by omega)]; rfl] at hslot
  exact absurd hslot.1 (by decide)

end Burst

end RtpStreamSender

end Bifrost.Rtc
