/-
  When and how often a missing number is asked for.

  Each entry of `nack_list_` keeps the books on its number: when it was found missing, how
  often it went into a batch and when it last did. `Account` states that the books are
  right for a stretch of events, and `account_concat` that one more call keeps them right.

  * `step_entries`: what a call does to the entries, the batch apart.
  * `ledger_run`: in every run the books of every entry are right since its number was
    skipped.
  * `nack_pacing`: every emission is of a number skipped and not received since, it waits
    for the delay, it keeps the distance from the earlier emissions of the stay, and there
    are at most ten of them.

  A stay is the time a number spends on the list. A number can come back onto the list: the
  sixteen bits wrap, and then it is another packet's number. The new entry knows nothing of
  the old one, so the distance is one of the stay only (`asked_again_after_wrap`).
-/
import Mathlib.Data.List.Nodup
import Bifrost.Rtc.NackWindow

namespace Bifrost.Rtc.NackGenerator

open SeqManager

/-! ## Emissions and the clock -/

/-- How often the listener is asked for number `k`. -/
def asked (k : UInt16) : List NackOutput → Nat
  | [] => 0
  | .nackRequired batch :: out => batch.count k + asked k out
  | .keyFrameRequired :: out => asked k out

theorem asked_append (k : UInt16) (xs ys : List NackOutput) :
    asked k (xs ++ ys) = asked k xs + asked k ys := by
  induction xs with
  | nil => simp [asked]
  | cons x xs ih => cases x <;> simp [asked, ih, Nat.add_assoc]

/-- The call puts number `k` into a batch. -/
def Emits (g : NackGenerator) (e : Event) (k : UInt16) : Prop :=
  ∃ batch, .nackRequired batch ∈ (step g e).2 ∧ k ∈ batch

theorem emits_iff (g : NackGenerator) (e : Event) (k : UInt16) :
    Emits g e k ↔ 0 < asked k (step g e).2 := by
  unfold Emits
  induction (step g e).2 with
  | nil => simp [asked]
  | cons o out ih =>
      cases o with
      | nackRequired batch =>
          simp only [asked, List.mem_cons, NackOutput.nackRequired.injEq, or_and_right, exists_or,
            exists_eq_left, ih, Nat.add_pos_iff_pos_or_pos, List.count_pos_iff]
      | keyFrameRequired => simpa [asked] using ih

/-- The reading of the clock a batch is stamped with. -/
def Event.now : Event → UInt64
  | .receive _ clock => clock 65536
  | .timer clock => clock 0
  | _ => 0

/-- The event reads `t` off the clock. -/
def Event.Reads (t : UInt64) : Event → Prop
  | .receive _ clock => ∃ i, clock i = t
  | .timer clock => ∃ i, clock i = t
  | _ => False

/-- The readings of one event do not decrease. -/
def Event.Ordered : Event → Prop
  | .receive _ clock => ∀ i j, i ≤ j → clock i ≤ clock j
  | .timer clock => ∀ i j, i ≤ j → clock i ≤ clock j
  | _ => True

/-- The clock is positive and does not decrease. -/
structure Timely (events : List Event) : Prop where
  positive : ∀ e ∈ events, ∀ t, e.Reads t → 0 < t
  within : ∀ e ∈ events, e.Ordered
  across : events.Pairwise fun a b => ∀ t u, a.Reads t → b.Reads u → t ≤ u

theorem Timely.left {xs ys : List Event} (h : Timely (xs ++ ys)) : Timely xs where
  positive e he := h.positive e (List.mem_append_left _ he)
  within e he := h.within e (List.mem_append_left _ he)
  across := (List.pairwise_append.mp h.across).1

/-- When the loop of `AddPacketsToNackList` came to `k`. -/
def foundAt (g : NackGenerator) (clock : Clock) (k : UInt16) : UInt64 :=
  clock (behind k g.lastSeq - 1)

/-- The time between two emissions. -/
def resendGap (g : NackGenerator) : UInt32 := if g.rtt > 0 then g.rtt else kDefaultRtt

/-! ## One batch -/

theorem Inv.nodup_keys {g : NackGenerator} (h : Inv g) : g.keys.Nodup := by
  have hs : g.keys.Pairwise fun a b => seqLt a b = true := List.pairwise_map.mpr h.sorted
  refine hs.imp fun {a b} hab heq => ?_
  rw [heq, seqLt, isSeqLowerThan_irrefl] at hab
  cases hab

theorem Inv.entry_unique {g : NackGenerator} (h : Inv g) {k : UInt16} {i j : NackInfo}
    (hi : (k, i) ∈ g.nackList) (hj : (k, j) ∈ g.nackList) : i = j := by
  have := List.inj_on_of_nodup_map h.nodup_keys hi hj rfl
  exact congrArg Prod.snd this

theorem batchLoop_sublist {g : NackGenerator} (filter : NackFilter) (nowMs : UInt64)
    {items : List (UInt16 × NackInfo)} (hseq : ∀ e ∈ items, e.2.seq = e.1) :
    (g.batchLoop filter nowMs items).1.Sublist (items.map Prod.fst) := by
  induction items with
  | nil => exact List.Sublist.refl _
  | cons item items ih =>
      obtain ⟨key, info⟩ := item
      have ih := ih fun e he => hseq e (List.mem_cons_of_mem _ he)
      have hkey : info.seq = key := hseq (key, info) List.mem_cons_self
      simp only [batchLoop, List.map_cons]
      split
      · split
        · rw [hkey]
          exact ih.cons_cons key
        · rw [hkey]
          exact ih.cons_cons key
      · exact ih.cons key

theorem asked_sendNackBatch (g : NackGenerator) (filter : NackFilter) (nowMs : UInt64)
    (k : UInt16) : asked k (g.sendNackBatch filter nowMs).2 =
      (g.batchLoop filter nowMs g.nackList).1.count k := by
  simp only [sendNackBatch]
  split
  · next h => rw [List.isEmpty_iff.mp h]; rfl
  · simp [asked]

/-- A batch asks for a number once when its entry is due, and not at all when it is not. -/
theorem asked_of_mem {g : NackGenerator} (h : Inv g) (filter : NackFilter) (nowMs : UInt64)
    {k : UInt16} {info : NackInfo} (hmem : (k, info) ∈ g.nackList) :
    asked k (g.sendNackBatch filter nowMs).2 =
      if g.isDue filter nowMs info = true then 1 else 0 := by
  rw [asked_sendNackBatch]
  have hsub := batchLoop_sublist (g := g) filter nowMs h.seqs
  have hiff := mem_batch_iff g filter nowMs g.nackList k
  split
  · next hdue =>
      refine List.count_eq_one_of_mem (hsub.nodup h.nodup_keys) (hiff.mpr ?_)
      exact ⟨_, hmem, hdue, h.seqs _ hmem⟩
  · next hdue =>
      refine List.count_eq_zero_of_not_mem fun hk => hdue ?_
      obtain ⟨e, he, hdue', hseq⟩ := hiff.mp hk
      have hkey : e.1 = k := by rw [← h.seqs e he, hseq]
      have : e.2 = info := h.entry_unique (k := k) (by rw [← hkey]; exact he) hmem
      rwa [this] at hdue'

/-- What a batch takes in has waited for the delay and, when it was sent before, for the
    gap. -/
theorem isDue_spec {g : NackGenerator} {filter : NackFilter} {nowMs : UInt64} {info : NackInfo}
    (h : g.isDue filter nowMs info = true) :
    (g.sendNackDelayMs = 0 ∨ g.sendNackDelayMs.toUInt64 ≤ nowMs - info.createdAtMs) ∧
    (info.sentAtMs = 0 ∨ g.resendGap.toUInt64 ≤ nowMs - info.sentAtMs) := by
  unfold isDue at h
  split at h
  · cases h
  · next hdelay =>
      constructor
      · simp only [gt_iff_lt, Bool.and_eq_true, decide_eq_true_eq, not_and, UInt64.not_lt]
          at hdelay
        by_cases h0 : g.sendNackDelayMs = 0
        · exact Or.inl h0
        · refine Or.inr (hdelay ?_)
          rw [UInt32.lt_iff_toNat_lt]
          rw [← UInt32.toNat_inj] at h0
          simp only [UInt32.reduceToNat] at h0 ⊢
          omega
      · cases filter with
        | seq =>
            simp only [Bool.and_eq_true, beq_iff_eq] at h
            exact Or.inl h.1
        | time =>
            simp only [Bool.or_eq_true, beq_iff_eq, decide_eq_true_eq] at h
            exact h

/-! ## One call -/

/-- An entry that was there before the call and whose number did not arrive, or one the
    call has just made. -/
inductive Origin (g : NackGenerator) (e : Event) (k : UInt16) (info : NackInfo) : Prop where
  | old (listed : (k, info) ∈ g.nackList) (absent : ¬ e.Receives k)
  | fresh (p : RtpPacket) (clock : Clock) (event : e = .receive p clock)
      (skipped : SkippedBy g p k) (new : info = newInfo (foundAt g clock k) k)

/-- A call either lets no batch out and leaves only old entries, or it is a batch over old
    and new ones. -/
theorem step_entries {g : NackGenerator} (h : Inv g) (e : Event) :
    ((∀ k, asked k (step g e).2 = 0) ∧
      ∀ k info, (k, info) ∈ (step g e).1.nackList → (k, info) ∈ g.nackList ∧ ¬ e.Receives k) ∨
    ∃ g₁ filter, step g e = g₁.sendNackBatch filter e.now ∧ Inv g₁ ∧
      g₁.sendNackDelayMs = g.sendNackDelayMs ∧ g₁.rtt = g.rtt ∧ e.Reads e.now ∧
      ∀ k info, (k, info) ∈ g₁.nackList → Origin g e k info := by
  have hquiet : ∀ k info, (k, info) ∈ (step g e).1.nackList →
      (∀ p clock, e = .receive p clock → ¬ SkippedBy g p k) → ¬ e.Receives k := by
    intro k info hmem hns
    rcases mem_keys_step h (mem_keys_iff.mpr ⟨info, hmem⟩) with ⟨-, hnot⟩ | ⟨p, clock, he, hs⟩
    · exact hnot
    · exact absurd hs (hns p clock he)
  have hc := step_cases h e
  generalize hr : step g e = r at hc hquiet
  cases hc with
  | first p clock keyFrames hst =>
      refine Or.inl ⟨fun _ => rfl, fun k info hmem => ?_⟩
      simp [h.idle hst] at hmem
  | ignored p clock hst hknown =>
      refine Or.inl ⟨fun _ => rfl, fun k info hmem => ⟨hmem, hquiet k info hmem ?_⟩⟩
      rintro p clock ⟨⟩ ⟨-, hnewer, -⟩
      rcases hknown with heq | ⟨hlow, -⟩
      · rw [heq, isSeqHigherThan_eq, isSeqLowerThan_irrefl] at hnewer
        cases hnewer
      · rw [isSeqLowerThan_asymm hlow] at hnewer
        cases hnewer
  | received p clock hst hlow hlisted =>
      refine Or.inl ⟨fun _ => rfl, fun k info hmem => ⟨?_, hquiet k info hmem ?_⟩⟩
      · exact (OrderedMap.erase_sublist seqLt _ _).mem hmem
      · rintro p clock ⟨⟩ ⟨-, hnewer, -⟩
        rw [isSeqLowerThan_asymm hlow] at hnewer
        cases hnewer
  | overflow => exact Or.inl ⟨fun _ => rfl, fun k info hmem => by cases hmem⟩
  | skipped p clock keyFrames kept n hst hnewer hcount hsuf hfits hage =>
      refine Or.inr ⟨_, _, rfl,
        inv_skipped h clock keyFrames hst hnewer hcount hsuf hfits hage, rfl, rfl, ⟨_, rfl⟩, ?_⟩
      intro k info hmem
      rcases List.mem_append.mp hmem with hmem | hmem
      · refine .old (hsuf.mem hmem) ?_
        rintro rfl
        exact not_newer_of_window (h.window _ (hsuf.mem hmem)) hnewer
      · obtain ⟨i, hi, heq⟩ := (mem_newEntries_iff n clock _ _).mp hmem
        simp only [Prod.mk.injEq] at heq
        obtain ⟨rfl, rfl⟩ := heq
        obtain ⟨hplace, hskip⟩ := skippedBy_new hst hnewer hcount (by omega) hi
        apply Origin.fresh p clock rfl hskip
        rw [foundAt, hplace, Nat.add_sub_cancel]
  | timer clock =>
      exact Or.inr ⟨g, .time, rfl, h, rfl, rfl, ⟨0, rfl⟩, fun k info hmem => .old hmem (fun h => h)⟩
  | updateRtt => exact Or.inl ⟨fun _ => rfl, fun k info hmem => ⟨hmem, fun h => h⟩⟩
  | reset => exact Or.inl ⟨fun _ => rfl, fun k info hmem => by cases hmem⟩

/-! ## The books of an entry -/

/-- The events `seg` from state `g` on are what the entry says: it was asked for `retries`
    times, never later than at `sentAtMs`. -/
structure Account (k : UInt16) (info : NackInfo) (g : NackGenerator) (seg : List Event) :
    Prop where
  count : asked k (Trace.outputs step g seg) = info.retries.toNat
  latest : ∀ s e t, seg = s ++ e :: t → Emits (Trace.run step g s) e k →
    e.now ≤ info.sentAtMs ∧ e.Reads e.now
  reading : info.sentAtMs = 0 ∨ ∃ e ∈ seg, e.Reads info.sentAtMs

theorem account_nil (k : UInt16) (now : UInt64) (g : NackGenerator) :
    Account k (newInfo now k) g [] where
  count := rfl
  latest s e t h := by simp at h
  reading := Or.inl rfl

/-- Splitting a list that ends in `e`: inside, or at the end. -/
theorem concat_eq_append_cons {α : Type} {xs s t : List α} {a e : α}
    (h : xs ++ [a] = s ++ e :: t) : (xs = s ∧ a = e ∧ t = []) ∨
      ∃ t', t = t' ++ [a] ∧ xs = s ++ e :: t' := by
  rcases List.eq_nil_or_concat t with rfl | ⟨t', x, rfl⟩
  · obtain ⟨h1, h2⟩ := List.append_inj' h rfl
    exact Or.inl ⟨h1, List.singleton_inj.mp h2, rfl⟩
  · rw [List.concat_eq_append, ← List.cons_append, ← List.append_assoc] at h
    obtain ⟨h1, h2⟩ := List.append_inj' h rfl
    exact Or.inr ⟨t', by rw [List.concat_eq_append, List.singleton_inj.mp h2], h1⟩

section Concat

variable {k : UInt16} {info : NackInfo} {g : NackGenerator} {seg : List Event} {e : Event}

theorem asked_concat (k : UInt16) (g : NackGenerator) (seg : List Event) (e : Event) :
    asked k (Trace.outputs step g (seg ++ [e])) =
      asked k (Trace.outputs step g seg) + asked k (step (Trace.run step g seg) e).2 := by
  rw [Trace.outputs_concat, asked_append]

/-- A call that does not ask for the number. -/
theorem Account.quiet (h : Account k info g seg)
    (hask : asked k (step (Trace.run step g seg) e).2 = 0) : Account k info g (seg ++ [e]) where
  count := by rw [asked_concat, hask, h.count, Nat.add_zero]
  latest s e' t hsplit hemit := by
    rcases concat_eq_append_cons hsplit with ⟨rfl, rfl, -⟩ | ⟨t', -, hseg⟩
    · rw [emits_iff, hask] at hemit
      exact absurd hemit (by decide)
    · exact h.latest s e' t' hseg hemit
  reading := h.reading.imp id fun ⟨e', he', hr⟩ => ⟨e', List.mem_append_left _ he', hr⟩

/-- A call that asks for the number once, not earlier than it was asked before. -/
theorem Account.sent (h : Account k info g seg)
    (hask : asked k (step (Trace.run step g seg) e).2 = 1) (hread : e.Reads e.now)
    (hlimit : info.retries.toNat < 10) (hle : info.sentAtMs ≤ e.now) :
    Account k (markSent e.now info) g (seg ++ [e]) where
  count := by
    rw [asked_concat, hask, h.count, markSent, UInt8.toNat_add]
    simp only [UInt8.reduceToNat]
    omega
  latest s e' t hsplit hemit := by
    rcases concat_eq_append_cons hsplit with ⟨rfl, rfl, -⟩ | ⟨t', -, hseg⟩
    · exact ⟨UInt64.le_refl _, hread⟩
    · obtain ⟨h1, h2⟩ := h.latest s e' t' hseg hemit
      exact ⟨UInt64.le_trans h1 hle, h2⟩
  reading := Or.inr ⟨e, by simp, hread⟩

end Concat

/-! ## Whole runs -/

theorem sendNackDelayMs_run (sendNackDelayMs : UInt32) (events : List Event) :
    (Trace.run step (create sendNackDelayMs) events).sendNackDelayMs = sendNackDelayMs := by
  refine (Trace.run_invariant (I := fun g => Inv g ∧ g.sendNackDelayMs = sendNackDelayMs)
    (fun g e ⟨h, hd⟩ => ⟨inv_step g e h, ?_⟩) ⟨inv_create _, rfl⟩ events).2
  have hc := step_cases h e
  generalize step g e = r at hc
  cases hc <;> exact hd

/-- A stay on the list: packet `p` skipped over `k`; up to the last event `k` has not been
    received, and before each of these events it was on the list. -/
structure Stay (start : NackGenerator) (k : UInt16) (events pre : List Event)
    (p : RtpPacket) (clock : Clock) (post : List Event) : Prop where
  split : events = pre ++ .receive p clock :: post
  skipped : SkippedBy (Trace.run step start pre) p k
  absent : ∀ e ∈ post, ¬ e.Receives k
  listed : ∀ s t, post = s ++ t → t ≠ [] →
    k ∈ (Trace.run step start (pre ++ .receive p clock :: s)).keys

section Stay

variable {start : NackGenerator} {k : UInt16} {events pre post : List Event} {p : RtpPacket}
  {clock : Clock} {e : Event}

theorem Missing.stay (h : Missing start k events pre p clock post) (hnot : ¬ e.Receives k) :
    Stay start k (events ++ [e]) pre p clock (post ++ [e]) where
  split := by rw [h.split]; simp
  skipped := h.skipped
  absent e' he' := by
    rcases List.mem_append.mp he' with he' | he'
    · exact h.absent e' he'
    · rw [List.mem_singleton.mp he']
      exact hnot
  listed s t hst hne := by
    rcases List.eq_nil_or_concat t with rfl | ⟨t, x, rfl⟩
    · exact absurd rfl hne
    · rw [List.concat_eq_append, ← List.append_assoc] at hst
      exact h.listed s t (List.append_inj' hst rfl).1

theorem Stay.missing (h : Stay start k events pre p clock post)
    (hk : k ∈ (Trace.run step start events).keys) : Missing start k events pre p clock post where
  split := h.split
  skipped := h.skipped
  absent := h.absent
  listed s t hst := by
    by_cases hne : t = []
    · rw [hne, List.append_nil] at hst
      rw [← hst, ← h.split]
      exact hk
    · exact h.listed s t hst hne

end Stay

/-- The books of an entry, kept since its number was skipped. -/
structure Ledger (start : NackGenerator) (k : UInt16) (info : NackInfo)
    (events pre : List Event) (p : RtpPacket) (clock : Clock) (post : List Event) : Prop where
  missing : Missing start k events pre p clock post
  created : info.createdAtMs = foundAt (Trace.run step start pre) clock k
  books : Account k info (Trace.run step start pre) (.receive p clock :: post)
  limit : info.retries.toNat < 10

/-- What a batch of event `e` finds in the books of an entry. `seg` is the part of the stay
    before `e`; it is empty when `e` itself has made the entry. -/
structure Pending (start : NackGenerator) (k : UInt16) (info : NackInfo) (events : List Event)
    (e : Event) (pre : List Event) (p : RtpPacket) (clock : Clock) (post seg : List Event) :
    Prop where
  split : events = pre ++ seg
  segment : seg ++ [e] = .receive p clock :: post
  stay : Stay start k (events ++ [e]) pre p clock post
  created : info.createdAtMs = foundAt (Trace.run step start pre) clock k
  books : Account k info (Trace.run step start pre) seg
  limit : info.retries.toNat < 10
  createdBefore : info.createdAtMs ≤ e.now
  sentBefore : info.sentAtMs ≤ e.now

theorem Timely.le_last {events : List Event} {e : Event} (h : Timely (events ++ [e]))
    {e' : Event} (he' : e' ∈ events) {t u : UInt64} (ht : e'.Reads t) (hu : e.Reads u) :
    t ≤ u :=
  (List.pairwise_append.mp h.across).2.2 e' he' e (by simp) t u ht hu

theorem pending_of_origin {start : NackGenerator} {events : List Event} {e : Event} {k : UInt16}
    {info : NackInfo} (htime : Timely (events ++ [e])) (hread : e.Reads e.now)
    (hledger : (k, info) ∈ (Trace.run step start events).nackList →
      ∃ pre p clock post, Ledger start k info events pre p clock post)
    (ho : Origin (Trace.run step start events) e k info) :
    ∃ pre p clock post seg, Pending start k info events e pre p clock post seg := by
  cases ho with
  | old listed absent =>
      obtain ⟨pre, p, clock, post, hl⟩ := hledger listed
      have hsplit := hl.missing.split
      refine ⟨pre, p, clock, post ++ [e], .receive p clock :: post, hsplit, rfl,
        hl.missing.stay absent, hl.created, hl.books, hl.limit, ?_, ?_⟩
      · rw [hl.created]
        have hmem : Event.receive p clock ∈ events := by rw [hsplit]; simp
        exact htime.le_last hmem ⟨_, rfl⟩ hread
      · rcases hl.books.reading with h0 | ⟨e', he', hr⟩
        · rw [h0, UInt64.le_iff_toNat_le]
          exact Nat.zero_le _
        · exact htime.le_last (by rw [hsplit]; exact List.mem_append_right _ he') hr hread
  | fresh p clock event skipped new =>
      subst event new
      refine ⟨events, p, clock, [], [], by simp, rfl, ⟨by simp, skipped, by simp, ?_⟩, rfl,
        account_nil _ _ _, show (0 : UInt8).toNat < 10 by decide, ?_, ?_⟩
      · intro s t hst hne
        exact absurd (List.append_eq_nil_iff.mp hst.symm).2 hne
      · have hord := htime.within (.receive p clock) (by simp)
        apply hord
        have := (k - (Trace.run step start events).lastSeq).toNat_lt
        unfold behind
        omega
      · rw [UInt64.le_iff_toNat_le]
        exact Nat.zero_le _

/-- In every run on a timely clock the books of every entry are right. -/
theorem ledger_run (sendNackDelayMs : UInt32) (events : List Event) (htime : Timely events)
    (k : UInt16) (info : NackInfo)
    (hmem : (k, info) ∈ (Trace.run step (create sendNackDelayMs) events).nackList) :
    ∃ pre p clock post, Ledger (create sendNackDelayMs) k info events pre p clock post := by
  refine Trace.run_history (I := fun events _ (g : NackGenerator) =>
    ∀ info, (k, info) ∈ g.nackList → ∃ pre p clock post,
      Ledger (create sendNackDelayMs) k info events pre p clock post)
    (fun info hmem => by cases hmem) ?_ info hmem
  intro events e rest hsplit ih info hmem
  have hinv := inv_run sendNackDelayMs events
  have htime : Timely (events ++ [e]) := by
    rw [hsplit, List.append_cons] at htime
    exact htime.left
  have hkey : k ∈ (Trace.run step (create sendNackDelayMs) (events ++ [e])).keys := by
    rw [Trace.run_concat]
    exact mem_keys_iff.mpr ⟨info, hmem⟩
  rcases step_entries hinv e with ⟨hquiet, hold⟩ | ⟨g₁, filter, hstep, hinv₁, -, -, hread, ho⟩
  · obtain ⟨hlisted, habsent⟩ := hold k info hmem
    obtain ⟨pre, p, clock, post, hl⟩ := ih info hlisted
    have hrun : Trace.run step (Trace.run step (create sendNackDelayMs) pre)
        (.receive p clock :: post) = Trace.run step (create sendNackDelayMs) events := by
      rw [hl.missing.split, Trace.run_append]
    exact ⟨pre, p, clock, post ++ [e], hl.missing.concat habsent hkey, hl.created,
      hl.books.quiet (by rw [hrun]; exact hquiet k), hl.limit⟩
  · rw [hstep] at hmem
    obtain ⟨info₀, hmem₀, hbatch⟩ := mem_batchLoop hmem
    obtain ⟨pre, p, clock, post, seg, hp⟩ :=
      pending_of_origin htime hread (ih info₀) (ho k info₀ hmem₀)
    have hrun : Trace.run step (Trace.run step (create sendNackDelayMs) pre) seg =
        Trace.run step (create sendNackDelayMs) events := by
      rw [hp.split, Trace.run_append]
    have hask := asked_of_mem hinv₁ filter e.now hmem₀
    rw [← hstep, ← hrun] at hask
    rcases hbatch with ⟨hdue, rfl⟩ | ⟨hdue, heq, hmax⟩
    · rw [if_neg (by simp [hdue])] at hask
      have hbooks := hp.books.quiet hask
      rw [hp.segment] at hbooks
      exact ⟨pre, p, clock, post, hp.stay.missing hkey, hp.created, hbooks, hp.limit⟩
    · rw [if_pos hdue] at hask
      have hbooks := hp.books.sent hask hread hp.limit hp.sentBefore
      rw [hp.segment] at hbooks
      simp only at heq
      subst heq
      refine ⟨pre, p, clock, post, hp.stay.missing hkey, hp.created, hbooks, ?_⟩
      simp only [ge_iff_le, UInt8.le_iff_toNat_le, not_le] at hmax
      exact hmax

/-- What is at least `d` behind `b` in the clock's arithmetic is so in numbers. -/
theorem add_le_of_le_sub {d : UInt32} {a b : UInt64} (hab : a ≤ b) (h : d.toUInt64 ≤ b - a) :
    a.toNat + d.toNat ≤ b.toNat := by
  rw [UInt64.le_iff_toNat_le, UInt64.toNat_sub_of_le _ _ hab, UInt32.toNat_toUInt64] at h
  rw [UInt64.le_iff_toNat_le] at hab
  omega

/-- **The pacing of requests.** Whenever number `k` goes into a batch, it was skipped over by
    a packet and has not been received since; the batch comes no earlier than the delay after
    `k` was found missing and no sooner than the round-trip time after each earlier batch of
    the same stay on the list; and the stay has seen it at most ten times. -/
theorem nack_pacing (sendNackDelayMs : UInt32) (events : List Event) (e : Event) (k : UInt16)
    (htime : Timely (events ++ [e]))
    (hemit : Emits (Trace.run step (create sendNackDelayMs) events) e k) :
    let after := Trace.run step (create sendNackDelayMs)
    ∃ pre p clock post, Stay (create sendNackDelayMs) k (events ++ [e]) pre p clock post ∧
      (foundAt (after pre) clock k).toNat + sendNackDelayMs.toNat ≤ e.now.toNat ∧
      (∀ s e' t, .receive p clock :: post = s ++ e' :: t → t ≠ [] →
        Emits (after (pre ++ s)) e' k →
        e'.now.toNat + (after events).resendGap.toNat ≤ e.now.toNat) ∧
      asked k (Trace.outputs step (after pre) (.receive p clock :: post)) ≤ 10 := by
  intro after
  have hinv : Inv (after events) := inv_run sendNackDelayMs events
  rw [emits_iff] at hemit
  rcases step_entries hinv e with ⟨hquiet, -⟩ | ⟨g₁, filter, hstep, hinv₁, hdelay, hrtt, hread, ho⟩
  · rw [hquiet k] at hemit
    exact absurd hemit (by decide)
  -- the entry that was due
  have hk : k ∈ (g₁.batchLoop filter e.now g₁.nackList).1 := by
    rw [hstep, asked_sendNackBatch] at hemit
    exact List.count_pos_iff.mp hemit
  obtain ⟨⟨key, info⟩, hmem, hdue, hseq⟩ := (mem_batch_iff _ _ _ _ _).mp hk
  have hkey : key = k := (hinv₁.seqs _ hmem).symm.trans hseq
  subst hkey
  obtain ⟨pre, p, clock, post, seg, hp⟩ := pending_of_origin htime hread
    (ledger_run sendNackDelayMs events htime.left key info) (ho key info hmem)
  have hrun : Trace.run step (after pre) seg = after events := by
    simp only [after, hp.split, Trace.run_append]
  have hask := asked_of_mem hinv₁ filter e.now hmem
  rw [if_pos hdue, ← hstep] at hask
  obtain ⟨hwait, hgap⟩ := isDue_spec hdue
  refine ⟨pre, p, clock, post, hp.stay, ?_, ?_, ?_⟩
  · rw [← hp.created]
    rw [hdelay, sendNackDelayMs_run] at hwait
    rcases hwait with h0 | hwait
    · rw [h0]
      exact UInt64.le_iff_toNat_le.mp hp.createdBefore
    · exact add_le_of_le_sub hp.createdBefore hwait
  · intro s e' t hsplit hne hemit'
    -- an earlier batch is in the books
    rw [← hp.segment] at hsplit
    rcases concat_eq_append_cons hsplit with ⟨-, -, ht⟩ | ⟨t', -, hseg⟩
    · exact absurd ht hne
    simp only [after, Trace.run_append] at hemit'
    obtain ⟨hle, hread'⟩ := hp.books.latest s e' t' hseg hemit'
    have hpos := htime.positive e' (by rw [hp.split, hseg]; simp) _ hread'
    rw [UInt64.lt_iff_toNat_lt] at hpos
    rw [UInt64.le_iff_toNat_le] at hle
    rcases hgap with h0 | hgap
    · rw [h0] at hle
      simp only [UInt64.reduceToNat] at hpos hle
      omega
    · have := add_le_of_le_sub hp.sentBefore hgap
      rw [show g₁.resendGap = (after events).resendGap by rw [resendGap, hrtt]; rfl] at this
      omega
  · rw [← hp.segment, asked_concat, hrun, hask, hp.books.count]
    have := hp.limit
    omega

/-! ## A number that comes back -/

/-- Packet `seq` arrives while the clock stands at `t`. -/
def arrive (seq : UInt16) (t : UInt64) : Event := .receive (.media seq 0) fun _ => t

theorem timely_arrivals {l : List (UInt16 × UInt64)} (hpos : ∀ x ∈ l, 0 < x.2)
    (hsorted : l.Pairwise fun x y => x.2 ≤ y.2) : Timely (l.map fun x => arrive x.1 x.2) where
  positive e he t ht := by
    obtain ⟨x, hx, rfl⟩ := List.mem_map.mp he
    obtain ⟨-, rfl⟩ := ht
    exact hpos x hx
  within e he := by
    obtain ⟨x, -, rfl⟩ := List.mem_map.mp he
    exact fun _ _ _ => UInt64.le_refl _
  across := by
    refine List.pairwise_map.mpr (hsorted.imp fun {x y} hxy t u ht hu => ?_)
    obtain ⟨-, rfl⟩ := ht
    obtain ⟨-, rfl⟩ := hu
    exact hxy

/-- Number 99 is missing and asked for at 10 ms. Two jumps of 30000 empty the list and bring
    the numbers round; at 14 ms the next packet 99 is missing. -/
def wrapArrivals : List (UInt16 × UInt64) :=
  [(98, 10), (100, 10), (30100, 11), (60100, 12), (98, 13), (100, 14)]

/-- Across stays the round-trip time between two requests of a number is not kept. -/
theorem asked_again_after_wrap :
    ¬ ∀ (sendNackDelayMs : UInt32) (events s t : List Event) (e' e : Event) (k : UInt16),
      Timely (events ++ [e]) → events = s ++ e' :: t →
      Emits (Trace.run step (create sendNackDelayMs) s) e' k →
      Emits (Trace.run step (create sendNackDelayMs) events) e k →
      e'.now.toNat + (Trace.run step (create sendNackDelayMs) events).resendGap.toNat ≤
        e.now.toNat := by
  intro h
  have htime : Timely (wrapArrivals.map fun x => arrive x.1 x.2) :=
    timely_arrivals (by simp [wrapArrivals]) (by decide)
  have hearly := h 0 [arrive 98 10, arrive 100 10, arrive 30100 11, arrive 60100 12, arrive 98 13]
    [arrive 98 10] [arrive 30100 11, arrive 60100 12, arrive 98 13] (arrive 100 10)
    (arrive 100 14) 99 htime rfl ((emits_iff _ _ _).mpr (by decide))
    ((emits_iff _ _ _).mpr (by decide))
  exact absurd hearly (by decide)

theorem nack_pacing_once :
    ∃ pre p clock post, Stay (create 0) 99 [arrive 98 10, arrive 100 20] pre p clock post ∧
      asked 99 (Trace.outputs step (Trace.run step (create 0) pre)
        (.receive p clock :: post)) ≤ 10 := by
  have htime : Timely ([(98, 10), (100, 20)].map fun x => arrive x.1 x.2) :=
    timely_arrivals (by simp) (by decide)
  obtain ⟨pre, p, clock, post, hstay, -, -, hten⟩ :=
    nack_pacing 0 [arrive 98 10] (arrive 100 20) 99 htime ((emits_iff _ _ _).mpr (by decide))
  exact ⟨pre, p, clock, post, hstay, hten⟩

end Bifrost.Rtc.NackGenerator
