/-
  `ResetPopSeq` and a new queue.

  `ResetPopSeq` takes the awaited number back to 0 and leaves the rest: the packets that were
  not delivered, the running maximum and the cycle count under which `Push` files. A new
  queue files its first packet under its own number. Any queue that has filed a packet can
  be told from it: by what is left under key 0, by a packet 0 that is not delivered, or by
  one that is delivered behind a packet from the far half of the range
  (`reset_eq_fresh_iff`).
-/
import Bifrost.Rtc.QueueDuplicates

namespace Bifrost.Rtc.ThreadRtpPacketQueue

variable {β : Type}

/-- The calls on a queue, with the reset. -/
inductive Use (β : Type) where
  | call (c : Call β)
  | resetPopSeq
  deriving DecidableEq

def use (q : ThreadRtpPacketQueue β) : Use β → ThreadRtpPacketQueue β × List β
  | .call c => step q c
  | .resetPopSeq => (q.resetPopSeq, [])

/-! ## The state before the reset -/

theorem mapSorted_use (q : ThreadRtpPacketQueue β) (u : Use β) (h : MapSorted q) :
    MapSorted (use q u).1 := by
  cases u with
  | call c => exact mapSorted_step q c h
  | resetPopSeq => exact h

/-- A queue stays started. -/
theorem isStart_use (q : ThreadRtpPacketQueue β) (u : Use β) (h : q.isStart = false) :
    (use q u).1.isStart = false := by
  cases u with
  | call c =>
      cases c with
      | push seq b => exact push_isStart q seq b
      | pop => exact h
  | resetPopSeq => exact h

theorem isStart_of_push {prior : List (Use β)} {seq : UInt16} {b : β}
    (h : .call (.push seq b) ∈ prior) : ∀ q : ThreadRtpPacketQueue β,
    (Trace.run use q prior).isStart = false := by
  obtain ⟨pre, post, rfl⟩ := List.append_of_mem h
  intro q
  rw [Trace.run_append, Trace.run_cons]
  exact Trace.run_invariant isStart_use (push_isStart _ seq b) post

/-- Without a `Push` a new queue stays as it is. -/
theorem run_eq_fresh {prior : List (Use β)} (h : ∀ seq b, .call (.push seq b) ∉ prior) :
    Trace.run use {} prior = ({} : ThreadRtpPacketQueue β) := by
  induction prior with
  | nil => rfl
  | cons u prior ih =>
      have hrest := ih fun seq b hmem => h seq b (List.mem_cons_of_mem u hmem)
      have hfirst : (use ({} : ThreadRtpPacketQueue β) u).1 = {} := by
        cases u with
        | call c =>
            cases c with
            | push seq b => exact absurd List.mem_cons_self (h seq b)
            | pop => rfl
        | resetPopSeq => rfl
      rw [Trace.run_cons, hfirst, hrest]

/-! ## Filing under key 0 -/

/-- `Pop` delivers nothing when the awaited number is not in the map. -/
theorem pop_eq_nil {q : ThreadRtpPacketQueue β} (h : ∀ e ∈ q.packetMap, e.1 ≠ q.waitePopSeq) :
    q.pop.2 = [] := by
  unfold pop
  cases hmap : q.packetMap with
  | nil => rfl
  | cons e rest =>
      obtain ⟨key, b⟩ := e
      rw [hmap] at h
      have hkey : q.waitePopSeq ≠ key := fun heq => h _ List.mem_cons_self heq.symm
      rw [popLoop, if_neg hkey]

/-- When it waits for 0 and delivers nothing, there is no key 0 in the map. -/
theorem ne_zero_of_pop_eq_nil {q : ThreadRtpPacketQueue β} (hsorted : MapSorted q)
    (hwait : q.waitePopSeq = 0) (hpop : q.pop.2 = []) : ∀ e ∈ q.packetMap, e.1 ≠ 0 := by
  unfold pop at hpop
  unfold MapSorted at hsorted
  rw [hwait] at hpop
  cases hmap : q.packetMap with
  | nil => exact List.forall_mem_nil _
  | cons e rest =>
      obtain ⟨key, b⟩ := e
      rw [hmap] at hpop hsorted
      have hkey : key ≠ 0 := fun hzero => by
        rw [popLoop, if_pos hzero.symm] at hpop
        cases hpop
      refine List.forall_mem_cons.mpr ⟨hkey, fun e he hzero => ?_⟩
      have hlt : keyLt key e.1 = true := (List.pairwise_cons.mp hsorted).1 e he
      rw [hzero, keyLt, decide_eq_true_eq, UInt32.lt_iff_toNat_lt] at hlt
      exact absurd hlt (Nat.not_lt_zero _)

/-- A packet filed under 0 in a map without that key comes to stand in front. -/
theorem emplace_zero {m : List (UInt32 × β)} (h : ∀ e ∈ m, e.1 ≠ 0) (b : β) :
    OrderedMap.emplace keyLt 0 b m = (0, b) :: m := by
  cases m with
  | nil => rfl
  | cons e rest =>
      have hne := h e List.mem_cons_self
      have hnotbelow : keyLt e.1 0 = false :=
        decide_eq_false (by rw [UInt32.lt_iff_toNat_lt]; exact Nat.not_lt_zero _)
      have habove : keyLt 0 e.1 = true := by
        have hpos : 0 < e.1.toNat :=
          Nat.pos_of_ne_zero fun hzero => hne (UInt32.toNat_inj.mp hzero)
        exact decide_eq_true (UInt32.lt_iff_toNat_lt.mpr hpos)
      simp only [OrderedMap.emplace, OrderedMap.find?, OrderedMap.below, OrderedMap.lowerBound,
        List.dropWhile_cons, List.takeWhile_cons, hnotbelow, habove, Bool.false_eq_true, if_false,
        if_true, List.nil_append]

/-- What the packets in the map have to do with the key of the next is nothing. -/
theorem largeSeq_advance_congr (q : ThreadRtpPacketQueue β) (m : List (UInt32 × β))
    (seq : UInt16) : ({ q with packetMap := m }.advance seq).largeSeq seq =
      (q.advance seq).largeSeq seq := by
  unfold advance largeSeq
  dsimp only
  split_ifs <;> rfl

/-! ## The continuations that tell -/

theorem outputs_pop (q : ThreadRtpPacketQueue β) : Trace.outputs step q [.pop] = q.pop.2 := by
  simp only [Trace.outputs_cons, Trace.outputs_nil, step, List.append_nil]

theorem outputs_push_pop (q : ThreadRtpPacketQueue β) (b : β) :
    Trace.outputs step q [.push 0 b, .pop] = (q.push 0 b).pop.2 := by
  simp only [Trace.outputs_cons, Trace.outputs_nil, step, List.append_nil, List.nil_append]

theorem outputs_push_push_pop (q : ThreadRtpPacketQueue β) (x : UInt16) (b : β) :
    Trace.outputs step q [.push x b, .push 0 b, .pop] = ((q.push x b).push 0 b).pop.2 := by
  simp only [Trace.outputs_cons, Trace.outputs_nil, step, List.append_nil, List.nil_append]

/-- A number is no progress over itself. -/
theorem isLargeSeq_self (x : UInt16) : isLargeSeq x x = (false, false) := by
  unfold isLargeSeq
  rw [if_neg (UInt16.lt_irrefl x), if_neg (by omega)]

theorem advance_fresh (x : UInt16) :
    ({} : ThreadRtpPacketQueue β).advance x = { isStart := false, maxSeq := x } := by
  unfold advance
  simp only [isLargeSeq_self, if_true, Bool.false_eq_true, if_false]

/-- A packet that is filed and delivered next. -/
theorem outputs_fresh_push (b : β) :
    Trace.outputs step ({} : ThreadRtpPacketQueue β) [.push 0 b, .pop] = [b] := by
  have hkey : largeSeq ({ isStart := false, maxSeq := 0 } : ThreadRtpPacketQueue β) 0 = 0 := by
    show (0 : UInt32) <<< 16 + (0 : UInt16).toUInt32 = 0
    decide
  rw [outputs_push_pop]
  unfold pop
  rw [push_packetMap, push_waitePopSeq, advance_fresh, hkey, emplace_zero (List.forall_mem_nil _),
    popLoop, if_pos rfl]
  rfl

/-- Only packet 0 of the first cycle is filed under key 0. -/
theorem largeSeq_ne_zero (q : ThreadRtpPacketQueue β) {x : UInt16} (hx : 32768 ≤ x.toNat) :
    q.largeSeq x ≠ 0 := by
  intro hzero
  have hsum := congrArg UInt32.toNat hzero
  rw [largeSeq_toNat] at hsum
  have hx' : x.toNat = 0 := (Nat.add_eq_zero_iff.mp hsum).2
  omega

theorem push_keys_ne_zero {q : ThreadRtpPacketQueue β} {x : UInt16} {b : β}
    (hne : ∀ e ∈ q.packetMap, e.1 ≠ 0) (hkey : (q.advance x).largeSeq x ≠ 0) :
    ∀ e ∈ (q.push x b).packetMap, e.1 ≠ 0 := by
  intro e he
  rw [push_packetMap] at he
  rcases OrderedMap.mem_of_mem_emplace he with hold | rfl
  · exact hne e hold
  · exact hkey

/-- In a new queue packet 0 behind one from the far half is a wrap, and not delivered. -/
theorem outputs_fresh_far {x : UInt16} (hx : 32768 ≤ x.toNat) (b : β) :
    Trace.outputs step ({} : ThreadRtpPacketQueue β) [.push x b, .push 0 b, .pop] = [] := by
  have hwrap : isLargeSeq x 0 = (true, true) := by
    unfold isLargeSeq
    rw [if_neg (by rw [gt_iff_lt, UInt16.lt_iff_toNat_lt]; exact Nat.not_lt_zero _), if_pos]
    show x.toNat - 0 > 32767
    omega
  have hsecond : (({} : ThreadRtpPacketQueue β).push x b).advance 0 =
      { packetMap := (({} : ThreadRtpPacketQueue β).push x b).packetMap, isStart := false,
        maxSeq := 0, cycle := 1 } := by
    unfold push
    rw [advance_fresh]
    unfold advance
    simp only [hwrap, Bool.false_eq_true, if_false, if_true]
    rfl
  have hfirst := @push_keys_ne_zero β {} x b (List.forall_mem_nil _) (largeSeq_ne_zero _ hx)
  have hkey : ((({} : ThreadRtpPacketQueue β).push x b).advance 0).largeSeq 0 ≠ 0 := by
    rw [hsecond]
    show (1 : UInt32) <<< 16 + (0 : UInt16).toUInt32 ≠ 0
    decide
  rw [outputs_push_push_pop, pop_eq_nil fun e he => ?_]
  rw [push_waitePopSeq, push_waitePopSeq]
  exact push_keys_ne_zero hfirst hkey e he

/-- For every running maximum there is a packet in the far half that does not move it. -/
theorem exists_far (maxSeq : UInt16) :
    ∃ x : UInt16, 32768 ≤ x.toNat ∧ isLargeSeq maxSeq x = (false, false) := by
  by_cases hlow : maxSeq.toNat < 32768
  · refine ⟨65535, by decide, ?_⟩
    unfold isLargeSeq
    rw [if_pos (by rw [gt_iff_lt, UInt16.lt_iff_toNat_lt]; exact Nat.lt_trans hlow (by decide)),
      if_pos]
    show 65535 - maxSeq.toNat > 32767
    omega
  · exact ⟨maxSeq, Nat.le_of_not_lt hlow, isLargeSeq_self maxSeq⟩

/-- **A queue that has filed a packet is told from a new one** by what it delivers. -/
theorem exists_telling {q : ThreadRtpPacketQueue β} (hsorted : MapSorted q)
    (hwait : q.waitePopSeq = 0) (hstart : q.isStart = false) (b : β) :
    ∃ calls, Trace.outputs step q calls ≠ Trace.outputs step {} calls := by
  by_contra hnone
  have hsame : ∀ calls, Trace.outputs step q calls = Trace.outputs step {} calls :=
    fun calls => not_not.mp fun hne => hnone ⟨calls, hne⟩
  have hpop : q.pop.2 = [] := by
    rw [← outputs_pop, hsame, outputs_pop]
    rfl
  have hne := ne_zero_of_pop_eq_nil hsorted hwait hpop
  -- packet 0 is delivered at once only if it is filed under key 0
  have hzero : (q.advance 0).largeSeq 0 = 0 := by
    by_contra hkey
    have hout := hsame [.push 0 b, .pop]
    rw [outputs_fresh_push, outputs_push_pop, pop_eq_nil fun e he => ?_] at hout
    · cases hout
    · rw [push_waitePopSeq, hwait]
      exact push_keys_ne_zero hne hkey e he
  -- and then it is also behind a packet that does not move the running maximum
  obtain ⟨x, hx, hstay⟩ := exists_far q.maxSeq
  have hadvance : q.advance x = q := by
    unfold advance
    simp only [hstart, hstay, Bool.false_eq_true, if_false]
  have hne' : ∀ e ∈ (q.push x b).packetMap, e.1 ≠ 0 :=
    push_keys_ne_zero hne (largeSeq_ne_zero _ hx)
  have hkey : ((q.push x b).advance 0).largeSeq 0 = 0 := by
    have hpush : q.push x b = { q with packetMap := (q.push x b).packetMap } := by
      unfold push
      rw [hadvance]
    rw [hpush, largeSeq_advance_congr, hzero]
  have hout := hsame [.push x b, .push 0 b, .pop]
  rw [outputs_fresh_far hx, outputs_push_push_pop] at hout
  have hmap : ((q.push x b).push 0 b).packetMap = (0, b) :: (q.push x b).packetMap := by
    rw [push_packetMap, hkey, emplace_zero hne']
  unfold pop at hout
  rw [push_waitePopSeq, push_waitePopSeq, hwait, hmap, popLoop, if_pos rfl] at hout
  cases hout

/-- **After `ResetPopSeq` a queue delivers what a new one would, whatever the calls, exactly
    when nothing was pushed before.** -/
theorem reset_eq_fresh_iff (prior : List (Use β)) :
    (∀ calls, Trace.outputs step (Trace.run use {} prior).resetPopSeq calls =
      Trace.outputs step {} calls) ↔
    ∀ seq b, .call (.push seq b) ∉ prior := by
  constructor
  · intro hsame seq b hmem
    have hsorted : MapSorted (Trace.run use {} prior) :=
      Trace.run_invariant mapSorted_use mapSorted_init prior
    obtain ⟨calls, htold⟩ := @exists_telling β (Trace.run use {} prior).resetPopSeq hsorted rfl
      (isStart_of_push hmem {}) b
    exact htold (hsame calls)
  · intro hnone calls
    rw [run_eq_fresh hnone]
    rfl

/-- Packet 40000 is there, then the reset: the 0 that the next sequence starts with counts as a
    wrap and is not delivered. -/
theorem not_reset_eq_fresh :
    Trace.outputs step
      (Trace.run use ({} : ThreadRtpPacketQueue Nat) [.call (.push 40000 1)]).resetPopSeq
      [.push 0 2, .pop] = [] ∧
    Trace.outputs step ({} : ThreadRtpPacketQueue Nat) [.push 0 2, .pop] = [2] := by
  refine ⟨?_, ?_⟩ <;> decide +kernel

end Bifrost.Rtc.ThreadRtpPacketQueue
