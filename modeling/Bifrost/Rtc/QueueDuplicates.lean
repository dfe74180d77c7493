/-
  Duplicates in `ThreadRtpPacketQueue`.

  `Push` files a second copy of a packet under the key it computes now, and `emplace`
  drops the copy only when that key is still in the map.

  * `push_duplicate`: a copy whose key is queued leaves the queue as it was, so nothing
    that is delivered later changes.
  * `push_stale_halts`: a copy of a delivered packet comes to stand in front of the number
    `Pop` waits for, and the queue never delivers anything again.

  `duplicate_undisturbed` puts the two together for every run and every continuation. A
  copy whose key lies ahead of the awaited number and is not queued (its packet was filed
  under another cycle) takes the place of the packet that key belongs to; nothing is
  said about it.
-/
import Bifrost.Rtc.ThreadRtpPacketQueue

namespace Bifrost.Rtc.ThreadRtpPacketQueue

variable {β : Type}

/-- The key a copy of packet `s` computes is in the map. -/
def KeyQueued (q : ThreadRtpPacketQueue β) (s : UInt16) : Prop :=
  ∃ b, (q.largeSeq s, b) ∈ q.packetMap

/-! ## What holds after every run -/

/-- The map is sorted, as `std::map` keeps it. -/
def MapSorted (q : ThreadRtpPacketQueue β) : Prop := OrderedMap.Sorted keyLt q.packetMap

theorem popLoop_suffix (m : List (UInt32 × β)) :
    ∀ w, (popLoop w m).2.2 <:+ m := by
  induction m with
  | nil => intro w; exact List.suffix_refl _
  | cons e m ih =>
      obtain ⟨k, b⟩ := e
      intro w
      by_cases hw : w = k
      · simp only [popLoop, if_pos hw]
        exact (ih (w + 1)).trans (List.suffix_cons _ _)
      · simp only [popLoop, if_neg hw]
        exact List.suffix_refl _

theorem mapSorted_step (q : ThreadRtpPacketQueue β) (c : Call β) (h : MapSorted q) :
    MapSorted (step q c).1 := by
  cases c with
  | push s b =>
      simp only [MapSorted, step, push_packetMap]
      exact OrderedMap.sorted_emplace strictTotalOn_keyLt (fun _ _ => trivial) trivial h
  | pop => exact h.sublist (popLoop_suffix q.packetMap q.waitePopSeq).sublist

theorem mapSorted_init : MapSorted ({} : ThreadRtpPacketQueue β) := List.Pairwise.nil

theorem mapSorted_run (calls : List (Call β)) : MapSorted (Trace.run step {} calls) :=
  Trace.run_invariant mapSorted_step mapSorted_init calls

/-- A queue that has seen a packet is started. -/
theorem isStart_run {calls : List (Call β)} {s : UInt16} {b : β} (h : .push s b ∈ calls) :
    (Trace.run step {} calls).isStart = false := by
  obtain ⟨pre, post, rfl⟩ := List.append_of_mem h
  rw [Trace.run_append, Trace.run_cons]
  have hstep : ∀ (q : ThreadRtpPacketQueue β) c, q.isStart = false →
      (step q c).1.isStart = false := by
    intro q c hq
    cases c with
    | push s b => exact push_isStart q s b
    | pop => exact hq
  exact Trace.run_invariant hstep (push_isStart _ s b) post

/-! ## A duplicate that is still queued -/

/-- A number less than half the range behind the maximum moves neither it nor the cycle. -/
theorem advance_behind {q : ThreadRtpPacketQueue β} {s : UInt16} (hstart : q.isStart = false)
    (hnear : (q.maxSeq - s).toNat < 32768) : q.advance s = q := by
  have hlarge : isLargeSeq q.maxSeq s = (false, false) := by
    have := q.maxSeq.toNat_lt
    have := s.toNat_lt
    rw [UInt16.toNat_sub] at hnear
    unfold isLargeSeq
    simp only [gt_iff_lt, UInt16.lt_iff_toNat_lt]
    split <;> split <;> first | rfl | omega
  simp [advance, hstart, hlarge]

theorem push_duplicate {q : ThreadRtpPacketQueue β} {s : UInt16} (b : β) (hs : MapSorted q)
    (hstart : q.isStart = false) (hnear : (q.maxSeq - s).toNat < 32768) (hk : KeyQueued q s) :
    q.push s b = q := by
  obtain ⟨b', hmem⟩ := hk
  have hfind : OrderedMap.find? keyLt (q.largeSeq s) q.packetMap ≠ none := by
    rw [ne_eq, OrderedMap.find?_none_iff strictTotalOn_keyLt (fun _ _ => trivial) trivial hs]
    exact fun h => h _ hmem rfl
  obtain ⟨e, he⟩ := Option.ne_none_iff_exists'.mp hfind
  simp only [push, advance_behind hstart hnear, OrderedMap.emplace, he]

/-! ## A duplicate of a delivered packet -/

/-- A key below the awaited number stands at the front of the map. -/
def Halted (q : ThreadRtpPacketQueue β) : Prop :=
  MapSorted q ∧ ∃ e ∈ q.packetMap, e.1 < q.waitePopSeq

/-- A halted queue delivers nothing and stays halted: `Pop` only looks at the front. -/
theorem halted_step (q : ThreadRtpPacketQueue β) (c : Call β) (h : Halted q) :
    (step q c).2 = [] ∧ Halted (step q c).1 := by
  obtain ⟨hs, e, hmem, hlt⟩ := h
  cases c with
  | push s b =>
      refine ⟨rfl, mapSorted_step q (.push s b) hs, e, ?_, by simpa [step] using hlt⟩
      simp only [step, push_packetMap]
      rw [OrderedMap.mem_emplace strictTotalOn_keyLt (fun _ _ => trivial) trivial hs]
      exact Or.inl hmem
  | pop =>
      have hpop : popLoop q.waitePopSeq q.packetMap = ([], q.waitePopSeq, q.packetMap) := by
        rw [UInt32.lt_iff_toNat_lt] at hlt
        cases hm : q.packetMap with
        | nil => rw [hm] at hmem; cases hmem
        | cons f m =>
            have hne : q.waitePopSeq ≠ f.1 := by
              intro heq
              unfold MapSorted at hs
              rw [hm] at hmem hs
              rcases List.mem_cons.mp hmem with rfl | hmem
              · rw [heq] at hlt
                omega
              · have hfe := (List.pairwise_cons.mp hs).1 e hmem
                simp only [keyLt, decide_eq_true_eq, UInt32.lt_iff_toNat_lt, ← heq] at hfe
                omega
            simp only [popLoop, if_neg hne]
      simp only [step, pop, hpop]
      exact ⟨trivial, hs, e, hmem, hlt⟩

/-- A copy of a packet that was delivered halts the queue. -/
theorem push_stale_halts {q : ThreadRtpPacketQueue β} {s : UInt16} (b : β) (hs : MapSorted q)
    (hstart : q.isStart = false) (hnear : (q.maxSeq - s).toNat < 32768)
    (hnew : ¬ KeyQueued q s) (hlt : q.largeSeq s < q.waitePopSeq) : Halted (q.push s b) := by
  refine ⟨mapSorted_step q (.push s b) hs, (q.largeSeq s, b), ?_, by simpa using hlt⟩
  rw [push_packetMap, advance_behind hstart hnear,
    OrderedMap.mem_emplace strictTotalOn_keyLt (fun _ _ => trivial) trivial hs]
  exact Or.inr ⟨rfl, fun e he heq => hnew ⟨e.2, by rw [← heq]; exact he⟩⟩

/-- **A second copy of a packet changes nothing that is delivered later** when the key it
    computes is still queued. When the packet has left the queue, the copy ends all
    delivery, so it goes unnoticed only where nothing would have been delivered anyway. -/
theorem duplicate_undisturbed (pre post : List (Call β)) (s : UInt16) (b b' : β)
    (hpushed : .push s b ∈ pre)
    (hnear : ((Trace.run step {} pre).maxSeq - s).toNat < 32768) :
    let q := Trace.run step {} pre
    let q' := Trace.run step {} (pre ++ [.push s b'])
    (KeyQueued q s → Trace.outputs step q' post = Trace.outputs step q post) ∧
    (¬ KeyQueued q s → q.largeSeq s < q.waitePopSeq →
      (Trace.outputs step q' post = Trace.outputs step q post ↔
        Trace.outputs step q post = [])) := by
  intro q q'
  have hs : MapSorted q := mapSorted_run pre
  have hstart : q.isStart = false := isStart_run hpushed
  have hq' : q' = q.push s b' := Trace.run_concat _ _ _
  refine ⟨fun hk => ?_, fun hk hlt => ?_⟩
  · rw [hq', push_duplicate b' hs hstart hnear hk]
  · have hnil : Trace.outputs step q' post = [] := by
      rw [hq']
      exact Trace.outputs_eq_nil halted_step (push_stale_halts b' hs hstart hnear hk hlt) post
    rw [hnil]
    exact eq_comm

/-- Packet 0 is delivered, then a copy of it arrives: packet 1 is never delivered. -/
theorem duplicate_of_delivered_halts :
    Call.push 0 "p0" ∈ [Call.push 0 "p0", .pop] ∧
    ((Trace.run step {} [.push 0 "p0", .pop]).maxSeq - 0).toNat < 32768 ∧
    Trace.outputs step (Trace.run step {} ([.push 0 "p0", .pop] ++ [.push 0 "p0"]))
      [.push 1 "p1", .pop] ≠
    Trace.outputs step (Trace.run step {} [.push 0 "p0", .pop]) [.push 1 "p1", .pop] := by
  decide

/-- A copy of a packet that still waits for packet 0. -/
theorem duplicate_of_queued_undisturbed :
    Trace.outputs step (Trace.run step {} ([.push 1 "p1"] ++ [.push 1 "copy"]))
      [.push 0 "p0", .pop] =
    Trace.outputs step (Trace.run step {} [.push 1 "p1"]) [.push 0 "p0", .pop] :=
  (duplicate_undisturbed [.push 1 "p1"] [.push 0 "p0", .pop] 1 "p1" "copy" (by simp)
    (by decide)).1 ⟨"p1", by decide⟩

end Bifrost.Rtc.ThreadRtpPacketQueue
