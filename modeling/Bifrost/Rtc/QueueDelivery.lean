/-
  What `ThreadRtpPacketQueue` delivers, with the keys.

  The keys leave the map inside `Pop`, and its caller sees the payloads only. `popEntries`
  keeps the two together, `filed` is the log of what `Push` filed and under which key.

  * `popLoop_spec`: one `Pop` takes consecutive keys from the awaited one on.
  * `inv_push`, `inv_pop`: from the awaited number on the map is the log, and what came out
    is everything below it.

  A key that comes again behind the awaited number stands in the map to stay; the invariant
  says nothing of the map below that number, and `Pop` takes nothing from there.
-/
import Bifrost.Rtc.QueueDuplicates

namespace Bifrost.Rtc.ThreadRtpPacketQueue

variable {β : Type}

/-! ## Deliveries and filings with their keys -/

/-- The entries that the loop of `Pop` takes out. -/
def popEntries : UInt32 → List (UInt32 × β) → List (UInt32 × β)
  | _, [] => []
  | waitePopSeq, (key, buffer) :: rest =>
    if waitePopSeq = key then (key, buffer) :: popEntries (waitePopSeq + 1) rest else []

/-- A call, with the entries it delivers. -/
def entryStep (q : ThreadRtpPacketQueue β) (c : Call β) :
    ThreadRtpPacketQueue β × List (UInt32 × β) :=
  ((step q c).1, match c with
    | .push _ _ => []
    | .pop => popEntries q.waitePopSeq q.packetMap)

/-- A call, with the key and the payload it files. -/
def filedStep (q : ThreadRtpPacketQueue β) (c : Call β) :
    ThreadRtpPacketQueue β × List (UInt32 × β) :=
  ((step q c).1, match c with
    | .push seq buffer => [((q.advance seq).largeSeq seq, buffer)]
    | .pop => [])

/-- The entries that the calls deliver, from a new queue. -/
def entries (calls : List (Call β)) : List (UInt32 × β) := Trace.outputs entryStep {} calls

/-- Every key that `Push` computes in the calls, with the payload it got. -/
def filed (calls : List (Call β)) : List (UInt32 × β) := Trace.outputs filedStep {} calls

theorem popLoop_fst (m : List (UInt32 × β)) :
    ∀ w, (popLoop w m).1 = (popEntries w m).map Prod.snd := by
  induction m with
  | nil => intro w; rfl
  | cons e m ih =>
      obtain ⟨k, b⟩ := e
      intro w
      by_cases hw : w = k
      · simp only [popLoop, popEntries, if_pos hw, List.map_cons, ih (w + 1)]
      · simp only [popLoop, popEntries, if_neg hw, List.map_nil]

@[simp] theorem entryStep_fst (q : ThreadRtpPacketQueue β) (c : Call β) :
    (entryStep q c).1 = (step q c).1 := rfl

@[simp] theorem filedStep_fst (q : ThreadRtpPacketQueue β) (c : Call β) :
    (filedStep q c).1 = (step q c).1 := rfl

/-- The payloads of the entries are what the calls let out. -/
theorem entryStep_snd (q : ThreadRtpPacketQueue β) (c : Call β) :
    (entryStep q c).2.map Prod.snd = (step q c).2 := by
  cases c with
  | push s b => rfl
  | pop => exact (popLoop_fst q.packetMap q.waitePopSeq).symm

theorem run_entryStep (calls : List (Call β)) :
    Trace.run entryStep {} calls = Trace.run step {} calls :=
  Trace.run_congr entryStep_fst _ calls

theorem run_filedStep (calls : List (Call β)) :
    Trace.run filedStep {} calls = Trace.run step {} calls :=
  Trace.run_congr filedStep_fst _ calls

theorem map_entries (calls : List (Call β)) :
    (entries calls).map Prod.snd = Trace.outputs step {} calls :=
  Trace.map_outputs entryStep_fst entryStep_snd _ calls

theorem filed_concat (calls : List (Call β)) (c : Call β) :
    filed (calls ++ [c]) = filed calls ++ (filedStep (Trace.run step {} calls) c).2 := by
  rw [filed, Trace.outputs_concat, run_filedStep, filed]

/-! ## One `Pop` -/

/-- While the awaited number does not wrap, the keys taken are consecutive and end just
    below the next awaited number. -/
theorem popLoop_spec (m : List (UInt32 × β)) :
    ∀ w : UInt32, w.toNat + (popEntries w m).length < 2 ^ 32 →
      m = popEntries w m ++ (popLoop w m).2.2 ∧
      (popEntries w m).map (fun e => e.1.toNat) =
        List.range' w.toNat (popEntries w m).length ∧
      (popLoop w m).2.1.toNat = w.toNat + (popEntries w m).length := by
  induction m with
  | nil => intro w _; exact ⟨rfl, rfl, rfl⟩
  | cons e m ih =>
      obtain ⟨k, b⟩ := e
      intro w hlen
      by_cases hw : w = k
      · simp only [popEntries, if_pos hw, List.length_cons] at hlen
        have hsucc : (w + 1).toNat = w.toNat + 1 := by
          rw [UInt32.toNat_add]
          exact Nat.mod_eq_of_lt (by simp only [UInt32.reduceToNat]; omega)
        obtain ⟨hsplit, hkeys, hnext⟩ := ih (w + 1) (by rw [hsucc]; omega)
        simp only [popLoop, popEntries, if_pos hw, List.length_cons, List.map_cons,
          List.cons_append, List.range'_succ]
        refine ⟨by rw [← hsplit], ?_, ?_⟩
        · rw [hkeys, hsucc, hw]
        · rw [hnext, hsucc]
          omega
      · simp only [popLoop, popEntries, if_neg hw]
        exact ⟨rfl, rfl, rfl⟩

/-! ## The invariant -/

theorem lookup_singleton_eq_some {k key : UInt32} {b b' : β} :
    [(key, b)].lookup k = some b' ↔ k = key ∧ b = b' := by
  rw [List.lookup_cons]
  split
  · next heq => simp [beq_iff_eq.mp heq]
  · next hne =>
      have hkey : k ≠ key := beq_eq_false_iff_ne.mp hne
      simp [hkey]

/-- After filings `log` and deliveries `out`. -/
structure Inv (log out : List (UInt32 × β)) (q : ThreadRtpPacketQueue β) : Prop where
  sorted : MapSorted q
  keys : out.map (fun e => e.1.toNat) = List.range q.waitePopSeq.toNat
  first : ∀ e ∈ out, log.lookup e.1 = some e.2
  ahead : ∀ k b, q.waitePopSeq.toNat ≤ k.toNat → ((k, b) ∈ q.packetMap ↔ log.lookup k = some b)

theorem inv_init : Inv [] [] ({} : ThreadRtpPacketQueue β) :=
  ⟨mapSorted_init, rfl, by simp, by simp⟩

theorem inv_push {log out : List (UInt32 × β)} {q : ThreadRtpPacketQueue β}
    (h : Inv log out q) (s : UInt16) (b : β) :
    Inv (log ++ [((q.advance s).largeSeq s, b)]) out (q.push s b) where
  sorted := mapSorted_step q (.push s b) h.sorted
  keys := by rw [push_waitePopSeq]; exact h.keys
  first e he := (List.prefix_append log _).lookup_eq_some (h.first e he)
  ahead k b' hk := by
    rw [push_waitePopSeq] at hk
    rw [push_packetMap,
      OrderedMap.mem_emplace strictTotalOn_keyLt (fun _ _ => trivial) trivial h.sorted,
      List.lookup_append, Option.or_eq_some_iff, h.ahead k b' hk]
    refine or_congr_right ⟨?_, ?_⟩
    · rintro ⟨heq, hnew⟩
      cases heq
      refine ⟨Option.eq_none_iff_forall_ne_some.mpr fun b'' hb'' => ?_, List.lookup_cons_self⟩
      exact hnew _ ((h.ahead _ b'' hk).mpr hb'') rfl
    · rintro ⟨hnone, hsome⟩
      obtain ⟨rfl, rfl⟩ := lookup_singleton_eq_some.mp hsome
      refine ⟨rfl, fun e he heq => ?_⟩
      rw [(h.ahead _ e.2 hk).mp (heq ▸ he)] at hnone
      cases hnone

/-- What one `Pop` lets out fits behind what came out before. -/
theorem inv_pop {log out : List (UInt32 × β)} {q : ThreadRtpPacketQueue β} (h : Inv log out q)
    (hlen : (out ++ popEntries q.waitePopSeq q.packetMap).length < 2 ^ 32) :
    Inv log (out ++ popEntries q.waitePopSeq q.packetMap) q.pop.1 := by
  have hout : out.length = q.waitePopSeq.toNat := by
    rw [← List.length_range (n := q.waitePopSeq.toNat), ← h.keys, List.length_map]
  rw [List.length_append, hout] at hlen
  obtain ⟨hsplit, hkeys, hnext⟩ := popLoop_spec q.packetMap q.waitePopSeq hlen
  -- the keys taken lie between the old and the new awaited number
  have hbetween : ∀ e ∈ popEntries q.waitePopSeq q.packetMap,
      q.waitePopSeq.toNat ≤ e.1.toNat ∧ e.1.toNat < q.pop.1.waitePopSeq.toNat := by
    intro e he
    have hmem : e.1.toNat ∈ List.range' q.waitePopSeq.toNat
        (popEntries q.waitePopSeq q.packetMap).length := by
      rw [← hkeys]
      exact List.mem_map_of_mem he
    rw [List.mem_range'_1, ← hnext] at hmem
    exact hmem
  exact {
    sorted := mapSorted_step q .pop h.sorted
    keys := by
      show _ = List.range (popLoop q.waitePopSeq q.packetMap).2.1.toNat
      rw [List.map_append, h.keys, hkeys, hnext, List.range_eq_range', List.range_eq_range',
        ← List.range'_append_1, Nat.zero_add]
    first := by
      intro e he
      rcases List.mem_append.mp he with he | he
      · exact h.first e he
      · refine (h.ahead e.1 e.2 (hbetween e he).1).mp ?_
        rw [hsplit]
        exact List.mem_append_left _ he
    ahead := by
      intro k b hk
      have hle : q.waitePopSeq.toNat ≤ q.pop.1.waitePopSeq.toNat := by
        show _ ≤ (popLoop q.waitePopSeq q.packetMap).2.1.toNat
        rw [hnext]
        exact Nat.le_add_right _ _
      rw [← h.ahead k b (hle.trans hk), hsplit, List.mem_append]
      exact (or_iff_right fun he => absurd (hbetween _ he).2 (Nat.not_lt.mpr hk)).symm }

/-! ## Runs -/

theorem inv_run {calls : List (Call β)}
    (hlen : (Trace.outputs step {} calls).length < 2 ^ 32) :
    Inv (filed calls) (entries calls) (Trace.run step {} calls) := by
  rw [← run_entryStep]
  refine Trace.run_history (I := fun pre out q => Inv (filed pre) out q) inv_init ?_
  intro pre c post hsplit h
  rw [filed_concat, ← run_entryStep]
  cases c with
  | push s b => simpa only [entryStep, filedStep, step, List.append_nil] using inv_push h s b
  | pop =>
      simp only [entryStep, filedStep, step, List.append_nil]
      refine inv_pop h ?_
      rw [← map_entries, List.length_map, entries, hsplit, Trace.outputs_append,
        Trace.outputs_cons, ← List.append_assoc, List.length_append] at hlen
      exact lt_of_le_of_lt (Nat.le_add_right _ _) hlen

/-- The calls deliver the keys `0, 1, …` up to the awaited one, each with the payload it was
    first filed with, and every key filed from the awaited one on is still held. -/
structure GapFree (calls : List (Call β)) : Prop where
  payloads : Trace.outputs step {} calls = (entries calls).map Prod.snd
  inOrder : (entries calls).map (fun e => e.1.toNat) =
    List.range (Trace.run step {} calls).waitePopSeq.toNat
  firstFiled : ∀ e ∈ entries calls, (filed calls).lookup e.1 = some e.2
  held : ∀ e ∈ filed calls, (Trace.run step {} calls).waitePopSeq ≤ e.1 →
    ∃ b, (e.1, b) ∈ (Trace.run step {} calls).packetMap

/-- **Delivery is free of gaps and nothing that was accepted is lost**, whatever numbers are
    pushed and however `Push` and `Pop` interleave. -/
theorem delivery_gapFree (calls : List (Call β))
    (hlen : (Trace.outputs step {} calls).length < 2 ^ 32) : GapFree calls := by
  have h := inv_run hlen
  refine ⟨(map_entries calls).symm, h.keys, h.first, ?_⟩
  intro e he hle
  have hsome : ((filed calls).lookup e.1).isSome := by
    rw [List.lookup_isSome_iff]
    exact ⟨e, he, beq_self_eq_true _⟩
  obtain ⟨b, hb⟩ := Option.isSome_iff_exists.mp hsome
  exact ⟨b, (h.ahead e.1 b (UInt32.le_iff_toNat_le.mp hle)).mpr hb⟩

/-- Number 2 waits behind a gap, and a second packet 0 comes too late. -/
theorem delivery_gapFree_gap :
    GapFree [.push 0 "a", .push 2 "c", .pop, .push 0 "again", .push 1 "b", .pop] :=
  delivery_gapFree _ (by decide)

end Bifrost.Rtc.ThreadRtpPacketQueue
