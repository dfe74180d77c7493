/-
  Reassembly across the 16-bit wrap: `ThreadRtpPacketQueue` against the abstract
  resequencing buffer.

  A stream of packets has unwrapped indices `0, 1, …, n - 1` and carries only the index
  modulo `2^16`. `Arrives n order` is the arrival condition: every index once, each less
  than `2^15` away from the highest index before it.

  * `advance_tracks`: `maxSeq` and `cycle` always follow the highest index, so the cycle
    count is right whatever arrives late.
  * `largeSeq_advance`: the key is the index placed in the cycle of the highest index.
    It is the index exactly when the two lie in the same cycle.
  * `run_refines`: with the keys right, the queue refines the abstract buffer, so all
    payloads come out in index order (`Resequencer.resequences`).

  A packet that belongs to an earlier cycle than the highest index is filed 65536 too high:
  the queue reassembles the stream exactly when none arrives (`reassembles_iff`).
-/
import Bifrost.Lib.Resequencer
import Bifrost.Rtc.ThreadRtpPacketQueue

namespace Bifrost.Rtc.ThreadRtpPacketQueue

variable {β : Type}

/-! ## The highest index and the arrival condition -/

/-- The highest index in a list of arrivals (`0` for none). -/
def highest (order : List Nat) : Nat := order.foldl max 0

@[simp] theorem highest_concat (order : List Nat) (i : Nat) :
    highest (order ++ [i]) = max (highest order) i := by
  simp [highest]

/-- Each of `0, …, n - 1` arrives once, and at distance less than 32768 from the highest
    index before it (the first one: below 32768). -/
structure Arrives (n : Nat) (order : List Nat) : Prop where
  once : order.Perm (List.range n)
  near : ∀ pre i post, order = pre ++ i :: post →
    i < highest pre + 32768 ∧ highest pre < i + 32768

/-- No packet arrives that belongs to an earlier 65536-cycle than the highest index. -/
def NoneFromEarlierCycle (order : List Nat) : Prop :=
  ∀ pre i post, order = pre ++ i :: post → highest pre / 65536 ≤ i / 65536

/-! ## The cycle count follows the highest index -/

/-- `maxSeq` and `cycle` are the two halves of the highest index. -/
structure Tracks (q : ThreadRtpPacketQueue β) (hi : Nat) : Prop where
  maxSeq : q.maxSeq.toNat = hi % 65536
  cycle : q.cycle.toNat = hi / 65536
  start : q.isStart = true → hi = 0

theorem tracks_init : Tracks ({} : ThreadRtpPacketQueue β) 0 := ⟨rfl, rfl, fun _ => rfl⟩

/-- What `IsLargeSeq` answers on an index near the highest one. -/
theorem isLargeSeq_spec {m s : UInt16} {hi i : Nat} (hm : m.toNat = hi % 65536)
    (hs : s.toNat = i % 65536) (h1 : i < hi + 32768) (h2 : hi < i + 32768) :
    isLargeSeq m s = (decide (hi < i), decide (hi / 65536 < i / 65536)) := by
  unfold isLargeSeq
  simp only [gt_iff_lt, UInt16.lt_iff_toNat_lt, hm, hs]
  split <;> split <;> simp only [Prod.mk.injEq] <;> constructor <;> symm <;>
    simp only [decide_eq_true_eq, decide_eq_false_iff_not] <;> omega

theorem advance_tracks {q : ThreadRtpPacketQueue β} {s : UInt16} {hi i : Nat}
    (hq : Tracks q hi) (hs : s.toNat = i % 65536) (h1 : i < hi + 32768) (h2 : hi < i + 32768)
    (hi32 : max hi i < 2 ^ 32) : Tracks (q.advance s) (max hi i) := by
  obtain ⟨hmax, hcyc, hst⟩ := hq
  unfold advance
  dsimp only
  split
  · next hstart =>
      -- the first packet: below 32768, so it is in cycle 0
      have h0 := hst hstart
      subst h0
      rw [@isLargeSeq_spec _ _ i i hs hs (by omega) (by omega)]
      simp only [lt_irrefl, decide_false, Bool.false_eq_true, if_false]
      refine ⟨by rw [hs, Nat.zero_max], ?_, by simp⟩
      rw [hcyc]
      omega
  · next hstart =>
      rw [isLargeSeq_spec hmax hs h1 h2]
      have hstart : q.isStart = false := by simpa using hstart
      by_cases hlt : hi < i
      · have hmx : max hi i = i := by omega
        by_cases hc : hi / 65536 < i / 65536
        · simp only [hlt, hc, decide_true, if_true, hmx]
          refine ⟨hs, ?_, by simp [hstart]⟩
          rw [UInt32.toNat_add, hcyc]
          simp only [UInt32.reduceToNat]
          omega
        · simp only [hlt, hc, decide_true, decide_false, if_true, Bool.false_eq_true, if_false, hmx]
          refine ⟨hs, ?_, by simp [hstart]⟩
          rw [hcyc]
          omega
      · have hmx : max hi i = hi := by omega
        have hc : ¬ hi / 65536 < i / 65536 := by omega
        simp only [hlt, hc, decide_false, Bool.false_eq_true, if_false, hmx]
        exact ⟨hmax, hcyc, by simp [hstart]⟩

theorem push_tracks {q : ThreadRtpPacketQueue β} {s : UInt16} {hi : Nat} (b : β)
    (hq : Tracks (q.advance s) hi) : Tracks (q.push s b) hi where
  maxSeq := hq.maxSeq
  cycle := hq.cycle
  start := by simp

theorem pop_tracks {q : ThreadRtpPacketQueue β} {hi : Nat} (hq : Tracks q hi) :
    Tracks q.pop.1 hi where
  maxSeq := hq.maxSeq
  cycle := hq.cycle
  start := hq.start

/-- The key is the 16-bit number placed in the cycle of the highest index. -/
theorem largeSeq_advance {q : ThreadRtpPacketQueue β} {s : UInt16} {hi i : Nat}
    (hq : Tracks (q.advance s) hi) (hs : s.toNat = i % 65536) (hi32 : hi < 2 ^ 32) :
    ((q.advance s).largeSeq s).toNat = hi / 65536 * 65536 + i % 65536 := by
  rw [largeSeq_toNat, hq.cycle, hs]
  omega

/-! ## Refinement of the abstract buffer -/

/-- The calls of a stream: the packet with index `i` arrives, or a `Pop` runs. -/
inductive StreamCall where
  | packet (i : Nat)
  | pop

/-- The indices pushed, in order of arrival. -/
def arrivals : List StreamCall → List Nat
  | [] => []
  | .packet i :: calls => i :: arrivals calls
  | .pop :: calls => arrivals calls

/-- The call on the queue: the packet carries the low 16 bits of its index. -/
def StreamCall.toCall (payload : Nat → β) : StreamCall → Call β
  | .packet i => .push (UInt16.ofNat i) (payload i)
  | .pop => .pop

/-- The same call on the abstract buffer. -/
def StreamCall.toOp (payload : Nat → β) : StreamCall → Resequencer.Op β
  | .packet i => .push i (payload i)
  | .pop => .pop

theorem arrivals_append (xs ys : List StreamCall) :
    arrivals (xs ++ ys) = arrivals xs ++ arrivals ys := by
  induction xs with
  | nil => rfl
  | cons x xs ih => cases x <;> simp [arrivals, ih]

@[simp] theorem arrivals_concat_pop (calls : List StreamCall) :
    arrivals (calls ++ [.pop]) = arrivals calls := by
  simp [arrivals_append, arrivals]

@[simp] theorem arrivals_concat_packet (calls : List StreamCall) (i : Nat) :
    arrivals (calls ++ [.packet i]) = arrivals calls ++ [i] := by
  simp [arrivals_append, arrivals]

/-- A position in the run is a position in the order of arrival. -/
theorem arrivals_split {calls pre post : List StreamCall} {i : Nat}
    (hsplit : calls = pre ++ .packet i :: post) :
    arrivals calls = arrivals pre ++ i :: arrivals post := by
  rw [hsplit, arrivals_append, arrivals]

/-- A position in the order of arrival is a position in the run. -/
theorem split_of_arrivals (calls : List StreamCall) : ∀ pre i post,
    arrivals calls = pre ++ i :: post →
      ∃ cpre cpost, calls = cpre ++ .packet i :: cpost ∧ arrivals cpre = pre := by
  induction calls with
  | nil => intro pre i post h; simp [arrivals] at h
  | cons c calls ih =>
      intro pre i post h
      cases c with
      | pop =>
          obtain ⟨cpre, cpost, h1, h2⟩ := ih pre i post h
          exact ⟨.pop :: cpre, cpost, by rw [h1]; rfl, h2⟩
      | packet j =>
          cases pre with
          | nil =>
              simp only [arrivals, List.nil_append, List.cons.injEq] at h
              exact ⟨[], calls, by rw [h.1]; rfl, rfl⟩
          | cons j' pre =>
              simp only [arrivals, List.cons_append, List.cons.injEq] at h
              obtain ⟨cpre, cpost, h1, h2⟩ := ih pre i post h.2
              exact ⟨.packet j :: cpre, cpost, by rw [h1]; rfl, by simp [arrivals, h2, h.1]⟩

theorem pushed_toOp (payload : Nat → β) (calls : List StreamCall) :
    Resequencer.pushed (calls.map (StreamCall.toOp payload)) = arrivals calls := by
  induction calls with
  | nil => rfl
  | cons c calls ih => cases c <;> simp [arrivals, StreamCall.toOp, Resequencer.pushed, ih]

theorem carries_toOp (payload : Nat → β) (calls : List StreamCall) :
    Resequencer.Carries payload (calls.map (StreamCall.toOp payload)) := by
  intro i b hm
  obtain ⟨c, -, hc⟩ := List.mem_map.mp hm
  cases c with
  | packet j => cases hc; rfl
  | pop => cases hc

/-- The queue holds what the abstract buffer holds and waits for the same index. -/
structure Refines (q : ThreadRtpPacketQueue β) (s : Resequencer.Buffer β) : Prop where
  held : OrderedMap.mapKeys UInt32.toNat q.packetMap = s.held
  next : q.waitePopSeq.toNat = s.next % 2 ^ 32

theorem indexLt_toNat (a b : UInt32) : Resequencer.indexLt a.toNat b.toNat = keyLt a b := by
  simp only [keyLt, Resequencer.indexLt, UInt32.lt_iff_toNat_lt]

theorem refines_push {q : ThreadRtpPacketQueue β} {s : Resequencer.Buffer β}
    (h : Refines q s) {seq : UInt16} {i : Nat} (b : β)
    (hkey : ((q.advance seq).largeSeq seq).toNat = i) :
    Refines (q.push seq b) (Resequencer.step s (.push i b)).1 where
  held := by
    simp only [push_packetMap, Resequencer.step]
    rw [OrderedMap.mapKeys_emplace indexLt_toNat, h.held, hkey]
  next := by simpa [Resequencer.step] using h.next

/-- The pop loop on 32-bit keys is the drain of the abstract buffer. -/
theorem popLoop_refines (m : List (UInt32 × β)) :
    ∀ (w : UInt32) (next : Nat), OrderedMap.Sorted keyLt m →
      (∀ e ∈ m, next ≤ e.1.toNat) → w.toNat = next % 2 ^ 32 →
      (popLoop w m).1 = (Resequencer.drain next (OrderedMap.mapKeys UInt32.toNat m)).1 ∧
      (popLoop w m).2.1.toNat =
        (Resequencer.drain next (OrderedMap.mapKeys UInt32.toNat m)).2.1 % 2 ^ 32 ∧
      OrderedMap.mapKeys UInt32.toNat (popLoop w m).2.2 =
        (Resequencer.drain next (OrderedMap.mapKeys UInt32.toNat m)).2.2 := by
  induction m with
  | nil => intro w next _ _ hw; exact ⟨rfl, hw, rfl⟩
  | cons e m ih =>
      obtain ⟨k, b⟩ := e
      intro w next hs hge hw
      have hk : next ≤ k.toNat := hge _ List.mem_cons_self
      have hk32 := k.toNat_lt
      -- a key at or above `next` is there, so `next` itself fits 32 bits
      have hiff : w = k ↔ next = k.toNat := by
        rw [← UInt32.toNat_inj]
        omega
      obtain ⟨hhead, htail⟩ := List.pairwise_cons.mp hs
      by_cases hwk : w = k
      · have hnk := hiff.mp hwk
        have hge' : ∀ e ∈ m, next + 1 ≤ e.1.toNat := by
          intro e he
          have : k < e.1 := by simpa [keyLt] using hhead e he
          rw [UInt32.lt_iff_toNat_lt] at this
          omega
        have hw' : (w + 1).toNat = (next + 1) % 2 ^ 32 := by
          rw [UInt32.toNat_add, hw]
          simp only [UInt32.reduceToNat]
          omega
        obtain ⟨h1, h2, h3⟩ := ih (w + 1) (next + 1) htail hge' hw'
        simp only [popLoop, OrderedMap.mapKeys, List.map_cons, Resequencer.drain, if_pos hwk,
          if_pos hnk]
        exact ⟨by rw [h1]; rfl, h2, h3⟩
      · have hnk : ¬ next = k.toNat := fun h => hwk (hiff.mpr h)
        simp only [popLoop, OrderedMap.mapKeys, List.map_cons, Resequencer.drain, if_neg hwk,
          if_neg hnk]
        exact ⟨trivial, hw, trivial⟩

theorem refines_pop {f : Nat → β} {arrived : List Nat} {out : List β}
    {q : ThreadRtpPacketQueue β} {s : Resequencer.Buffer β} (h : Refines q s)
    (hs : Resequencer.Inv f arrived out s) :
    Refines q.pop.1 (Resequencer.step s .pop).1 ∧
      q.pop.2 = (Resequencer.step s .pop).2 := by
  have hsorted : OrderedMap.Sorted keyLt q.packetMap := by
    rw [← OrderedMap.sorted_mapKeys_iff indexLt_toNat, h.held]
    exact hs.sorted
  have hge : ∀ e ∈ q.packetMap, s.next ≤ e.1.toNat := by
    intro e he
    have hm : (e.1.toNat, e.2) ∈ s.held := by
      rw [← h.held]
      exact List.mem_map.mpr ⟨e, he, rfl⟩
    exact ((hs.held_iff _ _).mp hm).2.1
  obtain ⟨h1, h2, h3⟩ := popLoop_refines q.packetMap q.waitePopSeq s.next hsorted hge h.next
  rw [h.held] at h1 h2 h3
  exact ⟨⟨h3, h2⟩, h1⟩

/-! ## Runs of a stream -/

/-- The queue after the calls, from a new queue. -/
def after (payload : Nat → β) (calls : List StreamCall) : ThreadRtpPacketQueue β :=
  Trace.run step {} (calls.map (StreamCall.toCall payload))

/-- The abstract buffer after the same calls. -/
def bufferAfter (payload : Nat → β) (calls : List StreamCall) : Resequencer.Buffer β :=
  Trace.run Resequencer.step {} (calls.map (StreamCall.toOp payload))

/-- Everything the calls deliver. -/
def delivered (payload : Nat → β) (calls : List StreamCall) : List β :=
  Trace.outputs step {} (calls.map (StreamCall.toCall payload))

/-- Every packet is filed under its index, and with a last `Pop` the stream comes out in
    index order. -/
structure Reassembles (payload : Nat → β) (n : Nat) (calls : List StreamCall) : Prop where
  filed : ∀ pre i post, calls = pre ++ .packet i :: post →
    (((after payload pre).advance (UInt16.ofNat i)).largeSeq (UInt16.ofNat i)).toNat = i ∧
    (((after payload pre).advance (UInt16.ofNat i)).largeSeq (UInt16.ofNat i), payload i) ∈
      (after payload (pre ++ [.packet i])).packetMap
  inOrder : delivered payload (calls ++ [.pop]) = (List.range n).map payload

section Runs

variable {payload : Nat → β} {n : Nat} {calls : List StreamCall}

theorem after_concat (c : StreamCall) :
    after payload (calls ++ [c]) = (step (after payload calls) (c.toCall payload)).1 := by
  simp only [after, List.map_append, List.map_cons, List.map_nil, Trace.run_concat]

theorem bufferAfter_concat (c : StreamCall) :
    bufferAfter payload (calls ++ [c]) =
      (Resequencer.step (bufferAfter payload calls) (c.toOp payload)).1 := by
  simp only [bufferAfter, List.map_append, List.map_cons, List.map_nil, Trace.run_concat]

theorem Arrives.lt (ha : Arrives n (arrivals calls)) {i : Nat} (hi : i ∈ arrivals calls) :
    i < n := List.mem_range.mp (ha.once.mem_iff.mp hi)

theorem Arrives.nodup (ha : Arrives n (arrivals calls)) : (arrivals calls).Nodup :=
  ha.once.nodup_iff.mpr List.nodup_range

theorem highest_lt (order : List Nat) (h : ∀ i ∈ order, i < n) (hn : 0 < n) :
    highest order < n := by
  induction order using List.reverseRecOn with
  | nil => exact hn
  | append_singleton order i ih =>
      rw [highest_concat]
      have := ih fun j hj => h j (List.mem_append_left _ hj)
      have := h i (by simp)
      omega

/-- The packet that comes next is near the highest index, and both stay below `n`. -/
theorem Arrives.next (ha : Arrives n (arrivals calls)) {pre post : List StreamCall} {i : Nat}
    (hsplit : calls = pre ++ .packet i :: post) :
    i < highest (arrivals pre) + 32768 ∧ highest (arrivals pre) < i + 32768 ∧
      max (highest (arrivals pre)) i < n := by
  have harr := arrivals_split hsplit
  obtain ⟨h1, h2⟩ := ha.near _ _ _ harr
  have hi : i < n := ha.lt (by rw [harr]; simp)
  have hhi : highest (arrivals pre) < n := highest_lt _
    (fun j hj => ha.lt (by rw [harr]; exact List.mem_append_left _ hj)) (by omega)
  exact ⟨h1, h2, by omega⟩

/-- The cycle count and the running maximum stay right along the whole run. -/
theorem after_tracks (ha : Arrives n (arrivals calls)) (hn : n ≤ 2 ^ 32) :
    ∀ pre post, calls = pre ++ post → Tracks (after payload pre) (highest (arrivals pre)) := by
  intro pre
  induction pre using List.reverseRecOn with
  | nil => intro _ _; exact tracks_init
  | append_singleton pre c ih =>
      intro post hsplit
      have hprev := ih (c :: post) (by simpa using hsplit)
      rw [after_concat]
      cases c with
      | pop =>
          rw [arrivals_concat_pop]
          exact pop_tracks hprev
      | packet i =>
          rw [List.append_assoc] at hsplit
          obtain ⟨h1, h2, hmax⟩ := ha.next hsplit
          rw [arrivals_concat_packet, highest_concat]
          exact push_tracks (payload i)
            (advance_tracks hprev (UInt16.toNat_ofNat' ..) h1 h2 (by omega))

/-- The key of the next packet: its index, moved into the cycle of the highest one. -/
theorem key_toNat (ha : Arrives n (arrivals calls)) (hn : n ≤ 2 ^ 32)
    {pre post : List StreamCall} {i : Nat} (hsplit : calls = pre ++ .packet i :: post) :
    (((after payload pre).advance (UInt16.ofNat i)).largeSeq (UInt16.ofNat i)).toNat =
      max (highest (arrivals pre)) i / 65536 * 65536 + i % 65536 := by
  obtain ⟨h1, h2, hmax⟩ := ha.next hsplit
  exact largeSeq_advance
    (advance_tracks (after_tracks ha hn pre _ hsplit) (UInt16.toNat_ofNat' ..) h1 h2 (by omega))
    (UInt16.toNat_ofNat' ..) (by omega)

/-- With no packet from an earlier cycle the key is the index. -/
theorem key_eq (ha : Arrives n (arrivals calls)) (hn : n ≤ 2 ^ 32)
    (hc : NoneFromEarlierCycle (arrivals calls)) {pre post : List StreamCall} {i : Nat}
    (hsplit : calls = pre ++ .packet i :: post) :
    (((after payload pre).advance (UInt16.ofNat i)).largeSeq (UInt16.ofNat i)).toNat = i := by
  have := hc _ _ _ (arrivals_split hsplit)
  rw [key_toNat ha hn hsplit]
  omega

/-- The abstract buffer keeps its invariant on every prefix of the calls. -/
theorem bufferAfter_inv (ha : Arrives n (arrivals calls)) {pre post : List StreamCall}
    (hsplit : calls = pre ++ post) :
    Resequencer.Inv payload (arrivals pre)
      (Trace.outputs Resequencer.step {} (pre.map (StreamCall.toOp payload)))
      (bufferAfter payload pre) := by
  have hnd : (arrivals pre).Nodup := by
    have := ha.nodup
    rw [hsplit, arrivals_append] at this
    exact (List.nodup_append.mp this).1
  have := Resequencer.inv_run (carries_toOp payload pre) (by rw [pushed_toOp]; exact hnd)
  rwa [pushed_toOp] at this

/-- With no packet from an earlier cycle the queue refines the abstract buffer. -/
theorem run_refines (ha : Arrives n (arrivals calls)) (hn : n ≤ 2 ^ 32)
    (hc : NoneFromEarlierCycle (arrivals calls)) :
    ∀ pre post, calls = pre ++ post →
      Refines (after payload pre) (bufferAfter payload pre) ∧
      delivered payload pre =
        Trace.outputs Resequencer.step {} (pre.map (StreamCall.toOp payload)) := by
  intro pre
  induction pre using List.reverseRecOn with
  | nil => intro _ _; exact ⟨⟨rfl, rfl⟩, rfl⟩
  | append_singleton pre c ih =>
      intro post hsplit
      obtain ⟨href, hout⟩ := ih (c :: post) (by simpa using hsplit)
      rw [after_concat, bufferAfter_concat]
      simp only [delivered, List.map_append, List.map_cons, List.map_nil,
        Trace.outputs_concat] at hout ⊢
      cases c with
      | pop =>
          obtain ⟨h1, h2⟩ := refines_pop href (bufferAfter_inv ha (by simpa using hsplit))
          exact ⟨h1, by rw [hout]; exact congrArg _ h2⟩
      | packet i =>
          rw [List.append_assoc] at hsplit
          exact ⟨refines_push href (payload i) (key_eq ha hn hc hsplit), by rw [hout]; rfl⟩

/-- A packet pushed in a refining run is in the map, under its index. -/
theorem filed_of_refines (ha : Arrives n (arrivals calls)) (hn : n ≤ 2 ^ 32)
    (hc : NoneFromEarlierCycle (arrivals calls)) {pre post : List StreamCall} {i : Nat}
    (hsplit : calls = pre ++ .packet i :: post) :
    (((after payload pre).advance (UInt16.ofNat i)).largeSeq (UInt16.ofNat i)).toNat = i ∧
    (((after payload pre).advance (UInt16.ofNat i)).largeSeq (UInt16.ofNat i), payload i) ∈
      (after payload (pre ++ [.packet i])).packetMap := by
  have hkey := @key_eq _ payload _ _ ha hn hc _ _ _ hsplit
  refine ⟨hkey, ?_⟩
  have hsplit' : calls = (pre ++ [.packet i]) ++ post := by simpa using hsplit
  have hinv := @bufferAfter_inv _ payload _ _ ha _ _ hsplit'
  have href := (@run_refines _ payload _ _ ha hn hc _ _ hsplit').1
  -- it was not delivered before it arrived, so the abstract buffer holds it
  have hprev := @bufferAfter_inv _ payload _ _ ha _ _ hsplit
  have hfresh : i ∉ arrivals pre := by
    have := ha.nodup
    rw [arrivals_split hsplit] at this
    exact fun hm => (List.nodup_append.mp this).2.2 i hm i (by simp) rfl
  have hnext : (bufferAfter payload (pre ++ [.packet i])).next ≤ i := by
    rw [bufferAfter_concat]
    by_contra hlt
    exact hfresh (hprev.done i (by simpa [Resequencer.step, StreamCall.toOp] using hlt))
  have hheld := (hinv.held_iff i (payload i)).mpr
    ⟨by simp [arrivals_append, arrivals], hnext, rfl⟩
  rw [← href.held] at hheld
  obtain ⟨⟨key, b⟩, hmem, heq⟩ := List.mem_map.mp hheld
  simp only [Prod.mk.injEq] at heq
  obtain ⟨hk, rfl⟩ := heq
  have : key = ((after payload pre).advance (UInt16.ofNat i)).largeSeq (UInt16.ofNat i) := by
    rw [← UInt32.toNat_inj, hk, hkey]
  rw [← this]
  exact hmem

theorem reassembles_of_sameCycle (ha : Arrives n (arrivals calls)) (hn : n ≤ 2 ^ 32)
    (hc : NoneFromEarlierCycle (arrivals calls)) : Reassembles payload n calls where
  filed _ _ _ hsplit := filed_of_refines ha hn hc hsplit
  inOrder := by
    have hperm : (Resequencer.pushed (calls.map (StreamCall.toOp payload))).Perm
        (List.range n) := by
      rw [pushed_toOp]; exact ha.once
    obtain ⟨href, hout⟩ := @run_refines _ payload _ _ ha hn hc calls [] (by simp)
    have hpop := (refines_pop href (bufferAfter_inv ha (show calls = calls ++ [] by simp))).2
    rw [← Resequencer.resequences (carries_toOp payload calls) hperm, Trace.outputs_append, ← hout]
    simp only [delivered, List.map_append, List.map_cons, List.map_nil, Trace.outputs_append]
    congr 1
    simpa [step, StreamCall.toCall, after, bufferAfter] using hpop

theorem sameCycle_of_reassembles (ha : Arrives n (arrivals calls))
    (h : Reassembles payload n calls) : n ≤ 2 ^ 32 ∧ NoneFromEarlierCycle (arrivals calls) := by
  -- a key has 32 bits, so an index that is its own key has 32 bits
  have hn : n ≤ 2 ^ 32 := by
    by_contra hgt
    have hmem : 2 ^ 32 ∈ arrivals calls := by
      rw [ha.once.mem_iff, List.mem_range]; omega
    obtain ⟨pre, post, hsp⟩ := List.append_of_mem hmem
    obtain ⟨cpre, cpost, hc, -⟩ := split_of_arrivals calls pre _ post hsp
    have hkey := (h.filed _ _ _ hc).1
    have := (((after payload cpre).advance (UInt16.ofNat (2 ^ 32))).largeSeq
      (UInt16.ofNat (2 ^ 32))).toNat_lt
    omega
  refine ⟨hn, fun pre i post hsp => ?_⟩
  obtain ⟨cpre, cpost, hc, rfl⟩ := split_of_arrivals calls pre i post hsp
  have hkey := (h.filed _ _ _ hc).1
  rw [key_toNat ha hn hc] at hkey
  omega

/-- **The queue reassembles a reordered stream exactly when** its indices fit the 32-bit
    keys and no packet of an earlier 65536-cycle arrives after the wrap. -/
theorem reassembles_iff (payload : Nat → β) (n : Nat) (calls : List StreamCall)
    (ha : Arrives n (arrivals calls)) :
    Reassembles payload n calls ↔ n ≤ 2 ^ 32 ∧ NoneFromEarlierCycle (arrivals calls) :=
  ⟨sameCycle_of_reassembles ha, fun ⟨hn, hc⟩ => reassembles_of_sameCycle ha hn hc⟩

end Runs

/-! ## The late packet -/

theorem highest_range (k : Nat) : highest (List.range k) = k - 1 := by
  induction k with
  | zero => rfl
  | succ k ih =>
      rw [List.range_succ, highest_concat, ih]
      omega

/-- In order up to the last two packets, which change places. -/
theorem arrives_swapped (m : Nat) (hm : 0 < m) :
    Arrives (m + 2) (List.range m ++ [m + 1, m]) where
  once := by
    rw [List.range_succ, List.range_succ, List.append_assoc]
    exact (List.Perm.swap _ _ _).append_left _
  near pre i post hsplit := by
    have hi : (List.range m ++ [m + 1, m])[pre.length]? = some i := by simp [hsplit]
    have hpre : (List.range m ++ [m + 1, m]).take pre.length = pre := by simp [hsplit]
    have hlen : pre.length < m + 2 := by
      have := congrArg List.length hsplit
      simp only [List.length_append, List.length_range, List.length_cons, List.length_nil] at this
      omega
    rcases Nat.lt_trichotomy pre.length m with hlt | heq | hgt
    · rw [List.getElem?_append_left (by simpa using hlt), List.getElem?_range hlt] at hi
      rw [List.take_append_of_le_length (by simpa using hlt.le), List.take_range] at hpre
      rw [← hpre, highest_range, ← Option.some.inj hi]
      omega
    · rw [List.getElem?_append_right (by simp [heq]), heq] at hi
      rw [List.take_left' (by simp [heq])] at hpre
      rw [← hpre, highest_range]
      have : m + 1 = i := by simpa using hi
      omega
    · have hlen : pre.length = m + 1 := by omega
      rw [List.getElem?_append_right (by simp [hlen]), hlen] at hi
      have : pre = List.range m ++ [m + 1] := by
        rw [← hpre, hlen, List.take_append]
        simp
      rw [this, highest_concat, highest_range]
      have : m = i := by simpa using hi
      omega

/-- A stream of at most one cycle has no earlier one. -/
theorem noneFromEarlierCycle_of_lt {order : List Nat} (h : ∀ i ∈ order, i < 65536) :
    NoneFromEarlierCycle order := by
  intro pre i post hsplit
  have : highest pre < 65536 := highest_lt _
    (fun j hj => h j (by rw [hsplit]; exact List.mem_append_left _ hj)) (by decide)
  omega

/-- Packet 65535 arrives right after packet 65536, the first of the next cycle. -/
def lateCalls : List StreamCall :=
  (List.range 65535 ++ [65536, 65535]).map .packet

theorem arrivals_map (order : List Nat) : arrivals (order.map .packet) = order := by
  induction order with
  | nil => rfl
  | cons i order ih => rw [List.map_cons, arrivals, ih]

theorem late_packet_not_reassembled :
    Arrives 65537 (arrivals lateCalls) ∧ ¬ Reassembles (fun i => i) 65537 lateCalls := by
  have ha : Arrives 65537 (arrivals lateCalls) := by
    rw [lateCalls, arrivals_map]
    exact arrives_swapped 65535 (by decide)
  refine ⟨ha, fun h => ?_⟩
  have hc := (sameCycle_of_reassembles ha h).2
  rw [lateCalls, arrivals_map] at hc
  have := hc (List.range 65535 ++ [65536]) 65535 [] (by simp)
  rw [highest_concat, highest_range] at this
  omega

theorem swapped_pair_reassembles :
    Reassembles (fun i => i) 3 [.packet 0, .packet 2, .pop, .packet 1] :=
  (reassembles_iff _ 3 [.packet 0, .packet 2, .pop, .packet 1]
    (arrives_swapped 1 (by decide))).mpr
    ⟨by decide, noneFromEarlierCycle_of_lt (by decide)⟩

end Bifrost.Rtc.ThreadRtpPacketQueue
