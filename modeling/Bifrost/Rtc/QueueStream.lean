/-
  A stream through `ThreadRtpPacketQueue` that has lost packets and repeated others.

  The packets carry their index modulo `2^16`, as in the reassembly of a whole stream, but any
  may be missing and any may come again. As long as none is far from the highest index before it,
  nor of an earlier 65536-cycle (`Nearby`), every packet is filed under its index.

  * What comes out is the stream from index 0 on, up to some index (`stream_delivered`).
  * When none has come twice, a last `Pop` leaves out only what stands behind the first packet
    that is missing (`stream_complete`).
-/
import Bifrost.Rtc.QueueDelivery
import Bifrost.Rtc.QueueReassembly

namespace Bifrost.Rtc.ThreadRtpPacketQueue

variable {β : Type}

/-- Every index is below `n`, less than 32768 away from the highest index before it, and of the
    same 65536-cycle or a later one. -/
structure Nearby (n : Nat) (order : List Nat) : Prop where
  lt : ∀ i ∈ order, i < n
  near : ∀ pre i post, order = pre ++ i :: post →
    i < highest pre + 32768 ∧ highest pre < i + 32768
  cycle : NoneFromEarlierCycle order

theorem Nearby.left {n : Nat} {xs ys : List Nat} (h : Nearby n (xs ++ ys)) : Nearby n xs where
  lt i hi := h.lt i (List.mem_append_left ys hi)
  near pre i post heq := h.near pre i (post ++ ys) (by rw [heq, List.append_assoc]; rfl)
  cycle pre i post heq := h.cycle pre i (post ++ ys) (by rw [heq, List.append_assoc]; rfl)

/-- Indices of the first half of the first cycle are always near. -/
theorem nearby_of_lt {order : List Nat} (h : ∀ i ∈ order, i < 32768) : Nearby 32768 order where
  lt := h
  near pre i post heq := by
    rw [heq] at h
    have hi : i < 32768 := h i (List.mem_append_right pre List.mem_cons_self)
    have hpre : highest pre < 32768 :=
      highest_lt pre (fun j hj => h j (List.mem_append_left _ hj)) (by decide)
    omega
  cycle := noneFromEarlierCycle_of_lt fun i hi => Nat.lt_trans (h i hi) (by decide)

/-- The entries that the packets of the stream are filed under, one by one. -/
def streamLog (payload : Nat → β) (order : List Nat) : List (UInt32 × β) :=
  order.map fun i => (UInt32.ofNat i, payload i)

section Stream

variable {payload : Nat → β} {n : Nat} {calls : List StreamCall}

theorem lookup_streamLog (hn : n < 2 ^ 32) {order : List Nat} (hlt : ∀ i ∈ order, i < n)
    {key : UInt32} {b : β} (h : (streamLog payload order).lookup key = some b) :
    key.toNat ∈ order ∧ b = payload key.toNat := by
  obtain ⟨l₁, l₂, heq, -⟩ := List.lookup_eq_some_iff.mp h
  have hmem : (key, b) ∈ streamLog payload order := by
    rw [heq]
    exact List.mem_append_right _ List.mem_cons_self
  obtain ⟨i, hi, hentry⟩ := List.mem_map.mp hmem
  cases hentry
  have hi32 : i < 2 ^ 32 := Nat.lt_trans (hlt i hi) hn
  rw [UInt32.toNat_ofNat_of_lt' hi32]
  exact ⟨hi, rfl⟩

/-- The keys that a `Pop` takes out do not run past the last one there is. -/
theorem length_popEntries (hn : n < 2 ^ 32) (m : List (UInt32 × β)) : ∀ w : UInt32,
    (∀ e ∈ m, e.1.toNat < n) → w.toNat + (popEntries w m).length < 2 ^ 32 := by
  induction m with
  | nil => exact fun w _ => w.toNat_lt
  | cons e m ih =>
      obtain ⟨key, b⟩ := e
      intro w hm
      obtain ⟨hkey, hm⟩ := List.forall_mem_cons.mp hm
      by_cases hw : w = key
      · have hsucc : (w + 1).toNat = w.toNat + 1 := by
          rw [UInt32.toNat_add, hw]
          exact Nat.mod_eq_of_lt (Nat.lt_of_le_of_lt hkey hn)
        have := ih (w + 1) hm
        rw [popEntries, if_pos hw, List.length_cons]
        omega
      · rw [popEntries, if_neg hw]
        exact w.toNat_lt

/-- The key of a packet that is near the highest index and not of an earlier cycle. -/
theorem key_nearby {q : ThreadRtpPacketQueue β} {order : List Nat} {i : Nat}
    (hq : Tracks q (highest order)) (h : Nearby n (order ++ [i])) (hn : n < 2 ^ 32) :
    Tracks (q.advance (UInt16.ofNat i)) (max (highest order) i) ∧
    (q.advance (UInt16.ofNat i)).largeSeq (UInt16.ofNat i) = UInt32.ofNat i := by
  obtain ⟨h₁, h₂⟩ := h.near order i [] rfl
  have hcycle := h.cycle order i [] rfl
  have hi : i < 2 ^ 32 :=
    Nat.lt_trans (h.lt i (List.mem_append_right order List.mem_cons_self)) hn
  have hhigh : highest order < 2 ^ 32 :=
    highest_lt order (fun j hj => Nat.lt_trans (h.lt j (List.mem_append_left _ hj)) hn)
      (by decide)
  have htracks := advance_tracks hq (UInt16.toNat_ofNat' (n := i)) h₁ h₂ (by omega)
  refine ⟨htracks, ?_⟩
  rw [← UInt32.toNat_inj, largeSeq_advance htracks UInt16.toNat_ofNat' (by omega),
    UInt32.toNat_ofNat_of_lt' hi]
  omega

/-- After the calls: the counters follow the highest index, and every packet is filed under its
    own. -/
structure Streams (payload : Nat → β) (n : Nat) (calls : List StreamCall)
    (out : List (UInt32 × β)) (q : ThreadRtpPacketQueue β) : Prop where
  tracks : Tracks q (highest (arrivals calls))
  inv : Inv (streamLog payload (arrivals calls)) out q
  bound : ∀ e ∈ q.packetMap, e.1.toNat < n

theorem streams_packet {out : List (UInt32 × β)} {q : ThreadRtpPacketQueue β} {i : Nat}
    (hs : Streams payload n calls out q) (hn : n < 2 ^ 32)
    (h : Nearby n (arrivals (calls ++ [.packet i]))) :
    Streams payload n (calls ++ [.packet i]) out (q.push (UInt16.ofNat i) (payload i)) := by
  rw [arrivals_concat_packet] at h
  obtain ⟨htracks, hkey⟩ := key_nearby hs.tracks h hn
  have hi : i < n := h.lt i (List.mem_append_right _ List.mem_cons_self)
  refine ⟨?_, ?_, ?_⟩
  · rw [arrivals_concat_packet, highest_concat]
    exact push_tracks (payload i) htracks
  · have hinv := inv_push hs.inv (UInt16.ofNat i) (payload i)
    rwa [hkey, show streamLog payload (arrivals calls) ++ [(UInt32.ofNat i, payload i)] =
      streamLog payload (arrivals (calls ++ [.packet i])) by
        rw [arrivals_concat_packet, streamLog, streamLog, List.map_append]
        rfl] at hinv
  · intro e he
    rw [push_packetMap, hkey, OrderedMap.mem_emplace strictTotalOn_keyLt (fun _ _ => trivial)
      trivial hs.inv.sorted] at he
    rcases he with he | ⟨rfl, -⟩
    · exact hs.bound e he
    · exact (UInt32.toNat_ofNat_of_lt' (Nat.lt_trans hi hn)).symm ▸ hi

theorem streams_pop {out : List (UInt32 × β)} {q : ThreadRtpPacketQueue β}
    (hs : Streams payload n calls out q) (hn : n < 2 ^ 32) :
    Streams payload n (calls ++ [.pop]) (out ++ popEntries q.waitePopSeq q.packetMap) q.pop.1 := by
  have hlen := length_popEntries hn q.packetMap q.waitePopSeq hs.bound
  have hout : out.length = q.waitePopSeq.toNat := by
    rw [← List.length_range (n := q.waitePopSeq.toNat), ← hs.inv.keys, List.length_map]
  refine ⟨?_, ?_, ?_⟩
  · rw [arrivals_concat_pop]
    exact pop_tracks hs.tracks
  · rw [arrivals_concat_pop]
    exact inv_pop hs.inv (by rwa [List.length_append, hout])
  · intro e he
    refine hs.bound e ?_
    rw [(popLoop_spec q.packetMap q.waitePopSeq hlen).1]
    exact List.mem_append_right _ he

theorem streams_run (hn : n < 2 ^ 32) : Nearby n (arrivals calls) →
    ∃ out, delivered payload calls = out.map Prod.snd ∧
      Streams payload n calls out (after payload calls) := by
  induction calls using List.reverseRecOn with
  | nil => exact fun _ => ⟨[], rfl, tracks_init, inv_init, List.forall_mem_nil _⟩
  | append_singleton calls c ih =>
      intro h
      have hprev : Nearby n (arrivals calls) := by
        rw [arrivals_append] at h
        exact h.left
      obtain ⟨out, hout, hs⟩ := ih hprev
      rw [after_concat]
      have hdelivered : delivered payload (calls ++ [c]) =
          delivered payload calls ++ (step (after payload calls) (c.toCall payload)).2 := by
        rw [delivered, List.map_append, List.map_singleton, Trace.outputs_concat]
        rfl
      rw [hdelivered, hout]
      cases c with
      | packet i => exact ⟨out, List.append_nil _, streams_packet hs hn h⟩
      | pop =>
          refine ⟨out ++ popEntries (after payload calls).waitePopSeq
            (after payload calls).packetMap, ?_, streams_pop hs hn⟩
          rw [List.map_append, ← popLoop_fst]
          rfl

/-- **What comes out of the queue is the stream from its start on**, whatever has been lost or
    has come again. -/
theorem stream_delivered (payload : Nat → β) (hn : n < 2 ^ 32) (h : Nearby n (arrivals calls)) :
    ∃ k, delivered payload calls = (List.range k).map payload ∧
      ∀ i < k, i ∈ arrivals calls := by
  obtain ⟨out, hout, hs⟩ := @streams_run _ payload n calls hn h
  have hfiled : ∀ e ∈ out, e.1.toNat ∈ arrivals calls ∧ e.2 = payload e.1.toNat :=
    fun e he => lookup_streamLog hn h.lt (hs.inv.first e he)
  refine ⟨(after payload calls).waitePopSeq.toNat, ?_, ?_⟩
  · rw [hout, ← hs.inv.keys, List.map_map]
    exact List.map_congr_left fun e he => (hfiled e he).2
  · intro i hi
    have hmem : i ∈ out.map fun e => e.1.toNat := by
      rw [hs.inv.keys]
      exact List.mem_range.mpr hi
    obtain ⟨e, he, rfl⟩ := List.mem_map.mp hmem
    exact (hfiled e he).1

/-! ## Nothing comes twice -/

/-- Without repetitions the queue refines the abstract buffer. -/
theorem stream_refines (hn : n < 2 ^ 32) : Nearby n (arrivals calls) → (arrivals calls).Nodup →
    Tracks (after payload calls) (highest (arrivals calls)) ∧
    Refines (after payload calls) (bufferAfter payload calls) ∧
    delivered payload calls =
      Trace.outputs Resequencer.step {} (calls.map (StreamCall.toOp payload)) := by
  induction calls using List.reverseRecOn with
  | nil => exact fun _ _ => ⟨tracks_init, ⟨rfl, rfl⟩, rfl⟩
  | append_singleton calls c ih =>
      intro h hnd
      have hprev : Nearby n (arrivals calls) ∧ (arrivals calls).Nodup := by
        rw [arrivals_append] at h hnd
        exact ⟨h.left, (List.nodup_append.mp hnd).1⟩
      obtain ⟨htracks, href, hout⟩ := ih hprev.1 hprev.2
      rw [after_concat, bufferAfter_concat]
      simp only [delivered, List.map_append, List.map_cons, List.map_nil,
        Trace.outputs_concat] at hout ⊢
      cases c with
      | packet i =>
          rw [arrivals_concat_packet] at h ⊢
          obtain ⟨hadvance, hkey⟩ := key_nearby htracks h hn
          have hi : i < 2 ^ 32 :=
            Nat.lt_trans (h.lt i (List.mem_append_right _ List.mem_cons_self)) hn
          rw [highest_concat]
          refine ⟨push_tracks (payload i) hadvance, refines_push href (payload i) ?_, ?_⟩
          · rw [hkey, UInt32.toNat_ofNat_of_lt' hi]
          · rw [hout]
            rfl
      | pop =>
          have hinv : Resequencer.Inv payload (arrivals calls)
              (Trace.outputs Resequencer.step {} (calls.map (StreamCall.toOp payload)))
              (bufferAfter payload calls) := by
            have := Resequencer.inv_run (carries_toOp payload calls)
              (by rw [pushed_toOp]; exact hprev.2)
            rwa [pushed_toOp] at this
          obtain ⟨hnext, hsame⟩ := refines_pop href hinv
          rw [arrivals_concat_pop]
          exact ⟨pop_tracks htracks, hnext, by rw [hout]; exact congrArg _ hsame⟩

/-- **A stream of which nothing comes twice comes out up to the first packet that is missing**,
    once a last `Pop` has run. -/
theorem stream_complete (payload : Nat → β) (hn : n < 2 ^ 32) (h : Nearby n (arrivals calls))
    (hnd : (arrivals calls).Nodup) :
    ∃ k, delivered payload (calls ++ [.pop]) = (List.range k).map payload ∧
      (∀ i < k, i ∈ arrivals calls) ∧ k ∉ arrivals calls := by
  have h' : Nearby n (arrivals (calls ++ [.pop])) := by rwa [arrivals_concat_pop]
  have hnd' : (arrivals (calls ++ [.pop])).Nodup := by rwa [arrivals_concat_pop]
  obtain ⟨-, -, hout⟩ := @stream_refines _ payload _ _ hn h' hnd'
  have hinv := Resequencer.inv_run (carries_toOp payload calls)
    (by rw [pushed_toOp]; exact hnd)
  rw [pushed_toOp] at hinv
  obtain ⟨hlast, hstop⟩ := Resequencer.inv_pop hinv
  refine ⟨_, ?_, hlast.done, hstop⟩
  rw [hout, ← hlast.delivered, List.map_append, List.map_singleton, Trace.outputs_concat]
  rfl

end Stream

end Bifrost.Rtc.ThreadRtpPacketQueue
