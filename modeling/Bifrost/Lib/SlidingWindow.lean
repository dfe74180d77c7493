/-
  Sizes counted in buckets over a sliding window of time.

  A size goes into the last bucket, or opens a new one when the last began at least `spacing`
  ago. `live` are the buckets that began within the window. Whoever keeps these only can
  record into them as well as into all (`live_record`), since the last bucket is live if
  any is, and a bucket that is not live is too old to record into.

  Buckets are at least `spacing` apart (`Spaced`), which bounds how many are live at once
  (`length_live_le`).
-/
import Bifrost.Lib.OrderedMap
import Mathlib.Algebra.Order.BigOperators.Group.List
import Mathlib.Algebra.Order.Ring.Nat

namespace Bifrost.SlidingWindow

structure Bucket where
  start : Nat
  size : Nat
  deriving DecidableEq

/-- `size` more at the time `now`. -/
def record (spacing size now : Nat) (buckets : List Bucket) : List Bucket :=
  match buckets.getLast? with
  | none => [⟨now, size⟩]
  | some last =>
    if spacing ≤ now - last.start then buckets ++ [⟨now, size⟩]
    else buckets.dropLast ++ [{ last with size := last.size + size }]

/-- The buckets that began later than `window` before `now`. -/
def live (window now : Nat) (buckets : List Bucket) : List Bucket :=
  buckets.filter fun b => now < b.start + window

def total (buckets : List Bucket) : Nat := (buckets.map Bucket.size).sum

/-- The buckets began one after the other, and none later than `last`. -/
structure Spaced (spacing last : Nat) (buckets : List Bucket) : Prop where
  starts : buckets.Pairwise fun a b => a.start + spacing ≤ b.start
  past : ∀ b ∈ buckets, b.start ≤ last

section Window

variable {spacing window size last now : Nat} {buckets : List Bucket} {b : Bucket}

theorem record_concat (spacing size now : Nat) (init : List Bucket) (b : Bucket) :
    record spacing size now (init ++ [b]) =
      if spacing ≤ now - b.start then init ++ [b] ++ [⟨now, size⟩]
      else init ++ [{ b with size := b.size + size }] := by
  simp only [record, List.getLast?_concat, List.dropLast_concat]

theorem total_concat (init : List Bucket) (b : Bucket) :
    total (init ++ [b]) = total init + b.size := by
  simp only [total, List.map_append, List.sum_append, List.map_cons, List.map_nil,
    List.sum_cons, List.sum_nil, Nat.add_zero]

theorem total_record (spacing size now : Nat) (buckets : List Bucket) :
    total (record spacing size now buckets) = total buckets + size := by
  rcases List.eq_nil_or_concat buckets with rfl | ⟨init, b, rfl⟩
  · exact (Nat.zero_add size).symm
  · rw [List.concat_eq_append, record_concat]
    split
    · exact total_concat _ _
    · rw [total_concat, total_concat, Nat.add_assoc]

theorem total_live_le (window now : Nat) (buckets : List Bucket) :
    total (live window now buckets) ≤ total buckets :=
  (List.filter_sublist.map Bucket.size).sum_le_sum fun _ _ => Nat.zero_le _

theorem spaced_nil (spacing last : Nat) : Spaced spacing last [] :=
  ⟨List.Pairwise.nil, List.forall_mem_nil _⟩

theorem Spaced.mono (h : Spaced spacing last buckets) (hle : last ≤ now) :
    Spaced spacing now buckets :=
  ⟨h.starts, fun b hb => (h.past b hb).trans hle⟩

theorem Spaced.sublist {some : List Bucket} (h : Spaced spacing last buckets)
    (hsub : some.Sublist buckets) : Spaced spacing last some :=
  ⟨h.starts.sublist hsub, fun b hb => h.past b (hsub.mem hb)⟩

theorem Spaced.live (h : Spaced spacing last buckets) :
    Spaced spacing last (live window now buckets) := h.sublist List.filter_sublist

theorem Spaced.record (h : Spaced spacing last buckets) (hlast : last ≤ now) :
    Spaced spacing now (record spacing size now buckets) := by
  rcases List.eq_nil_or_concat buckets with rfl | ⟨init, b, rfl⟩
  · exact ⟨List.pairwise_singleton _ _, List.forall_mem_singleton.mpr (Nat.le_refl now)⟩
  · rw [List.concat_eq_append] at *
    have hpast := (h.mono hlast).past
    rw [record_concat]
    split
    · next hfull =>
        refine ⟨List.pairwise_append.mpr ⟨h.starts, List.pairwise_singleton _ _, ?_⟩,
          List.forall_mem_append.mpr ⟨hpast, List.forall_mem_singleton.mpr (Nat.le_refl now)⟩⟩
        -- a new bucket comes behind the last one, so behind all
        intro a ha c hc
        rw [List.mem_singleton.mp hc]
        have hb := hpast b (List.mem_append_right init (List.mem_singleton_self b))
        rcases List.mem_append.mp ha with ha | ha
        · have := (List.pairwise_append.mp h.starts).2.2 a ha b (List.mem_singleton_self b)
          show a.start + spacing ≤ now
          omega
        · rw [List.mem_singleton.mp ha]
          show b.start + spacing ≤ now
          omega
    · obtain ⟨hinit, -, hcross⟩ := List.pairwise_append.mp h.starts
      refine ⟨List.pairwise_append.mpr ⟨hinit, List.pairwise_singleton _ _, ?_⟩, ?_⟩
      · intro a ha c hc
        rw [List.mem_singleton.mp hc]
        exact hcross a ha b (List.mem_singleton_self b)
      · obtain ⟨hbefore, hb⟩ := List.forall_mem_append.mp hpast
        refine List.forall_mem_append.mpr ⟨hbefore, ?_⟩
        intro c hc
        rw [List.mem_singleton.mp hc]
        exact hb b (List.mem_singleton_self b)

theorem live_live (hle : last ≤ now) : live window now (live window last buckets) =
    live window now buckets := by
  rw [live, live, List.filter_filter]
  refine List.filter_congr fun b _ => ?_
  rw [Bool.and_eq_left_iff_imp, decide_eq_true_iff, decide_eq_true_iff]
  omega

/-- The last bucket is live if any is. -/
theorem live_concat {init : List Bucket} (h : Spaced spacing last (init ++ [b]))
    (hsome : live window now (init ++ [b]) ≠ []) :
    live window now (init ++ [b]) = live window now init ++ [b] ∧ now < b.start + window := by
  have hlive : now < b.start + window := by
    obtain ⟨a, ha⟩ := List.exists_mem_of_ne_nil _ hsome
    obtain ⟨hmem, ha⟩ := List.mem_filter.mp ha
    have ha := of_decide_eq_true ha
    rcases List.mem_append.mp hmem with hinit | hb
    · have := (List.pairwise_append.mp h.starts).2.2 a hinit b (List.mem_singleton_self b)
      omega
    · rwa [List.mem_singleton.mp hb] at ha
  refine ⟨?_, hlive⟩
  rw [live, List.filter_append]
  congr 1
  exact List.filter_cons_of_pos (decide_eq_true hlive)

/-- Recording into the live buckets is recording into all. -/
theorem live_record (h : Spaced spacing last buckets)
    (hspacing : spacing ≤ window) (hwindow : 0 < window) :
    live window now (record spacing size now buckets) =
      record spacing size now (live window now buckets) := by
  have hnew : live window now [⟨now, size⟩] = [⟨now, size⟩] :=
    List.filter_cons_of_pos (decide_eq_true (Nat.lt_add_of_pos_right hwindow))
  rcases List.eq_nil_or_concat buckets with rfl | ⟨init, b, rfl⟩
  · exact hnew
  · rw [List.concat_eq_append] at *
    by_cases hnone : live window now (init ++ [b]) = []
    · -- the last bucket is a window old, so a new one is opened
      have hold : ¬ now < b.start + window := by
        intro hlive
        have hmem : b ∈ live window now (init ++ [b]) :=
          List.mem_filter.mpr ⟨List.mem_append_right init (List.mem_singleton_self b),
            decide_eq_true hlive⟩
        rw [hnone] at hmem
        cases hmem
      rw [hnone, record_concat, if_pos (by omega), live, List.filter_append]
      show live window now (init ++ [b]) ++ live window now [⟨now, size⟩] = _
      rw [hnone, hnew]
      rfl
    · obtain ⟨hlive, hb⟩ := live_concat h hnone
      rw [hlive, record_concat, record_concat]
      split
      · rw [live, List.filter_append]
        show live window now (init ++ [b]) ++ live window now [⟨now, size⟩] = _
        rw [hlive, hnew]
      · rw [live, List.filter_append]
        congr 1
        exact List.filter_cons_of_pos (decide_eq_true hb)

/-- The first and the last of so many buckets are that much apart. -/
theorem Spaced.le_last {c : Bucket} {init : List Bucket}
    (h : Spaced spacing last (c :: init)) : c.start + init.length * spacing ≤ last := by
  induction init generalizing c with
  | nil =>
      rw [List.length_nil, Nat.zero_mul]
      exact h.past c List.mem_cons_self
  | cons d rest ih =>
      have hnext := ih (h.sublist (List.sublist_cons_self c _))
      have hstep := (List.pairwise_cons.mp h.starts).1 d List.mem_cons_self
      rw [List.length_cons, Nat.succ_mul]
      omega

/-- Where the window is no longer than so many spacings, no more buckets are live. -/
theorem length_live_le {n : Nat} (h : Spaced spacing now buckets)
    (hwindow : window ≤ n * spacing) : (live window now buckets).length ≤ n := by
  have hlive : Spaced spacing now (live window now buckets) := h.live
  cases hcase : live window now buckets with
  | nil => exact Nat.zero_le n
  | cons c rest =>
      have hfirst : c ∈ live window now buckets := by
        rw [hcase]
        exact List.mem_cons_self
      have hc := of_decide_eq_true (List.mem_filter.mp hfirst).2
      have hspan := Spaced.le_last (hcase ▸ hlive)
      have hlt : rest.length * spacing < n * spacing := by omega
      exact Nat.lt_of_mul_lt_mul_right hlt

end Window

end Bifrost.SlidingWindow
