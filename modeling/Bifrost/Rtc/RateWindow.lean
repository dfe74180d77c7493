/-
  What `RateCalculator` counts: over calls on a clock that does not go back, the sizes of the
  last window.

  An item of the ring is a bucket: it takes the sizes of less than an item size of time. The
  ring holds the live buckets in their order (`Holds`), as long as they fit into it. That is
  not for sure: the item size is the window size divided by the number of items and
  rounded down, so that one more bucket than there are items can be live. The newest bucket
  then overwrites the oldest, which is still to be taken off.

  `exact_iff`: the counting is exact in a run exactly when the live buckets fit all along.
  They do when the division leaves no rest (`fits_of_dvd`).
-/
import Bifrost.Lib.SlidingWindow
import Bifrost.Rtc.RateRing
import Mathlib.Data.List.Perm.Subperm

namespace Bifrost.Rtc

open SlidingWindow (Bucket record live total Spaced record_concat total_concat)

namespace RateCalculator

/-! ## Calls -/

inductive Call where
  | update (size nowMs : UInt64)
  | getRate (nowMs : UInt64)
  deriving DecidableEq

def Call.nowMs : Call → UInt64
  | .update _ nowMs => nowMs
  | .getRate nowMs => nowMs

/-- The calculator after a call. -/
def next (scale : Float32) (r : RateCalculator) : Call → Except Fault RateCalculator
  | .update size nowMs => r.update size nowMs
  | .getRate nowMs => do
    let (r, _) ← r.getRate scale nowMs
    .ok r

/-- The clock has passed a window at the first call, and does not go back. -/
def Clocked (windowSizeMs : UInt64) (calls : List Call) : Prop :=
  (windowSizeMs :: calls.map Call.nowMs).Pairwise (· ≤ ·)

instance (windowSizeMs : UInt64) (calls : List Call) : Decidable (Clocked windowSizeMs calls) :=
  inferInstanceAs (Decidable (List.Pairwise _ _))

/-- The buckets of all calls, for the item size `itemSizeMs`. -/
def buckets (itemSizeMs : UInt64) (calls : List Call) : List Bucket :=
  calls.foldl (fun buckets call =>
    match call with
    | .update size nowMs => record itemSizeMs.toNat size.toNat nowMs.toNat buckets
    | .getRate _ => buckets) []

/-- `item_size_ms_`. -/
def itemSize (windowSizeMs : UInt64) (windowItems : UInt16) : UInt64 :=
  (create windowSizeMs windowItems).itemSizeMs

/-- The buckets of the window that ends with the call `c`. -/
def liveAt (windowSizeMs : UInt64) (windowItems : UInt16) (before : List Call) (c : Call) :
    List Bucket :=
  live windowSizeMs.toNat c.nowMs.toNat
    (buckets (itemSize windowSizeMs windowItems) (before ++ [c]))

/-! ## What the counting should be -/

/-- No round of the loop of `RemoveOldData` takes off more than there is. -/
def LoopWithin (newOldestTime : UInt64) : Nat → RateCalculator → Prop
  | 0, _ => True
  | fuel + 1, r => newOldestTime ≥ r.oldestItemStartTime →
    (∀ item, r.itemAt r.oldestItemIndex = .ok item → item.count ≤ r.totalCount) ∧
      ∀ r', r.removeOldest = .ok r' → LoopWithin newOldestTime fuel r'

/-- `RemoveOldData` does not take `total_count_` below 0. -/
def RemovesWithin (r : RateCalculator) (nowMs : UInt64) : Prop :=
  0 ≤ r.newestItemIndex → 0 ≤ r.oldestItemIndex →
    nowMs - r.windowSizeMs < r.newestItemStartTime →
    LoopWithin (nowMs - r.windowSizeMs) (r.windowItems.toNat + 1) r

/-- After the call `c` the calculator counts just the live buckets, and has them all. -/
structure Exact (bs : List Bucket) (c : Call) (r r' : RateCalculator) : Prop where
  within : r.RemovesWithin c.nowMs
  total : r'.totalCount.toNat = total bs
  stored : ∀ b ∈ bs, ∃ item ∈ r'.buffer, item.time.toNat = b.start ∧ item.count.toNat = b.size

/-- There are no more live buckets than items, and their sizes sum up in `size_t`. -/
structure Fits (windowItems : UInt16) (bs : List Bucket) : Prop where
  items : bs.length ≤ windowItems.toNat
  sum : total bs < 2 ^ 64

instance (windowItems : UInt16) (bs : List Bucket) : Decidable (Fits windowItems bs) :=
  decidable_of_iff (bs.length ≤ windowItems.toNat ∧ total bs < 2 ^ 64)
    ⟨fun h => ⟨h.1, h.2⟩, fun h => ⟨h.items, h.sum⟩⟩

/-! ## The ring -/

/-- The bucket that an item is. -/
def bucketOf (item : BufferItem) : Bucket := ⟨item.time.toNat, item.count.toNat⟩

/-- The buckets `bs` are in the ring from slot `o` on, and counted. -/
structure Holds (r : RateCalculator) (bs : List Bucket) (o : Nat) : Prop where
  slotted : r.Slotted
  some : bs ≠ []
  fits : bs.length ≤ r.windowItems.toNat
  stored : RingSlots.Stored (r.buffer.map bucketOf) o bs
  oldest : r.oldestItemIndex = (o % r.windowItems.toNat : Nat)
  newest : r.newestItemIndex = ((o + (bs.length - 1)) % r.windowItems.toNat : Nat)
  oldestTime : ∀ b ∈ bs.head?, r.oldestItemStartTime.toNat = b.start
  newestTime : ∀ b ∈ bs.getLast?, r.newestItemStartTime.toNat = b.start
  total : r.totalCount.toNat = total bs

/-- The ring holds the buckets, which may be none. -/
def Keeps (r : RateCalculator) (bs : List Bucket) : Prop :=
  (bs = [] ∧ r.Slotted ∧ r.Empty ∧ r.totalCount = 0) ∨ ∃ o, r.Holds bs o

theorem bucketOf_getD {buffer : List BufferItem} {k : Nat} {b : Bucket}
    (h : (buffer.map bucketOf)[k]? = some b) : bucketOf (buffer.getD k {}) = b := by
  rw [List.getElem?_map] at h
  obtain ⟨item, hitem, rfl⟩ := Option.map_eq_some_iff.mp h
  rw [List.getD_eq_getElem?_getD, hitem, Option.getD_some]

theorem length_map_bucketOf {r : RateCalculator} (hs : r.Slotted) :
    (r.buffer.map bucketOf).length = r.windowItems.toNat := by
  rw [List.length_map, hs.buffer]

section Removal

variable {r : RateCalculator} {o : Nat}

/-- One round of the loop takes the oldest bucket out, and off the total. -/
theorem Holds.dropOldest {b c : Bucket} {bs : List Bucket} (h : r.Holds (b :: c :: bs) o) :
    (r.buffer.getD (o % r.windowItems.toNat) {}).count ≤ r.totalCount ∧
      (r.dropOldest (o % r.windowItems.toNat)).Holds (c :: bs) (o + 1) := by
  have hring := length_map_bucketOf h.slotted
  have hfits := h.fits
  simp only [List.length_cons] at hfits
  have hcount : (r.buffer.getD (o % r.windowItems.toNat) {}).count.toNat = b.size :=
    congrArg Bucket.size (bucketOf_getD (hring ▸ h.stored.head))
  have htotal : r.totalCount.toNat = b.size + SlidingWindow.total (c :: bs) := h.total
  have hle : (r.buffer.getD (o % r.windowItems.toNat) {}).count ≤ r.totalCount := by
    rw [UInt64.le_iff_toNat_le]
    omega
  have hstored : RingSlots.Stored ((r.buffer.set (o % r.windowItems.toNat) {}).map bucketOf) (o + 1)
      (c :: bs) := by
    have := h.stored.tail (by rw [hring, List.length_cons]; omega) (bucketOf {})
    rwa [hring, ← List.map_set] at this
  have hlength : (r.buffer.set (o % r.windowItems.toNat) {}).length = r.windowItems.toNat :=
    List.length_set.trans h.slotted.buffer
  refine ⟨hle, ⟨hlength, h.slotted.items⟩, List.cons_ne_nil c bs, Nat.le_of_succ_le hfits, hstored,
    ?_, ?_, ?_, h.newestTime, ?_⟩
  · show (((o % r.windowItems.toNat + 1) % r.windowItems.toNat : Nat) : Int) = _
    rw [Nat.mod_add_mod]
    rfl
  · show r.newestItemIndex = ((o + 1 + ((c :: bs).length - 1)) % r.windowItems.toNat : Nat)
    rw [h.newest]
    congr 2
    simp only [List.length_cons]
    omega
  · intro d hd
    cases hd
    have hnext := hstored.head
    rw [List.length_map, hlength, ← Nat.mod_add_mod] at hnext
    exact congrArg Bucket.start (bucketOf_getD hnext)
  · show (r.totalCount - (r.buffer.getD (o % r.windowItems.toNat) {}).count).toNat = _
    rw [UInt64.toNat_sub_of_le _ _ hle]
    omega

/-- What the loop leaves of the calculator as it was. -/
structure Kept (r r' : RateCalculator) : Prop where
  windowSizeMs : r'.windowSizeMs = r.windowSizeMs
  windowItems : r'.windowItems = r.windowItems
  itemSizeMs : r'.itemSizeMs = r.itemSizeMs

theorem Kept.refl (r : RateCalculator) : Kept r r := ⟨rfl, rfl, rfl⟩

/-- The loop takes out the buckets that began no later than `newOldestTime`, and ends. -/
theorem removeOldLoop_holds {newOldestTime : UInt64} (bs : List Bucket) :
    ∀ {r : RateCalculator} {o fuel : Nat}, r.Holds bs o →
      newOldestTime < r.newestItemStartTime → bs.length < fuel →
      ∃ r' o', removeOldLoop newOldestTime fuel r = .ok r' ∧
        r'.Holds (bs.dropWhile fun b => b.start ≤ newOldestTime.toNat) o' ∧
        LoopWithin newOldestTime fuel r ∧ Kept r r' ∧ r'.lastTime = r.lastTime := by
  induction bs with
  | nil => exact fun h _ _ => absurd rfl h.some
  | cons b bs ih =>
      intro r o fuel h hnewest hfuel
      obtain ⟨fuel, rfl⟩ : ∃ f, fuel = f + 1 := ⟨fuel - 1, by omega⟩
      have hoff : r.oldestItemStartTime.toNat = b.start := h.oldestTime b rfl
      by_cases hgo : newOldestTime ≥ r.oldestItemStartTime
      · have hgo' := UInt64.le_iff_toNat_le.mp hgo
        cases bs with
        | nil =>
            -- the newest bucket is younger than that
            have hsame := h.newestTime b rfl
            have := UInt64.lt_iff_toNat_lt.mp hnewest
            omega
        | cons c bs =>
            obtain ⟨hle, hdrop⟩ := h.dropOldest
            have hremove := removeOldest_eq h.slotted h.oldest (Nat.mod_lt o h.slotted.items)
            obtain ⟨r', o', hrun, hholds, hwithin, hkept, hlast⟩ :=
              @ih _ (o + 1) fuel hdrop hnewest (Nat.lt_of_succ_lt_succ hfuel)
            refine ⟨r', o', ?_, ?_, ?_, ⟨hkept.1, hkept.2, hkept.3⟩, hlast⟩
            · rw [removeOldLoop, if_pos hgo, hremove]
              exact hrun
            · have hold : decide (b.start ≤ newOldestTime.toNat) = true :=
                decide_eq_true (hoff ▸ hgo')
              rw [List.dropWhile_cons_of_pos
                (p := fun b : Bucket => decide (b.start ≤ newOldestTime.toNat)) hold]
              exact hholds
            · intro _
              refine ⟨?_, ?_⟩
              · intro item hitem
                rw [h.oldest, itemAt_ok h.slotted (Nat.mod_lt o h.slotted.items)] at hitem
                cases hitem
                exact hle
              · intro r₁ hr₁
                cases hremove.symm.trans hr₁
                exact hwithin
      · refine ⟨r, o, ?_, ?_, fun h => absurd h hgo, Kept.refl r, rfl⟩
        · rw [removeOldLoop, if_neg hgo]
        · have hlt := UInt64.lt_iff_toNat_lt.mp (UInt64.not_le.mp hgo)
          have hyoung : ¬ decide (b.start ≤ newOldestTime.toNat) = true := by
            rw [decide_eq_true_iff]
            omega
          rw [List.dropWhile_cons_of_neg
            (p := fun b : Bucket => decide (b.start ≤ newOldestTime.toNat)) hyoung]
          exact h

/-- The buckets that began after the window did are those left of it. -/
theorem live_eq_dropWhile {spacing window now : Nat} {last : Nat} {bs : List Bucket}
    (hbs : Spaced spacing last bs) (hnow : window ≤ now) :
    live window now bs = bs.dropWhile fun b => b.start ≤ now - window := by
  have hmono : bs.Pairwise fun a b => decide (b.start ≤ now - window) = true →
      decide (a.start ≤ now - window) = true := by
    refine hbs.starts.imp fun hab hb => decide_eq_true ?_
    have := of_decide_eq_true hb
    omega
  rw [OrderedMap.dropWhile_eq_filter hmono]
  refine List.filter_congr fun b _ => ?_
  rw [Bool.eq_iff_iff, Bool.not_eq_true', decide_eq_true_iff, decide_eq_false_iff_not]
  omega

/-- **`RemoveOldData` leaves the live buckets**, and never takes off too much. -/
theorem removeOldData_keeps {spacing last : Nat} {bs : List Bucket} {nowMs : UInt64}
    (h : r.Keeps bs) (hbs : Spaced spacing last bs) (hnow : r.windowSizeMs ≤ nowMs) :
    ∃ r', r.removeOldData nowMs = .ok r' ∧
      r'.Keeps (live r.windowSizeMs.toNat nowMs.toNat bs) ∧ r.RemovesWithin nowMs ∧ Kept r r' ∧
      r'.lastTime ≤ r.lastTime := by
  have hnow' := UInt64.le_iff_toNat_le.mp hnow
  have hoff : (nowMs - r.windowSizeMs).toNat = nowMs.toNat - r.windowSizeMs.toNat :=
    UInt64.toNat_sub_of_le _ _ hnow
  have hlive := live_eq_dropWhile hbs hnow'
  unfold removeOldData
  rcases h with ⟨rfl, hslots, hempty, htotal⟩ | ⟨o, h⟩
  · refine ⟨r, if_pos (Or.inl (by rw [hempty.newest]; decide)),
      Or.inl ⟨rfl, hslots, hempty, htotal⟩, ?_, Kept.refl r, UInt64.le_refl _⟩
    intro hnewest
    rw [hempty.newest] at hnewest
    exact absurd hnewest (by decide)
  · rw [if_neg (by rw [h.newest, h.oldest]; omega)]
    dsimp only
    split_ifs with hyoung hall
    · -- the oldest bucket is live, so all are
      have hall : live r.windowSizeMs.toNat nowMs.toNat bs = bs := by
        obtain ⟨b, rest, hcons⟩ := List.exists_cons_of_ne_nil h.some
        have hb := h.oldestTime b (by rw [hcons]; rfl)
        have hlt := UInt64.lt_iff_toNat_lt.mp hyoung
        have hstay : ¬ decide (b.start ≤ nowMs.toNat - r.windowSizeMs.toNat) = true := by
          rw [decide_eq_true_iff]
          omega
        rw [hlive, hcons]
        exact List.dropWhile_cons_of_neg
          (p := fun b : Bucket => decide (b.start ≤ nowMs.toNat - r.windowSizeMs.toNat)) hstay
      exact ⟨r, rfl, Or.inr ⟨o, hall.symm ▸ h⟩,
        fun _ _ _ hge => absurd hge (UInt64.not_le.mpr hyoung), Kept.refl r, UInt64.le_refl _⟩
    · -- the newest bucket is not, so none is
      have hnone : live r.windowSizeMs.toNat nowMs.toNat bs = [] := by
        obtain ⟨init, c, hconcat⟩ := (List.eq_nil_or_concat bs).resolve_left h.some
        rw [List.concat_eq_append] at hconcat
        have hc := h.newestTime c (by rw [hconcat]; exact List.getLast?_concat)
        have hge := UInt64.le_iff_toNat_le.mp hall
        rw [hlive, List.dropWhile_eq_nil_iff, hconcat]
        intro b hb
        have hbc : b.start ≤ c.start := by
          rcases List.mem_append.mp hb with hinit | hlast
          · have := (List.pairwise_append.mp (hconcat ▸ hbs.starts)).2.2 b hinit c
              (List.mem_singleton_self c)
            omega
          · rw [List.mem_singleton.mp hlast]
        exact decide_eq_true (by omega)
      have hslots : r.reset.Slotted :=
        ⟨(List.length_map _).trans h.slotted.buffer, h.slotted.items⟩
      refine ⟨r.reset, rfl, Or.inl ⟨hnone, hslots, ⟨rfl, rfl, rfl⟩, rfl⟩, ?_, ⟨rfl, rfl, rfl⟩,
        UInt64.zero_le⟩
      exact fun _ _ hlt => absurd hlt (UInt64.not_lt.mpr hall)
    · obtain ⟨r', o', hrun, hholds, hwithin, hkept, hlast⟩ := removeOldLoop_holds bs h
        (UInt64.not_le.mp hall) (Nat.lt_succ_of_le h.fits)
      rw [hoff, ← hlive] at hholds
      exact ⟨r', hrun, Or.inr ⟨o', hholds⟩, fun _ _ _ => hwithin, hkept, hlast ▸ UInt64.le_refl _⟩

end Removal

section Adding

variable {r : RateCalculator} {size nowMs : UInt64} {bs : List Bucket} {o : Nat}

theorem finishUpdate_first (hnone : r.oldestItemIndex < 0) : r.finishUpdate size nowMs =
    { r with
      oldestItemIndex := r.newestItemIndex
      oldestItemStartTime := nowMs
      totalCount := r.totalCount + size
      lastRate := 0
      lastTime := 0 } := by
  unfold finishUpdate
  rw [if_pos hnone]

theorem finishUpdate_next (hsome : ¬ r.oldestItemIndex < 0) : r.finishUpdate size nowMs =
    { r with totalCount := r.totalCount + size, lastRate := 0, lastTime := 0 } := by
  unfold finishUpdate
  rw [if_neg hsome]

/-- The calculator with an item written to the slot behind the buckets `init`. -/
theorem holds_set {r : RateCalculator} {init : List Bucket} {item : BufferItem}
    {first newest : UInt64} (hs : r.Slotted) (hroom : init.length < r.windowItems.toNat)
    (hstored : RingSlots.Stored (r.buffer.map bucketOf) o init) (hnewest : newest = item.time)
    (hfirst : ∀ b ∈ (init ++ [bucketOf item]).head?, first.toNat = b.start)
    (hcount : r.totalCount.toNat + size.toNat = total (init ++ [bucketOf item]))
    (hsum : total (init ++ [bucketOf item]) < 2 ^ 64) :
    Holds { r with
      buffer := r.buffer.set ((o + init.length) % r.windowItems.toNat) item
      newestItemIndex := ((o + init.length) % r.windowItems.toNat : Nat)
      newestItemStartTime := newest
      oldestItemIndex := (o % r.windowItems.toNat : Nat)
      oldestItemStartTime := first
      totalCount := r.totalCount + size
      lastRate := 0
      lastTime := 0 } (init ++ [bucketOf item]) o where
  slotted := ⟨List.length_set.trans hs.buffer, hs.items⟩
  some := List.append_ne_nil_of_right_ne_nil _ (List.cons_ne_nil _ _)
  fits := by
    rw [List.length_append]
    exact hroom
  stored := by
    have hring := length_map_bucketOf hs
    have := hstored.concat (hring.symm ▸ hroom) (bucketOf item)
    rwa [hring, ← List.map_set] at this
  oldest := rfl
  newest := by
    rw [List.length_append]
    rfl
  oldestTime := hfirst
  newestTime := by
    intro b hb
    rw [List.getLast?_concat] at hb
    cases hb
    rw [hnewest]
    rfl
  total := by
    show (r.totalCount + size).toNat = _
    rw [UInt64.toNat_add, hcount, Nat.mod_eq_of_lt hsum]

/-- The first bucket. -/
theorem addToNewest_first (hs : r.Slotted) (hempty : r.Empty) (htotal : r.totalCount = 0)
    (hsum : total [⟨nowMs.toNat, size.toNat⟩] < 2 ^ 64) :
    ∃ r', r.addToNewest size nowMs = .ok r' ∧
      (r'.finishUpdate size nowMs).Holds [⟨nowMs.toNat, size.toNat⟩] 0 ∧
      Kept r (r'.finishUpdate size nowMs) := by
  have hnext : r.nextIndex r.newestItemIndex = (0 : Nat) := by
    rw [hempty.newest, nextIndex]
    split <;> rfl
  have hadd := @addToNewest_new r size nowMs 0 hs (Or.inl (by rw [hempty.newest]; decide)) hnext
    hs.items
  have hnone : (r.openItem 0 size nowMs).oldestItemIndex < 0 := by
    show r.oldestItemIndex < 0
    rw [hempty.oldest]
    decide
  have hholds := @holds_set size 0 r [] ⟨size, nowMs⟩ nowMs nowMs hs hs.items
    (RingSlots.stored_nil _ _) rfl (fun b hb => by cases hb; rfl)
    (by rw [htotal]; exact Nat.zero_add _) hsum
  simp only [List.length_nil, Nat.add_zero, Nat.zero_mod] at hholds
  refine ⟨_, hadd, ?_⟩
  rw [finishUpdate_first hnone]
  exact ⟨hholds, rfl, rfl, rfl⟩

section Last

variable {init : List Bucket} {b : Bucket}

theorem Holds.newest_concat (h : r.Holds (init ++ [b]) o) :
    r.newestItemIndex = ((o + init.length) % r.windowItems.toNat : Nat) := by
  rw [h.newest, List.length_append]
  rfl

theorem Holds.length_lt (h : r.Holds (init ++ [b]) o) : init.length < r.windowItems.toNat := by
  have := h.fits
  rwa [List.length_append, List.length_singleton] at this

theorem Holds.oldest_nonneg (h : r.Holds bs o) : ¬ r.oldestItemIndex < 0 := by
  rw [h.oldest]
  omega

/-- The last bucket is full when it began an item size ago. -/
theorem Holds.full_iff (h : r.Holds (init ++ [b]) o) (hb : b.start ≤ nowMs.toNat) :
    nowMs - r.newestItemStartTime ≥ r.itemSizeMs ↔ r.itemSizeMs.toNat ≤ nowMs.toNat - b.start := by
  have hstart := h.newestTime b List.getLast?_concat
  rw [ge_iff_le, UInt64.le_iff_toNat_le, UInt64.toNat_sub_of_le, hstart]
  rw [UInt64.le_iff_toNat_le, hstart]
  exact hb

/-- One more bucket. -/
theorem addToNewest_open (h : r.Holds (init ++ [b]) o)
    (hopen : nowMs - r.newestItemStartTime ≥ r.itemSizeMs)
    (hfits : Fits r.windowItems (init ++ [b] ++ [⟨nowMs.toNat, size.toNat⟩])) :
    ∃ r', r.addToNewest size nowMs = .ok r' ∧
      (r'.finishUpdate size nowMs).Holds (init ++ [b] ++ [⟨nowMs.toNat, size.toNat⟩]) o ∧
      Kept r (r'.finishUpdate size nowMs) := by
  have hs := h.slotted
  have hroom := hfits.items
  rw [List.length_append, List.length_singleton] at hroom
  have hnext : r.nextIndex r.newestItemIndex =
      ((o + (init ++ [b]).length) % r.windowItems.toNat : Nat) := by
    rw [h.newest_concat, nextIndex_mod (Nat.mod_lt _ hs.items), Nat.mod_add_mod,
      List.length_append, List.length_singleton, Nat.add_assoc]
  have hadd := @addToNewest_new r size nowMs _ hs (Or.inr hopen) hnext (Nat.mod_lt _ hs.items)
  have hholds := @holds_set size o r (init ++ [b]) ⟨size, nowMs⟩ r.oldestItemStartTime nowMs hs
    hroom h.stored rfl (fun c hc => h.oldestTime c (by cases init <;> exact hc))
    (by rw [total_concat, h.total]; rfl) hfits.sum
  rw [← h.oldest] at hholds
  refine ⟨_, hadd, ?_⟩
  rw [finishUpdate_next (by exact h.oldest_nonneg)]
  exact ⟨hholds, rfl, rfl, rfl⟩

/-- More in the last bucket. -/
theorem addToNewest_more (h : r.Holds (init ++ [b]) o)
    (hmore : ¬ nowMs - r.newestItemStartTime ≥ r.itemSizeMs)
    (hsum : total (init ++ [{ b with size := b.size + size.toNat }]) < 2 ^ 64) :
    ∃ r', r.addToNewest size nowMs = .ok r' ∧
      (r'.finishUpdate size nowMs).Holds (init ++ [{ b with size := b.size + size.toNat }]) o ∧
      Kept r (r'.finishUpdate size nowMs) := by
  have hs := h.slotted
  have hitem := bucketOf_getD (length_map_bucketOf hs ▸
    h.stored init.length b List.getElem?_concat_length)
  have hsome : ¬ r.newestItemIndex < 0 := by
    rw [h.newest_concat]
    omega
  have hadd := @addToNewest_old r size nowMs _ hs (not_or.mpr ⟨hsome, hmore⟩) h.newest_concat
    (Nat.mod_lt _ hs.items)
  generalize r.buffer.getD ((o + init.length) % r.windowItems.toNat) {} = item at hitem hadd
  -- the item with the bytes added is the bucket with the size added
  have hcount : item.count.toNat = b.size := congrArg Bucket.size hitem
  have htime : item.time.toNat = b.start := congrArg Bucket.start hitem
  have hadded : bucketOf { item with count := item.count + size } =
      { b with size := b.size + size.toNat } := by
    have hlt : total init + (b.size + size.toNat) < 2 ^ 64 := by rwa [total_concat] at hsum
    have hsize : (item.count + size).toNat = b.size + size.toNat := by
      rw [UInt64.toNat_add, hcount]
      exact Nat.mod_eq_of_lt (by omega)
    rw [bucketOf, hsize, htime]
  have hsame : r.newestItemStartTime = item.time :=
    UInt64.toNat_inj.mp ((h.newestTime b List.getLast?_concat).trans htime.symm)
  have hfirst : ∀ c ∈ (init ++ [bucketOf { item with count := item.count + size }]).head?,
      r.oldestItemStartTime.toNat = c.start := by
    intro c hc
    rw [hadded] at hc
    cases init with
    | nil =>
        cases hc
        exact h.oldestTime b rfl
    | cons d init => exact h.oldestTime c hc
  have hholds := @holds_set size o r init { item with count := item.count + size }
    r.oldestItemStartTime r.newestItemStartTime hs h.length_lt h.stored.init hsame hfirst
    (by rw [hadded, total_concat, h.total, total_concat]; exact Nat.add_assoc _ _ _)
    (by rw [hadded]; exact hsum)
  rw [← h.oldest, hadded, ← h.newest_concat] at hholds
  refine ⟨_, hadd, ?_⟩
  rw [finishUpdate_next (by exact h.oldest_nonneg)]
  exact ⟨hholds, rfl, rfl, rfl⟩

end Last

/-- `Update` opens a bucket or adds to the last one, as the buckets are recorded, if they fit. -/
theorem addToNewest_keeps {last : Nat} (h : r.Keeps bs)
    (hbs : Spaced r.itemSizeMs.toNat last bs) (hlast : last ≤ nowMs.toNat)
    (hfits : Fits r.windowItems (record r.itemSizeMs.toNat size.toNat nowMs.toNat bs)) :
    ∃ r', r.addToNewest size nowMs = .ok r' ∧
      (r'.finishUpdate size nowMs).Keeps
        (record r.itemSizeMs.toNat size.toNat nowMs.toNat bs) ∧
      Kept r (r'.finishUpdate size nowMs) := by
  rcases h with ⟨rfl, hs, hempty, htotal⟩ | ⟨o, h⟩
  · obtain ⟨r', hadd, hholds, hkept⟩ := addToNewest_first hs hempty htotal hfits.sum
    exact ⟨r', hadd, Or.inr ⟨0, hholds⟩, hkept⟩
  · obtain ⟨init, b, rfl⟩ := (List.eq_nil_or_concat bs).resolve_left h.some
    rw [List.concat_eq_append] at *
    have hb : b.start ≤ nowMs.toNat :=
      (hbs.past b (List.mem_append_right init (List.mem_singleton_self b))).trans hlast
    rw [record_concat] at hfits ⊢
    split at hfits
    · next hopen =>
        rw [if_pos hopen]
        obtain ⟨r', hadd, hholds, hkept⟩ := addToNewest_open h ((h.full_iff hb).mpr hopen) hfits
        exact ⟨r', hadd, Or.inr ⟨o, hholds⟩, hkept⟩
    · next hmore =>
        rw [if_neg hmore]
        obtain ⟨r', hadd, hholds, hkept⟩ := addToNewest_more h
          (fun hge => hmore ((h.full_iff hb).mp hge)) hfits.sum
        exact ⟨r', hadd, Or.inr ⟨o, hholds⟩, hkept⟩

end Adding

section Step

variable {r : RateCalculator} {bs : List Bucket} {last : Nat} {nowMs : UInt64}

/-- What is no part of the ring. -/
theorem Keeps.frame (h : r.Keeps bs) (bytes lastTime : UInt64) (lastRate : UInt32) :
    ({ r with bytes, lastTime, lastRate } : RateCalculator).Keeps bs := by
  rcases h with ⟨hnone, hs, hempty, htotal⟩ | ⟨o, h⟩
  · exact Or.inl ⟨hnone, ⟨hs.buffer, hs.items⟩, ⟨hempty.newest, hempty.oldest, hempty.oldestTime⟩,
      htotal⟩
  · exact Or.inr ⟨o, { h with slotted := ⟨h.slotted.buffer, h.slotted.items⟩ }⟩

/-- No bucket is younger than the clock, so `Update` does not take the call for an old one. -/
theorem Keeps.oldest_le (h : r.Keeps bs) {spacing : Nat} (hbs : Spaced spacing last bs)
    (hlast : last ≤ nowMs.toNat) : ¬ nowMs < r.oldestItemStartTime := by
  rw [UInt64.not_lt, UInt64.le_iff_toNat_le]
  rcases h with ⟨-, -, hempty, -⟩ | ⟨o, h⟩
  · rw [hempty.oldestTime]
    exact Nat.zero_le _
  · obtain ⟨b, rest, hcons⟩ := List.exists_cons_of_ne_nil h.some
    rw [h.oldestTime b (by rw [hcons]; rfl)]
    exact (hbs.past b (hcons ▸ List.mem_cons_self)).trans hlast

/-- **`Update` records the size** into the live buckets, where they fit. -/
theorem update_keeps {size : UInt64} (h : r.Keeps bs) (hbs : Spaced r.itemSizeMs.toNat last bs)
    (hlast : last ≤ nowMs.toNat) (hnow : r.windowSizeMs ≤ nowMs)
    (hfits : Fits r.windowItems (record r.itemSizeMs.toNat size.toNat nowMs.toNat
      (live r.windowSizeMs.toNat nowMs.toNat bs))) :
    ∃ r', r.update size nowMs = .ok r' ∧
      r'.Keeps (record r.itemSizeMs.toNat size.toNat nowMs.toNat
        (live r.windowSizeMs.toNat nowMs.toNat bs)) ∧ Kept r r' ∧ r'.lastTime = 0 := by
  have hbytes : ({ r with bytes := r.bytes + size } : RateCalculator).Keeps bs :=
    h.frame (r.bytes + size) r.lastTime r.lastRate
  obtain ⟨r₁, hremove, hkeeps, -, hkept, -⟩ := removeOldData_keeps hbytes hbs hnow
  have hbs₁ : Spaced r₁.itemSizeMs.toNat last (live r.windowSizeMs.toNat nowMs.toNat bs) := by
    rw [hkept.itemSizeMs]
    exact hbs.live
  obtain ⟨r₂, hadd, hkeeps₂, hkept₂⟩ := @addToNewest_keeps r₁ size nowMs _ last hkeeps hbs₁ hlast
    (by rw [hkept.itemSizeMs, hkept.windowItems]; exact hfits)
  rw [hkept.itemSizeMs] at hkeeps₂
  refine ⟨r₂.finishUpdate size nowMs, ?_, hkeeps₂, ?_, ?_⟩
  · unfold update
    rw [if_neg (h.oldest_le hbs hlast), hremove]
    show (do let r ← r₁.addToNewest size nowMs; _) = _
    rw [hadd]
    rfl
  · exact ⟨hkept₂.1.trans hkept.1, hkept₂.2.trans hkept.2, hkept₂.3.trans hkept.3⟩
  · unfold finishUpdate
    split <;> rfl

/-- **`GetRate` leaves the live buckets.** -/
theorem getRate_keeps {spacing : Nat} (scale : Float32) (h : r.Keeps bs)
    (hbs : Spaced spacing last bs) (hnow : r.windowSizeMs ≤ nowMs)
    (hsame : nowMs = r.lastTime → live r.windowSizeMs.toNat nowMs.toNat bs = bs) :
    ∃ r', r.next scale (.getRate nowMs) = .ok r' ∧
      r'.Keeps (live r.windowSizeMs.toNat nowMs.toNat bs) ∧ Kept r r' ∧ r'.lastTime = nowMs := by
  by_cases heq : nowMs = r.lastTime
  · refine ⟨r, ?_, (hsame heq).symm ▸ h, Kept.refl r, heq.symm⟩
    show (do let (r, _) ← r.getRate scale nowMs; _) = _
    unfold getRate
    rw [if_pos heq]
    rfl
  · obtain ⟨r₁, hremove, hkeeps, -, hkept, -⟩ := removeOldData_keeps h hbs hnow
    let lastRate :=
      (r₁.totalCount.toFloat32 * (scale / r₁.windowSizeMs.toFloat32) + 0.5).toUInt32
    refine ⟨{ r₁ with lastTime := nowMs, lastRate }, ?_, hkeeps.frame r₁.bytes nowMs lastRate,
      ⟨hkept.1, hkept.2, hkept.3⟩, rfl⟩
    show (do let (r, _) ← r.getRate scale nowMs; _) = _
    unfold getRate
    rw [if_neg heq, hremove]
    rfl

end Step

/-! ## Runs -/

/-- The time of the last call, before the first one a window. -/
def clock (windowSizeMs : UInt64) (calls : List Call) : UInt64 :=
  (calls.getLast?.map Call.nowMs).getD windowSizeMs

theorem clock_concat (windowSizeMs : UInt64) (calls : List Call) (c : Call) :
    clock windowSizeMs (calls ++ [c]) = c.nowMs := by
  rw [clock, List.getLast?_concat]
  rfl

section Run

variable {scale : Float32} {windowSizeMs : UInt64} {windowItems : UInt16}
  {pre post : List Call} {c : Call}

theorem Clocked.left (h : Clocked windowSizeMs (pre ++ post)) : Clocked windowSizeMs pre := by
  refine List.Pairwise.sublist ?_ h
  rw [List.map_append]
  exact List.Sublist.cons_cons _ (List.sublist_append_left _ _)

theorem Clocked.window_le (h : Clocked windowSizeMs (pre ++ c :: post)) :
    windowSizeMs ≤ c.nowMs :=
  (List.pairwise_cons.mp h).1 c.nowMs
    (List.mem_map_of_mem (List.mem_append_right pre List.mem_cons_self))

theorem Clocked.clock_le (h : Clocked windowSizeMs (pre ++ c :: post)) :
    clock windowSizeMs pre ≤ c.nowMs := by
  rcases List.eq_nil_or_concat pre with rfl | ⟨init, b, rfl⟩
  · exact h.window_le
  · rw [List.concat_eq_append] at *
    have htimes := (List.pairwise_cons.mp h).2
    rw [List.map_append] at htimes
    rw [clock_concat]
    exact (List.pairwise_append.mp htimes).2.2 b.nowMs
      (List.mem_map_of_mem (List.mem_append_right init (List.mem_singleton_self b))) c.nowMs
      (List.mem_map_of_mem List.mem_cons_self)

theorem buckets_concat (itemSizeMs : UInt64) (calls : List Call) (c : Call) :
    buckets itemSizeMs (calls ++ [c]) = match c with
      | .update size nowMs =>
        record itemSizeMs.toNat size.toNat nowMs.toNat (buckets itemSizeMs calls)
      | .getRate _ => buckets itemSizeMs calls := by
  rw [buckets, List.foldl_append]
  rfl

/-- On such a clock the buckets are an item size apart. -/
theorem spaced_buckets (itemSizeMs : UInt64) (calls : List Call)
    (h : Clocked windowSizeMs calls) :
    Spaced itemSizeMs.toNat (clock windowSizeMs calls).toNat (buckets itemSizeMs calls) := by
  induction calls using List.reverseRecOn with
  | nil => exact SlidingWindow.spaced_nil _ _
  | append_singleton calls c ih =>
      have hle := UInt64.le_iff_toNat_le.mp h.clock_le
      have hbefore := ih h.left
      rw [buckets_concat, clock_concat]
      cases c with
      | update size nowMs => exact hbefore.record hle
      | getRate nowMs => exact hbefore.mono hle

theorem toNat_itemSize (windowSizeMs : UInt64) (windowItems : UInt16) :
    (itemSize windowSizeMs windowItems).toNat =
      max (windowSizeMs.toNat / windowItems.toNat) 1 := by
  show (if windowSizeMs / windowItems.toUInt64 ≤ 1 then 1
    else windowSizeMs / windowItems.toUInt64).toNat = _
  have hdiv : (windowSizeMs / windowItems.toUInt64).toNat =
      windowSizeMs.toNat / windowItems.toNat := by
    rw [UInt64.toNat_div, UInt16.toNat_toUInt64]
  rw [← hdiv]
  split
  · next hle => exact (Nat.max_eq_right (UInt64.le_iff_toNat_le.mp hle)).symm
  · next hgt =>
      have hlt := UInt64.lt_iff_toNat_lt.mp (UInt64.not_le.mp hgt)
      exact (Nat.max_eq_left (Nat.le_of_lt hlt)).symm

theorem itemSize_le (hitems : 1 ≤ windowItems) (hwindow : windowItems.toUInt64 ≤ windowSizeMs) :
    (itemSize windowSizeMs windowItems).toNat ≤ windowSizeMs.toNat ∧ 0 < windowSizeMs.toNat := by
  have hitems := UInt16.le_iff_toNat_le.mp hitems
  have hwindow := UInt64.le_iff_toNat_le.mp hwindow
  rw [UInt16.toNat_toUInt64] at hwindow
  have hdiv := Nat.div_le_self windowSizeMs.toNat windowItems.toNat
  have hpos : 0 < windowSizeMs.toNat := Nat.lt_of_lt_of_le hitems hwindow
  exact ⟨by rw [toNat_itemSize]; exact max_le hdiv hpos, hpos⟩

/-- The ring after the calls `calls` holds the live ones of their buckets. -/
structure Follows (windowSizeMs : UInt64) (windowItems : UInt16) (calls : List Call)
    (r : RateCalculator) : Prop where
  window : r.windowSizeMs = windowSizeMs
  items : r.windowItems = windowItems
  spacing : r.itemSizeMs = itemSize windowSizeMs windowItems
  keeps : r.Keeps (live windowSizeMs.toNat (clock windowSizeMs calls).toNat
    (buckets (itemSize windowSizeMs windowItems) calls))
  lastTime : r.lastTime ≤ clock windowSizeMs calls

theorem follows_create (hitems : 1 ≤ windowItems) :
    Follows windowSizeMs windowItems [] (create windowSizeMs windowItems) where
  window := rfl
  items := rfl
  spacing := rfl
  keeps := Or.inl ⟨rfl, ⟨List.length_replicate, UInt16.le_iff_toNat_le.mp hitems⟩,
    ⟨rfl, rfl, rfl⟩, rfl⟩
  lastTime := UInt64.zero_le

/-- A call after which the live buckets fit ends, and the ring holds them. -/
theorem Follows.next {r : RateCalculator} (h : Follows windowSizeMs windowItems pre r)
    (hitems : 1 ≤ windowItems) (hwindow : windowItems.toUInt64 ≤ windowSizeMs)
    (hclock : Clocked windowSizeMs (pre ++ c :: post))
    (hfits : Fits windowItems (liveAt windowSizeMs windowItems pre c)) :
    ∃ r', r.next scale c = .ok r' ∧ Follows windowSizeMs windowItems (pre ++ [c]) r' := by
  obtain ⟨rfl, rfl, hspacing, hkeeps, hlastTime⟩ := h
  obtain ⟨hspan, hpos⟩ := itemSize_le hitems hwindow
  have hpre := spaced_buckets r.itemSizeMs pre hclock.left
  rw [← hspacing] at hkeeps
  have hspaced : Spaced r.itemSizeMs.toNat (clock r.windowSizeMs pre).toNat
      (live r.windowSizeMs.toNat (clock r.windowSizeMs pre).toNat (buckets r.itemSizeMs pre)) :=
    hpre.live
  cases c with
  | update size nowMs =>
      have hlast : (clock r.windowSizeMs pre).toNat ≤ nowMs.toNat :=
        UInt64.le_iff_toNat_le.mp hclock.clock_le
      -- recording into what was live before is recording into all
      have hrecord : live r.windowSizeMs.toNat nowMs.toNat
            (buckets r.itemSizeMs (pre ++ [.update size nowMs])) =
          record r.itemSizeMs.toNat size.toNat nowMs.toNat (live r.windowSizeMs.toNat nowMs.toNat
            (live r.windowSizeMs.toNat (clock r.windowSizeMs pre).toNat
              (buckets r.itemSizeMs pre))) := by
        rw [buckets_concat, SlidingWindow.live_live hlast]
        exact SlidingWindow.live_record hpre (hspacing ▸ hspan) hpos
      rw [liveAt, ← hspacing] at hfits
      obtain ⟨r', hok, hnext, hkept, hzero⟩ := update_keeps hkeeps hspaced hlast hclock.window_le
        (hrecord ▸ hfits)
      refine ⟨r', hok, hkept.windowSizeMs, hkept.windowItems, hkept.itemSizeMs.trans hspacing,
        ?_, ?_⟩
      · rw [clock_concat, ← hspacing]
        exact hrecord ▸ hnext
      · rw [hzero]
        exact UInt64.zero_le
  | getRate nowMs =>
      have hlast : clock r.windowSizeMs pre ≤ nowMs := hclock.clock_le
      obtain ⟨r', hok, hnext, hkept, hnow⟩ := getRate_keeps scale hkeeps hspaced hclock.window_le
        (by
          intro (heq : nowMs = r.lastTime)
          rw [UInt64.le_antisymm (heq ▸ hlastTime) hlast]
          exact SlidingWindow.live_live (Nat.le_refl _))
      refine ⟨r', hok, hkept.windowSizeMs, hkept.windowItems, hkept.itemSizeMs.trans hspacing,
        ?_, ?_⟩
      · rw [clock_concat, ← hspacing, buckets_concat]
        exact SlidingWindow.live_live (UInt64.le_iff_toNat_le.mp hlast) ▸ hnext
      · rw [clock_concat, hnow]
        exact UInt64.le_refl _

/-- What the ring holds is counted and in the buffer. -/
theorem Keeps.exact {r r' : RateCalculator} {bs : List Bucket} (h : r'.Keeps bs)
    (hwithin : r.RemovesWithin c.nowMs) : Exact bs c r r' where
  within := hwithin
  total := by
    rcases h with ⟨rfl, -, -, htotal⟩ | ⟨o, h⟩
    · rw [htotal]
      rfl
    · exact h.total
  stored := by
    intro b hb
    rcases h with ⟨rfl, -⟩ | ⟨o, h⟩
    · cases hb
    · obtain ⟨item, hitem, rfl⟩ := List.mem_map.mp (h.stored.mem hb)
      exact ⟨item, hitem, rfl, rfl⟩

theorem Follows.removesWithin {r : RateCalculator} (h : Follows windowSizeMs windowItems pre r)
    (hclock : Clocked windowSizeMs (pre ++ c :: post)) : r.RemovesWithin c.nowMs := by
  have hspaced := spaced_buckets (itemSize windowSizeMs windowItems) pre hclock.left
  obtain ⟨-, -, -, hwithin, -⟩ := removeOldData_keeps h.keeps hspaced.live
    (h.window ▸ hclock.window_le)
  exact hwithin

end Run

/-! ## The buffer -/

section Length

variable {r r' : RateCalculator} {nowMs : UInt64}

theorem length_removeOldLoop {newOldestTime : UInt64} {fuel : Nat}
    (h : removeOldLoop newOldestTime fuel r = .ok r') : r'.buffer.length = r.buffer.length := by
  induction fuel generalizing r with
  | zero => cases h
  | succ fuel ih =>
      rw [removeOldLoop] at h
      split at h
      · obtain ⟨r₁, hremove, hrest⟩ := bind_eq_ok.mp h
        obtain ⟨item, -, hnext⟩ := bind_eq_ok.mp hremove
        obtain ⟨newOldest, -, hok⟩ := bind_eq_ok.mp hnext
        cases hok
        rw [ih hrest]
        exact List.length_set
      · cases h
        rfl

theorem length_removeOldData (h : r.removeOldData nowMs = .ok r') :
    r'.buffer.length = r.buffer.length := by
  unfold removeOldData at h
  dsimp only at h
  split_ifs at h
  · cases h
    rfl
  · cases h
    rfl
  · cases h
    exact List.length_map _
  · exact length_removeOldLoop h

theorem length_addToNewest {size : UInt64} (h : r.addToNewest size nowMs = .ok r') :
    r'.buffer.length = r.buffer.length := by
  unfold addToNewest at h
  split at h
  · obtain ⟨item, -, hok⟩ := bind_eq_ok.mp h
    cases hok
    exact List.length_set
  · obtain ⟨item, -, hok⟩ := bind_eq_ok.mp h
    cases hok
    exact List.length_set

theorem buffer_finishUpdate (r : RateCalculator) (size nowMs : UInt64) :
    (r.finishUpdate size nowMs).buffer = r.buffer := by
  unfold finishUpdate
  split <;> rfl

/-- No call changes the number of slots. -/
theorem length_next {scale : Float32} {c : Call} (h : r.next scale c = .ok r') :
    r'.buffer.length = r.buffer.length := by
  cases c with
  | update size nowMs =>
      change r.update size nowMs = .ok r' at h
      unfold update at h
      split at h
      · cases h
        rfl
      · obtain ⟨r₁, hremove, hrest⟩ := bind_eq_ok.mp h
        obtain ⟨r₂, hadd, hok⟩ := bind_eq_ok.mp hrest
        cases hok
        rw [buffer_finishUpdate, length_addToNewest hadd, length_removeOldData hremove]
  | getRate nowMs =>
      obtain ⟨⟨r₁, rate⟩, hrate, hok⟩ := bind_eq_ok.mp h
      cases hok
      unfold getRate at hrate
      split at hrate
      · cases hrate
        rfl
      · obtain ⟨r₂, hremove, hdone⟩ := bind_eq_ok.mp hrate
        cases hdone
        exact @length_removeOldData r r₂ nowMs hremove

/-- Buckets apart from each other need a slot each. -/
theorem Exact.fits {windowItems : UInt16} {bs : List Bucket} {spacing last : Nat} {c : Call}
    (h : Exact bs c r r') (hbs : Spaced spacing last bs) (hspacing : 0 < spacing)
    (hlength : r'.buffer.length = windowItems.toNat) : Fits windowItems bs where
  items := by
    have hnodup : (bs.map Bucket.start).Nodup := by
      refine List.pairwise_map.mpr (hbs.starts.imp fun hab => ?_)
      omega
    have hsubset : bs.map Bucket.start ⊆ r'.buffer.map fun item => item.time.toNat := by
      intro t ht
      obtain ⟨b, hb, rfl⟩ := List.mem_map.mp ht
      obtain ⟨item, hitem, hstart, -⟩ := h.stored b hb
      exact List.mem_map.mpr ⟨item, hitem, hstart⟩
    have hle := (hnodup.subperm hsubset).length_le
    rwa [List.length_map, List.length_map, hlength] at hle
  sum := by
    rw [← h.total]
    exact UInt64.toNat_lt _

end Length

/-! ## Exactness -/

/-- **The counting is exact exactly in the runs whose live buckets fit** all along: no more of them
    than items, and their sizes no more than `size_t` holds. -/
theorem exact_iff (scale : Float32) (windowSizeMs : UInt64) (windowItems : UInt16)
    (hitems : 1 ≤ windowItems) (hwindow : windowItems.toUInt64 ≤ windowSizeMs)
    (calls : List Call) (hclock : Clocked windowSizeMs calls) :
    (∀ pre c post, calls = pre ++ c :: post → ∃ r r',
      Trace.runE (next scale) (create windowSizeMs windowItems) pre = .ok r ∧
      r.next scale c = .ok r' ∧ Exact (liveAt windowSizeMs windowItems pre c) c r r') ↔
    ∀ pre c post, calls = pre ++ c :: post →
      Fits windowItems (liveAt windowSizeMs windowItems pre c) := by
  constructor
  · intro hall pre c post hsplit
    obtain ⟨r, r', hrun, hok, hexact⟩ := hall pre c post hsplit
    have hlength : r.buffer.length = windowItems.toNat :=
      Trace.runE_invariant (I := fun r => r.buffer.length = windowItems.toNat)
        (fun _ _ _ h hstep => (length_next hstep).trans h) List.length_replicate hrun
    have hpre : Clocked windowSizeMs (pre ++ [c]) := by
      rw [hsplit, List.append_cons] at hclock
      exact hclock.left
    have hspaced := spaced_buckets (itemSize windowSizeMs windowItems) (pre ++ [c]) hpre
    exact hexact.fits hspaced.live (by rw [toNat_itemSize]; omega)
      ((length_next hok).trans hlength)
  · intro hall pre c post hsplit
    have hstep : ∀ pre c post r, calls = pre ++ c :: post →
        Trace.runE (next scale) (create windowSizeMs windowItems) pre = .ok r →
        Follows windowSizeMs windowItems pre r →
        ∃ r', r.next scale c = .ok r' ∧ Follows windowSizeMs windowItems (pre ++ [c]) r' :=
      fun pre c post r hsplit _ hpre =>
        hpre.next hitems hwindow (hsplit ▸ hclock) (hall pre c post hsplit)
    obtain ⟨r, hrun, hpre⟩ := Trace.completes_along (I := Follows windowSizeMs windowItems)
      (follows_create hitems) hstep pre hsplit
    obtain ⟨r', hok, hnext⟩ := hstep pre c post r hsplit hrun hpre
    have hkeeps := hnext.keeps
    rw [clock_concat] at hkeeps
    exact ⟨r, r', hrun, hok, hkeeps.exact (hpre.removesWithin (hsplit ▸ hclock))⟩

def Call.size : Call → Nat
  | .update size _ => size.toNat
  | .getRate _ => 0

theorem total_buckets (itemSizeMs : UInt64) (calls : List Call) :
    total (buckets itemSizeMs calls) = (calls.map Call.size).sum := by
  induction calls using List.reverseRecOn with
  | nil => rfl
  | append_singleton calls c ih =>
      rw [buckets_concat, List.map_append, List.sum_append, ← ih, List.map_singleton,
        List.sum_singleton]
      cases c with
      | update size nowMs => exact SlidingWindow.total_record _ _ _ _
      | getRate nowMs => rfl

/-- Where the window is divided without a rest, only the sizes can be too many. -/
theorem fits_of_dvd (windowSizeMs : UInt64) (windowItems : UInt16)
    (hdvd : windowItems.toNat ∣ windowSizeMs.toNat) {calls : List Call}
    (hclock : Clocked windowSizeMs calls) (hsum : (calls.map Call.size).sum < 2 ^ 64) :
    ∀ pre c post, calls = pre ++ c :: post →
      Fits windowItems (liveAt windowSizeMs windowItems pre c) := by
  intro pre c post hsplit
  rw [hsplit, List.append_cons] at hclock hsum
  have hspaced := spaced_buckets (itemSize windowSizeMs windowItems) (pre ++ [c]) hclock.left
  rw [clock_concat] at hspaced
  constructor
  · refine SlidingWindow.length_live_le hspaced ?_
    calc windowSizeMs.toNat = windowItems.toNat * (windowSizeMs.toNat / windowItems.toNat) :=
          (Nat.mul_div_cancel' hdvd).symm
      _ ≤ windowItems.toNat * (itemSize windowSizeMs windowItems).toNat := by
          rw [toNat_itemSize]
          exact Nat.mul_le_mul_left _ (le_max_left _ _)
  · rw [List.map_append, List.sum_append] at hsum
    calc total (liveAt windowSizeMs windowItems pre c)
        ≤ total (buckets (itemSize windowSizeMs windowItems) (pre ++ [c])) :=
          SlidingWindow.total_live_le _ _ _
      _ < 2 ^ 64 := by
          rw [total_buckets]
          omega

/-- Three items of 2 ms: 7 goes to the bucket of 6, which `GetRate` takes off. -/
def even : List Call :=
  [.update 100 6, .update 50 7, .update 20 8, .getRate 12, .update 10 13]

theorem exact_iff_even : Clocked 6 even ∧ ∀ pre c post, even = pre ++ c :: post → ∃ r r',
    Trace.runE (next 8000) (create 6 3) pre = .ok r ∧ r.next 8000 c = .ok r' ∧
    Exact (liveAt 6 3 pre c) c r r' :=
  ⟨by decide, (exact_iff 8000 6 3 (by decide) (by decide) even (by decide)).mpr
    (fits_of_dvd 6 3 (by decide) (by decide) (by decide))⟩

/-- Four buckets in a window of three items: the fourth is opened while the first is live. -/
def overfull : List Call :=
  [.update 1 5, .update 1 6, .update 1 7, .update 1 8, .getRate 12]

/-- The fourth bucket has taken the slot of the first, which the walk from the oldest item does
    not expect. -/
theorem not_exact : Clocked 5 overfull ∧
    Trace.runE (next 8000) (create 5 3) overfull = .error .endlessLoop ∧
    ¬ ∀ pre c post, overfull = pre ++ c :: post → ∃ r r',
      Trace.runE (next 8000) (create 5 3) pre = .ok r ∧ r.next 8000 c = .ok r' ∧
      Exact (liveAt 5 3 pre c) c r r' := by
  have hloop : Trace.runE (next 8000) (create 5 3) overfull = .error .endlessLoop := by
    decide +kernel
  refine ⟨by decide, hloop, ?_⟩
  intro hall
  obtain ⟨r, r', hrun, hok, -⟩ := hall [.update 1 5, .update 1 6, .update 1 7, .update 1 8]
    (.getRate 12) [] rfl
  have hend : Trace.runE (next 8000) (create 5 3) overfull = .ok r' :=
    (Trace.runE_concat_iff _ _ _ _).mpr ⟨r, hrun, hok⟩
  cases hloop.symm.trans hend

end RateCalculator

end Bifrost.Rtc
