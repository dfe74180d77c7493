/-
  The ring of `RateCalculator`: on a clock that does not go back, `Update` always ends and
  stays inside the buffer.

  The live items are those from the oldest to the newest, `m + 1` of them, their start
  times at least an item size apart (`Live`). The newest one is younger than whatever
  `RemoveOldData` drops, so its loop ends there at the latest (`removeOldLoop_live`). That a
  new item never lands on the oldest one needs the spacing: `windowItems` item sizes are no
  less than the window (`Sized`).
-/
import Bifrost.Lib.RingSlots
import Bifrost.Rtc.DataCalculator

namespace Bifrost.Rtc

open RingSlots (slot_ne)

namespace RateCalculator

/-- The window is not larger than its items together. -/
structure Sized (r : RateCalculator) : Prop where
  buffer : r.buffer.length = r.windowItems.toNat
  items : 0 < r.windowItems.toNat
  span : r.windowSizeMs.toNat ≤ r.itemSizeMs.toNat * r.windowItems.toNat

/-- The buffer has its items. -/
structure Slotted (r : RateCalculator) : Prop where
  buffer : r.buffer.length = r.windowItems.toNat
  items : 0 < r.windowItems.toNat

theorem Sized.slotted {r : RateCalculator} (h : r.Sized) : r.Slotted := ⟨h.buffer, h.items⟩

/-- The start time in the `i`th slot of the ring behind slot `o`. -/
def timeAt (r : RateCalculator) (o i : Nat) : Nat :=
  (r.buffer.getD ((o + i) % r.windowItems.toNat) {}).time.toNat

/-- Slot `o` is the oldest, the `m`th slot behind it the newest, and nothing is younger than
    `last`. -/
structure Live (r : RateCalculator) (last : UInt64) (o m : Nat) : Prop where
  oldest : r.oldestItemIndex = o
  oldest_lt : o < r.windowItems.toNat
  newest : r.newestItemIndex = ((o + m) % r.windowItems.toNat : Nat)
  count_lt : m < r.windowItems.toNat
  oldestTime : r.timeAt o 0 = r.oldestItemStartTime.toNat
  newestTime : r.timeAt o m = r.newestItemStartTime.toNat
  spaced : ∀ i, i < m → r.timeAt o i + r.itemSizeMs.toNat ≤ r.timeAt o (i + 1)
  last : r.newestItemStartTime ≤ last

/-- No item is set. -/
structure Empty (r : RateCalculator) : Prop where
  newest : r.newestItemIndex = -1
  oldest : r.oldestItemIndex = -1
  oldestTime : r.oldestItemStartTime = 0

/-- The calculator after calls up to time `last`. -/
structure Ring (r : RateCalculator) (last : UInt64) : Prop where
  sized : r.Sized
  state : r.Empty ∨ ∃ o m, r.Live last o m

theorem Live.mono {r : RateCalculator} {last last' : UInt64} {o m : Nat} (h : r.Live last o m)
    (hle : last ≤ last') : r.Live last' o m :=
  { h with last := UInt64.le_trans h.last hle }

theorem Ring.mono {r : RateCalculator} {last last' : UInt64} (h : r.Ring last)
    (hle : last ≤ last') : r.Ring last' where
  sized := h.sized
  state := h.state.imp_right fun ⟨o, m, hl⟩ => ⟨o, m, hl.mono hle⟩

/-- From the oldest to the `i`th slot the spacing adds up. -/
theorem Live.time_add_le {r : RateCalculator} {last : UInt64} {o m : Nat} (h : r.Live last o m)
    {i : Nat} (hi : i ≤ m) : r.timeAt o 0 + i * r.itemSizeMs.toNat ≤ r.timeAt o i := by
  induction i with
  | zero => simp
  | succ i ih =>
      have hstep := h.spaced i (by omega)
      have hprev := ih (by omega)
      rw [Nat.succ_mul]
      omega

theorem itemAt_ok {r : RateCalculator} (h : r.Slotted) {i : Nat} (hi : i < r.windowItems.toNat) :
    r.itemAt i = .ok (r.buffer.getD i {}) := by
  have hlen : i < r.buffer.length := h.buffer ▸ hi
  unfold itemAt
  rw [if_neg (by omega), Int.toNat_natCast, List.getD_eq_getElem?_getD,
    List.getElem?_eq_getElem hlen]
  rfl

theorem nextIndex_mod {r : RateCalculator} {i : Nat} (hi : i < r.windowItems.toNat) :
    r.nextIndex i = ((i + 1) % r.windowItems.toNat : Nat) := by
  unfold nextIndex
  split
  · rw [show i + 1 = r.windowItems.toNat by omega, Nat.mod_self]
    rfl
  · rw [Nat.mod_eq_of_lt (by omega)]
    rfl

/-! ## `RemoveOldData` -/

/-- The calculator after one round of the loop, `o` being the oldest slot. -/
def dropOldest (r : RateCalculator) (o : Nat) : RateCalculator :=
  { r with
    buffer := r.buffer.set o {}
    totalCount := r.totalCount - (r.buffer.getD o {}).count
    oldestItemIndex := ((o + 1) % r.windowItems.toNat : Nat)
    oldestItemStartTime := ((r.buffer.set o {}).getD ((o + 1) % r.windowItems.toNat) {}).time }

theorem removeOldest_eq {r : RateCalculator} {o : Nat} (hs : r.Slotted)
    (hold : r.oldestItemIndex = o) (ho : o < r.windowItems.toNat) :
    r.removeOldest = .ok (r.dropOldest o) := by
  have hnext : (o + 1) % r.windowItems.toNat < r.windowItems.toNat := Nat.mod_lt _ hs.items
  have hs' : Slotted { r.setItem o {} with
      totalCount := r.totalCount - (r.buffer.getD o {}).count
      oldestItemIndex := r.nextIndex o } :=
    ⟨by simp only [setItem, List.length_set, hs.buffer], hs.items⟩
  have hitem := itemAt_ok hs' hnext
  unfold removeOldest
  rw [hold, itemAt_ok hs ho]
  simp only [nextIndex_mod ho] at hitem ⊢
  show (do let newOldestItem ← itemAt _ _; _) = _
  rw [hitem]
  rfl

theorem timeAt_dropOldest {r : RateCalculator} {o i : Nat} (ho : o < r.windowItems.toNat)
    (hi : i + 1 < r.windowItems.toNat) :
    (r.dropOldest o).timeAt ((o + 1) % r.windowItems.toNat) i = r.timeAt o (i + 1) := by
  have hidx : ((o + 1) % r.windowItems.toNat + i) % r.windowItems.toNat =
      (o + (i + 1)) % r.windowItems.toNat := by
    rw [Nat.mod_add_mod]
    congr 1
    omega
  have hne : o ≠ (o + (i + 1)) % r.windowItems.toNat := by
    have := @slot_ne r.windowItems.toNat o 0 (i + 1) (by omega) (by omega)
    rwa [Nat.add_zero, Nat.mod_eq_of_lt ho] at this
  unfold timeAt dropOldest
  simp only [hidx, List.getD_eq_getElem?_getD, List.getElem?_set_ne hne]

theorem removeOldLoop_live (newOldestTime last : UInt64) (m : Nat) :
    ∀ (r : RateCalculator) (o fuel : Nat), r.Sized → r.Live last o m →
      newOldestTime < r.newestItemStartTime → m < fuel →
      ∃ r' o' m', removeOldLoop newOldestTime fuel r = .ok r' ∧ r'.Sized ∧ r'.Live last o' m' ∧
        newOldestTime < r'.oldestItemStartTime ∧ r'.windowSizeMs = r.windowSizeMs ∧
        r'.itemSizeMs = r.itemSizeMs := by
  induction m with
  | zero =>
      intro r o fuel hs hl hlt hfuel
      obtain ⟨fuel, rfl⟩ := Nat.exists_eq_add_of_lt hfuel
      have heq : r.oldestItemStartTime = r.newestItemStartTime :=
        UInt64.toNat_inj.mp (hl.oldestTime.symm.trans hl.newestTime)
      refine ⟨r, o, 0, ?_, hs, hl, heq ▸ hlt, rfl, rfl⟩
      rw [Nat.zero_add, removeOldLoop, heq, if_neg (UInt64.not_le.mpr hlt)]
  | succ m ih =>
      intro r o fuel hs hl hlt hfuel
      obtain ⟨fuel, rfl⟩ : ∃ f, fuel = f + 1 := ⟨fuel - 1, by omega⟩
      by_cases hgo : newOldestTime ≥ r.oldestItemStartTime
      · have ho := hl.oldest_lt
        have hm := hl.count_lt
        have hnext : (o + 1) % r.windowItems.toNat < r.windowItems.toNat := Nat.mod_lt _ hs.items
        have hs' : (r.dropOldest o).Sized :=
          ⟨by rw [dropOldest, List.length_set, hs.buffer], hs.items, hs.span⟩
        have hl' : (r.dropOldest o).Live last ((o + 1) % r.windowItems.toNat) m := by
          refine ⟨rfl, hnext, ?_, Nat.lt_of_succ_lt hm, ?_, ?_, ?_, hl.last⟩
          · show r.newestItemIndex = _
            rw [hl.newest, show (r.dropOldest o).windowItems = r.windowItems from rfl,
              Nat.mod_add_mod]
            congr 2
            omega
          · unfold timeAt
            rw [Nat.add_zero, show (r.dropOldest o).windowItems = r.windowItems from rfl,
              Nat.mod_mod]
            rfl
          · rw [timeAt_dropOldest ho hm]
            exact hl.newestTime
          · intro i hi
            rw [timeAt_dropOldest ho (by omega), timeAt_dropOldest ho (by omega)]
            exact hl.spaced (i + 1) (by omega)
        obtain ⟨r', o', m', hrun, hrest⟩ :=
          ih (r.dropOldest o) ((o + 1) % r.windowItems.toNat) fuel hs' hl' hlt (by omega)
        refine ⟨r', o', m', ?_, hrest⟩
        rw [← hrun, removeOldLoop, if_pos hgo, removeOldest_eq hs.slotted hl.oldest ho]
        rfl
      · refine ⟨r, o, m + 1, ?_, hs, hl, UInt64.not_le.mp hgo, rfl, rfl⟩
        rw [removeOldLoop, if_neg hgo]

/-- What `RemoveOldData` leaves: nothing, or items of the last window only. -/
theorem removeOldData_ring {r : RateCalculator} {last : UInt64} (h : r.Ring last)
    (nowMs : UInt64) :
    ∃ r', r.removeOldData nowMs = .ok r' ∧ r'.Sized ∧
      (r'.Empty ∨ ∃ o m, r'.Live last o m ∧ nowMs - r'.windowSizeMs < r'.oldestItemStartTime) := by
  unfold removeOldData
  rcases h.state with he | ⟨o, m, hl⟩
  · rw [if_pos (Or.inl (by rw [he.newest]; decide))]
    exact ⟨r, rfl, h.sized, Or.inl he⟩
  · rw [if_neg (by rw [hl.newest, hl.oldest]; omega)]
    dsimp only
    split_ifs with hyoung hall
    · exact ⟨r, rfl, h.sized, Or.inr ⟨o, m, hl, hyoung⟩⟩
    · refine ⟨r.reset, rfl, ⟨?_, h.sized.items, h.sized.span⟩, Or.inl ⟨rfl, rfl, rfl⟩⟩
      rw [reset, List.length_map, h.sized.buffer]
    · obtain ⟨r', o', m', hrun, hs, hl', hlt, hw, -⟩ :=
        removeOldLoop_live (nowMs - r.windowSizeMs) last m r o (r.windowItems.toNat + 1) h.sized hl
          (UInt64.not_le.mp hall) (Nat.lt_succ_of_lt hl.count_lt)
      exact ⟨r', hrun, hs, Or.inr ⟨o', m', hl', hw ▸ hlt⟩⟩

/-! ## `Update` -/

/-- There is room for one more item when the newest one has its full size. -/
theorem Live.room {r : RateCalculator} {last nowMs : UInt64} {o m : Nat} (h : r.Live last o m)
    (hs : r.Sized) (hlast : last ≤ nowMs)
    (hyoung : nowMs - r.windowSizeMs < r.oldestItemStartTime)
    (hfull : nowMs - r.newestItemStartTime ≥ r.itemSizeMs) : m + 1 < r.windowItems.toNat := by
  have hnow := UInt64.le_trans h.last hlast
  have hspan := hs.span
  have hadd := h.time_add_le (Nat.le_refl m)
  have hfirst := h.oldestTime
  have hnewest := h.newestTime
  rw [UInt64.le_iff_toNat_le] at hnow
  rw [ge_iff_le, UInt64.le_iff_toNat_le, UInt64.toNat_sub] at hfull
  rw [UInt64.lt_iff_toNat_lt, UInt64.toNat_sub] at hyoung
  have := nowMs.toNat_lt
  have := r.windowSizeMs.toNat_lt
  have := r.newestItemStartTime.toNat_lt
  -- `m + 1` item sizes lie between the oldest item and now, which is less than a window
  have hlt : (m + 1) * r.itemSizeMs.toNat < r.windowItems.toNat * r.itemSizeMs.toNat := by
    rw [Nat.succ_mul, Nat.mul_comm r.windowItems.toNat]
    omega
  exact Nat.lt_of_mul_lt_mul_right hlt

theorem timeAt_set_ne {r : RateCalculator} {item : BufferItem} {o i j : Nat} (hij : i < j)
    (hj : j < r.windowItems.toNat) :
    { r with buffer := r.buffer.set ((o + j) % r.windowItems.toNat) item }.timeAt o i =
      r.timeAt o i := by
  have hne := (@slot_ne r.windowItems.toNat o i j hij (by omega)).symm
  unfold timeAt
  simp only [List.getD_eq_getElem?_getD, List.getElem?_set_ne hne]

theorem timeAt_set_self {r : RateCalculator} {item : BufferItem} {o j : Nat} (hs : r.Sized) :
    { r with buffer := r.buffer.set ((o + j) % r.windowItems.toNat) item }.timeAt o j =
      item.time.toNat := by
  have hlt : (o + j) % r.windowItems.toNat < r.buffer.length := by
    rw [hs.buffer]
    exact Nat.mod_lt _ hs.items
  unfold timeAt
  simp only [List.getD_eq_getElem?_getD, List.getElem?_set_self hlt, Option.getD_some]

theorem Sized.set {r : RateCalculator} (hs : r.Sized) (k : Nat) (item : BufferItem) :
    { r with buffer := r.buffer.set k item }.Sized :=
  ⟨by rw [List.length_set, hs.buffer], hs.items, hs.span⟩

/-- The calculator with a new newest item in slot `k`. -/
def openItem (r : RateCalculator) (k : Nat) (size nowMs : UInt64) : RateCalculator :=
  { r with
    newestItemIndex := k
    newestItemStartTime := nowMs
    buffer := r.buffer.set k { count := size, time := nowMs } }

theorem addToNewest_new {r : RateCalculator} {size nowMs : UInt64} {k : Nat} (hs : r.Slotted)
    (hnew : r.newestItemIndex < 0 ∨ nowMs - r.newestItemStartTime ≥ r.itemSizeMs)
    (hnext : r.nextIndex r.newestItemIndex = k) (hk : k < r.windowItems.toNat) :
    r.addToNewest size nowMs = .ok (r.openItem k size nowMs) := by
  have hitem := @itemAt_ok { r with newestItemIndex := (k : Int), newestItemStartTime := nowMs }
    ⟨hs.buffer, hs.items⟩ k hk
  unfold addToNewest
  rw [if_pos hnew, hnext]
  dsimp only
  rw [hitem]
  rfl

theorem addToNewest_old {r : RateCalculator} {size nowMs : UInt64} {k : Nat} (hs : r.Slotted)
    (hold : ¬ (r.newestItemIndex < 0 ∨ nowMs - r.newestItemStartTime ≥ r.itemSizeMs))
    (hidx : r.newestItemIndex = k) (hk : k < r.windowItems.toNat) :
    r.addToNewest size nowMs = .ok { r with
      buffer := r.buffer.set k { r.buffer.getD k {} with
        count := (r.buffer.getD k {}).count + size } } := by
  have hitem : r.itemAt r.newestItemIndex = .ok (r.buffer.getD k {}) := by
    rw [hidx, itemAt_ok hs hk]
  have hset : ∀ item, r.setItem r.newestItemIndex item =
      { r with buffer := r.buffer.set k item } := by
    intro item
    rw [setItem, hidx, Int.toNat_natCast]
  unfold addToNewest
  rw [if_neg hold, hitem]
  exact congrArg Except.ok (hset _)

/-- The first item of the window. -/
theorem addToNewest_empty {r : RateCalculator} {size nowMs : UInt64} (hs : r.Sized)
    (he : r.Empty) : ∃ r', r.addToNewest size nowMs = .ok r' ∧ r'.Sized ∧
      (r'.finishUpdate size nowMs).Live nowMs 0 0 := by
  have hnext : r.nextIndex r.newestItemIndex = (0 : Nat) := by
    rw [he.newest, nextIndex]
    split <;> rfl
  refine ⟨_, addToNewest_new hs.slotted (Or.inl (by rw [he.newest]; decide)) hnext hs.items,
    ⟨by rw [openItem, List.length_set, hs.buffer], hs.items, hs.span⟩, ?_⟩
  have hfinish : (r.openItem 0 size nowMs).finishUpdate size nowMs =
      { r.openItem 0 size nowMs with
        oldestItemIndex := 0
        oldestItemStartTime := nowMs
        totalCount := r.totalCount + size
        lastRate := 0
        lastTime := 0 } := by
    have hneg : (r.openItem 0 size nowMs).oldestItemIndex < 0 := by
      show r.oldestItemIndex < 0
      rw [he.oldest]
      decide
    unfold finishUpdate
    rw [if_pos hneg]
    rfl
  have htime : (r.openItem 0 size nowMs).timeAt 0 0 = nowMs.toNat := by
    have hpos : 0 < r.buffer.length := by rw [hs.buffer]; exact hs.items
    unfold timeAt openItem
    simp only [Nat.add_zero, Nat.zero_mod, List.getD_eq_getElem?_getD, List.getElem?_set_self hpos,
      Option.getD_some]
  rw [hfinish]
  exact ⟨rfl, hs.items, by rw [Nat.add_zero, Nat.zero_mod]; rfl, hs.items, htime, htime,
    fun i hi => absurd hi (by omega), UInt64.le_refl _⟩

/-- One more item in the window, or more bytes in the newest one. -/
theorem addToNewest_live {r : RateCalculator} {size last nowMs : UInt64} {o m : Nat}
    (hs : r.Sized) (hl : r.Live last o m) (hlast : last ≤ nowMs)
    (hyoung : nowMs - r.windowSizeMs < r.oldestItemStartTime) :
    ∃ r' m', r.addToNewest size nowMs = .ok r' ∧ r'.Sized ∧ r'.Live nowMs o m' := by
  have hmod : (o + m) % r.windowItems.toNat < r.windowItems.toNat := Nat.mod_lt _ hs.items
  have hneg : ¬ r.newestItemIndex < 0 := by rw [hl.newest]; omega
  by_cases hfull : nowMs - r.newestItemStartTime ≥ r.itemSizeMs
  · have hroom := hl.room hs hlast hyoung hfull
    have hnext : r.nextIndex r.newestItemIndex =
        ((o + (m + 1)) % r.windowItems.toNat : Nat) := by
      rw [hl.newest, nextIndex_mod hmod, Nat.mod_add_mod, Nat.add_assoc]
    refine ⟨_, m + 1, addToNewest_new hs.slotted (Or.inr hfull) hnext (Nat.mod_lt _ hs.items),
      ⟨by rw [openItem, List.length_set, hs.buffer], hs.items, hs.span⟩, ?_⟩
    have hbefore : ∀ i, i < m + 1 →
        (r.openItem ((o + (m + 1)) % r.windowItems.toNat) size nowMs).timeAt o i = r.timeAt o i :=
      fun i hi => timeAt_set_ne hi hroom
    have hself : (r.openItem ((o + (m + 1)) % r.windowItems.toNat) size nowMs).timeAt o (m + 1) =
        nowMs.toNat := timeAt_set_self hs
    refine ⟨hl.oldest, hl.oldest_lt, rfl, hroom, ?_, hself, ?_, UInt64.le_refl _⟩
    · rw [hbefore 0 (by omega)]
      exact hl.oldestTime
    · intro i hi
      rw [hbefore i hi]
      by_cases him : i = m
      · subst him
        have hnow := UInt64.le_trans hl.last hlast
        rw [ge_iff_le, UInt64.le_iff_toNat_le, UInt64.toNat_sub_of_le _ _ hnow] at hfull
        rw [UInt64.le_iff_toNat_le] at hnow
        rw [hself, hl.newestTime]
        show _ + r.itemSizeMs.toNat ≤ _
        omega
      · rw [hbefore (i + 1) (by omega)]
        exact hl.spaced i (by omega)
  · refine ⟨_, m, addToNewest_old hs.slotted (by simp [hneg, hfull]) hl.newest hmod, hs.set _ _, ?_⟩
    -- the start times are what they were
    have htime : ∀ i, i ≤ m → timeAt { r with
        buffer := r.buffer.set ((o + m) % r.windowItems.toNat)
          { r.buffer.getD ((o + m) % r.windowItems.toNat) {} with
            count := (r.buffer.getD ((o + m) % r.windowItems.toNat) {}).count + size } } o i =
        r.timeAt o i := by
      intro i hi
      rcases Nat.lt_or_eq_of_le hi with hlt | rfl
      · exact timeAt_set_ne hlt hl.count_lt
      · rw [timeAt_set_self hs]
        rfl
    refine ⟨hl.oldest, hl.oldest_lt, hl.newest, hl.count_lt, ?_, ?_, ?_,
      UInt64.le_trans hl.last hlast⟩
    · rw [htime 0 (by omega)]
      exact hl.oldestTime
    · rw [htime m (Nat.le_refl m)]
      exact hl.newestTime
    · intro i hi
      rw [htime i (by omega), htime (i + 1) (by omega)]
      exact hl.spaced i hi

/-- **`Update` ends and keeps the ring**, on a clock that does not go back. -/
theorem update_ring {r : RateCalculator} {last nowMs : UInt64} (h : r.Ring last)
    (hlast : last ≤ nowMs) (size : UInt64) :
    ∃ r', r.update size nowMs = .ok r' ∧ r'.Ring nowMs := by
  unfold update
  split
  · exact ⟨r, rfl, h.mono hlast⟩
  have h' : ({ r with bytes := r.bytes + size } : RateCalculator).Ring last :=
    ⟨⟨h.sized.buffer, h.sized.items, h.sized.span⟩, h.state.imp
      (fun he => ⟨he.newest, he.oldest, he.oldestTime⟩)
      (fun ⟨o, m, hl⟩ => ⟨o, m, { hl with }⟩)⟩
  obtain ⟨r₁, hremove, hs, hstate⟩ := removeOldData_ring h' nowMs
  rw [hremove]
  rcases hstate with he | ⟨o, m, hl, hyoung⟩
  · obtain ⟨r₂, hadd, hs₂, hl₂⟩ := @addToNewest_empty r₁ size nowMs hs he
    refine ⟨r₂.finishUpdate size nowMs, ?_, ⟨?_, Or.inr ⟨0, 0, hl₂⟩⟩⟩
    · show (do let r ← r₁.addToNewest size nowMs; _) = _
      rw [hadd]
      rfl
    · unfold finishUpdate
      split <;> exact ⟨hs₂.buffer, hs₂.items, hs₂.span⟩
  · obtain ⟨r₂, m₂, hadd, hs₂, hl₂⟩ := @addToNewest_live r₁ size last nowMs o m hs hl hlast hyoung
    have hfinish : r₂.finishUpdate size nowMs =
        { r₂ with totalCount := r₂.totalCount + size, lastRate := 0, lastTime := 0 } := by
      unfold finishUpdate
      rw [if_neg (by rw [hl₂.oldest]; omega)]
    refine ⟨r₂.finishUpdate size nowMs, ?_, ?_⟩
    · show (do let r ← r₁.addToNewest size nowMs; _) = _
      rw [hadd]
      rfl
    · rw [hfinish]
      exact ⟨⟨hs₂.buffer, hs₂.items, hs₂.span⟩, Or.inr ⟨o, m₂, { hl₂ with }⟩⟩

/-- A new calculator whose items cover the window. -/
theorem ring_create {windowSizeMs : UInt64} {windowItems : UInt16}
    (hitems : 0 < windowItems.toNat)
    (hspan : windowSizeMs.toNat ≤
      (max (windowSizeMs / windowItems.toUInt64) 1).toNat * windowItems.toNat) (last : UInt64) :
    (create windowSizeMs windowItems).Ring last where
  sized := ⟨List.length_replicate, hitems, hspan⟩
  state := Or.inl ⟨rfl, rfl, rfl⟩

end RateCalculator

namespace RtpDataCounter

/-- `Update` of the counter ends, and counts the packet. -/
theorem update_ring {c : RtpDataCounter} {last nowMs : UInt64} (h : c.rate.Ring last)
    (hlast : last ≤ nowMs) (size : UInt32) :
    ∃ c', c.update size nowMs = .ok c' ∧ c'.rate.Ring nowMs ∧ c'.packets = c.packets + 1 := by
  obtain ⟨rate, hok, hring⟩ := RateCalculator.update_ring h hlast size.toUInt64
  refine ⟨⟨rate, c.packets + 1⟩, ?_, hring, rfl⟩
  unfold update
  rw [hok]
  rfl

theorem ring_default (last : UInt64) : (create kDefaultWindowSize).rate.Ring last :=
  RateCalculator.ring_create (by decide) (by decide) last

end RtpDataCounter

end Bifrost.Rtc
