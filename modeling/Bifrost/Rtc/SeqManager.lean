/-
  `RTC::SeqManager`: the comparators on sequence numbers and RTP timestamps
  (`rtc/seq_manager.h`, `rtc/seq_manager.cpp`).

  The subtractions of the source are guarded by a raw comparison, so they never wrap and
  the comparators are computed on the raw numbers. `seqLowerThan_iff_lt` identifies them
  with the serial-number comparison of the library; for 16-bit numbers
  `isSeqLowerThan16_iff` and `isSeqHigherThan16_iff` state the same through the wrapping
  difference of the code, which is the form the other modules use. `ordersHalfWindows`: for
  every width, masked or not, the comparators order each half of the numbers.
-/
import Bifrost.Lib.Serial

namespace Bifrost.Rtc

/-- The unsigned types `SeqManager` is instantiated with, and their `MaxValue`. -/
class SeqType (T : Type) where
  toNat : T → Nat
  maxValue : Nat

instance : SeqType UInt16 := ⟨UInt16.toNat, 65535⟩
instance : SeqType UInt32 := ⟨UInt32.toNat, 4294967295⟩

namespace SeqManager

/-- `SeqLowerThan::operator()` on raw numbers. -/
def seqLowerThan (maxValue lhs rhs : Nat) : Bool :=
  (decide (rhs > lhs) && decide (rhs - lhs ≤ maxValue / 2)) ||
    (decide (lhs > rhs) && decide (lhs - rhs > maxValue / 2))

/-- `SeqHigherThan::operator()` on raw numbers. -/
def seqHigherThan (maxValue lhs rhs : Nat) : Bool :=
  (decide (lhs > rhs) && decide (lhs - rhs ≤ maxValue / 2)) ||
    (decide (rhs > lhs) && decide (rhs - lhs > maxValue / 2))

/-- `SeqManager<T, N>::MaxValue` for a type `T` of `width` bits and `N = mask`. -/
def maxValue (width mask : Nat) : Nat := if mask = 0 then 2 ^ width - 1 else 1 <<< mask - 1

/-- The bits a `SeqManager<T, N>` counts with. -/
def usedBits (width mask : Nat) : Nat := if mask = 0 then width else mask

variable {T : Type} [SeqType T]

def isSeqLowerThan (lhs rhs : T) : Bool :=
  seqLowerThan (SeqType.maxValue T) (SeqType.toNat lhs) (SeqType.toNat rhs)

def isSeqHigherThan (lhs rhs : T) : Bool :=
  seqHigherThan (SeqType.maxValue T) (SeqType.toNat lhs) (SeqType.toNat rhs)

theorem seqLowerThan_iff_lt (h : Nat) (hh : 0 < h) (a b : Nat) :
    seqLowerThan (2 * h - 1) a b = true ↔ Serial.Lt h a b := by
  simp only [seqLowerThan, Serial.Lt, Bool.or_eq_true, Bool.and_eq_true, decide_eq_true_eq]
  omega

/-- The second comparator is the converse of the first. -/
theorem isSeqHigherThan_eq (a b : T) : isSeqHigherThan a b = isSeqLowerThan b a := rfl

end SeqManager

open SeqManager

theorem isSeqLowerThan_asymm {T : Type} [SeqType T] {a b : T} (h : isSeqLowerThan a b = true) :
    isSeqHigherThan a b = false := by
  unfold isSeqLowerThan seqLowerThan at h
  unfold isSeqHigherThan seqHigherThan
  simp only [Bool.or_eq_true, Bool.and_eq_true, Bool.or_eq_false_iff, Bool.and_eq_false_iff,
    decide_eq_true_eq, decide_eq_false_iff_not] at *
  omega

/-! ## Sixteen-bit sequence numbers -/

/-- Steps from `a` forward to `b`, as the code computes them: `b - a` in `uint16_t`. -/
theorem toNat_sub16 (a b : UInt16) :
    (b - a).toNat = Serial.dist 32768 a.toNat b.toNat := by
  have ha := a.toNat_lt
  have hb := b.toNat_lt
  rw [UInt16.toNat_sub, Serial.dist_eq_mod (by omega) (by omega)]

theorem isSeqLowerThan16_iff_lt (a b : UInt16) :
    isSeqLowerThan a b = true ↔ Serial.Lt 32768 a.toNat b.toNat :=
  seqLowerThan_iff_lt 32768 (by decide) _ _

theorem isSeqLowerThan16_iff (a b : UInt16) :
    isSeqLowerThan a b = true ↔
      0 < (b - a).toNat ∧ ((b - a).toNat < 32768 ∨ (b - a).toNat = 32768 ∧ b.toNat < a.toNat) := by
  have ha := a.toNat_lt
  rw [toNat_sub16, ← Serial.lt_iff_dist (by omega)]
  exact isSeqLowerThan16_iff_lt a b

theorem isSeqHigherThan16_iff (a b : UInt16) :
    isSeqHigherThan a b = true ↔
      0 < (a - b).toNat ∧ ((a - b).toNat < 32768 ∨ (a - b).toNat = 32768 ∧ a.toNat < b.toNat) := by
  rw [isSeqHigherThan_eq, isSeqLowerThan16_iff]

theorem isSeqLowerThan_irrefl (a : UInt16) : isSeqLowerThan a a = false := by
  rw [← Bool.not_eq_true, isSeqLowerThan16_iff_lt]
  exact Serial.lt_irrefl _ _

theorem isSeqHigherThan_of_not {a b : UInt16} (hne : a ≠ b)
    (hlow : ¬ isSeqLowerThan a b = true) : isSeqHigherThan a b = true := by
  have := a.toNat_lt
  have := b.toNat_lt
  rw [isSeqLowerThan16_iff] at hlow
  rw [isSeqHigherThan16_iff]
  rw [ne_eq, ← UInt16.toNat_inj] at hne
  simp only [UInt16.toNat_sub] at *
  omega

/-! ## Every width -/

namespace SeqManager

/-- The comparator halves `MaxValue`, which drops its last bit. -/
theorem seqLowerThan_iff_lt_half (m a b : Nat) :
    seqLowerThan m a b = true ↔ Serial.Lt (m / 2 + 1) a b := by
  simp only [seqLowerThan, Serial.Lt, Bool.or_eq_true, Bool.and_eq_true, decide_eq_true_eq]
  omega

theorem maxValue_eq (width mask : Nat) : maxValue width mask = 2 ^ usedBits width mask - 1 := by
  unfold maxValue usedBits
  split <;> simp [Nat.one_shiftLeft]

theorem half_maxValue (width mask : Nat) :
    maxValue width mask / 2 + 1 = 2 ^ (usedBits width mask - 1) := by
  rw [maxValue_eq]
  cases usedBits width mask with
  | zero => rfl
  | succ n =>
    have : 0 < 2 ^ n := Nat.two_pow_pos n
    rw [Nat.pow_succ, Nat.add_sub_cancel]
    omega

/-- The numbers of `n` bits as the circle of the library, a type of no bits included. -/
theorem exists_circle (n a : Nat) :
    ∃ a', ∀ i < 2 ^ (n - 1), (a + i) % 2 ^ n = (a' + i) % (2 * 2 ^ (n - 1)) := by
  cases n with
  | zero =>
    refine ⟨0, ?_⟩
    intro i hi
    have : i = 0 := by simpa using hi
    simp [this, Nat.mod_one]
  | succ n =>
    refine ⟨a, ?_⟩
    intro i hi
    rw [Nat.add_sub_cancel, Nat.pow_succ']

/-- The numbers `a + i` modulo `2 ^ n` with an offset `i` below half of them. -/
def halfWindow (n a : Nat) : Set Nat := {x | ∃ i < 2 ^ (n - 1), x = (a + i) % 2 ^ n}

/-- What the code relies on in its comparators of bound `m`, on the numbers of `n` bits. -/
structure OrdersHalfWindows (m n : Nat) : Prop where
  /-- In a half window the order is that of the offsets. -/
  agrees (a i j : Nat) (hi : i < 2 ^ (n - 1)) (hj : j < 2 ^ (n - 1)) :
    seqLowerThan m ((a + i) % 2 ^ n) ((a + j) % 2 ^ n) = true ↔ i < j
  strict (a : Nat) (S : Set Nat) (hS : S ⊆ halfWindow n a) :
    IsStrictTotalOrder S (fun x y => seqLowerThan m x y = true)
  converse (x y : Nat) : seqHigherThan m x y = seqLowerThan m y x
  /-- Any two numbers compare in one way, also half of the circle apart. -/
  exactlyOne (x y : Nat) :
    (seqLowerThan m x y = true ∧ seqLowerThan m y x = false ∧ x ≠ y) ∨
      (seqLowerThan m x y = false ∧ seqLowerThan m y x = true ∧ x ≠ y) ∨
      (seqLowerThan m x y = false ∧ seqLowerThan m y x = false ∧ x = y)

theorem ordersHalfWindows (width mask : Nat) :
    OrdersHalfWindows (maxValue width mask) (usedBits width mask) where
  agrees := by
    intro a i j hi hj
    obtain ⟨a', ha'⟩ := exists_circle (usedBits width mask) a
    rw [seqLowerThan_iff_lt_half, half_maxValue, ha' i hi, ha' j hj]
    exact Serial.lt_window_iff hi hj
  strict := by
    intro a S hS
    obtain ⟨a', ha'⟩ := exists_circle (usedBits width mask) a
    simp only [seqLowerThan_iff_lt_half, half_maxValue]
    apply @Serial.isStrictTotalOrder_of_window _ a'
    intro x hx
    obtain ⟨i, hi, rfl⟩ := hS hx
    exact ⟨i, hi, ha' i hi⟩
  converse := fun _ _ => rfl
  exactlyOne := by
    intro x y
    have hxy := seqLowerThan_iff_lt_half (maxValue width mask) x y
    have hyx := seqLowerThan_iff_lt_half (maxValue width mask) y x
    rcases Serial.lt_trichotomy (maxValue width mask / 2 + 1) x y with hlt | heq | hgt
    · refine Or.inl ⟨hxy.mpr hlt, ?_, ?_⟩
      · exact Bool.eq_false_iff.mpr (fun h => Serial.lt_asymm hlt (hyx.mp h))
      · rintro rfl
        exact Serial.lt_irrefl _ _ hlt
    · subst heq
      have hno : seqLowerThan (maxValue width mask) x x = false :=
        Bool.eq_false_iff.mpr (fun h => Serial.lt_irrefl _ _ (hxy.mp h))
      exact Or.inr (Or.inr ⟨hno, hno, rfl⟩)
    · refine Or.inr (Or.inl ⟨?_, hyx.mpr hgt, ?_⟩)
      · exact Bool.eq_false_iff.mpr (fun h => Serial.lt_asymm hgt (hxy.mp h))
      · rintro rfl
        exact Serial.lt_irrefl _ _ hgt

end SeqManager

end Bifrost.Rtc
