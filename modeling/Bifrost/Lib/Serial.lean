/-
  Serial numbers: the comparison of counters that wrap around.

  A counter runs through `0, 1, …, 2·h - 1` and starts again at `0`. `Lt h a b` says that
  `b` is ahead of `a` by at most half the circle; at distance exactly `h` the larger raw
  number is the older one. `dist h a b` is the number of steps from `a` forward to `b`.

  `lt_iff_dist` reads the comparison off the distance. On the numbers that lie at most half
  the circle behind a common one the comparison is the order of their distances to it
  (`lt_iff_of_behind`), the farthest first. On the whole circle it is not transitive, but any
  two numbers compare one way (`lt_trichotomy`, `lt_asymm`), and on every `window` of `h`
  successive numbers it is a strict total order (`isStrictTotalOrder_of_window`).

  Nothing here mentions a bit width: `2·h` is any even modulus.
-/
import Mathlib.Algebra.Order.Ring.Int
import Mathlib.Tactic.Common

namespace Bifrost.Serial

/-- Steps from `a` forward to `b` on the circle of `2·h` numbers. -/
def dist (h a b : Nat) : Nat := if a ≤ b then b - a else 2 * h - (a - b)

/-- `b` is ahead of `a`: the wrap-around comparison by raw numbers. -/
def Lt (h a b : Nat) : Prop := (a < b ∧ b - a < h) ∨ (b < a ∧ h ≤ a - b)

instance (h a b : Nat) : Decidable (Lt h a b) := inferInstanceAs (Decidable (_ ∨ _))

variable {h a b c : Nat}

/-- `dist` is subtraction modulo `2·h`. -/
theorem dist_eq_mod (ha : a < 2 * h) (hb : b < 2 * h) :
    dist h a b = (2 * h - a + b) % (2 * h) := by
  unfold dist
  split
  · rw [show 2 * h - a + b = b - a + 2 * h by omega, Nat.add_mod_right,
      Nat.mod_eq_of_lt (by omega)]
  · rw [Nat.mod_eq_of_lt (by omega)]
    omega

/-- The comparison, read off the forward distance. -/
theorem lt_iff_dist (ha : a < 2 * h) :
    Lt h a b ↔ 0 < dist h a b ∧ (dist h a b < h ∨ dist h a b = h ∧ b < a) := by
  unfold Lt dist
  split <;> omega

theorem lt_irrefl (h a : Nat) : ¬ Lt h a a := by
  unfold Lt
  omega

/-- Of two numbers at most half the circle behind `c`, the farther one comes first. -/
theorem lt_iff_of_behind (hc : c < 2 * h) (ha : a < 2 * h) (hb : b < 2 * h)
    (ha₁ : 1 ≤ dist h a c) (ha₂ : dist h a c ≤ h) (hb₁ : 1 ≤ dist h b c)
    (hb₂ : dist h b c ≤ h) : Lt h a b ↔ dist h b c < dist h a c := by
  unfold Lt
  unfold dist at *
  split_ifs at * <;> omega

theorem lt_trichotomy (h a b : Nat) : Lt h a b ∨ a = b ∨ Lt h b a := by
  unfold Lt
  omega

theorem lt_asymm (hab : Lt h a b) : ¬ Lt h b a := by
  unfold Lt at *
  omega

/-! ## Half of the circle -/

/-- The numbers `a, a + 1, …, a + h - 1` on the circle. -/
def window (h a : Nat) : Set Nat := {x | ∃ i < h, x = (a + i) % (2 * h)}

theorem add_mod_circle {i : Nat} (hi : i < 2 * h) :
    (a + i) % (2 * h) = if a % (2 * h) + i < 2 * h then a % (2 * h) + i
      else a % (2 * h) + i - 2 * h := by
  have ha : a % (2 * h) < 2 * h := Nat.mod_lt _ (by omega)
  rw [Nat.add_mod, Nat.mod_eq_of_lt hi]
  split
  · next hlt => exact Nat.mod_eq_of_lt hlt
  · rw [Nat.mod_eq_sub_mod (by omega), Nat.mod_eq_of_lt (by omega)]

/-- In a window the comparison is the order of the offsets. -/
theorem lt_window_iff {i j : Nat} (hi : i < h) (hj : j < h) :
    Lt h ((a + i) % (2 * h)) ((a + j) % (2 * h)) ↔ i < j := by
  have ha : a % (2 * h) < 2 * h := Nat.mod_lt _ (by omega)
  rw [add_mod_circle (by omega), add_mod_circle (by omega), Lt]
  split_ifs <;> omega

theorem isStrictTotalOrder_of_window {S : Set Nat} (hS : S ⊆ window h a) :
    IsStrictTotalOrder S (fun x y => Lt h x y) where
  irrefl x := lt_irrefl h x
  trans := by
    intro x y z hxy hyz
    obtain ⟨i, hi, hx⟩ := hS x.2
    obtain ⟨j, hj, hy⟩ := hS y.2
    obtain ⟨k, hk, hz⟩ := hS z.2
    rw [hx, hy, lt_window_iff hi hj] at hxy
    rw [hy, hz, lt_window_iff hj hk] at hyz
    rw [hx, hz, lt_window_iff hi hk]
    exact hxy.trans hyz
  trichotomous := by
    intro x y hxy hyx
    exact Subtype.ext (((lt_trichotomy h x y).resolve_left hxy).resolve_right hyx)

/-! ## Counters that have passed the circle

Two counters `p ≤ y` less than a circle apart, seen through their numbers. -/

/-- The distance at which the number `a` is no longer below the number ahead of it. -/
def reach (h a : Nat) : Nat := if a < h then h else h + 1

theorem le_reach (h a : Nat) : h ≤ reach h a := by
  unfold reach
  split <;> omega

theorem reach_le (h a : Nat) : reach h a ≤ h + 1 := by
  unfold reach
  split <;> omega

variable {p y : Nat}

theorem lt_mod_iff (hle : p ≤ y) (hcircle : y < p + 2 * h) :
    Lt h (p % (2 * h)) (y % (2 * h)) ↔ p < y ∧ y - p < reach h (p % (2 * h)) := by
  obtain ⟨i, rfl⟩ := Nat.exists_eq_add_of_le hle
  have hp : p % (2 * h) < 2 * h := Nat.mod_lt _ (by omega)
  rw [add_mod_circle (by omega), Lt, reach]
  split_ifs <;> omega

theorem mod_lt_iff (hle : p ≤ y) (hcircle : y < p + 2 * h) :
    Lt h (y % (2 * h)) (p % (2 * h)) ↔ p < y ∧ reach h (p % (2 * h)) ≤ y - p := by
  obtain ⟨i, rfl⟩ := Nat.exists_eq_add_of_le hle
  have hp : p % (2 * h) < 2 * h := Nat.mod_lt _ (by omega)
  rw [add_mod_circle (by omega), Lt, reach]
  split_ifs <;> omega

end Bifrost.Serial
