/-
  The nearest integer of a quotient of integers, without leaving the integers: `round_div`,
  and where it stays below a bound, `round_div_lt_iff`. A half is rounded up, which is away
  from zero for a quotient that is not negative.
-/
import Mathlib.Algebra.Order.Round
import Mathlib.Data.Rat.Floor
import Mathlib.Tactic.FieldSimp
import Mathlib.Tactic.Ring

namespace Bifrost.Rounding

theorem round_div (a : Int) {b : Nat} (hb : 0 < b) :
    round ((a : ℚ) / b) = (2 * a + b) / (2 * b : Nat) := by
  have hb' : (b : ℚ) ≠ 0 := by positivity
  have hhalf : (a : ℚ) / b + 1 / 2 = ((2 * a + b : Int) : ℚ) / (2 * b : Nat) := by
    push_cast
    field_simp
  rw [round_eq, hhalf, Rat.floor_intCast_div_natCast]

/-- A quotient is rounded below `n` exactly when it lies below `n - 1/2`. -/
theorem round_div_lt_iff (a n : Int) {b : Nat} (hb : 0 < b) :
    round ((a : ℚ) / b) < n ↔ 2 * a + b < 2 * b * n := by
  rw [round_div a hb, Int.ediv_lt_iff_lt_mul (by omega), Int.mul_comm n]
  push_cast
  rfl

theorem round_div_nonneg {a : Int} (ha : 0 ≤ a) (b : Nat) : 0 ≤ round ((a : ℚ) / b) := by
  rw [round_eq]
  apply Int.floor_nonneg.mpr
  positivity

end Bifrost.Rounding
