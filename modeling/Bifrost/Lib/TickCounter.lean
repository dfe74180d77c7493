/-
  Tick counters: a clock read as a whole number of ticks, on a counter that wraps.

  After `t` units of time a counter with `p` ticks in `q` units stands at `ticks p q t`, the
  fraction cut off. So the ticks of a span that is put together from parts are those of the
  parts and at most one more for each cut (`ticks_add`), and the ticks that are left of a
  span when those of two parts are taken away are right up to two (`left_of_span`).

  A register of `m` values shows the ticks modulo `m`. The later of two readings is the
  larger one exactly when the register has not wrapped between them (`mod_lt_mod_iff`).
-/
import Mathlib.Tactic.Common

namespace Bifrost.TickCounter

/-- The ticks in `t` units of time, at `p` ticks in `q` units. -/
def ticks (p q t : Nat) : Nat := t * p / q

variable {p q : Nat}

theorem ticks_le (hq : 0 < q) (t : Nat) :
    q * ticks p q t ≤ t * p ∧ t * p < q * ticks p q t + q := by
  have hdiv := Nat.div_add_mod (t * p) q
  have hmod := Nat.mod_lt (t * p) hq
  unfold ticks
  omega

/-- Cutting a span in two loses at most one tick. -/
theorem ticks_add (hq : 0 < q) (a b : Nat) :
    ticks p q a + ticks p q b ≤ ticks p q (a + b) ∧
      ticks p q (a + b) ≤ ticks p q a + ticks p q b + 1 := by
  unfold ticks
  rw [Nat.add_mul, Nat.add_div hq]
  split <;> omega

/-- What is left of a span without two of its parts is the third, up to two ticks. -/
theorem left_of_span (hq : 0 < q) (a b c : Nat) :
    ∃ left, ticks p q (a + b + c) = ticks p q a + ticks p q b + left ∧
      c * p < q * left + q ∧ q * left < c * p + 2 * q := by
  obtain ⟨h₁, h₂⟩ := ticks_add (p := p) hq (a + b) c
  obtain ⟨h₃, h₄⟩ := ticks_add (p := p) hq a b
  refine ⟨ticks p q (a + b + c) - ticks p q a - ticks p q b, by omega, ?_⟩
  generalize hleft : ticks p q (a + b + c) - ticks p q a - ticks p q b = left
  have hspan : ticks p q (a + b + c) = ticks p q a + ticks p q b + left := by omega
  obtain ⟨ha, ha'⟩ := ticks_le (p := p) hq a
  obtain ⟨hb, hb'⟩ := ticks_le (p := p) hq b
  obtain ⟨hs, hs'⟩ := ticks_le (p := p) hq (a + b + c)
  rw [hspan, Nat.mul_add, Nat.mul_add] at hs hs'
  rw [Nat.add_mul, Nat.add_mul] at hs hs'
  omega

/-- A later reading of the register is larger exactly when it has not wrapped. -/
theorem mod_lt_mod_iff {m x d : Nat} (hm : 0 < m) (hd : d < m) :
    x % m < (x + d) % m ↔ 0 < d ∧ (x + d) / m = x / m := by
  have hx := Nat.div_add_mod x m
  have hxd := Nat.div_add_mod (x + d) m
  have hlt := Nat.mod_lt x hm
  have hlt' := Nat.mod_lt (x + d) hm
  constructor
  · intro h
    have hsame : (x + d) / m = x / m := by
      have hle : x / m ≤ (x + d) / m := Nat.div_le_div_right (Nat.le_add_right _ _)
      rcases Nat.eq_or_lt_of_le hle with heq | hgt
      · exact heq.symm
      · have hstep : m * (x / m) + m ≤ m * ((x + d) / m) := by
          rw [← Nat.mul_succ]
          exact Nat.mul_le_mul_left m hgt
        omega
    rw [hsame] at hxd
    exact ⟨by omega, hsame⟩
  · rintro ⟨hpos, hsame⟩
    rw [hsame] at hxd
    omega

end Bifrost.TickCounter
