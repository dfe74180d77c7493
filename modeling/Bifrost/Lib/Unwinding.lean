/-
  Runs that keep to one part of the state.

  `view` shows a part of the state, `mine` says which events that part is about. An event
  that is not leaves the view alone, and the effect of one that is depends on the view only.
  Then the view after a run is the view after the events of the run that are about it
  (`view_foldl_filter`).
-/
import Mathlib.Tactic.Common

namespace Bifrost.Unwinding

variable {σ ε τ : Type*}

/-- The two conditions on single steps. -/
structure Unwinds (step : σ → ε → σ) (view : σ → τ) (mine : ε → Bool) : Prop where
  consistent : ∀ s s' e, mine e = true → view s = view s' → view (step s e) = view (step s' e)
  respects : ∀ s e, mine e = false → view (step s e) = view s

variable {step : σ → ε → σ} {view : σ → τ} {mine : ε → Bool}

theorem view_foldl_filter (h : Unwinds step view mine) (es : List ε) :
    ∀ s s' : σ, view s = view s' →
      view (es.foldl step s) = view ((es.filter mine).foldl step s') := by
  induction es with
  | nil => exact fun s s' heq => heq
  | cons e es ih =>
      intro s s' heq
      cases hmine : mine e with
      | true =>
          rw [List.filter_cons_of_pos hmine, List.foldl_cons, List.foldl_cons]
          exact ih _ _ (h.consistent s s' e hmine heq)
      | false =>
          rw [List.filter_cons_of_neg (by simp [hmine]), List.foldl_cons]
          exact ih _ _ ((h.respects s e hmine).trans heq)

end Bifrost.Unwinding
