/-
  Runs of a state machine: the induction rules every module on runs uses.

  A machine is a step function `step : σ → ε → σ × List ω` (next state and what the step
  lets out). `run` is the state after a list of events and `outputs` all that came out on
  the way. The rules: an invariant of one step is an invariant of every run
  (`run_invariant`), also when the invariant speaks about the events so far and what came
  out (`run_history`, where the step may use that its event stands in the list).

  `runE` is the same for steps that can fail: the first failure ends the run. `EachStep`
  speaks about the steps of such a run. `runOut` is for steps that can fail and let
  something out, with a rule for queues (`runOut_queue`) and one for machines that come to rest
  (`runOut_length_le`). `lastWritten` is for steps that cannot fail and only write: what a member
  holds after them (`foldl_lastWritten`).
-/
import Mathlib.Algebra.Order.Ring.Int
import Mathlib.Tactic.Common
import Mathlib.Data.List.Induction

namespace Bifrost

/-- A sequence of two calls completes when both do. -/
theorem bind_eq_ok {φ α β : Type} {call : Except φ α} {next : α → Except φ β} {b : β} :
    (call >>= next) = .ok b ↔ ∃ a, call = .ok a ∧ next a = .ok b := by
  cases call with
  | ok a =>
      constructor
      · exact fun h => ⟨a, rfl, h⟩
      · rintro ⟨_, ha, h⟩
        cases ha
        exact h
  | error f =>
      constructor
      · exact fun h => by cases h
      · rintro ⟨_, ha, -⟩
        cases ha

end Bifrost

namespace Bifrost.Trace

variable {σ ε ω φ : Type*}

/-- The state after the events `es`, from `s`. -/
def run (step : σ → ε → σ × List ω) (s : σ) : List ε → σ
  | [] => s
  | e :: es => run step (step s e).1 es

/-- Everything the run lets out, in order. -/
def outputs (step : σ → ε → σ × List ω) (s : σ) : List ε → List ω
  | [] => []
  | e :: es => (step s e).2 ++ outputs step (step s e).1 es

section Total

variable {step : σ → ε → σ × List ω}

@[simp] theorem run_cons (s : σ) (e : ε) (es : List ε) :
    run step s (e :: es) = run step (step s e).1 es := rfl

@[simp] theorem outputs_nil (s : σ) : outputs step s [] = [] := rfl

@[simp] theorem outputs_cons (s : σ) (e : ε) (es : List ε) :
    outputs step s (e :: es) = (step s e).2 ++ outputs step (step s e).1 es := rfl

theorem run_append (s : σ) (xs ys : List ε) :
    run step s (xs ++ ys) = run step (run step s xs) ys := by
  induction xs generalizing s with
  | nil => rfl
  | cons x xs ih => exact ih _

theorem outputs_append (s : σ) (xs ys : List ε) :
    outputs step s (xs ++ ys) = outputs step s xs ++ outputs step (run step s xs) ys := by
  induction xs generalizing s with
  | nil => rfl
  | cons x xs ih => simp [ih]

theorem run_concat (s : σ) (es : List ε) (e : ε) :
    run step s (es ++ [e]) = (step (run step s es) e).1 := by
  rw [run_append]
  rfl

theorem outputs_concat (s : σ) (es : List ε) (e : ε) :
    outputs step s (es ++ [e]) = outputs step s es ++ (step (run step s es) e).2 := by
  rw [outputs_append, outputs_cons, outputs_nil, List.append_nil]

/-- The state does not depend on what a machine lets out. -/
theorem run_congr {ω' : Type*} {step' : σ → ε → σ × List ω'}
    (hstate : ∀ s e, (step' s e).1 = (step s e).1) (s : σ) (es : List ε) :
    run step' s es = run step s es := by
  induction es generalizing s with
  | nil => rfl
  | cons e es ih => rw [run_cons, run_cons, hstate, ih]

/-- A machine that lets out more about each item, seen through `f`. -/
theorem map_outputs {ω' : Type*} {step' : σ → ε → σ × List ω'} {f : ω' → ω}
    (hstate : ∀ s e, (step' s e).1 = (step s e).1)
    (hout : ∀ s e, (step' s e).2.map f = (step s e).2) (s : σ) (es : List ε) :
    (outputs step' s es).map f = outputs step s es := by
  induction es generalizing s with
  | nil => rfl
  | cons e es ih => rw [outputs_cons, outputs_cons, List.map_append, hout, hstate, ih]

/-- What holds at the start and is kept by every step holds after every run. -/
theorem run_invariant {I : σ → Prop} (hstep : ∀ s e, I s → I (step s e).1) {s : σ} (hs : I s)
    (es : List ε) : I (run step s es) := by
  induction es generalizing s with
  | nil => exact hs
  | cons e es ih => exact ih (hstep s e hs)

/-- The same for an invariant that also speaks about the events so far and what came out.
    The step may use where in the run its event stands. -/
theorem run_history {I : List ε → List ω → σ → Prop} {s : σ} {es : List ε} (hs : I [] [] s)
    (hstep : ∀ pre e post, es = pre ++ e :: post →
      I pre (outputs step s pre) (run step s pre) →
      I (pre ++ [e]) (outputs step s pre ++ (step (run step s pre) e).2)
        (step (run step s pre) e).1) :
    I es (outputs step s es) (run step s es) := by
  have key : ∀ pre post, es = pre ++ post → I pre (outputs step s pre) (run step s pre) := by
    intro pre
    induction pre using List.reverseRecOn with
    | nil => intro _ _; exact hs
    | append_singleton pre e ih =>
        intro post hes
        have hes' : es = pre ++ e :: post := by simpa using hes
        rw [run_concat, outputs_concat]
        exact hstep pre e post hes' (ih _ hes')
  exact key es [] (by simp)

/-- A step after which nothing more can come out. -/
theorem outputs_eq_nil {D : σ → Prop} (hstep : ∀ s e, D s → (step s e).2 = [] ∧ D (step s e).1)
    {s : σ} (hs : D s) (es : List ε) : outputs step s es = [] := by
  induction es generalizing s with
  | nil => rfl
  | cons e es ih =>
      obtain ⟨hout, hnext⟩ := hstep s e hs
      rw [outputs_cons, hout, ih hnext]
      rfl

end Total

/-! ## Steps that can fail -/

/-- The state after the events `es`, or the first failure. -/
def runE (step : σ → ε → Except φ σ) (s : σ) : List ε → Except φ σ
  | [] => .ok s
  | e :: es => match step s e with
    | .ok s' => runE step s' es
    | .error f => .error f

/-- `P` holds at every step of the run, of the state before it and its event. -/
def EachStep (step : σ → ε → Except φ σ) (P : σ → ε → Prop) (s : σ) : List ε → Prop
  | [] => True
  | e :: es => P s e ∧ ∀ s', step s e = .ok s' → EachStep step P s' es

instance EachStep.decidable (step : σ → ε → Except φ σ) (P : σ → ε → Prop)
    [∀ s e, Decidable (P s e)] : ∀ s es, Decidable (EachStep step P s es)
  | _, [] => isTrue trivial
  | s, e :: es =>
    match hse : step s e with
    | .ok s' =>
      have := EachStep.decidable step P s' es
      decidable_of_iff (P s e ∧ EachStep step P s' es) (by simp [EachStep, hse])
    | .error _ => decidable_of_iff (P s e) (by simp [EachStep, hse])

section Failing

variable {step : σ → ε → Except φ σ}

theorem runE_append (s : σ) (xs ys : List ε) :
    runE step s (xs ++ ys) = match runE step s xs with
      | .ok s' => runE step s' ys
      | .error f => .error f := by
  induction xs generalizing s with
  | nil => rfl
  | cons x xs ih =>
      simp only [List.cons_append, runE]
      cases step s x with
      | ok s' => exact ih s'
      | error f => rfl

theorem runE_concat_iff (s t : σ) (es : List ε) (e : ε) :
    runE step s (es ++ [e]) = .ok t ↔ ∃ m, runE step s es = .ok m ∧ step m e = .ok t := by
  rw [runE_append]
  cases runE step s es with
  | error f => simp
  | ok m =>
      simp only [runE, Except.ok.injEq, exists_eq_left']
      cases step m e <;> simp

/-- An invariant of every step that completes is one of every run that completes. -/
theorem runE_invariant {I : σ → Prop} (hstep : ∀ s e s', I s → step s e = .ok s' → I s')
    {s s' : σ} (hs : I s) {es : List ε} (hrun : runE step s es = .ok s') : I s' := by
  induction es generalizing s with
  | nil => cases hrun; exact hs
  | cons e es ih =>
      simp only [runE] at hrun
      cases hse : step s e with
      | ok t => rw [hse] at hrun; exact ih (hstep s e t hs hse) hrun
      | error f => rw [hse] at hrun; cases hrun

/-- A run completes when every step from an invariant state does. -/
theorem runE_completes {I : σ → Prop} (hstep : ∀ s e s', I s → step s e = .ok s' → I s')
    (hok : ∀ {s}, I s → ∀ e, ∃ s', step s e = .ok s') {s : σ} (hs : I s) (es : List ε) :
    ∃ s', runE step s es = .ok s' := by
  induction es generalizing s with
  | nil => exact ⟨s, rfl⟩
  | cons e es ih =>
      obtain ⟨t, ht⟩ := hok hs e
      simp only [runE, ht]
      exact ih (hstep s e t hs ht)

/-- Where the event alone decides whether a step completes, the events decide it for a run. -/
theorem runE_completes_iff {R : ε → Prop} (hR : ∀ s e, (∃ s', step s e = .ok s') ↔ R e) (s : σ)
    (es : List ε) : (∃ s', runE step s es = .ok s') ↔ ∀ e ∈ es, R e := by
  induction es generalizing s with
  | nil => simp [runE]
  | cons e es ih =>
      rw [List.forall_mem_cons, ← hR s e]
      simp only [runE]
      cases step s e with
      | error f => simp
      | ok t => simp [ih t]

/-- What every failing step from an invariant state satisfies, a failing run satisfies. -/
theorem runE_error {I : σ → Prop} {Q : φ → Prop}
    (hstep : ∀ s e s', I s → step s e = .ok s' → I s')
    (hfail : ∀ s e f, I s → step s e = .error f → Q f)
    {s : σ} (hs : I s) {es : List ε} {f : φ} (hrun : runE step s es = .error f) : Q f := by
  induction es generalizing s with
  | nil => cases hrun
  | cons e es ih =>
      simp only [runE] at hrun
      cases hse : step s e with
      | ok t => rw [hse] at hrun; exact ih (hstep s e t hs hse) hrun
      | error g =>
          rw [hse] at hrun
          cases hrun
          exact hfail s e f hs hse

/-- Two properties of steps agree along a run when they agree from an invariant that is
    kept as long as they hold. -/
theorem eachStep_iff {I : σ → Prop} {P Q : σ → ε → Prop}
    (hiff : ∀ s e s', I s → step s e = .ok s' → (P s e ↔ Q s e))
    (hkeep : ∀ s e s', I s → Q s e → step s e = .ok s' → I s')
    {s t : σ} (hs : I s) {es : List ε} (hrun : runE step s es = .ok t) :
    EachStep step P s es ↔ EachStep step Q s es := by
  induction es generalizing s with
  | nil => exact Iff.rfl
  | cons e es ih =>
      simp only [runE] at hrun
      cases hse : step s e with
      | error f => rw [hse] at hrun; cases hrun
      | ok s' =>
          rw [hse] at hrun
          simp only [EachStep, hiff s e s' hs hse]
          refine and_congr_right fun hq => ?_
          have hnext := ih (hkeep s e s' hs hq hse) hrun
          constructor
          · intro h s'' hs''
            cases hse.symm.trans hs''
            exact hnext.mp (h s' hse)
          · intro h s'' hs''
            cases hse.symm.trans hs''
            exact hnext.mpr (h s' hse)

theorem EachStep.and {P Q : σ → ε → Prop} {s : σ} {es : List ε} (hP : EachStep step P s es)
    (hQ : EachStep step Q s es) : EachStep step (fun s e => P s e ∧ Q s e) s es := by
  induction es generalizing s with
  | nil => trivial
  | cons e es ih => exact ⟨⟨hP.1, hQ.1⟩, fun s' hs' => ih (hP.2 s' hs') (hQ.2 s' hs')⟩

/-- What an invariant gives at each step holds at each step of a run from it. -/
theorem eachStep_of_invariant {I : σ → Prop} {A : ε → Prop} {P : σ → ε → Prop}
    (hkeep : ∀ s e s', I s → A e → step s e = .ok s' → I s') (hP : ∀ s e, I s → A e → P s e)
    {s : σ} (hs : I s) {es : List ε} (hA : ∀ e ∈ es, A e) : EachStep step P s es := by
  induction es generalizing s with
  | nil => trivial
  | cons e es ih =>
      obtain ⟨he, hes⟩ := List.forall_mem_cons.mp hA
      exact ⟨hP s e hs he, fun s' hs' => ih (hkeep s e s' hs he hs') hes⟩

/-- `eachStep_iff` for runs that may fail and whose steps all satisfy `A`. -/
theorem eachStep_iff_of {I : σ → Prop} {A P Q : σ → ε → Prop}
    (hiff : ∀ s e, I s → A s e → (P s e ↔ Q s e))
    (hkeep : ∀ s e s', I s → A s e → Q s e → step s e = .ok s' → I s')
    {s : σ} (hs : I s) {es : List ε} (hA : EachStep step A s es) :
    EachStep step P s es ↔ EachStep step Q s es := by
  induction es generalizing s with
  | nil => exact Iff.rfl
  | cons e es ih =>
      simp only [EachStep, hiff s e hs hA.1]
      refine and_congr_right fun hq => ?_
      constructor
      · intro h s' hs'
        exact (ih (hkeep s e s' hs hA.1 hq hs') (hA.2 s' hs')).mp (h s' hs')
      · intro h s' hs'
        exact (ih (hkeep s e s' hs hA.1 hq hs') (hA.2 s' hs')).mpr (h s' hs')

/-- An invariant that is kept as long as `Q` holds of the steps, when `Q` follows from the
    invariant along the run. It speaks about the events so far. -/
theorem invariant_along {I : List ε → σ → Prop} {Q : σ → ε → Prop} {s : σ} {es : List ε}
    (hs : I [] s)
    (hkeep : ∀ pre e t t', I pre t → Q t e → step t e = .ok t' → I (pre ++ [e]) t')
    (hall : ∀ pre e post t, es = pre ++ e :: post → runE step s pre = .ok t → I pre t → Q t e)
    (pre : List ε) : ∀ {post : List ε} {t : σ}, es = pre ++ post → runE step s pre = .ok t →
      I pre t := by
  induction pre using List.reverseRecOn with
  | nil =>
      intro post t _ hrun
      cases hrun
      exact hs
  | append_singleton pre e ih =>
      intro post t hsplit hrun
      obtain ⟨m, hpre, hok⟩ := (runE_concat_iff _ _ _ _).mp hrun
      have hsplit' : es = pre ++ e :: post := by simpa using hsplit
      have hm := ih hsplit' hpre
      exact hkeep pre e m t hm (hall pre e post m hsplit' hpre hm) hok

/-- What holds at each step of a run holds at each step of its second part. -/
theorem EachStep.of_append {P : σ → ε → Prop} {s t : σ} {pre post : List ε}
    (h : EachStep step P s (pre ++ post)) (hrun : runE step s pre = .ok t) :
    EachStep step P t post := by
  induction pre generalizing s with
  | nil =>
      cases hrun
      exact h
  | cons e pre ih =>
      simp only [runE] at hrun
      cases hse : step s e with
      | error f =>
          rw [hse] at hrun
          cases hrun
      | ok s' =>
          rw [hse] at hrun
          exact ih (h.2 s' hse) hrun

/-- A run completes, with an invariant on the events so far, when every step that comes up
    from the invariant does and keeps it. -/
theorem completes_along {I : List ε → σ → Prop} {s : σ} {es : List ε} (hs : I [] s)
    (hstep : ∀ pre e post t, es = pre ++ e :: post → runE step s pre = .ok t → I pre t →
      ∃ t', step t e = .ok t' ∧ I (pre ++ [e]) t')
    (pre : List ε) : ∀ {post : List ε}, es = pre ++ post →
      ∃ t, runE step s pre = .ok t ∧ I pre t := by
  induction pre using List.reverseRecOn with
  | nil => exact fun _ => ⟨s, rfl, hs⟩
  | append_singleton pre e ih =>
      intro post hsplit
      have hsplit' : es = pre ++ e :: post := by simpa using hsplit
      obtain ⟨t, hrun, hpre⟩ := ih hsplit'
      obtain ⟨t', hok, hnext⟩ := hstep pre e post t hsplit' hrun hpre
      exact ⟨t', (runE_concat_iff _ _ _ _).mpr ⟨t, hrun, hok⟩, hnext⟩

/-- `eachStep_iff` for properties that need not hold of a run to its end, with an invariant
    that speaks about the events so far and those to come. -/
theorem eachPrefix_iff {I : List ε → σ → Prop} {P Q : σ → ε → Prop} {s : σ} {es : List ε}
    (hs : I [] s)
    (hkeep : ∀ pre e t t', I pre t → Q t e → step t e = .ok t' → I (pre ++ [e]) t')
    (hiff : ∀ pre e post t, es = pre ++ e :: post → I pre t → (P t e ↔ Q t e)) :
    (∀ pre e post t, es = pre ++ e :: post → runE step s pre = .ok t → P t e) ↔
    (∀ pre e post t, es = pre ++ e :: post → runE step s pre = .ok t → Q t e) := by
  constructor
  · intro hall pre e post t hsplit hrun
    have hpre := invariant_along hs hkeep (fun pre e post t hsplit hrun hpre =>
      (hiff pre e post t hsplit hpre).mp (hall pre e post t hsplit hrun)) pre hsplit hrun
    exact (hiff pre e post t hsplit hpre).mp (hall pre e post t hsplit hrun)
  · intro hall pre e post t hsplit hrun
    have hpre := invariant_along hs hkeep (fun pre e post t hsplit hrun _ =>
      hall pre e post t hsplit hrun) pre hsplit hrun
    exact (hiff pre e post t hsplit hpre).mpr (hall pre e post t hsplit hrun)

/-- A property `I` of states holds all along a run exactly when every step has what it takes to
    keep it, from states that satisfy an invariant `J`. -/
theorem eachState_iff {I J : σ → Prop} {Q : σ → ε → Prop} {s : σ} (hs : J s) (hI : I s)
    (hkeep : ∀ t e t', J t → step t e = .ok t' → J t')
    (hiff : ∀ t e t', J t → I t → step t e = .ok t' → (I t' ↔ Q t e)) (es : List ε) :
    (∀ pre post t, es = pre ++ post → runE step s pre = .ok t → I t) ↔
    (∀ pre e post t t', es = pre ++ e :: post → runE step s pre = .ok t → step t e = .ok t' →
      Q t e) := by
  constructor
  · intro hall pre e post t t' hsplit hpre hok
    have hnext := hall (pre ++ [e]) post t' (by simpa using hsplit)
      ((runE_concat_iff _ _ _ _).mpr ⟨t, hpre, hok⟩)
    exact (hiff t e t' (runE_invariant hkeep hs hpre) (hall pre _ t hsplit hpre) hok).mp hnext
  · intro hall pre
    induction pre using List.reverseRecOn with
    | nil =>
        intro post t _ hrun
        cases hrun
        exact hI
    | append_singleton pre e ih =>
        intro post t' hsplit hrun
        obtain ⟨t, hpre, hok⟩ := (runE_concat_iff _ _ _ _).mp hrun
        have hsplit' : es = pre ++ e :: post := by simpa using hsplit
        exact (hiff t e t' (runE_invariant hkeep hs hpre) (ih _ t hsplit' hpre) hok).mpr
          (hall pre e post t t' hsplit' hpre hok)

/-- A run completes or fails in the one way its steps can fail, given what each step does from
    an invariant that may speak about the events to come. -/
theorem completes_or_fails {I : σ → List ε → Prop} {P : σ → ε → Prop} {f : φ}
    (hstep : ∀ t e post, I t (e :: post) →
      (P t e ∧ ∃ t', step t e = .ok t' ∧ I t' post) ∨ (¬ P t e ∧ step t e = .error f))
    (es : List ε) : ∀ {s : σ}, I s es →
      (EachStep step P s es ∧ ∃ t, runE step s es = .ok t ∧ I t []) ∨
        (¬ EachStep step P s es ∧ runE step s es = .error f) := by
  induction es with
  | nil => exact fun hs => .inl ⟨trivial, _, rfl, hs⟩
  | cons e es ih =>
      intro s hs
      rcases hstep s e es hs with ⟨hP, s', hok, hnext⟩ | ⟨hP, hfail⟩
      · simp only [runE, hok, EachStep, Except.ok.injEq]
        rcases ih hnext with ⟨hall, hrun⟩ | ⟨hnot, hrun⟩
        · exact .inl ⟨⟨hP, fun _ h => h ▸ hall⟩, hrun⟩
        · exact .inr ⟨fun h => hnot (h.2 s' rfl), hrun⟩
      · refine .inr ⟨fun h => hP h.1, ?_⟩
        simp only [runE, hfail]

end Failing

/-! ## Steps that can fail and let something out -/

/-- The state after the events `es` and everything the run lets out, or the first failure. -/
def runOut (step : σ → ε → Except φ (σ × List ω)) : σ → List ε → Except φ (σ × List ω)
  | s, [] => .ok (s, [])
  | s, e :: es => match step s e with
    | .error f => .error f
    | .ok (s', out) => match runOut step s' es with
      | .error f => .error f
      | .ok (s'', rest) => .ok (s'', out ++ rest)

section Output

variable {step : σ → ε → Except φ (σ × List ω)}

theorem runOut_cons_iff {s t : σ} {e : ε} {es : List ε} {outs : List ω} :
    runOut step s (e :: es) = .ok (t, outs) ↔
      ∃ s' out rest, step s e = .ok (s', out) ∧ runOut step s' es = .ok (t, rest) ∧
        outs = out ++ rest := by
  rw [runOut]
  cases hstep : step s e with
  | error f => simp
  | ok so =>
      obtain ⟨s', out⟩ := so
      dsimp only
      cases hrun : runOut step s' es with
      | error f =>
          constructor
          · exact fun h => by cases h
          · rintro ⟨_, _, _, heq, hrest, -⟩
            cases heq
            cases hrun.symm.trans hrest
      | ok tr =>
          obtain ⟨t', rest⟩ := tr
          constructor
          · intro h
            cases h
            exact ⟨s', out, rest, rfl, hrun, rfl⟩
          · rintro ⟨_, _, _, heq, hrest, rfl⟩
            cases heq
            cases hrun.symm.trans hrest
            rfl

/-- A run goes on from where its first part has led. -/
theorem runOut_append_eq {s t : σ} {xs : List ε} {outs : List ω}
    (hxs : runOut step s xs = .ok (t, outs)) (ys : List ε) :
    runOut step s (xs ++ ys) = (runOut step t ys).map fun so => (so.1, outs ++ so.2) := by
  induction xs generalizing s outs with
  | nil =>
      cases hxs
      rw [List.nil_append]
      cases runOut step t ys <;> rfl
  | cons x xs ih =>
      obtain ⟨s', out, later, hstep, hrun, rfl⟩ := runOut_cons_iff.mp hxs
      rw [List.cons_append, runOut, hstep]
      dsimp only
      rw [ih hrun]
      cases runOut step t ys with
      | error f => rfl
      | ok so =>
          show Except.ok (so.1, out ++ (later ++ so.2)) = .ok (so.1, out ++ later ++ so.2)
          rw [List.append_assoc]

theorem runOut_append {s t u : σ} {xs ys : List ε} {outs rest : List ω}
    (hxs : runOut step s xs = .ok (t, outs)) (hys : runOut step t ys = .ok (u, rest)) :
    runOut step s (xs ++ ys) = .ok (u, outs ++ rest) := by
  rw [runOut_append_eq hxs, hys]
  rfl

/-- A run is another machine's run, seen through `view`, when every step is. -/
theorem runOut_view {τ : Type*} {step' : τ → ε → Except φ (τ × List ω)} {view : σ → τ}
    {I : σ → Prop} {A : ε → Prop}
    (hstep : ∀ s e, I s → A e → (∃ f, step s e = .error f ∧ step' (view s) e = .error f) ∨
      ∃ s' out, step s e = .ok (s', out) ∧ step' (view s) e = .ok (view s', out) ∧ I s')
    (es : List ε) : ∀ {s : σ}, I s → (∀ e ∈ es, A e) →
      (runOut step s es).map (fun so => (view so.1, so.2)) = runOut step' (view s) es := by
  induction es with
  | nil => exact fun _ _ => rfl
  | cons e es ih =>
      intro s hs hA
      obtain ⟨he, hes⟩ := List.forall_mem_cons.mp hA
      rcases hstep s e hs he with ⟨f, hfail, hfail'⟩ | ⟨s', out, hok, hok', hs'⟩
      · simp only [runOut, hfail, hfail']
        rfl
      · simp only [runOut, hok, hok', ← ih hs' hes]
        cases runOut step s' es <;> rfl

/-- What every step keeps, and what all it lets out has, as long as the events are of a
    kind, holds of every run of such events. -/
theorem runOut_invariant {I : σ → Prop} {P : ω → Prop} {Q : ε → Prop}
    (hstep : ∀ s e s' out, I s → Q e → step s e = .ok (s', out) → I s' ∧ ∀ o ∈ out, P o)
    (es : List ε) : ∀ {s t : σ} {outs : List ω}, I s → (∀ e ∈ es, Q e) →
      runOut step s es = .ok (t, outs) → I t ∧ ∀ o ∈ outs, P o := by
  induction es with
  | nil =>
      intro s t outs hs _ hrun
      cases hrun
      exact ⟨hs, List.forall_mem_nil _⟩
  | cons e es ih =>
      intro s t outs hs hkind hrun
      obtain ⟨hfirst, hrest⟩ := List.forall_mem_cons.mp hkind
      obtain ⟨s', out, rest, hok, hrun', rfl⟩ := runOut_cons_iff.mp hrun
      obtain ⟨hs', hout⟩ := hstep s e s' out hs hfirst hok
      obtain ⟨ht, hrest⟩ := ih hs' hrest hrun'
      exact ⟨ht, List.forall_mem_append.mpr ⟨hout, hrest⟩⟩

/-- A machine that lets out what it holds, oldest first, and takes in behind it what its events
    bring: after a run it holds what has not been let out. -/
theorem runOut_queue (held : σ → List ω) (brings : ε → List ω)
    (hstep : ∀ s e s' out, step s e = .ok (s', out) → held s ++ brings e = out ++ held s')
    (es : List ε) : ∀ {s t : σ} {outs : List ω}, runOut step s es = .ok (t, outs) →
      held s ++ es.flatMap brings = outs ++ held t := by
  induction es with
  | nil =>
      intro s t outs hrun
      cases hrun
      exact List.append_nil _
  | cons e es ih =>
      intro s t outs hrun
      obtain ⟨s', out, rest, hok, hrest, rfl⟩ := runOut_cons_iff.mp hrun
      rw [List.flatMap_cons, ← List.append_assoc, hstep s e s' out hok, List.append_assoc,
        ih hrest, List.append_assoc]

/-- Steps that lower a measure, but for those that bring something, which may raise it by less
    than `c` for each: a run is no longer than what it was brought pays for. -/
theorem runOut_length_le {α : Type*} (measure : σ → Nat) (brings : ε → List α) (c : Nat)
    (hstep : ∀ s e s' out, step s e = .ok (s', out) →
      measure s' + 1 ≤ measure s + c * (brings e).length)
    (es : List ε) : ∀ {s t : σ} {outs : List ω}, runOut step s es = .ok (t, outs) →
      es.length + measure t ≤ measure s + c * (es.flatMap brings).length := by
  induction es with
  | nil =>
      intro s t outs hrun
      cases hrun
      simp
  | cons e es ih =>
      intro s t outs hrun
      obtain ⟨s', out, rest, hok, hrest, rfl⟩ := runOut_cons_iff.mp hrun
      have hfirst := hstep s e s' out hok
      have hlater := ih hrest
      rw [List.length_cons, List.flatMap_cons, List.length_append, Nat.mul_add]
      omega

end Output

/-! ## Members that are only written -/

/-- The last of the values that `pick` finds in the writes, else the one from before. -/
def lastWritten {β : Type*} (pick : ε → Option β) (before : β) (writes : List ε) : β :=
  (writes.filterMap pick).getLast?.getD before

/-- A member that a step either writes or keeps holds what was written last. -/
theorem foldl_lastWritten {β : Type*} {step : σ → ε → σ} {get : σ → β} {pick : ε → Option β}
    (hstep : ∀ s e, get (step s e) = (pick e).getD (get s)) (es : List ε) (s : σ) :
    get (es.foldl step s) = lastWritten pick (get s) es := by
  induction es using List.reverseRecOn with
  | nil => rfl
  | append_singleton es e ih =>
      rw [List.foldl_append, List.foldl_cons, List.foldl_nil, hstep, ih, lastWritten, lastWritten,
        List.filterMap_append]
      cases he : pick e with
      | none => simp only [List.filterMap_cons, he, List.filterMap_nil, List.append_nil,
          Option.getD_none]
      | some b => simp only [List.filterMap_cons, he, List.filterMap_nil, List.getLast?_concat,
          Option.getD_some]

end Bifrost.Trace
