/-
  The abstract resequencing buffer: what a reorder queue is for.

  Items carry their index in the original order and arrive in any order. The buffer holds
  what it cannot deliver yet; `pop` delivers from `next` on as long as the index wanted is
  there. `resequences`: when every index below `n` has been pushed exactly once, whatever
  the order and wherever the pops stand, one last `pop` completes the delivery of all `n`
  items in index order.
-/
import Bifrost.Lib.Trace
import Bifrost.Lib.OrderedMap
import Mathlib.Data.List.Range

namespace Bifrost.Resequencer

variable {β : Type*}

/-- The order of the items held. -/
def indexLt (a b : Nat) : Bool := decide (a < b)

/-- The index wanted next and the items held, smallest index first. -/
structure Buffer (β : Type*) where
  next : Nat := 0
  held : List (Nat × β) := []

inductive Op (β : Type*) where
  | push (i : Nat) (b : β)
  | pop

/-- Deliver from `w` on while the smallest index held is the one wanted. -/
def drain : Nat → List (Nat × β) → List β × Nat × List (Nat × β)
  | w, [] => ([], w, [])
  | w, (k, b) :: m =>
    if w = k then
      let (out, w', m') := drain (w + 1) m
      (b :: out, w', m')
    else ([], w, (k, b) :: m)

def step (s : Buffer β) : Op β → Buffer β × List β
  | .push i b => ({ s with held := OrderedMap.emplace indexLt i b s.held }, [])
  | .pop => ({ next := (drain s.next s.held).2.1, held := (drain s.next s.held).2.2 },
      (drain s.next s.held).1)

theorem strictTotalOn_indexLt : OrderedMap.StrictTotalOn indexLt fun _ => True where
  irrefl a _ := by simp [indexLt]
  trans a b c _ _ _ h h' := by simp only [indexLt, decide_eq_true_eq] at *; omega
  total a b _ _ := by simp only [indexLt, decide_eq_true_eq]; omega

/-- The pushed indices, in order of arrival. -/
def pushed : List (Op β) → List Nat
  | [] => []
  | .push i _ :: ops => i :: pushed ops
  | .pop :: ops => pushed ops

theorem pushed_append (xs ys : List (Op β)) : pushed (xs ++ ys) = pushed xs ++ pushed ys := by
  induction xs with
  | nil => rfl
  | cons x xs ih => cases x <;> simp [pushed, ih]

/-- After any run: what was delivered is a prefix of the order, and what is held are the
    items pushed and not delivered, in order. -/
structure Inv (f : Nat → β) (arrived : List Nat) (out : List β) (s : Buffer β) : Prop where
  delivered : out = (List.range s.next).map f
  sorted : OrderedMap.Sorted indexLt s.held
  held_iff : ∀ i b, (i, b) ∈ s.held ↔ i ∈ arrived ∧ s.next ≤ i ∧ b = f i
  done : ∀ i, i < s.next → i ∈ arrived

theorem inv_init (f : Nat → β) : Inv f [] [] ({} : Buffer β) where
  delivered := rfl
  sorted := List.Pairwise.nil
  held_iff := by simp
  done := by simp

/-- A push of an index that has not arrived before. -/
theorem inv_push {f : Nat → β} {arrived : List Nat} {out : List β} {s : Buffer β}
    (h : Inv f arrived out s) {i : Nat} (hi : i ∉ arrived) :
    Inv f (arrived ++ [i]) out (step s (.push i (f i))).1 := by
  have hP : ∀ e ∈ s.held, (fun _ : Nat => True) e.1 := fun _ _ => trivial
  have hnext : s.next ≤ i := by
    by_contra hlt
    exact hi (h.done i (by omega))
  have hnew : ∀ e ∈ s.held, e.1 ≠ i := by
    rintro ⟨j, b⟩ hj rfl
    exact hi ((h.held_iff j b).mp hj).1
  refine ⟨h.delivered, ?_, ?_, ?_⟩
  · exact OrderedMap.sorted_emplace strictTotalOn_indexLt hP trivial h.sorted
  · intro j b
    simp only [step]
    rw [OrderedMap.mem_emplace strictTotalOn_indexLt hP trivial h.sorted, h.held_iff]
    constructor
    · rintro (⟨h1, h2, h3⟩ | ⟨hj, -⟩)
      · exact ⟨List.mem_append_left _ h1, h2, h3⟩
      · cases hj
        exact ⟨by simp, hnext, rfl⟩
    · rintro ⟨h1, h2, h3⟩
      rcases List.mem_append.mp h1 with h1 | h1
      · exact Or.inl ⟨h1, h2, h3⟩
      · have hji : j = i := by simpa using h1
        subst hji
        exact Or.inr ⟨by rw [h3], hnew⟩
  · intro j hj
    exact List.mem_append_left _ (h.done j hj)

/-- One delivery: the smallest index held is the one wanted. -/
theorem inv_deliver {f : Nat → β} {arrived : List Nat} {out : List β} {w : Nat} {b : β}
    {m : List (Nat × β)} (h : Inv f arrived out ⟨w, (w, b) :: m⟩) :
    b = f w ∧ Inv f arrived (out ++ [b]) ⟨w + 1, m⟩ := by
  obtain ⟨hhead, htail⟩ := List.pairwise_cons.mp h.sorted
  obtain ⟨hw, -, hb⟩ := (h.held_iff w b).mp List.mem_cons_self
  refine ⟨hb, ?_, htail, ?_, ?_⟩
  · rw [h.delivered, hb, List.range_succ, List.map_append]
    rfl
  · intro j c
    have hj := h.held_iff j c
    simp only [List.mem_cons, Prod.mk.injEq] at hj
    constructor
    · intro hm
      have hlt : w < j := by simpa [indexLt] using hhead _ hm
      exact ⟨(hj.mp (Or.inr hm)).1, hlt, (hj.mp (Or.inr hm)).2.2⟩
    · rintro ⟨h1, h2, h3⟩
      rcases hj.mpr ⟨h1, by simp only at h2 ⊢; omega, h3⟩ with ⟨rfl, -⟩ | hm
      · simp only at h2
        omega
      · exact hm
  · intro j hj
    rcases Nat.lt_or_eq_of_le (Nat.le_of_lt_succ hj) with hlt | rfl
    · exact h.done j hlt
    · exact hw

/-- `drain` keeps the invariant and stops at an index that has not arrived. -/
theorem inv_drain {f : Nat → β} {arrived : List Nat} (m : List (Nat × β)) :
    ∀ (w : Nat) (out : List β), Inv f arrived out ⟨w, m⟩ →
      Inv f arrived (out ++ (drain w m).1) ⟨(drain w m).2.1, (drain w m).2.2⟩ ∧
        (drain w m).2.1 ∉ arrived := by
  induction m with
  | nil =>
      intro w out h
      refine ⟨by simpa [drain] using h, fun hw => ?_⟩
      have := (h.held_iff w (f w)).mpr ⟨hw, Nat.le_refl w, rfl⟩
      cases this
  | cons e m ih =>
      obtain ⟨k, b⟩ := e
      intro w out h
      by_cases hwk : w = k
      · subst hwk
        obtain ⟨-, hnext⟩ := inv_deliver h
        have := ih (w + 1) (out ++ [b]) hnext
        simpa [drain] using this
      · refine ⟨by simpa [drain, hwk] using h, fun hw => ?_⟩
        simp only [drain, hwk, if_false] at hw
        -- the wanted index is held, so it is not above the smallest one
        have hmem := (h.held_iff w (f w)).mpr ⟨hw, Nat.le_refl w, rfl⟩
        have hwk' : w ≤ k := ((h.held_iff k b).mp List.mem_cons_self).2.1
        rcases List.mem_cons.mp hmem with heq | hm
        · exact hwk (congrArg Prod.fst heq)
        · have : k < w := by simpa [indexLt] using (List.pairwise_cons.mp h.sorted).1 _ hm
          omega

theorem inv_pop {f : Nat → β} {arrived : List Nat} {out : List β} {s : Buffer β}
    (h : Inv f arrived out s) :
    Inv f arrived (out ++ (step s .pop).2) (step s .pop).1 ∧ (step s .pop).1.next ∉ arrived :=
  inv_drain s.held s.next out h

/-- Every operation pushes the item that belongs to its index. -/
def Carries (f : Nat → β) (ops : List (Op β)) : Prop :=
  ∀ i b, Op.push i b ∈ ops → b = f i

theorem inv_run {f : Nat → β} {ops : List (Op β)} (hf : Carries f ops)
    (hnd : (pushed ops).Nodup) :
    Inv f (pushed ops) (Trace.outputs step {} ops) (Trace.run step {} ops) := by
  refine Trace.run_history (I := fun ops out s => Inv f (pushed ops) out s) (inv_init f) ?_
  intro pre op post hsplit h
  rw [pushed_append]
  cases op with
  | push i b =>
      have hb : b = f i := hf i b (by rw [hsplit]; simp)
      subst hb
      have hi : i ∉ pushed pre := by
        rw [hsplit, pushed_append] at hnd
        exact fun hmem => (List.nodup_append.mp hnd).2.2 i hmem i (by simp [pushed]) rfl
      simpa [pushed, step] using inv_push h hi
  | pop => simpa [pushed] using (inv_pop h).1

/-- Pushed exactly once each, in any order and with pops anywhere, all `n` items come out
    in index order once a last `pop` has run. -/
theorem resequences {f : Nat → β} {ops : List (Op β)} {n : Nat} (hf : Carries f ops)
    (hperm : (pushed ops).Perm (List.range n)) :
    Trace.outputs step {} (ops ++ [.pop]) = (List.range n).map f := by
  have hnd : (pushed ops).Nodup := hperm.nodup_iff.mpr List.nodup_range
  have hmem : ∀ i, i ∈ pushed ops ↔ i < n := fun i => by rw [hperm.mem_iff, List.mem_range]
  obtain ⟨hinv, hstop⟩ := inv_pop (inv_run hf hnd)
  rw [Trace.outputs_append]
  generalize (step (Trace.run step {} ops) .pop).1 = s at hinv hstop
  have hn : s.next = n := by
    rw [hmem] at hstop
    by_contra hne
    exact absurd ((hmem _).mp (hinv.done n (by omega))) (Nat.lt_irrefl n)
  have := hinv.delivered
  rw [hn] at this
  simpa using this

end Bifrost.Resequencer
