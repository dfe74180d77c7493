/-
  Words with two bracket symbols `l` and `r`.

  A word is `Balanced` when every bracket in it is matched. Where a balanced word ends at a
  closing bracket of the text around it is determined (`Balanced.unique`), and so is what
  the first brackets of a text enclose (`Encloses.unique`).
-/
import Mathlib.Tactic.Common

namespace Bifrost.Brackets

variable {α : Type*} {l r : α} {s t : List α}

/-- Every bracket is matched. -/
inductive Balanced (l r : α) : List α → Prop
  | nil : Balanced l r []
  | plain {x : α} {s : List α} : x ≠ l → x ≠ r → Balanced l r s → Balanced l r (x :: s)
  | group {s t : List α} : Balanced l r s → Balanced l r t → Balanced l r (l :: (s ++ r :: t))

/-- The first bracket of the word is an opening one, and it and its match enclose
    `content`. -/
def Encloses (l r : α) (content word : List α) : Prop :=
  ∃ before after, word = before ++ l :: (content ++ r :: after) ∧
    (∀ x ∈ before, x ≠ l ∧ x ≠ r) ∧ Balanced l r content

theorem balanced_of_plain (h : ∀ x ∈ s, x ≠ l ∧ x ≠ r) : Balanced l r s := by
  induction s with
  | nil => exact .nil
  | cons x s ih =>
      obtain ⟨hx, hs⟩ := List.forall_mem_cons.mp h
      exact .plain hx.1 hx.2 (ih hs)

/-- A balanced word in front of a closing bracket is known from the whole. -/
theorem Balanced.unique (hne : l ≠ r) (hs : Balanced l r s) :
    ∀ {t u v : List α}, Balanced l r t → s ++ r :: u = t ++ r :: v → s = t ∧ u = v := by
  induction hs with
  | nil =>
      intro t u v ht heq
      cases ht with
      | nil => exact ⟨rfl, (List.cons.inj heq).2⟩
      | plain _ hr _ => exact absurd (List.cons.inj heq).1.symm hr
      | group _ _ => exact absurd (List.cons.inj heq).1.symm hne
  | plain hl hr _ ih =>
      intro t u v ht heq
      cases ht with
      | nil => exact absurd (List.cons.inj heq).1 hr
      | plain _ _ ht =>
          obtain ⟨rfl, hrest⟩ := List.cons.inj heq
          obtain ⟨rfl, rfl⟩ := ih ht hrest
          exact ⟨rfl, rfl⟩
      | group _ _ => exact absurd (List.cons.inj heq).1 hl
  | group _ _ ih₁ ih₂ =>
      intro t u v ht heq
      cases ht with
      | nil => exact absurd (List.cons.inj heq).1 hne
      | plain hl _ _ => exact absurd (List.cons.inj heq).1.symm hl
      | group ht₁ ht₂ =>
          simp only [List.cons_append, List.append_assoc, List.cons.injEq, true_and] at heq
          obtain ⟨rfl, hrest⟩ := ih₁ ht₁ heq
          obtain ⟨rfl, rfl⟩ := ih₂ ht₂ hrest
          exact ⟨rfl, rfl⟩

/-- What stands in front of the first bracket is known too. -/
theorem append_cons_unique {before before' after after' : List α}
    (h : ∀ x ∈ before, x ≠ l) (h' : ∀ x ∈ before', x ≠ l)
    (heq : before ++ l :: after = before' ++ l :: after') : before = before' ∧ after = after' := by
  induction before generalizing before' with
  | nil =>
      cases before' with
      | nil => exact ⟨rfl, (List.cons.inj heq).2⟩
      | cons x before' =>
          exact absurd (List.cons.inj heq).1.symm (h' x List.mem_cons_self)
  | cons x before ih =>
      cases before' with
      | nil => exact absurd (List.cons.inj heq).1 (h x List.mem_cons_self)
      | cons y before' =>
          obtain ⟨rfl, hrest⟩ := List.cons.inj heq
          obtain ⟨rfl, rfl⟩ := ih (fun z hz => h z (List.mem_cons_of_mem x hz))
            (fun z hz => h' z (List.mem_cons_of_mem x hz)) hrest
          exact ⟨rfl, rfl⟩

/-- What stands in front of the first bracket plays no part. -/
theorem encloses_append_iff {between word : List α} (h : ∀ x ∈ between, x ≠ l ∧ x ≠ r) :
    Encloses l r s (between ++ word) ↔ Encloses l r s word := by
  induction between with
  | nil => exact Iff.rfl
  | cons x between ih =>
      obtain ⟨⟨hl, hr⟩, hrest⟩ := List.forall_mem_cons.mp h
      rw [← ih hrest, List.cons_append]
      constructor
      · rintro ⟨before, after, heq, hbefore, hbalanced⟩
        cases before with
        | nil => exact absurd (List.cons.inj heq).1 hl
        | cons y before =>
            exact ⟨before, after, (List.cons.inj heq).2,
              fun z hz => hbefore z (List.mem_cons_of_mem y hz), hbalanced⟩
      · rintro ⟨before, after, heq, hbefore, hbalanced⟩
        exact ⟨x :: before, after, congrArg (x :: ·) heq,
          List.forall_mem_cons.mpr ⟨⟨hl, hr⟩, hbefore⟩, hbalanced⟩

theorem Encloses.unique (hne : l ≠ r) {word : List α} (hs : Encloses l r s word)
    (ht : Encloses l r t word) : s = t := by
  obtain ⟨before, after, rfl, hbefore, hbal⟩ := hs
  obtain ⟨before', after', heq, hbefore', hbal'⟩ := ht
  have hrest := (append_cons_unique (fun x hx => (hbefore x hx).1)
    (fun x hx => (hbefore' x hx).1) heq).2
  exact (hbal.unique hne hbal' hrest).1

end Bifrost.Brackets
