/-
  Sparse windows: a run of consecutive numbers, some of whose slots are blank.

  A list of slots is `Numbered` from `n` when what stands in slot `i` has the number
  `next^[i] n`; blank slots keep the count. A `Window` is numbered from its first item and
  begins and ends with an item. The operations a buffer of this kind performs keep it a
  window: an item behind a gap at the end (`Window.snoc`), one before a gap at the front
  (`Window.cons`), filling a slot (`Window.set`), and dropping the front
  (`Window.suffix`).

  The numbers are those of any type with a successor function `next`; a circle of numbers
  is allowed, so an item is found by its position, not by its number.
-/
import Mathlib.Tactic.Common
import Mathlib.Data.List.TakeWhile
import Mathlib.Logic.Function.Iterate

namespace Bifrost.SparseWindow

variable {α κ : Type*} {key : α → κ} {next : κ → κ}

/-- What stands in slot `i` has the number `next^[i] n`. -/
def Numbered (key : α → κ) (next : κ → κ) : κ → List (Option α) → Prop
  | _, [] => True
  | n, slot :: slots => (∀ a, slot = some a → key a = n) ∧ Numbered key next (next n) slots

@[simp] theorem numbered_nil (n : κ) :
    Numbered key next n ([] : List (Option α)) := trivial

theorem numbered_cons_iff (n : κ) (slot : Option α) (slots : List (Option α)) :
    Numbered key next n (slot :: slots) ↔
      (∀ a, slot = some a → key a = n) ∧ Numbered key next (next n) slots := Iff.rfl

theorem numbered_iff (n : κ) (slots : List (Option α)) :
    Numbered key next n slots ↔ ∀ i a, slots[i]? = some (some a) → key a = next^[i] n := by
  induction slots generalizing n with
  | nil => simp
  | cons slot slots ih =>
      rw [numbered_cons_iff, ih]
      constructor
      · rintro ⟨h0, hs⟩ i a hi
        cases i with
        | zero => exact h0 a (by simpa using hi)
        | succ i => exact hs i a (by simpa using hi)
      · intro h
        exact ⟨fun a ha => h 0 a (by simp [ha]), fun i a hi => h (i + 1) a (by simpa using hi)⟩

theorem numbered_append_iff (n : κ) (xs ys : List (Option α)) :
    Numbered key next n (xs ++ ys) ↔
      Numbered key next n xs ∧ Numbered key next (next^[xs.length] n) ys := by
  induction xs generalizing n with
  | nil => simp
  | cons x xs ih =>
      rw [List.cons_append, numbered_cons_iff, numbered_cons_iff, ih, and_assoc,
        List.length_cons, Function.iterate_succ_apply]

theorem numbered_blanks (n : κ) (g : Nat) :
    Numbered key next n (List.replicate g (none : Option α)) := by
  induction g generalizing n with
  | zero => trivial
  | succ g ih => exact ⟨fun a ha => (by cases ha), ih _⟩

/-- A window: numbered from its first item, with an item at both ends. -/
structure Window (key : α → κ) (next : κ → κ) (slots : List (Option α)) : Prop where
  front : slots.head? ≠ some none
  back : slots.getLast? ≠ some none
  numbered : ∀ a, slots.head? = some (some a) → Numbered key next (key a) slots

variable {slots : List (Option α)}

theorem window_nil : Window key next ([] : List (Option α)) where
  front := by simp
  back := by simp
  numbered := by simp

theorem window_singleton (a : α) : Window key next [some a] where
  front := by simp
  back := by simp
  numbered := by simp [Numbered]

/-- A window that is not empty has a first item. -/
theorem Window.exists_front (h : Window key next slots) (hne : slots ≠ []) :
    ∃ a rest, slots = some a :: rest := by
  cases slots with
  | nil => exact absurd rfl hne
  | cons slot rest =>
      cases slot with
      | none => exact absurd rfl h.front
      | some a => exact ⟨a, rest, rfl⟩

/-- A window that is not empty has a last item. -/
theorem Window.exists_back (h : Window key next slots) (hne : slots ≠ []) :
    ∃ a init, slots = init ++ [some a] := by
  obtain ⟨init, slot, rfl⟩ : ∃ init slot, slots = init ++ [slot] :=
    ⟨_, _, (List.dropLast_concat_getLast hne).symm⟩
  cases slot with
  | none => exact absurd (by simp) h.back
  | some a => exact ⟨a, init, rfl⟩

/-- The number of an item is the front's number, advanced by the position. -/
theorem Window.key_eq (h : Window key next slots) {z a : α} {i : Nat}
    (hz : slots.head? = some (some z)) (hi : slots[i]? = some (some a)) :
    key a = next^[i] (key z) :=
  (numbered_iff _ _).mp (h.numbered z hz) i a hi

theorem Window.key_back (h : Window key next slots) {z a : α}
    (hz : slots.head? = some (some z)) (ha : slots.getLast? = some (some a)) :
    key a = next^[slots.length - 1] (key z) := by
  rw [List.getLast?_eq_getElem?] at ha
  exact h.key_eq hz ha

/-- A new last item, `g` numbers left out. -/
theorem Window.snoc (h : Window key next slots) {z a : α} {g : Nat}
    (hz : slots.getLast? = some (some z)) (ha : key a = next^[g + 1] (key z)) :
    Window key next (slots ++ List.replicate g none ++ [some a]) := by
  have hne : slots ≠ [] := by rintro rfl; simp at hz
  obtain ⟨f, rest, rfl⟩ := h.exists_front hne
  have hlen : (some f :: rest).length = rest.length + 1 := rfl
  have hkz := h.key_back (z := f) rfl hz
  refine ⟨by simp, by rw [List.getLast?_concat]; simp, fun b hb => ?_⟩
  have hb : f = b := by simpa using hb
  subst hb
  rw [numbered_append_iff, numbered_append_iff]
  refine ⟨⟨h.numbered f rfl, numbered_blanks _ _⟩, fun c hc => ?_, trivial⟩
  obtain rfl := Option.some.inj hc
  rw [ha, hkz, ← Function.iterate_add_apply, List.length_append, List.length_replicate, hlen]
  congr 1
  omega

/-- A new first item, `g` numbers left out. -/
theorem Window.cons (h : Window key next slots) {z a : α} {g : Nat}
    (hz : slots.head? = some (some z)) (ha : key z = next^[g + 1] (key a)) :
    Window key next (some a :: (List.replicate g none ++ slots)) := by
  refine ⟨by simp, ?_, fun b hb => ?_⟩
  · have hne : slots ≠ [] := by rintro rfl; simp at hz
    obtain ⟨y, init, rfl⟩ := h.exists_back hne
    rw [← List.append_assoc, ← List.cons_append, List.getLast?_concat]
    simp
  · have hb : a = b := by simpa using hb
    subst hb
    refine ⟨fun c hc => by rw [Option.some.inj hc], ?_⟩
    rw [numbered_append_iff, List.length_replicate, ← Function.iterate_succ_apply]
    exact ⟨numbered_blanks _ _, ha ▸ h.numbered z hz⟩

/-- Filling a slot. -/
theorem Window.set (h : Window key next slots) {z a : α} {i : Nat}
    (hz : slots.head? = some (some z)) (ha : key a = next^[i] (key z)) :
    Window key next (slots.set i (some a)) := by
  have hitem : ∀ (j : Nat), (slots.set i (some a))[j]? = some none → slots[j]? = some none := by
    intro j hj
    rw [List.getElem?_set] at hj
    split at hj
    · split at hj <;> cases hj
    · exact hj
  refine ⟨fun hh => h.front ?_, fun hh => h.back ?_, fun b hb => ?_⟩
  · rw [List.head?_eq_getElem?] at hh ⊢
    exact hitem 0 hh
  · rw [List.getLast?_eq_getElem?, List.length_set] at hh
    rw [List.getLast?_eq_getElem?]
    exact hitem _ hh
  · have hkb : key b = key z := by
      rw [List.head?_eq_getElem?, List.getElem?_set] at hb
      split at hb
      · next h0 =>
          split at hb
          · rw [← Option.some.inj (Option.some.inj hb), ha, h0]; rfl
          · cases hb
      · rw [← List.head?_eq_getElem?, hz] at hb
        rw [Option.some.inj (Option.some.inj hb)]
    rw [hkb, numbered_iff]
    intro j c hj
    rw [List.getElem?_set] at hj
    split at hj
    · next hij =>
        split at hj
        · rw [← Option.some.inj (Option.some.inj hj), ha, hij]
        · cases hj
    · exact h.key_eq hz hj

theorem head?_dropWhile_isNone (slots : List (Option α)) :
    (slots.dropWhile Option.isNone).head? ≠ some none := by
  intro hh
  have := List.head?_dropWhile_not Option.isNone slots
  rw [hh] at this
  cases this

theorem getLast?_of_suffix {l suf : List α} (hsuf : suf <:+ l) (hne : suf ≠ []) :
    suf.getLast? = l.getLast? := by
  rw [List.getLast?_eq_some_getLast hne, hsuf.getLast hne, ← List.getLast?_eq_some_getLast]

/-- Any end piece of a window that begins with an item is a window. -/
theorem Window.suffix (h : Window key next slots) {suf : List (Option α)}
    (hsuf : suf <:+ slots) (hfront : suf.head? ≠ some none) : Window key next suf := by
  obtain ⟨pre, rfl⟩ := hsuf
  refine ⟨hfront, fun hb => ?_, fun a ha => ?_⟩
  · apply h.back
    rw [List.getLast?_append, hb]
    rfl
  · by_cases hpre : pre = []
    · subst hpre
      exact h.numbered a ha
    · have hne : pre ++ suf ≠ [] := by simp [hpre]
      obtain ⟨z, rest, hz⟩ := h.exists_front hne
      have hnum := h.numbered z (by rw [hz]; rfl)
      have hka : key a = next^[pre.length] (key z) := by
        refine h.key_eq (by rw [hz]; rfl) ?_
        rw [List.getElem?_append_right (Nat.le_refl _), Nat.sub_self, ← List.head?_eq_getElem?, ha]
      rw [numbered_append_iff] at hnum
      rw [hka]
      exact hnum.2

end Bifrost.SparseWindow
