/-
  Decoding a stream that arrives in pieces.

  A `Decoder` looks at the front of what is buffered: nothing whole is there yet, there is an
  item and the number of symbols it takes, or the stream can never be read on. What it finds
  does not depend on what comes behind (`item_append`, `bad_append`). `drain` takes items off
  the front as long as there are any. What it has found and left of a first piece is kept when
  more comes (`drain_append`). A stream of encoded items is drained to the items
  (`drain_encoded`), and so is every part of it from the start to where it is cut
  (`drain_part`).
-/
import Mathlib.Algebra.Order.Ring.Int
import Mathlib.Tactic.Common

namespace Bifrost.Incremental

/-- What the front of the buffered symbols shows. -/
inductive Front (α ε : Type*) where
  | more
  | item (a : α) (used : Nat)
  | bad (e : ε)
  deriving DecidableEq

structure Decoder (β α ε : Type*) where
  front : List β → Front α ε
  used_pos : ∀ {xs a n}, front xs = .item a n → 0 < n
  used_le : ∀ {xs a n}, front xs = .item a n → n ≤ xs.length
  item_append : ∀ {xs a n} (ys), front xs = .item a n → front (xs ++ ys) = .item a n
  bad_append : ∀ {xs e} (ys), front xs = .bad e → front (xs ++ ys) = .bad e

variable {β α ε : Type*} (d : Decoder β α ε)

/-- The items at the front of the symbols, and the rest behind them. -/
def Decoder.drain (xs : List β) : List α × List β :=
  match _hfront : d.front xs with
  | .item a n => (a :: (drain (xs.drop n)).1, (drain (xs.drop n)).2)
  | .more | .bad _ => ([], xs)
termination_by xs.length
decreasing_by
  all_goals
    have := d.used_pos _hfront
    have := d.used_le _hfront
    rw [List.length_drop]
    omega

/-- No item is in front. -/
def Decoder.Stuck (xs : List β) : Prop := ∀ a n, d.front xs ≠ .item a n

variable {d}

theorem Decoder.drain_stuck {xs : List β} (h : d.Stuck xs) : d.drain xs = ([], xs) := by
  rw [drain]
  split
  · next hitem => exact absurd hitem (h _ _)
  · rfl
  · rfl

theorem Decoder.drain_item {xs : List β} {a : α} {n : Nat} (h : d.front xs = .item a n) :
    d.drain xs = (a :: (d.drain (xs.drop n)).1, (d.drain (xs.drop n)).2) := by
  rw [drain]
  split
  · next hitem =>
      cases h.symm.trans hitem
      rfl
  · next hmore => cases h.symm.trans hmore
  · next hbad => cases h.symm.trans hbad

/-- To prove something of every stream: of one with no item in front, and of one with an item
    given it of what lies behind. -/
theorem Decoder.drain_induction {P : List β → Prop} (stuck : ∀ xs, d.Stuck xs → P xs)
    (item : ∀ xs a n, d.front xs = .item a n → P (xs.drop n) → P xs) (xs : List β) : P xs := by
  induction hn : xs.length using Nat.strongRecOn generalizing xs with
  | _ n ih =>
      by_cases hfront : ∃ a m, d.front xs = .item a m
      · obtain ⟨a, m, hfront⟩ := hfront
        have := d.used_pos hfront
        have := d.used_le hfront
        exact item xs a m hfront (ih _ (by rw [List.length_drop]; omega) _ rfl)
      · exact stuck xs fun a m h => hfront ⟨a, m, h⟩

theorem Decoder.stuck_rest (xs : List β) : d.Stuck (d.drain xs).2 := by
  induction xs using d.drain_induction with
  | stuck xs h => rwa [drain_stuck h]
  | item xs a n h ih => rwa [drain_item h]

/-- More symbols behind a stream change nothing about its items. -/
theorem Decoder.drain_append (xs ys : List β) :
    d.drain (xs ++ ys) = ((d.drain xs).1 ++ (d.drain ((d.drain xs).2 ++ ys)).1,
      (d.drain ((d.drain xs).2 ++ ys)).2) := by
  induction xs using d.drain_induction with
  | stuck xs h =>
      rw [drain_stuck h]
      rfl
  | item xs a n h ih =>
      have hdrop : (xs ++ ys).drop n = xs.drop n ++ ys :=
        List.drop_append_of_le_length (d.used_le h)
      rw [drain_item h, drain_item (d.item_append ys h), hdrop, ih, List.cons_append]

/-! ## Encoded items -/

/-- The code of `a` is found in front of anything, and means `value a`. -/
def Decoder.Reads {γ : Type*} (d : Decoder β α ε) (encode : γ → List β) (value : γ → α) (a : γ) :
    Prop :=
  ∀ rest, d.front (encode a ++ rest) = .item (value a) (encode a).length

section Encoded

variable {γ : Type*} {encode : γ → List β} {value : γ → α}

theorem Decoder.stuck_nil : d.Stuck [] := fun a n h => by
  have := d.used_pos h
  have hle : n ≤ 0 := d.used_le h
  omega

/-- Less than the code of an item shows nothing. -/
theorem Decoder.front_more {a : γ} (ha : d.Reads encode value a) {xs ys rest : List β}
    (h : xs ++ ys = encode a ++ rest) (hshort : xs.length < (encode a).length) :
    d.front xs = .more := by
  have hwhole := ha rest
  rw [← h] at hwhole
  cases hfront : d.front xs with
  | more => rfl
  | item b n =>
      cases (d.item_append ys hfront).symm.trans hwhole
      exact absurd (d.used_le hfront) (by omega)
  | bad e => cases (d.bad_append ys hfront).symm.trans hwhole

/-- Of the first part of a stream of encoded items a drain finds those that are whole, and
    leaves less than the code of the next one. -/
theorem Decoder.drain_part {ys : List β} (items : List γ) : ∀ {xs : List β},
    (∀ a ∈ items, d.Reads encode value a) → xs ++ ys = (items.map encode).flatten →
      ∃ found rest, items = found ++ rest ∧ (d.drain xs).1 = found.map value ∧
        xs = (found.map encode).flatten ++ (d.drain xs).2 ∧
        (d.drain xs).2 ++ ys = (rest.map encode).flatten ∧
        (∀ a ∈ rest.head?, (d.drain xs).2.length < (encode a).length) ∧
        ((d.drain xs).2 = [] ∨ d.front (d.drain xs).2 = .more) := by
  induction items with
  | nil =>
      intro xs _ h
      obtain ⟨rfl, rfl⟩ := List.append_eq_nil_iff.mp h
      refine ⟨[], [], rfl, ?_⟩
      rw [drain_stuck d.stuck_nil]
      exact ⟨rfl, rfl, rfl, (fun _ h => by cases h), .inl rfl⟩
  | cons a items ih =>
      intro xs hreads h
      obtain ⟨ha, hitems⟩ := List.forall_mem_cons.mp hreads
      rw [List.map_cons, List.flatten_cons] at h
      by_cases hshort : xs.length < (encode a).length
      · have hmore := front_more ha h hshort
        refine ⟨[], a :: items, rfl, ?_⟩
        rw [drain_stuck fun b n hitem => by cases hmore.symm.trans hitem]
        refine ⟨rfl, rfl, by rw [h]; rfl, ?_, .inr hmore⟩
        intro b hb
        cases hb
        exact hshort
      · obtain ⟨tail, rfl⟩ := List.prefix_of_prefix_length_le (List.prefix_append _ _)
          ⟨ys, h⟩ (Nat.le_of_not_lt hshort)
        rw [List.append_assoc, List.append_cancel_left_eq] at h
        obtain ⟨found, rest, hsplit, hfound, hcut, hleft, hend⟩ := ih hitems h
        refine ⟨a :: found, rest, ?_⟩
        rw [drain_item (ha tail), List.drop_left]
        refine ⟨by rw [List.cons_append, ← hsplit], by rw [hfound, List.map_cons], ?_, hleft, hend⟩
        rw [List.map_cons, List.flatten_cons, List.append_assoc, ← hcut]

/-- Of all of it nothing is left. -/
theorem Decoder.drain_encoded (items : List γ) (h : ∀ a ∈ items, d.Reads encode value a) :
    d.drain (items.map encode).flatten = (items.map value, []) := by
  induction items with
  | nil => exact drain_stuck d.stuck_nil
  | cons a items ih =>
      obtain ⟨ha, hitems⟩ := List.forall_mem_cons.mp h
      rw [List.map_cons, List.flatten_cons, drain_item (ha _), List.drop_left, ih hitems,
        List.map_cons]

end Encoded

end Bifrost.Incremental
