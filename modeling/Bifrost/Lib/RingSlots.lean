/-
  A list kept in the slots of a ring.

  The ring is a list of slots, and `Stored ring o l` says that `l` stands in them from slot
  `o` on, counted around. An entry goes in behind the others (`Stored.concat`) and out in
  front (`Stored.tail`); what is written to its slot is then not in the way of the rest.
-/
import Mathlib.Data.Nat.ModEq
import Mathlib.Tactic.Common

namespace Bifrost.RingSlots

variable {α : Type*} {ring l : List α} {o : Nat} {a b : α}

/-- Slots less than a turn apart are different. -/
theorem slot_ne {w o i j : Nat} (hij : i < j) (hj : j < w + i) : (o + i) % w ≠ (o + j) % w := by
  intro heq
  have hdvd : w ∣ (o + j) - (o + i) :=
    Nat.dvd_of_mod_eq_zero (Nat.sub_mod_eq_zero_of_mod_eq heq.symm)
  have := Nat.le_of_dvd (by omega) hdvd
  omega

def Stored (ring : List α) (o : Nat) (l : List α) : Prop :=
  ∀ i a, l[i]? = some a → ring[(o + i) % ring.length]? = some a

theorem stored_nil (ring : List α) (o : Nat) : Stored ring o [] :=
  fun i a h => by cases h

theorem Stored.head (h : Stored ring o (a :: l)) : ring[o % ring.length]? = some a := h 0 a rfl

theorem Stored.mem (h : Stored ring o l) (ha : a ∈ l) : a ∈ ring := by
  obtain ⟨i, hi⟩ := List.mem_iff_getElem?.mp ha
  exact List.mem_of_getElem? (h i a hi)

theorem Stored.init {l' : List α} (h : Stored ring o (l ++ l')) : Stored ring o l := by
  intro i a hi
  apply h i a
  rw [List.getElem?_append_left (List.getElem?_eq_some_iff.mp hi).1, hi]

/-- Without its first entry the list begins one slot later. -/
theorem Stored.tail (h : Stored ring o (a :: l)) (hfits : l.length < ring.length) (b : α) :
    Stored (ring.set (o % ring.length) b) (o + 1) l := by
  intro i c hi
  have hlt := (List.getElem?_eq_some_iff.mp hi).1
  have hne : o % ring.length ≠ (o + 1 + i) % ring.length := by
    have := @slot_ne ring.length o 0 (1 + i) (by omega) (by omega)
    rwa [Nat.add_zero, ← Nat.add_assoc] at this
  rw [List.length_set, List.getElem?_set_ne hne, Nat.add_assoc, Nat.add_comm 1 i]
  exact h (i + 1) c hi

/-- One more entry behind the list, where the ring has a slot for it. -/
theorem Stored.concat (h : Stored ring o l) (hroom : l.length < ring.length) (b : α) :
    Stored (ring.set ((o + l.length) % ring.length) b) o (l ++ [b]) := by
  intro i c hi
  have hslot : (o + l.length) % ring.length < ring.length := Nat.mod_lt _ (by omega)
  rw [List.length_set]
  rcases Nat.lt_or_ge i l.length with hlt | hge
  · rw [List.getElem?_set_ne (slot_ne hlt (by omega)).symm]
    rw [List.getElem?_append_left hlt] at hi
    exact h i c hi
  · have hlast := (List.getElem?_eq_some_iff.mp hi).1
    rw [List.length_append, List.length_singleton] at hlast
    obtain rfl : i = l.length := by omega
    rw [List.getElem?_concat_length] at hi
    rw [List.getElem?_set_self hslot, hi]

end Bifrost.RingSlots
