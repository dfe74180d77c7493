/-
  Placing keyed items: a list of items with numbers, laid out by number.

  `placed key xs` spans from the least key to the greatest. Each item stands as far behind
  the first slot as its key is above the least, and the other slots are blank. An item that
  joins goes behind the last slot (`placed_concat_above`), before the first
  (`placed_concat_below`) or into a blank slot (`placed_concat_inside`), and with distinct
  keys the order in which the items came does not show (`placed_perm`).
-/
import Mathlib.Tactic.Common
import Mathlib.Data.List.Perm.Basic
import Mathlib.Data.List.Nodup

namespace Bifrost.Placement

variable {α : Type*} {key : α → Nat} {xs ys : List α} {a x : α} {lo hi k : Nat}

/-- The item with key `k`. -/
def content (key : α → Nat) (xs : List α) (k : Nat) : Option α :=
  xs.find? fun x => decide (key x = k)

/-- `n` slots from key `lo` on. -/
def span (f : Nat → Option α) (lo n : Nat) : List (Option α) :=
  (List.range n).map fun i => f (lo + i)

def placed (key : α → Nat) (xs : List α) : List (Option α) :=
  match (xs.map key).min?, (xs.map key).max? with
  | some lo, some hi => span (content key xs) lo (hi - lo + 1)
  | _, _ => []

/-- The least key is `lo` and the greatest is `hi`. -/
structure Extent (key : α → Nat) (xs : List α) (lo hi : Nat) : Prop where
  lo_mem : lo ∈ xs.map key
  hi_mem : hi ∈ xs.map key
  bounds : ∀ x ∈ xs, lo ≤ key x ∧ key x ≤ hi

/-! ## The items by key -/

theorem mem_of_content (h : content key xs k = some a) : a ∈ xs ∧ key a = k :=
  ⟨List.mem_of_find?_eq_some h, by simpa using List.find?_some h⟩

theorem content_eq_some_iff (hn : (xs.map key).Nodup) :
    content key xs k = some a ↔ a ∈ xs ∧ key a = k := by
  refine ⟨mem_of_content, fun ⟨ha, hk⟩ => ?_⟩
  cases hfind : content key xs k with
  | none => exact absurd (List.find?_eq_none.mp hfind a ha) (by simp [hk])
  | some y =>
      obtain ⟨hy, hky⟩ := mem_of_content hfind
      rw [List.inj_on_of_nodup_map hn hy ha (hky.trans hk.symm)]

theorem content_eq_none_iff : content key xs k = none ↔ ∀ x ∈ xs, key x ≠ k := by
  simp [content]

theorem content_perm (hn : (xs.map key).Nodup) (hp : xs.Perm ys) :
    content key xs = content key ys := by
  have hn' : (ys.map key).Nodup := (hp.map key).nodup_iff.mp hn
  funext k
  apply Option.ext
  intro a
  rw [content_eq_some_iff hn, content_eq_some_iff hn', hp.mem_iff]

theorem content_concat (hfresh : ∀ x ∈ xs, key x ≠ key a) (k : Nat) :
    content key (xs ++ [a]) k = if k = key a then some a else content key xs k := by
  rw [content, List.find?_append]
  split_ifs with hk
  · have hnone : xs.find? (fun x => decide (key x = k)) = none :=
      content_eq_none_iff.mpr (hk ▸ hfresh)
    rw [hnone, Option.none_or, List.find?_singleton, decide_eq_true hk.symm, if_pos rfl]
  · simp [content, Ne.symm hk]

/-! ## Spans -/

@[simp] theorem length_span (f : Nat → Option α) (lo n : Nat) : (span f lo n).length = n := by
  simp [span]

theorem getElem?_span (f : Nat → Option α) (lo n i : Nat) :
    (span f lo n)[i]? = if i < n then some (f (lo + i)) else none := by
  rw [span, List.getElem?_map]
  split_ifs with hi
  · rw [List.getElem?_range hi, Option.map_some]
  · rw [List.getElem?_eq_none (by simpa using hi), Option.map_none]

theorem span_congr {f g : Nat → Option α} {lo n : Nat} (h : ∀ i < n, f (lo + i) = g (lo + i)) :
    span f lo n = span g lo n :=
  List.map_congr_left fun i hi => h i (List.mem_range.mp hi)

theorem span_append (f : Nat → Option α) (lo m n : Nat) :
    span f lo (m + n) = span f lo m ++ span f (lo + m) n := by
  simp [span, List.range_add, Function.comp_def, Nat.add_assoc]

theorem span_one (f : Nat → Option α) (lo : Nat) : span f lo 1 = [f lo] := rfl

theorem span_blank {f : Nat → Option α} {lo n : Nat} (h : ∀ i < n, f (lo + i) = none) :
    span f lo n = List.replicate n none := by
  refine List.eq_replicate_iff.mpr ⟨length_span f lo n, fun b hb => ?_⟩
  obtain ⟨i, hi, rfl⟩ := List.mem_map.mp hb
  exact h i (List.mem_range.mp hi)

/-! ## The layout -/

@[simp] theorem placed_nil : placed key [] = [] := rfl

theorem placed_eq (h : Extent key xs lo hi) :
    placed key xs = span (content key xs) lo (hi - lo + 1) := by
  have hmin : (xs.map key).min? = some lo :=
    List.min?_eq_some_iff.mpr ⟨h.lo_mem, by simpa using fun x hx => (h.bounds x hx).1⟩
  have hmax : (xs.map key).max? = some hi :=
    List.max?_eq_some_iff.mpr ⟨h.hi_mem, by simpa using fun x hx => (h.bounds x hx).2⟩
  rw [placed, hmin, hmax]

theorem exists_extent (hne : xs ≠ []) : ∃ lo hi, Extent key xs lo hi := by
  have hne' : xs.map key ≠ [] := by simpa using hne
  obtain ⟨lo, hlo⟩ := Option.isSome_iff_exists.mp (List.isSome_min?_of_ne_nil hne')
  obtain ⟨hi, hhi⟩ := Option.isSome_iff_exists.mp (List.isSome_max?_of_ne_nil hne')
  rw [List.min?_eq_some_iff] at hlo
  rw [List.max?_eq_some_iff] at hhi
  exact ⟨lo, hi, hlo.1, hhi.1, fun x hx =>
    ⟨hlo.2 _ (List.mem_map_of_mem hx), hhi.2 _ (List.mem_map_of_mem hx)⟩⟩

theorem placed_singleton (a : α) : placed key [a] = [some a] := by
  have h : Extent key [a] (key a) (key a) := ⟨by simp, by simp, by simp⟩
  rw [placed_eq h, Nat.sub_self, Nat.zero_add, span_one]
  simp [content]

/-- With distinct keys the layout does not depend on the order. -/
theorem placed_perm (hn : (xs.map key).Nodup) (hp : xs.Perm ys) :
    placed key xs = placed key ys := by
  by_cases hne : xs = []
  · subst hne
    rw [hp.nil_eq]
  obtain ⟨lo, hi, h⟩ : ∃ lo hi, Extent key _ lo hi := exists_extent hne
  have h' : Extent key ys lo hi :=
    ⟨((hp.map key).mem_iff).mp h.lo_mem, ((hp.map key).mem_iff).mp h.hi_mem,
      fun x hx => h.bounds x (hp.mem_iff.mpr hx)⟩
  rw [placed_eq h, placed_eq h', content_perm hn hp]

theorem content_outside (h : Extent key xs lo hi) (hk : k < lo ∨ hi < k) :
    content key xs k = none := by
  refine content_eq_none_iff.mpr fun x hx hkey => ?_
  have := h.bounds x hx
  omega

theorem placed_concat_above (h : Extent key xs lo hi) (ha : hi < key a) :
    placed key (xs ++ [a]) =
      placed key xs ++ List.replicate (key a - hi - 1) none ++ [some a] := by
  have hle : lo ≤ hi := by
    obtain ⟨x, hx, rfl⟩ := List.mem_map.mp h.lo_mem
    exact (h.bounds x hx).2
  have h' : Extent key (xs ++ [a]) lo (key a) := by
    refine ⟨by simpa using Or.inl (List.mem_map.mp h.lo_mem), by simp, fun x hx => ?_⟩
    rcases List.mem_append.mp hx with hx | hx
    · have := h.bounds x hx
      omega
    · obtain rfl := List.mem_singleton.mp hx
      omega
  have hfresh : ∀ x ∈ xs, key x ≠ key a := fun x hx => by
    have := h.bounds x hx
    omega
  rw [placed_eq h, placed_eq h', show key a - lo + 1 = hi - lo + 1 + (key a - hi - 1) + 1 by omega,
    span_append, span_append, span_one]
  congr 1
  · congr 1
    · refine span_congr fun i hi' => ?_
      rw [content_concat hfresh, if_neg (by omega)]
    · refine span_blank fun i hi' => ?_
      rw [content_concat hfresh, if_neg (by omega), content_outside h (by omega)]
  · rw [content_concat hfresh, if_pos (by omega)]

theorem placed_concat_below (h : Extent key xs lo hi) (ha : key a < lo) :
    placed key (xs ++ [a]) =
      some a :: (List.replicate (lo - key a - 1) none ++ placed key xs) := by
  have hle : lo ≤ hi := by
    obtain ⟨x, hx, rfl⟩ := List.mem_map.mp h.lo_mem
    exact (h.bounds x hx).2
  have h' : Extent key (xs ++ [a]) (key a) hi := by
    refine ⟨by simp, by simpa using Or.inl (List.mem_map.mp h.hi_mem), fun x hx => ?_⟩
    rcases List.mem_append.mp hx with hx | hx
    · have := h.bounds x hx
      omega
    · obtain rfl := List.mem_singleton.mp hx
      omega
  have hfresh : ∀ x ∈ xs, key x ≠ key a := fun x hx => by
    have := h.bounds x hx
    omega
  rw [placed_eq h, placed_eq h',
    show hi - key a + 1 = 1 + (lo - key a - 1) + (hi - lo + 1) by omega,
    span_append, span_append, span_one, List.append_assoc, List.singleton_append]
  congr 1
  · rw [content_concat hfresh, if_pos rfl]
  · congr 1
    · refine span_blank fun i hi' => ?_
      rw [content_concat hfresh, if_neg (by omega), content_outside h (by omega)]
    · rw [show key a + (1 + (lo - key a - 1)) = lo by omega]
      refine span_congr fun i hi' => ?_
      rw [content_concat hfresh, if_neg (by omega)]

theorem placed_concat_inside (h : Extent key xs lo hi) (hlo : lo ≤ key a) (hhi : key a ≤ hi)
    (hfresh : ∀ x ∈ xs, key x ≠ key a) :
    placed key (xs ++ [a]) = (placed key xs).set (key a - lo) (some a) := by
  have h' : Extent key (xs ++ [a]) lo hi := by
    refine ⟨by simpa using Or.inl (List.mem_map.mp h.lo_mem),
      by simpa using Or.inl (List.mem_map.mp h.hi_mem), fun x hx => ?_⟩
    rcases List.mem_append.mp hx with hx | hx
    · exact h.bounds x hx
    · obtain rfl := List.mem_singleton.mp hx
      exact ⟨hlo, hhi⟩
  rw [placed_eq h, placed_eq h']
  apply List.ext_getElem?
  intro i
  rw [List.getElem?_set, getElem?_span, getElem?_span, length_span, content_concat hfresh]
  split_ifs <;> first | rfl | omega

/-! ## Reading the layout -/

theorem getElem?_placed (h : Extent key xs lo hi) (i : Nat) :
    (placed key xs)[i]? = if i < hi - lo + 1 then some (content key xs (lo + i)) else none := by
  rw [placed_eq h, getElem?_span]

theorem length_placed (h : Extent key xs lo hi) : (placed key xs).length = hi - lo + 1 := by
  rw [placed_eq h, length_span]

end Bifrost.Placement
