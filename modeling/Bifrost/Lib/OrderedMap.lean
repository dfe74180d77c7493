/-
  Ordered associative containers: `std::map` and `std::set` with a user comparator.

  A container is the list of its entries in iteration order. `lowerBound`, `find?`,
  `emplace` and `erase` follow the documented behaviour of the standard containers:
  `lower_bound(k)` is the first entry that is not below `k`, a key is found there or
  nowhere, and `emplace` leaves an existing entry alone.

  The standard asks that the comparator is a strict order on the keys in use.
  `StrictTotalOn lt P` says so for the keys that satisfy `P`. Under it a `Sorted` container
  behaves as a finite map: the results here say what the operations do to membership and
  that they keep the order. A comparator that is an order only on part of its type (one
  that wraps around) is used by proving that the keys stay inside such a part.
-/
import Mathlib.Tactic.Common
import Mathlib.Data.List.TakeWhile

namespace Bifrost.OrderedMap

variable {κ α : Type*} (lt : κ → κ → Bool)

/-! ## Operations -/

/-- Entries before `lower_bound(k)`. -/
def below (k : κ) (m : List (κ × α)) : List (κ × α) := m.takeWhile fun e => lt e.1 k

/-- Entries from `lower_bound(k)` to the end. -/
def lowerBound (k : κ) (m : List (κ × α)) : List (κ × α) := m.dropWhile fun e => lt e.1 k

def find? (k : κ) (m : List (κ × α)) : Option (κ × α) :=
  match lowerBound lt k m with
  | [] => none
  | e :: _ => if lt k e.1 then none else some e

def emplace (k : κ) (v : α) (m : List (κ × α)) : List (κ × α) :=
  match find? lt k m with
  | some _ => m
  | none => below lt k m ++ (k, v) :: lowerBound lt k m

/-- `emplace_hint(end(), k)`: the end is the place when the last key is below `k`, else the
    hint is of no use. -/
def emplaceEnd (k : κ) (v : α) (m : List (κ × α)) : List (κ × α) :=
  match m.getLast? with
  | none => [(k, v)]
  | some e => if lt e.1 k then m ++ [(k, v)] else emplace lt k v m

def erase (k : κ) (m : List (κ × α)) : List (κ × α) :=
  match find? lt k m with
  | some _ => below lt k m ++ (lowerBound lt k m).tail
  | none => m

/-! ## Sorted containers -/

/-- The comparator is a strict total order on the keys with `P`. -/
structure StrictTotalOn (P : κ → Prop) : Prop where
  irrefl : ∀ a, P a → lt a a = false
  trans : ∀ a b c, P a → P b → P c → lt a b = true → lt b c = true → lt a c = true
  total : ∀ a b, P a → P b → lt a b = true ∨ a = b ∨ lt b a = true

def Sorted (m : List (κ × α)) : Prop := m.Pairwise fun a b => lt a.1 b.1 = true

variable {lt} {P : κ → Prop} {m : List (κ × α)} {k : κ} {v : α}

theorem StrictTotalOn.asymm (h : StrictTotalOn lt P) {a b : κ} (ha : P a) (hb : P b)
    (hab : lt a b = true) : lt b a = false := by
  cases hba : lt b a with
  | false => rfl
  | true =>
      have := h.trans a b a ha hb ha hab hba
      rw [h.irrefl a ha] at this
      cases this

theorem StrictTotalOn.mono (h : StrictTotalOn lt P) {Q : κ → Prop} (hQ : ∀ a, Q a → P a) :
    StrictTotalOn lt Q where
  irrefl a ha := h.irrefl a (hQ a ha)
  trans a b c ha hb hc := h.trans a b c (hQ a ha) (hQ b hb) (hQ c hc)
  total a b ha hb := h.total a b (hQ a ha) (hQ b hb)

theorem below_append_lowerBound (lt : κ → κ → Bool) (k : κ) (m : List (κ × α)) :
    below lt k m ++ lowerBound lt k m = m := List.takeWhile_append_dropWhile

theorem mem_below_lt {e : κ × α} (he : e ∈ below lt k m) : lt e.1 k = true :=
  List.all_eq_true.mp List.all_takeWhile e he

theorem lowerBound_sublist (lt : κ → κ → Bool) (k : κ) (m : List (κ × α)) :
    (lowerBound lt k m).Sublist m := List.dropWhile_sublist _

theorem erase_sublist (lt : κ → κ → Bool) (k : κ) (m : List (κ × α)) :
    (erase lt k m).Sublist m := by
  unfold erase
  split
  · conv => rhs; rw [← below_append_lowerBound lt k m]
    exact (List.Sublist.refl _).append (List.tail_sublist _)
  · exact List.Sublist.refl _

theorem Sorted.sublist {m' : List (κ × α)} (hs : Sorted lt m) (h : m'.Sublist m) :
    Sorted lt m' := List.Pairwise.sublist h hs

/-- From `lower_bound(k)` on nothing is below `k`. -/
theorem mem_lowerBound_not_lt (hlt : StrictTotalOn lt P) (hP : ∀ e ∈ m, P e.1) (hk : P k)
    (hs : Sorted lt m) {e : κ × α} (he : e ∈ lowerBound lt k m) : lt e.1 k = false := by
  induction m with
  | nil => simp [lowerBound] at he
  | cons a m ih =>
      have hPa : P a.1 := hP a List.mem_cons_self
      have hPm : ∀ e ∈ m, P e.1 := fun e he => hP e (List.mem_cons_of_mem a he)
      obtain ⟨hhead, htail⟩ := List.pairwise_cons.mp hs
      unfold lowerBound at he
      rw [List.dropWhile_cons] at he
      split at he
      · exact ih hPm htail he
      · next hak =>
          have hak : lt a.1 k = false := by simpa using hak
          rcases List.mem_cons.mp he with rfl | he
          · exact hak
          -- `a` is not below `k` and `e` stands after `a`
          · have hae := hhead e he
            cases hek : lt e.1 k with
            | false => rfl
            | true =>
                have := hlt.trans a.1 e.1 k hPa (hPm e he) hk hae hek
                rw [hak] at this
                cases this

theorem mem_lowerBound_iff (hlt : StrictTotalOn lt P) (hP : ∀ e ∈ m, P e.1) (hk : P k)
    (hs : Sorted lt m) (e : κ × α) : e ∈ lowerBound lt k m ↔ e ∈ m ∧ lt e.1 k = false := by
  constructor
  · intro he
    exact ⟨(lowerBound_sublist lt k m).mem he, mem_lowerBound_not_lt hlt hP hk hs he⟩
  · rintro ⟨he, hek⟩
    rw [← below_append_lowerBound lt k m] at he
    rcases List.mem_append.mp he with he | he
    · rw [mem_below_lt he] at hek
      cases hek
    · exact he

/-- What `find?` returns is the entry with the key. -/
theorem find?_some (hlt : StrictTotalOn lt P) (hP : ∀ e ∈ m, P e.1) (hk : P k)
    (hs : Sorted lt m) {e : κ × α} (hf : find? lt k m = some e) : e ∈ m ∧ e.1 = k := by
  unfold find? at hf
  split at hf
  · cases hf
  · next a rest hl =>
      split at hf
      · cases hf
      · next hka =>
          cases hf
          have hke : lt k e.1 = false := by simpa using hka
          have hmem : e ∈ lowerBound lt k m := by rw [hl]; exact List.mem_cons_self
          obtain ⟨hem, hek⟩ := (mem_lowerBound_iff hlt hP hk hs e).mp hmem
          refine ⟨hem, ?_⟩
          rcases hlt.total e.1 k (hP e hem) hk with h | h | h
          · rw [hek] at h; cases h
          · exact h
          · rw [hke] at h; cases h

/-- A key that is in the container is found. -/
theorem find?_none_iff (hlt : StrictTotalOn lt P) (hP : ∀ e ∈ m, P e.1) (hk : P k)
    (hs : Sorted lt m) : find? lt k m = none ↔ ∀ e ∈ m, e.1 ≠ k := by
  constructor
  · rintro hf e he rfl
    have hmem : e ∈ lowerBound lt e.1 m :=
      (mem_lowerBound_iff hlt hP hk hs e).mpr ⟨he, hlt.irrefl _ hk⟩
    unfold find? at hf
    cases hl : lowerBound lt e.1 m with
    | nil => rw [hl] at hmem; cases hmem
    | cons a rest =>
        rw [hl] at hf hmem
        have hka : lt e.1 a.1 = true := by simpa using hf
        have hsl : Sorted lt (a :: rest) := hl ▸ hs.sublist (lowerBound_sublist lt e.1 m)
        have ha : a ∈ m := (lowerBound_sublist lt e.1 m).mem (by
          rw [hl]; exact List.mem_cons_self)
        rcases List.mem_cons.mp hmem with rfl | hmem
        · rw [hlt.irrefl _ hk] at hka; cases hka
        · have hae := (List.pairwise_cons.mp hsl).1 e hmem
          rw [hlt.asymm (hP a ha) hk hae] at hka
          cases hka
  · intro h
    cases hf : find? lt k m with
    | none => rfl
    | some e =>
        obtain ⟨he, hek⟩ := find?_some hlt hP hk hs hf
        exact absurd hek (h e he)

/-- The entry with a key is the only one with it. -/
theorem find?_eq_some_iff (hlt : StrictTotalOn lt P) (hP : ∀ e ∈ m, P e.1) (hk : P k)
    (hs : Sorted lt m) (e : κ × α) : find? lt k m = some e ↔ e ∈ m ∧ e.1 = k := by
  have hdistinct (a b : κ × α) (ha : a ∈ m) (hab : lt a.1 b.1 = true) (heq : a.1 = b.1) :
      a = b := by
    rw [← heq, hlt.irrefl _ (hP a ha)] at hab
    cases hab
  have hunique := List.Pairwise.forall_of_forall_of_flip (fun _ _ _ => rfl)
    (hs.imp_of_mem fun ha _ hab => hdistinct _ _ ha hab)
    (hs.imp_of_mem fun ha _ hab heq => (hdistinct _ _ ha hab heq.symm).symm)
  constructor
  · exact find?_some hlt hP hk hs
  · rintro ⟨he, rfl⟩
    cases hf : find? lt e.1 m with
    | none => exact absurd rfl ((find?_none_iff hlt hP hk hs).mp hf e he)
    | some e' =>
        obtain ⟨he', hkey⟩ := find?_some hlt hP hk hs hf
        rw [hunique he' he hkey]

/-- Nothing else comes into the map. -/
theorem length_emplace_le (lt : κ → κ → Bool) (k : κ) (v : α) (m : List (κ × α)) :
    (emplace lt k v m).length ≤ m.length + 1 := by
  unfold emplace
  split
  · exact Nat.le_succ _
  · conv_rhs => rw [← below_append_lowerBound lt k m]
    rw [List.length_append, List.length_append, List.length_cons, Nat.add_assoc]

theorem mem_of_mem_emplace {e : κ × α} (h : e ∈ emplace lt k v m) : e ∈ m ∨ e = (k, v) := by
  unfold emplace at h
  split at h
  · exact Or.inl h
  · rw [← below_append_lowerBound lt k m]
    rcases List.mem_append.mp h with h | h
    · exact Or.inl (List.mem_append_left _ h)
    · rcases List.mem_cons.mp h with h | h
      · exact Or.inr h
      · exact Or.inl (List.mem_append_right _ h)

/-- `emplace` adds the entry exactly when its key is new. -/
theorem mem_emplace (hlt : StrictTotalOn lt P) (hP : ∀ e ∈ m, P e.1) (hk : P k)
    (hs : Sorted lt m) (e : κ × α) :
    e ∈ emplace lt k v m ↔ e ∈ m ∨ (e = (k, v) ∧ ∀ e' ∈ m, e'.1 ≠ k) := by
  unfold emplace
  split
  · next a hf =>
      obtain ⟨ha, hak⟩ := find?_some hlt hP hk hs hf
      exact ⟨Or.inl, fun h => h.elim id fun h => absurd hak (h.2 a ha)⟩
  · next hf =>
      have hnew := (find?_none_iff hlt hP hk hs).mp hf
      have hsplit : e ∈ m ↔ e ∈ below lt k m ∨ e ∈ lowerBound lt k m := by
        rw [← List.mem_append, below_append_lowerBound]
      rw [List.mem_append, List.mem_cons, hsplit]
      constructor
      · rintro (h | h | h)
        · exact Or.inl (Or.inl h)
        · exact Or.inr ⟨h, hnew⟩
        · exact Or.inl (Or.inr h)
      · rintro ((h | h) | ⟨h, -⟩)
        · exact Or.inl h
        · exact Or.inr (Or.inr h)
        · exact Or.inr (Or.inl h)

theorem sorted_emplace (hlt : StrictTotalOn lt P) (hP : ∀ e ∈ m, P e.1) (hk : P k)
    (hs : Sorted lt m) : Sorted lt (emplace lt k v m) := by
  unfold emplace
  split
  · exact hs
  · next hf =>
      have hnew := (find?_none_iff hlt hP hk hs).mp hf
      have hsl := hs.sublist (lowerBound_sublist lt k m)
      have hsb : Sorted lt (below lt k m) := hs.sublist (List.takeWhile_sublist _)
      -- every entry from `lower_bound` on is above `k`
      have habove : ∀ e ∈ lowerBound lt k m, lt k e.1 = true := by
        intro e he
        obtain ⟨hem, hek⟩ := (mem_lowerBound_iff hlt hP hk hs e).mp he
        rcases hlt.total e.1 k (hP e hem) hk with h | h | h
        · rw [hek] at h; cases h
        · exact absurd h (hnew e hem)
        · exact h
      refine List.pairwise_append.mpr ⟨hsb, List.pairwise_cons.mpr ⟨habove, hsl⟩, ?_⟩
      intro a ha b hb
      have hak := mem_below_lt ha
      rcases List.mem_cons.mp hb with rfl | hb
      · exact hak
      · have ham : a ∈ m := (List.takeWhile_sublist _).mem ha
        have hbm : b ∈ m := (lowerBound_sublist lt k m).mem hb
        exact hlt.trans a.1 k b.1 (hP a ham) hk (hP b hbm) hak (habove b hb)

/-- What is found afterwards: the entry that was there, else the new one under its key. -/
theorem find?_emplace [DecidableEq κ] (hlt : StrictTotalOn lt P) (hP : ∀ e ∈ m, P e.1)
    (hk : P k) (hs : Sorted lt m) {k' : κ} (hk' : P k') : find? lt k' (emplace lt k v m) =
      (find? lt k' m).or (if k = k' then some (k, v) else none) := by
  have hP' : ∀ e ∈ emplace lt k v m, P e.1 := by
    intro e he
    rcases mem_of_mem_emplace he with he | rfl
    · exact hP e he
    · exact hk
  have hfind := find?_eq_some_iff hlt hP' hk' (sorted_emplace hlt hP hk hs)
  cases hf : find? lt k' m with
  | some e =>
      obtain ⟨he, hkey⟩ := find?_some hlt hP hk' hs hf
      exact (hfind e).mpr ⟨(mem_emplace hlt hP hk hs e).mpr (.inl he), hkey⟩
  | none =>
      have hnone := (find?_none_iff hlt hP hk' hs).mp hf
      rw [Option.none_or]
      split
      · next heq => exact (hfind _).mpr ⟨(mem_emplace hlt hP hk hs _).mpr
          (.inr ⟨rfl, heq ▸ hnone⟩), heq⟩
      · next hne =>
          refine (find?_none_iff hlt hP' hk' (sorted_emplace hlt hP hk hs)).mpr fun e he => ?_
          rcases mem_of_mem_emplace he with he | rfl
          · exact hnone e he
          · exact hne


theorem lowerBound_suffix (lt : κ → κ → Bool) (k : κ) (m : List (κ × α)) :
    lowerBound lt k m <:+ m := List.dropWhile_suffix _

theorem lowerBound_of_above (habove : ∀ e ∈ m, lt e.1 k = true) : lowerBound lt k m = [] := by
  rw [lowerBound, List.dropWhile_eq_nil_iff]
  exact habove

theorem emplaceEnd_of_last (hlast : ∀ e ∈ m.getLast?, lt e.1 k = true) :
    emplaceEnd lt k v m = m ++ [(k, v)] := by
  unfold emplaceEnd
  cases he : m.getLast? with
  | none => rw [List.getLast?_eq_none_iff.mp he, List.nil_append]
  | some e => exact if_pos (hlast e he)

/-- A key above all others is put at the end. -/
theorem emplace_of_above (habove : ∀ e ∈ m, lt e.1 k = true) :
    emplace lt k v m = m ++ [(k, v)] := by
  have hlow := lowerBound_of_above habove
  have hbel : below lt k m = m := by
    have := below_append_lowerBound lt k m
    rwa [hlow, List.append_nil] at this
  simp only [emplace, find?, hlow, hbel]

/-- `erase` removes the entry with the key and no other. -/
theorem mem_erase (hlt : StrictTotalOn lt P) (hP : ∀ e ∈ m, P e.1) (hk : P k)
    (hs : Sorted lt m) (e : κ × α) : e ∈ erase lt k m ↔ e ∈ m ∧ e.1 ≠ k := by
  unfold erase
  split
  · next a hf =>
      obtain ⟨-, hak⟩ := find?_some hlt hP hk hs hf
      have hhead : ∃ rest, lowerBound lt k m = a :: rest := by
        unfold find? at hf
        split at hf
        · cases hf
        · next b rest hl =>
            split at hf
            · cases hf
            · cases hf; exact ⟨rest, hl⟩
      obtain ⟨rest, hl⟩ := hhead
      have hsl : Sorted lt (a :: rest) := hl ▸ hs.sublist (lowerBound_sublist lt k m)
      have hPa : ∀ e ∈ a :: rest, P e.1 := fun e he =>
        hP e ((lowerBound_sublist lt k m).mem (hl ▸ he))
      have hsplit : e ∈ m ↔ e ∈ below lt k m ∨ e ∈ a :: rest := by
        rw [← hl, ← List.mem_append, below_append_lowerBound]
      rw [hl, List.tail_cons, List.mem_append, hsplit, List.mem_cons]
      constructor
      · rintro (h | h)
        · refine ⟨Or.inl h, fun hek => ?_⟩
          have := mem_below_lt h
          rw [hek, hlt.irrefl k hk] at this
          cases this
        · refine ⟨Or.inr (Or.inr h), fun hek => ?_⟩
          have := (List.pairwise_cons.mp hsl).1 e h
          rw [hak, hek, hlt.irrefl k hk] at this
          cases this
      · rintro ⟨h | h | h, hek⟩
        · exact Or.inl h
        · exact absurd (h ▸ hak) hek
        · exact Or.inr h
  · next hf =>
      have hnew := (find?_none_iff hlt hP hk hs).mp hf
      exact ⟨fun h => ⟨h, hnew e h⟩, fun h => h.1⟩

/-! ## Dropping from the front -/

/-- Where what is dropped comes before what stays, the drop stops at the right place. -/
theorem dropWhile_eq_filter {β : Type*} {drop : β → Bool} {l : List β}
    (hmono : l.Pairwise fun a b => drop b = true → drop a = true) :
    l.dropWhile drop = l.filter fun b => !drop b := by
  induction l with
  | nil => rfl
  | cons a l ih =>
      obtain ⟨hhead, htail⟩ := List.pairwise_cons.mp hmono
      cases ha : drop a with
      | true => simp only [List.dropWhile_cons, List.filter_cons, ha, if_true, ih htail,
          Bool.not_true, Bool.false_eq_true, if_false]
      | false =>
          have hall : ∀ b ∈ a :: l, (!drop b) = true := by
            refine List.forall_mem_cons.mpr ⟨by rw [ha]; rfl, fun b hb => ?_⟩
            cases hb' : drop b with
            | false => rfl
            | true => exact absurd (hhead b hb hb') (by rw [ha]; exact Bool.false_ne_true)
          rw [List.filter_eq_self.mpr hall,
            List.dropWhile_cons_of_neg (by rw [ha]; exact Bool.false_ne_true)]

/-- And the last that stays is the last of all. -/
theorem getLast?_filter {β : Type*} {keep : β → Bool} {l : List β}
    (hmono : l.Pairwise fun a b => keep a = true → keep b = true) :
    ∀ a ∈ (l.filter keep).getLast?, l.getLast? = some a := by
  rcases List.eq_nil_or_concat l with rfl | ⟨init, b, rfl⟩
  · exact fun a ha => by cases ha
  · intro a ha
    rw [List.concat_eq_append] at *
    rw [List.filter_append] at ha
    cases hb : keep b with
    | true =>
        rw [List.filter_cons_of_pos hb, List.filter_nil, List.getLast?_concat] at ha
        rw [List.getLast?_concat, ha]
    | false =>
        rw [List.filter_cons_of_neg (by rw [hb]; exact Bool.false_ne_true), List.filter_nil,
          List.append_nil] at ha
        obtain ⟨hmem, hkeep⟩ := List.mem_filter.mp (List.mem_of_getLast? ha)
        have hall := (List.pairwise_append.mp hmono).2.2 a hmem b (List.mem_singleton_self b)
        rw [hb] at hall
        exact absurd (hall hkeep) Bool.false_ne_true

/-! ## Changing the key type -/

section Map

variable {κ' : Type*} {lt' : κ' → κ' → Bool} {f : κ → κ'}

/-- Rename the keys of a container. -/
def mapKeys (f : κ → κ') (m : List (κ × α)) : List (κ' × α) := m.map fun e => (f e.1, e.2)

/-- Along a renaming that keeps the order, `emplace` is `emplace`. -/
theorem mapKeys_emplace (hf : ∀ a b, lt' (f a) (f b) = lt a b) (k : κ) (v : α)
    (m : List (κ × α)) :
    mapKeys f (emplace lt k v m) = emplace lt' (f k) v (mapKeys f m) := by
  have hlow : lowerBound lt' (f k) (mapKeys f m) = mapKeys f (lowerBound lt k m) := by
    simp only [lowerBound, mapKeys, List.dropWhile_map, Function.comp_def, hf]
  have hbel : below lt' (f k) (mapKeys f m) = mapKeys f (below lt k m) := by
    simp only [below, mapKeys, List.takeWhile_map, Function.comp_def, hf]
  have hfind : find? lt' (f k) (mapKeys f m) = (find? lt k m).map fun e => (f e.1, e.2) := by
    unfold find?
    rw [hlow]
    cases lowerBound lt k m with
    | nil => rfl
    | cons a rest =>
        simp only [mapKeys, List.map_cons, hf]
        split <;> rfl
  unfold emplace
  rw [hfind]
  cases find? lt k m with
  | some e => rfl
  | none =>
      simp only [Option.map_none, hlow, hbel]
      simp [mapKeys]

theorem sorted_mapKeys_iff (hf : ∀ a b, lt' (f a) (f b) = lt a b) (m : List (κ × α)) :
    Sorted lt' (mapKeys f m) ↔ Sorted lt m := by
  simp only [Sorted, mapKeys, List.pairwise_map, hf]

end Map

end Bifrost.OrderedMap
