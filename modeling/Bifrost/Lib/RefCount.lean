/-
  Reference-counted cells and the pointers that share them.

  A cell counts the references to it and goes when the last is released. A pointer is one of a
  finite number of names and points to a cell or to nothing; on the way from one pointer to
  another a reference is loose. `Counted s loose` says that every count is right: it is the
  number of pointers and of loose references to the cell, and no cell with count 0 is left.

  Each primitive keeps it, and the two rules that a program needs follow: to assign is to
  change what one pointer sees and no other (`assign_counted`, `assignNew_counted`), and so is to
  write to a cell whose count is 1 (`write_counted`).
-/
import Bifrost.Lib.Trace
import Mathlib.Data.Fintype.Card
import Mathlib.Logic.Equiv.Basic
import Mathlib.Logic.Function.Basic

namespace Bifrost.RefCount

structure Cell (α : Type*) where
  refs : Nat
  value : α
  deriving DecidableEq, Repr

/-- The cells by address, an address from which on all are free, and the pointers. -/
structure Store (ι α : Type*) where
  cells : Nat → Option (Cell α) := fun _ => none
  next : Nat := 0
  ptr : ι → Option Nat := fun _ => none

/-- A reference to a cell that is gone. -/
structure Dangling where
  address : Nat
  deriving DecidableEq, Repr

namespace Store

variable {ι α : Type*}

/-! ## Primitives -/

/-- One more reference to the cell, loose. -/
def addRef (s : Store ι α) : Option Nat → Except Dangling (Store ι α)
  | none => .ok s
  | some a =>
    match s.cells a with
    | none => .error ⟨a⟩
    | some c =>
      .ok { s with cells := Function.update s.cells a (some { c with refs := c.refs + 1 }) }

/-- A loose reference is given up, and with the last one the cell. -/
def release (s : Store ι α) : Option Nat → Except Dangling (Store ι α)
  | none => .ok s
  | some a =>
    match s.cells a with
    | none => .error ⟨a⟩
    | some c =>
      let left := if c.refs - 1 = 0 then none else some { c with refs := c.refs - 1 }
      .ok { s with cells := Function.update s.cells a left }

/-- A new cell, with a loose reference. -/
def alloc (s : Store ι α) (value : α) : Store ι α × Nat :=
  ({ s with
     cells := Function.update s.cells s.next (some { refs := 1, value })
     next := s.next + 1 }, s.next)

/-- The value of a cell is overwritten. -/
def write (s : Store ι α) (a : Nat) (value : α) : Store ι α :=
  { s with cells := Function.update s.cells a ((s.cells a).map fun c => { c with value }) }

section Names

variable [DecidableEq ι]

/-- A pointer gets a reference. -/
def attach (s : Store ι α) (i : ι) (p : Option Nat) : Store ι α :=
  { s with ptr := Function.update s.ptr i p }

/-- A pointer lets go of its reference. -/
def detach (s : Store ι α) (i : ι) : Store ι α := s.attach i none

/-- The pointer's reference is replaced by a loose one. -/
def replace (s : Store ι α) (i : ι) (p : Option Nat) : Except Dangling (Store ι α) := do
  .ok ((← (s.detach i).release (s.ptr i)).attach i p)

/-- The pointer comes to point where `p` does. -/
def assign (s : Store ι α) (i : ι) (p : Option Nat) : Except Dangling (Store ι α) := do
  (← s.addRef p).replace i p

/-- The pointer takes over what another points to, which then points to nothing. -/
def move (s : Store ι α) (i j : ι) : Except Dangling (Store ι α) :=
  (s.detach j).replace i (s.ptr j)

def swap (s : Store ι α) (i j : ι) : Store ι α := { s with ptr := s.ptr ∘ Equiv.swap i j }

/-- The pointer comes to point to a new cell. -/
def assignNew (s : Store ι α) (i : ι) (value : α) : Except Dangling (Store ι α) :=
  (s.alloc value).1.replace i (some (s.alloc value).2)

end Names

/-! ## What a pointer sees -/

def content (s : Store ι α) (a : Nat) : Option α := (s.cells a).map Cell.value

def view (s : Store ι α) (i : ι) : Option α := (s.ptr i).bind s.content

def refs (s : Store ι α) (a : Nat) : Nat := ((s.cells a).map Cell.refs).getD 0

/-- The pointers to a cell. -/
def holders [Fintype ι] (s : Store ι α) (a : Nat) : Finset ι :=
  Finset.univ.filter fun i => s.ptr i = some a

theorem attach_ptr_self [DecidableEq ι] (s : Store ι α) (i : ι) (p : Option Nat) :
    (s.attach i p).ptr i = p := Function.update_self ..

theorem attach_ptr_ne [DecidableEq ι] (s : Store ι α) {i k : ι} (p : Option Nat) (h : k ≠ i) :
    (s.attach i p).ptr k = s.ptr k := Function.update_of_ne h _ _

/-- The store with another cell at an address. -/
def put (s : Store ι α) (a : Nat) (cell : Option (Cell α)) : Store ι α :=
  { s with cells := Function.update s.cells a cell }

theorem put_cells_self (s : Store ι α) (a : Nat) (cell : Option (Cell α)) :
    (s.put a cell).cells a = cell := Function.update_self ..

theorem put_cells_ne (s : Store ι α) {a b : Nat} (cell : Option (Cell α)) (h : b ≠ a) :
    (s.put a cell).cells b = s.cells b := Function.update_of_ne h _ _

theorem refs_of_cells {s : Store ι α} {a : Nat} {c : Cell α} (h : s.cells a = some c) :
    s.refs a = c.refs := by
  rw [refs, h]
  rfl

end Store

variable {ι α : Type*} [Fintype ι]

/-- Every count is right. -/
structure Counted (s : Store ι α) (loose : List Nat) : Prop where
  count : ∀ a, s.refs a = (s.holders a).card + loose.count a
  pos : ∀ a c, s.cells a = some c → 0 < c.refs
  fresh : ∀ a, s.next ≤ a → s.cells a = none

namespace Counted

variable {s : Store ι α} {loose : List Nat}

theorem init : Counted ({} : Store ι α) [] where
  count a := by simp [Store.refs, Store.holders]
  pos a c h := by cases h
  fresh _ _ := rfl

/-- A cell that is referred to is there. -/
theorem exists_cell (h : Counted s loose) {a : Nat} (href : 0 < (s.holders a).card ∨ a ∈ loose) :
    ∃ c, s.cells a = some c := by
  have hpos : 0 < s.refs a := by
    rw [h.count a]
    rcases href with hcard | hmem
    · omega
    · have := List.count_pos_iff.mpr hmem
      omega
  cases hcell : s.cells a with
  | none =>
      rw [Store.refs, hcell] at hpos
      cases hpos
  | some c => exact ⟨c, rfl⟩

theorem mem_holders {i : ι} {a : Nat} : i ∈ s.holders a ↔ s.ptr i = some a := by
  rw [Store.holders, Finset.mem_filter, and_iff_right (Finset.mem_univ i)]

theorem exists_cell_of_ptr (h : Counted s loose) {i : ι} {a : Nat} (hi : s.ptr i = some a) :
    ∃ c, s.cells a = some c :=
  h.exists_cell (.inl (Finset.card_pos.mpr ⟨i, mem_holders.mpr hi⟩))

/-! ## Primitives keep the counts -/

section Pointers

variable [DecidableEq ι] {i : ι} {p : Option Nat}

theorem card_attach (hi : s.ptr i = none) (p : Option Nat) (a : Nat) :
    ((s.attach i p).holders a).card = (s.holders a).card + p.toList.count a := by
  have hnot : i ∉ s.holders a := by rw [mem_holders, hi]; simp
  by_cases hp : p = some a
  · have hinsert : (s.attach i p).holders a = insert i (s.holders a) := by
      ext k
      rw [Finset.mem_insert, mem_holders, mem_holders]
      by_cases hk : k = i
      · rw [hk, s.attach_ptr_self]
        simp [hp]
      · rw [s.attach_ptr_ne p hk]
        simp [hk]
    rw [hinsert, Finset.card_insert_of_notMem hnot, hp]
    simp
  · have hsame : (s.attach i p).holders a = s.holders a := by
      ext k
      rw [mem_holders, mem_holders]
      by_cases hk : k = i
      · rw [hk, s.attach_ptr_self, hi]
        simp [hp]
      · rw [s.attach_ptr_ne p hk]
    rw [hsame]
    cases p with
    | none => rfl
    | some b =>
        have hne : b ≠ a := fun heq => hp (congrArg some heq)
        simp [hne]

theorem card_detach (s : Store ι α) (i : ι) (a : Nat) :
    (s.holders a).card = ((s.detach i).holders a).card + (s.ptr i).toList.count a := by
  have hback : (s.detach i).attach i (s.ptr i) = s := by
    rw [Store.detach, Store.attach, Store.attach]
    simp
  rw [← card_attach (Function.update_self ..) (s.ptr i) a, hback]

theorem attach (h : Counted s (p.toList ++ loose)) (hi : s.ptr i = none) :
    Counted (s.attach i p) loose where
  count a := by
    have hcount := h.count a
    rw [List.count_append] at hcount
    rw [card_attach hi p a]
    exact hcount.trans (Nat.add_assoc _ _ _).symm
  pos := h.pos
  fresh := h.fresh

theorem detach (h : Counted s loose) (i : ι) :
    Counted (s.detach i) ((s.ptr i).toList ++ loose) where
  count a := by
    have hcount := h.count a
    rw [card_detach s i a] at hcount
    rw [List.count_append]
    exact hcount.trans (Nat.add_assoc _ _ _)
  pos := h.pos
  fresh := h.fresh

end Pointers

/-- Another cell at an address, with the count that is right for it. -/
theorem put (h : Counted s loose) {a : Nat} {loose' : List Nat} {cell : Option (Cell α)}
    (hcount : (cell.map Cell.refs).getD 0 = (s.holders a).card + loose'.count a)
    (hother : ∀ b, b ≠ a → loose'.count b = loose.count b)
    (hpos : ∀ c, cell = some c → 0 < c.refs) (hnext : s.cells a ≠ none) :
    Counted (s.put a cell) loose' where
  count b := by
    show ((s.put a cell).cells b |>.map Cell.refs).getD 0 = (s.holders b).card + _
    by_cases hb : b = a
    · rw [hb, s.put_cells_self, hcount]
    · rw [s.put_cells_ne cell hb, hother b hb]
      exact h.count b
  pos b c hc := by
    by_cases hb : b = a
    · rw [hb, s.put_cells_self] at hc
      exact hpos c hc
    · rw [s.put_cells_ne cell hb] at hc
      exact h.pos b c hc
  fresh b hb := by
    have hne : b ≠ a := fun heq => hnext (heq ▸ h.fresh b hb)
    rw [s.put_cells_ne cell hne]
    exact h.fresh b hb

theorem addRef (h : Counted s loose) {p : Option Nat}
    (hp : ∀ a, p = some a → ∃ c, s.cells a = some c) :
    ∃ s', s.addRef p = .ok s' ∧ Counted s' (p.toList ++ loose) ∧ s'.ptr = s.ptr ∧
      s'.content = s.content := by
  cases p with
  | none => exact ⟨s, rfl, h, rfl, rfl⟩
  | some a =>
      obtain ⟨c, hc⟩ := hp a rfl
      refine ⟨s.put a (some { c with refs := c.refs + 1 }), ?_, h.put ?_ ?_ ?_ ?_, rfl, ?_⟩
      · rw [Store.addRef, hc]
        rfl
      · have := h.count a
        rw [Store.refs_of_cells hc] at this
        rw [Option.toList_some, List.singleton_append, List.count_cons_self]
        exact (congrArg (· + 1) this).trans (Nat.add_assoc _ _ _)
      · intro b hb
        rw [Option.toList_some, List.singleton_append, List.count_cons_of_ne (Ne.symm hb)]
      · rintro c' heq
        cases heq
        exact Nat.succ_pos _
      · rw [hc]
        exact Option.some_ne_none c
      · funext b
        rw [Store.content, Store.content]
        by_cases hb : b = a
        · rw [hb, s.put_cells_self, hc]
          rfl
        · rw [s.put_cells_ne _ hb]

/-- What is still referred to keeps its content. -/
theorem release {p : Option Nat} (h : Counted s (p.toList ++ loose)) :
    ∃ s', s.release p = .ok s' ∧ Counted s' loose ∧ s'.ptr = s.ptr ∧
      ∀ a, 0 < (s.holders a).card ∨ a ∈ loose → s'.content a = s.content a := by
  cases p with
  | none => exact ⟨s, rfl, h, rfl, fun _ _ => rfl⟩
  | some a =>
      obtain ⟨c, hc⟩ := h.exists_cell (.inr (List.mem_append_left _ (List.mem_singleton.mpr rfl)))
      have hcount := h.count a
      rw [Store.refs_of_cells hc, Option.toList_some, List.singleton_append,
        List.count_cons_self] at hcount
      refine ⟨s.put a (if c.refs - 1 = 0 then none else some { c with refs := c.refs - 1 }), ?_,
        h.put ?_ ?_ ?_ ?_, rfl, ?_⟩
      · rw [Store.release, hc]
        rfl
      · split
        · show 0 = _
          omega
        · show c.refs - 1 = _
          omega
      · intro b hb
        rw [Option.toList_some, List.singleton_append, List.count_cons_of_ne (Ne.symm hb)]
      · intro c' heq
        split at heq
        · cases heq
        · cases heq
          show 0 < c.refs - 1
          omega
      · rw [hc]
        exact Option.some_ne_none c
      · intro b href
        rw [Store.content, Store.content]
        by_cases hb : b = a
        · rw [hb] at href
          have hpos : 0 < (s.holders a).card + loose.count a := by
            rcases href with hcard | hmem
            · omega
            · have := List.count_pos_iff.mpr hmem
              omega
          rw [hb, s.put_cells_self, hc, if_neg (by omega)]
          rfl
        · rw [s.put_cells_ne _ hb]

theorem alloc (h : Counted s loose) (value : α) :
    Counted (s.alloc value).1 ((s.alloc value).2 :: loose) ∧
      (s.alloc value).1.content (s.alloc value).2 = some value ∧
      ∀ a, 0 < (s.holders a).card ∨ a ∈ loose → (s.alloc value).1.content a = s.content a := by
  have hgone := h.fresh s.next (Nat.le_refl _)
  have hself : (s.alloc value).1.cells s.next = some { refs := 1, value } :=
    Function.update_self ..
  have hne : ∀ {a}, a ≠ s.next → (s.alloc value).1.cells a = s.cells a :=
    fun hne => Function.update_of_ne hne _ _
  have hnone : (s.holders s.next).card + loose.count s.next = 0 := by
    rw [← h.count, Store.refs, hgone]
    rfl
  refine ⟨⟨fun a => ?_, fun a c hc => ?_, fun a ha => ?_⟩, ?_, fun a href => ?_⟩
  · show _ = (s.holders a).card + (s.next :: loose).count a
    by_cases ha : a = s.next
    · rw [ha, Store.refs_of_cells hself, List.count_cons_self]
      show 1 = _
      omega
    · rw [Store.refs, hne ha, List.count_cons_of_ne (Ne.symm ha)]
      exact h.count a
  · by_cases ha : a = s.next
    · rw [ha, hself] at hc
      cases hc
      exact Nat.one_pos
    · rw [hne ha] at hc
      exact h.pos a c hc
  · have hlt : s.next + 1 ≤ a := ha
    rw [hne (by omega)]
    exact h.fresh a (by omega)
  · rw [Store.content, show (s.alloc value).2 = s.next from rfl, hself]
    rfl
  · have ha : a ≠ s.next := by
      rintro rfl
      rcases href with hcard | hmem
      · omega
      · have := List.count_pos_iff.mpr hmem
        omega
    rw [Store.content, hne ha]
    rfl

/-! ## Assignments and writes -/

section Assign

variable [DecidableEq ι] {i : ι}

/-- A pointer takes a loose reference over, and no other pointer sees it. -/
theorem replace {p : Option Nat} (h : Counted s p.toList) (i : ι) :
    ∃ s', s.replace i p = .ok s' ∧ Counted s' [] ∧ s'.ptr = Function.update s.ptr i p ∧
      ∀ k, s'.view k = if k = i then p.bind s.content else s.view k := by
  obtain ⟨s₁, hok, h₁, hptr, hkept⟩ := (h.detach i).release
  have hi : s₁.ptr i = none := by
    rw [hptr]
    exact s.attach_ptr_self i none
  have hother : ∀ k, k ≠ i → s₁.ptr k = s.ptr k := by
    intro k hk
    rw [hptr]
    exact s.attach_ptr_ne none hk
  rw [← List.append_nil p.toList] at h₁
  refine ⟨s₁.attach i p, ?_, h₁.attach hi, ?_, fun k => ?_⟩
  · rw [Store.replace, hok]
    rfl
  · rw [Store.attach, hptr, Store.detach, Store.attach, Function.update_idem]
  · by_cases hk : k = i
    · rw [if_pos hk, hk, Store.view, s₁.attach_ptr_self]
      cases p with
      | none => rfl
      | some a => exact hkept a (.inr List.mem_cons_self)
    · rw [if_neg hk, Store.view, s₁.attach_ptr_ne p hk, hother k hk, Store.view]
      cases hptrk : s.ptr k with
      | none => rfl
      | some a =>
          refine hkept a (.inl (Finset.card_pos.mpr ⟨k, mem_holders.mpr ?_⟩))
          rw [← hptrk]
          exact s.attach_ptr_ne none hk

/-- **To assign is to change what one pointer sees.** -/
theorem assign {p : Option Nat} (h : Counted s []) (i : ι)
    (hp : ∀ a, p = some a → ∃ j, s.ptr j = some a) :
    ∃ s', s.assign i p = .ok s' ∧ Counted s' [] ∧ s'.ptr = Function.update s.ptr i p ∧
      ∀ k, s'.view k = if k = i then p.bind s.content else s.view k := by
  obtain ⟨s₁, hok, h₁, hptr, hcontent⟩ := h.addRef fun a ha => by
    obtain ⟨j, hj⟩ := hp a ha
    exact h.exists_cell_of_ptr hj
  rw [List.append_nil] at h₁
  obtain ⟨s', hok', h', hptr', hview⟩ := h₁.replace i
  refine ⟨s', ?_, h', by rw [hptr', hptr], fun k => ?_⟩
  · rw [Store.assign, hok]
    exact hok'
  · rw [hview k, hcontent, Store.view, Store.view, hptr, hcontent]

/-- **A new cell is seen by the one pointer it is for.** -/
theorem assignNew (h : Counted s []) (i : ι) (value : α) :
    ∃ s', s.assignNew i value = .ok s' ∧ Counted s' [] ∧
      s'.ptr = Function.update s.ptr i (some s.next) ∧ s'.refs s.next = 1 ∧
      ∀ k, s'.view k = if k = i then some value else s.view k := by
  obtain ⟨h₁, hnew, hkept⟩ := h.alloc value
  obtain ⟨s', hok, h', hptr, hview⟩ := @replace _ _ _ _ _ (some (s.alloc value).2) h₁ i
  refine ⟨s', hok, h', hptr, ?_, fun k => ?_⟩
  · have hself : s'.ptr i = some s.next := by
      rw [hptr]
      exact Function.update_self ..
    have hholders : s'.holders s.next = {i} := by
      refine Finset.eq_singleton_iff_unique_mem.mpr ⟨mem_holders.mpr hself, fun k hk => ?_⟩
      by_contra hne
      have hold : s.ptr k = some s.next := by
        rw [mem_holders, hptr] at hk
        exact (Function.update_of_ne hne _ _).symm.trans hk
      obtain ⟨c, hc⟩ := h.exists_cell_of_ptr hold
      rw [h.fresh s.next (Nat.le_refl _)] at hc
      cases hc
    rw [h'.count, hholders, Finset.card_singleton, List.count_nil]
  rw [hview k]
  by_cases hk : k = i
  · rw [if_pos hk, if_pos hk]
    exact hnew
  · rw [if_neg hk, if_neg hk, Store.view, Store.view, show (s.alloc value).1.ptr = s.ptr from rfl]
    cases hptrk : s.ptr k with
    | none => rfl
    | some a => exact hkept a (.inl (Finset.card_pos.mpr ⟨k, mem_holders.mpr hptrk⟩))

theorem move (h : Counted s []) (i j : ι) :
    ∃ s', s.move i j = .ok s' ∧ Counted s' [] ∧
      s'.ptr = Function.update (Function.update s.ptr j none) i (s.ptr j) ∧
      ∀ k, s'.view k = if k = i then s.view j else if k = j then none else s.view k := by
  have hdetached := h.detach j
  rw [List.append_nil] at hdetached
  obtain ⟨s', hok, h', hptr, hview⟩ := hdetached.replace i
  refine ⟨s', hok, h', hptr, fun k => ?_⟩
  rw [hview k]
  by_cases hk : k = i
  · rw [if_pos hk, if_pos hk]
    rfl
  · rw [if_neg hk, if_neg hk]
    by_cases hj : k = j
    · rw [if_pos hj, hj, Store.view, Store.detach, s.attach_ptr_self]
      rfl
    · rw [if_neg hj, Store.view, Store.detach, s.attach_ptr_ne none hj]
      rfl

theorem swap (h : Counted s []) (i j : ι) : Counted (s.swap i j) [] where
  count a := by
    have hcard : ((s.swap i j).holders a).card = (s.holders a).card := by
      refine Finset.card_equiv (Equiv.swap i j) fun k => ?_
      rw [mem_holders, mem_holders]
      rfl
    rw [hcard]
    exact h.count a
  pos := h.pos
  fresh := h.fresh

end Assign

/-- A cell with one reference is the cell of one pointer. -/
theorem eq_of_refs_eq_one (h : Counted s []) {i k : ι} {a : Nat} (hone : s.refs a = 1)
    (hi : s.ptr i = some a) (hk : s.ptr k = some a) : k = i := by
  rw [h.count, List.count_nil, Nat.add_zero, Finset.card_eq_one] at hone
  obtain ⟨j, hj⟩ := hone
  have hmem : ∀ {l}, s.ptr l = some a → l = j := fun hl =>
    Finset.mem_singleton.mp (hj ▸ mem_holders.mpr hl)
  rw [hmem hk, hmem hi]

/-- **To write to a cell with one reference is to change what one pointer sees.** -/
theorem write [DecidableEq ι] (h : Counted s []) {i : ι} {a : Nat} (hone : s.refs a = 1)
    (hi : s.ptr i = some a) (value : α) : Counted (s.write a value) [] ∧
      ∀ k, (s.write a value).view k = if k = i then some value else s.view k := by
  obtain ⟨c, hc⟩ := h.exists_cell_of_ptr hi
  have hput : s.write a value = s.put a (some { c with value }) := by
    rw [Store.write, hc]
    rfl
  rw [hput]
  refine ⟨h.put ?_ (fun _ _ => rfl) ?_ (by rw [hc]; exact Option.some_ne_none c), fun k => ?_⟩
  · have hcount := h.count a
    rwa [Store.refs_of_cells hc] at hcount
  · rintro c' heq
    cases heq
    exact h.pos a c hc
  · show (s.ptr k).bind (s.put a _).content = _
    by_cases hk : k = i
    · rw [if_pos hk, hk, hi, Option.bind_some, Store.content, s.put_cells_self]
      rfl
    · rw [if_neg hk, Store.view]
      cases hptr : s.ptr k with
      | none => rfl
      | some b =>
          have hne : b ≠ a := fun heq => hk (h.eq_of_refs_eq_one hone hi (heq ▸ hptr))
          rw [Option.bind_some, Option.bind_some, Store.content, s.put_cells_ne _ hne]
          rfl

end Counted

end Bifrost.RefCount
