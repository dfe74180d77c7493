/-
  Byte strings with the operations of `std::string`, and the ways a scan over a text fails.

  A position is a `Nat`, `npos` is `none`. Differences of positions are taken in `size_t`,
  and `npos` plus an offset wraps around to the offset less one. `substr` from a position
  behind the end throws, from the end itself it is empty; the count is cut to what is left.
-/
import Mathlib.Algebra.Order.Ring.Int
import Mathlib.Data.List.Infix
import Mathlib.Data.List.TakeWhile
import Mathlib.Tactic.Common

namespace Bifrost.Text

/-- What ends a scan: an exception of the standard library (the first two), or a step whose
    behaviour is undefined. -/
inductive TextFault where
  | outOfRange
  | invalidArgument
  | emptyStack
  | noReturn
  deriving DecidableEq, Repr

/-- The bytes of a literal. -/
def ascii (s : String) : List UInt8 := s.toList.map Char.toUInt8

/-- `a - b` in `size_t`. -/
def sizeSub (a b : Nat) : Nat := if b ≤ a then a - b else 2 ^ 64 - (b - a)

/-- `pos + offset` in `size_t`, for a position that may be `npos`. -/
def offsetFrom (pos : Option Nat) (offset : Nat) : Nat :=
  match pos with
  | some pos => pos + offset
  | none => offset - 1

/-- `text.find(pattern)`. -/
def find (pattern : List UInt8) : List UInt8 → Option Nat
  | [] => if pattern.isEmpty then some 0 else none
  | c :: text =>
    if pattern.isPrefixOf (c :: text) then some 0 else (find pattern text).map (· + 1)

/-- `text.substr(pos)`. -/
def substr (text : List UInt8) (pos : Nat) : Except TextFault (List UInt8) :=
  if pos > text.length then .error .outOfRange else .ok (text.drop pos)

/-- `text.substr(pos, count)`. -/
def substrCount (text : List UInt8) (pos count : Nat) : Except TextFault (List UInt8) :=
  if pos > text.length then .error .outOfRange else .ok ((text.drop pos).take count)

/-! ## The first occurrence -/

/-- `rest` is what stands behind the first occurrence of `pattern`. -/
def Behind (pattern text rest : List UInt8) : Prop :=
  ∃ before, text = before ++ (pattern ++ rest) ∧
    ∀ earlier, earlier ++ pattern <+: text → before.length ≤ earlier.length

section Find

variable {pattern text : List UInt8}

/-- `find` finds the first occurrence, if there is one. -/
theorem find_cases (hne : pattern ≠ []) (text : List UInt8) :
    (find pattern text = none ∧ ∀ earlier, ¬ earlier ++ pattern <+: text) ∨
    ∃ before rest, find pattern text = some before.length ∧
      text = before ++ (pattern ++ rest) ∧
      ∀ earlier, earlier ++ pattern <+: text → before.length ≤ earlier.length := by
  induction text with
  | nil =>
      refine Or.inl ⟨by simp [find, hne], fun earlier hpre => ?_⟩
      exact hne (List.append_eq_nil_iff.mp (List.prefix_nil.mp hpre)).2
  | cons c text ih =>
      unfold find
      split
      · next hpre =>
          obtain ⟨rest, hrest⟩ := List.isPrefixOf_iff_prefix.mp hpre
          exact Or.inr ⟨[], rest, rfl, hrest.symm, fun _ _ => Nat.zero_le _⟩
      · next hpre =>
          -- an occurrence does not begin at the first byte, so it lies in the rest
          have hlater : ∀ earlier, earlier ++ pattern <+: c :: text →
              ∃ d earlier', earlier = d :: earlier' ∧ earlier' ++ pattern <+: text := by
            intro earlier h
            cases earlier with
            | nil => exact absurd (List.isPrefixOf_iff_prefix.mpr h) hpre
            | cons d earlier' => exact ⟨d, earlier', rfl, (List.cons_prefix_cons.mp h).2⟩
          rcases ih with ⟨hnone, hno⟩ | ⟨before, rest, hsome, htext, hfirst⟩
          · refine Or.inl ⟨by rw [hnone]; rfl, fun earlier h => ?_⟩
            obtain ⟨d, earlier', -, h'⟩ := hlater earlier h
            exact hno earlier' h'
          · refine Or.inr ⟨c :: before, rest, by rw [hsome]; rfl, by rw [htext]; rfl,
              fun earlier h => ?_⟩
            obtain ⟨d, earlier', rfl, h'⟩ := hlater earlier h
            exact Nat.succ_le_succ (hfirst earlier' h')

theorem find_eq_none_iff (hne : pattern ≠ []) :
    find pattern text = none ↔ ¬ pattern <:+: text := by
  have hoccurs : pattern <:+: text ↔ ∃ earlier, earlier ++ pattern <+: text := by
    constructor
    · rintro ⟨earlier, rest, h⟩
      exact ⟨earlier, rest, h⟩
    · rintro ⟨earlier, rest, h⟩
      exact ⟨earlier, rest, h⟩
  rw [hoccurs]
  rcases find_cases hne text with ⟨hnone, hno⟩ | ⟨before, rest, hsome, htext, -⟩
  · simpa [hnone] using hno
  · rw [hsome]
    refine iff_of_false (by simp) (not_not_intro ⟨before, rest, ?_⟩)
    rw [htext, List.append_assoc]

/-- What stands behind the first occurrence begins right behind the place that is found. -/
theorem find_eq_some (hne : pattern ≠ []) {pos : Nat} (h : find pattern text = some pos) :
    pos + pattern.length ≤ text.length ∧
    ∀ rest, Behind pattern text rest ↔ rest = text.drop (pos + pattern.length) := by
  rcases find_cases hne text with ⟨hnone, -⟩ | ⟨before, rest, hsome, htext, hfirst⟩
  · cases hnone.symm.trans h
  · obtain rfl := Option.some.inj (hsome.symm.trans h)
    have hdrop : text.drop (before.length + pattern.length) = rest := by
      rw [htext, ← List.append_assoc, ← List.length_append, List.drop_left]
    rw [hdrop]
    refine ⟨by rw [htext]; simp, fun rest' => ⟨?_, ?_⟩⟩
    · rintro ⟨before', htext', hfirst'⟩
      -- both are first, so they are of one length
      have hle := hfirst before' ⟨rest', by rw [htext', List.append_assoc]⟩
      have hge := hfirst' before ⟨rest, by rw [htext, List.append_assoc]⟩
      have heq := htext'.symm.trans htext
      obtain ⟨-, heq⟩ := List.append_inj heq (Nat.le_antisymm hge hle)
      exact List.append_cancel_left heq
    · rintro rfl
      exact ⟨before, htext, hfirst⟩

/-- An occurrence is the first one if there is none in the bytes up to its last but one. -/
theorem behind_of_absent {before rest : List UInt8} (hne : pattern ≠ [])
    (h : ¬ pattern <:+: before ++ pattern.dropLast) :
    Behind pattern (before ++ (pattern ++ rest)) rest := by
  refine ⟨before, rfl, fun earlier hpre => ?_⟩
  by_contra hlt
  have hdropLast := List.dropLast_prefix pattern
  have hfront : before ++ pattern.dropLast <+: before ++ (pattern ++ rest) :=
    (List.prefix_append_right_inj before).mpr
      (hdropLast.trans (List.prefix_append pattern rest))
  have hlen : (earlier ++ pattern).length ≤ (before ++ pattern.dropLast).length := by
    have := List.length_pos_iff.mpr hne
    simp only [List.length_append, List.length_dropLast]
    omega
  obtain ⟨rest', heq⟩ := List.prefix_of_prefix_length_le hpre hfront hlen
  exact h ⟨earlier, rest', heq⟩

/-- An occurrence is the first one if what stands in front of it lacks its first symbol. -/
theorem behind_of_head_notMem {before rest : List UInt8} {c : UInt8}
    (hhead : pattern.head? = some c) (h : c ∉ before) :
    Behind pattern (before ++ (pattern ++ rest)) rest := by
  refine ⟨before, rfl, fun earlier hpre => ?_⟩
  obtain ⟨rest', heq⟩ := hpre
  rw [List.append_assoc] at heq
  rcases List.append_eq_append_iff.mp heq with ⟨between, rfl, hbetween⟩ | ⟨between, rfl, -⟩
  · cases between with
    | nil => simp
    | cons d between =>
        obtain ⟨word, rfl⟩ := List.head?_eq_some_iff.mp hhead
        obtain ⟨rfl, -⟩ := List.cons.inj hbetween
        exact absurd (List.mem_append_right earlier List.mem_cons_self) h
  · simp

theorem exists_behind_iff (hne : pattern ≠ []) :
    (∃ rest, Behind pattern text rest) ↔ pattern <:+: text := by
  constructor
  · rintro ⟨rest, before, htext, -⟩
    exact ⟨before, rest, by rw [htext, List.append_assoc]⟩
  · intro hoccurs
    cases hfind : find pattern text with
    | none => exact absurd hoccurs ((find_eq_none_iff hne).mp hfind)
    | some pos => exact ⟨_, ((find_eq_some hne hfind).2 _).mpr rfl⟩

theorem not_behind_of_find_none (hne : pattern ≠ []) (h : find pattern text = none)
    (rest : List UInt8) : ¬ Behind pattern text rest := fun hrest =>
  (find_eq_none_iff hne).mp h ((exists_behind_iff hne).mp ⟨rest, hrest⟩)

theorem Behind.unique (hne : pattern ≠ []) {rest rest' : List UInt8}
    (h : Behind pattern text rest) (h' : Behind pattern text rest') : rest = rest' := by
  cases hfind : find pattern text with
  | none => exact absurd h (not_behind_of_find_none hne hfind rest)
  | some pos =>
      obtain ⟨-, hbehind⟩ := find_eq_some hne hfind
      rw [(hbehind rest).mp h, (hbehind rest').mp h']

end Find

/-! ## Words in longer texts -/

section Infix

variable {α : Type*} {word x y : List α} {c : α}

/-- A word that does not begin with the first symbol lies behind it. -/
theorem infix_of_infix_cons (hc : word.head? ≠ some c) (h : word <:+: c :: y) : word <:+: y := by
  rcases List.infix_cons_iff.mp h with hpre | hoccurs
  · cases word with
    | nil => exact List.nil_infix
    | cons d word =>
        obtain rfl := (List.cons_prefix_cons.mp hpre).1
        exact absurd rfl hc
  · exact hoccurs

/-- A word without the separator lies on one side of it. -/
theorem infix_append_cons (hc : c ∉ word) (h : word <:+: x ++ c :: y) :
    word <:+: x ∨ word <:+: y := by
  rcases List.infix_append_iff.mp h with hx | hy | ⟨front, back, rfl, hfront, hback⟩
  · exact Or.inl hx
  · exact Or.inr (infix_of_infix_cons (fun hhead => hc (List.mem_of_head? hhead)) hy)
  · cases back with
    | nil => exact Or.inl (by simpa using hfront.isInfix)
    | cons d back =>
        obtain rfl := (List.cons_prefix_cons.mp hback).1
        exact absurd (List.mem_append_right front List.mem_cons_self) hc

/-- A word that the first separator ends is at the end of what stands in front of it. -/
theorem infix_concat_append_cons (hc : c ∉ word) (hx : c ∉ x) (h : word ++ [c] <:+: x ++ c :: y) :
    word <:+ x ∨ word ++ [c] <:+: c :: y := by
  rcases List.infix_append_iff.mp h with hoccurs | hoccurs | ⟨front, back, heq, hfront, hback⟩
  · exact absurd (hoccurs.subset (List.mem_append_right word List.mem_cons_self)) hx
  · exact Or.inr hoccurs
  · cases back with
    | nil =>
        rw [List.append_nil] at heq
        rw [← heq] at hfront
        exact absurd (hfront.subset (List.mem_append_right word List.mem_cons_self)) hx
    | cons d back =>
        obtain rfl := (List.cons_prefix_cons.mp hback).1
        -- the separator ends the word, so nothing of it stands behind
        rcases List.eq_nil_or_concat back with rfl | ⟨back, e, rfl⟩
        · rw [List.append_cancel_right heq]
          exact Or.inl hfront
        · have hconcat : word ++ [d] = front ++ d :: back ++ [e] := by rw [heq]; simp
          have hword := (List.append_inj' hconcat rfl).1
          exact absurd (hword ▸ List.mem_append_right front List.mem_cons_self) hc

/-- A word without the separator lies in one of the pieces. -/
theorem infix_intercalate (hne : word ≠ []) (hc : c ∉ word) {pieces : List (List α)}
    (h : word <:+: [c].intercalate pieces) : ∃ piece ∈ pieces, word <:+: piece := by
  induction pieces with
  | nil => exact absurd (List.infix_nil.mp h) hne
  | cons piece pieces ih =>
      cases pieces with
      | nil => exact ⟨piece, List.mem_cons_self, by simpa [List.intercalate] using h⟩
      | cons next pieces =>
          rw [List.intercalate_cons_cons, List.append_assoc] at h
          rcases infix_append_cons hc h with hpiece | hrest
          · exact ⟨piece, List.mem_cons_self, hpiece⟩
          · obtain ⟨later, hmem, hoccurs⟩ := ih hrest
            exact ⟨later, List.mem_cons_of_mem piece hmem, hoccurs⟩

/-- The pieces between the separators have none. -/
theorem not_mem_of_mem_splitOn [DecidableEq α] {piece : List α} :
    ∀ {text : List α}, piece ∈ text.splitOn c → c ∉ piece := by
  intro text
  induction text generalizing piece with
  | nil =>
      intro h
      rw [List.splitOn_nil, List.mem_singleton] at h
      rw [h]
      exact List.not_mem_nil
  | cons d text ih =>
      intro h
      rw [List.splitOn_cons_eq_if_modifyHead] at h
      by_cases hd : d = c
      · rw [if_pos (by simpa using hd), List.mem_cons] at h
        rcases h with rfl | h
        · exact List.not_mem_nil
        · exact ih h
      · rw [if_neg (by simpa using hd)] at h
        cases hsplit : text.splitOn c with
        | nil => exact absurd hsplit (List.splitOn_ne_nil c text)
        | cons first later =>
            rw [hsplit] at h
            rcases List.mem_cons.mp h with rfl | hlater
            · rw [List.mem_cons, not_or]
              exact ⟨fun heq => hd heq.symm, ih (by rw [hsplit]; exact List.mem_cons_self)⟩
            · exact ih (by rw [hsplit]; exact List.mem_cons_of_mem first hlater)

end Infix

/-! ## Numbers -/

def isSpace (c : UInt8) : Bool := c = 32 || (9 ≤ c && c ≤ 13)

def isDigit (c : UInt8) : Bool := 48 ≤ c && c ≤ 57

/-- The optional sign in front of a number: is it a minus, and what follows. -/
def sign : List UInt8 → Bool × List UInt8
  | [] => (false, [])
  | c :: text => if c = 45 then (true, text) else if c = 43 then (false, text) else
    (false, c :: text)

/-- `std::stoi(text)`: blanks, a sign, and at least one digit; what follows is not read. -/
def stoi (text : List UInt8) : Except TextFault Int :=
  let (negative, rest) := sign (text.dropWhile isSpace)
  let digits := rest.takeWhile isDigit
  if digits.isEmpty then .error .invalidArgument
  else
    let magnitude : Nat := digits.foldl (fun n c => 10 * n + (c.toNat - 48)) 0
    let value : Int := if negative then -magnitude else magnitude
    if -2 ^ 31 ≤ value ∧ value < 2 ^ 31 then .ok value else .error .outOfRange

/-- What decimal digits stand for. -/
def number (digits : List UInt8) : Nat := digits.foldl (fun n c => 10 * n + (c.toNat - 48)) 0

/-- The text begins with `value`: blanks, a sign, all the digits there are, and the value is
    an `int`. -/
def IntegerAhead (text : List UInt8) (value : Int) : Prop :=
  ∃ blanks sgn digits rest, text = blanks ++ (sgn ++ (digits ++ rest)) ∧
    (∀ c ∈ blanks, isSpace c = true) ∧ (sgn = [] ∨ sgn = [43] ∨ sgn = [45]) ∧
    digits ≠ [] ∧ (∀ c ∈ digits, isDigit c = true) ∧
    (∀ c, rest.head? = some c → isDigit c = false) ∧
    value = (if sgn = [45] then -(number digits : Int) else number digits) ∧
    -2 ^ 31 ≤ value ∧ value < 2 ^ 31

theorem isSpace_of_isDigit {c : UInt8} (h : isDigit c = true) : isSpace c = false := by
  simp only [isDigit, isSpace, Bool.and_eq_true, decide_eq_true_eq, UInt8.le_iff_toNat_le,
    Bool.or_eq_false_iff, decide_eq_false_iff_not, ← UInt8.toNat_inj,
    UInt8.reduceToNat, Bool.and_eq_false_iff] at h ⊢
  omega

theorem ne_sign_of_isDigit {c : UInt8} (h : isDigit c = true) : c ≠ 45 ∧ c ≠ 43 := by
  simp only [isDigit, Bool.and_eq_true, decide_eq_true_eq, UInt8.le_iff_toNat_le, ne_eq,
    ← UInt8.toNat_inj, UInt8.reduceToNat] at h ⊢
  omega

theorem sign_cases (text : List UInt8) : ∃ sgn, (sgn = [] ∨ sgn = [43] ∨ sgn = [45]) ∧
    text = sgn ++ (sign text).2 ∧ ((sign text).1 = true ↔ sgn = [45]) := by
  cases text with
  | nil => exact ⟨[], Or.inl rfl, rfl, by simp [sign]⟩
  | cons c text =>
      unfold sign
      by_cases hminus : c = 45
      · exact ⟨[45], Or.inr (Or.inr rfl), by simp [hminus], by simp [hminus]⟩
      · by_cases hplus : c = 43
        · exact ⟨[43], Or.inr (Or.inl rfl), by simp [hplus], by simp [hplus]⟩
        · exact ⟨[], Or.inl rfl, by simp [hminus, hplus], by simp [hminus, hplus]⟩

theorem sign_append {sgn text : List UInt8} (hsgn : sgn = [] ∨ sgn = [43] ∨ sgn = [45])
    (hdigit : ∃ c rest, text = c :: rest ∧ isDigit c = true) :
    sign (sgn ++ text) = (decide (sgn = [45]), text) := by
  obtain ⟨c, rest, rfl, hc⟩ := hdigit
  obtain ⟨hminus, hplus⟩ := ne_sign_of_isDigit hc
  rcases hsgn with rfl | rfl | rfl
  · simp [sign, hminus, hplus]
  · rfl
  · rfl

/-- A text with a sign and digits is read up to the last of these digits. -/
theorem stoi_append {blanks sgn digits rest : List UInt8} (hblanks : ∀ c ∈ blanks, isSpace c = true)
    (hsgn : sgn = [] ∨ sgn = [43] ∨ sgn = [45]) (hne : digits ≠ [])
    (hdigits : ∀ c ∈ digits, isDigit c = true)
    (hrest : ∀ c, rest.head? = some c → isDigit c = false) :
    stoi (blanks ++ (sgn ++ (digits ++ rest))) =
      let value : Int := if sgn = [45] then -(number digits : Int) else number digits
      if -2 ^ 31 ≤ value ∧ value < 2 ^ 31 then .ok value else .error .outOfRange := by
  obtain ⟨d, ds, rfl⟩ := List.exists_cons_of_ne_nil hne
  have hd := hdigits d List.mem_cons_self
  have hfront : (sgn ++ (d :: ds ++ rest)).dropWhile isSpace = sgn ++ (d :: ds ++ rest) := by
    rcases hsgn with rfl | rfl | rfl
    · exact List.dropWhile_cons_of_neg (by simp [isSpace_of_isDigit hd])
    · rfl
    · rfl
  have htake : (d :: ds ++ rest).takeWhile isDigit = d :: ds := by
    rw [List.takeWhile_append_of_pos hdigits]
    cases rest with
    | nil => simp
    | cons c rest => simp [hrest c rfl]
  unfold stoi
  have hsign : sign (sgn ++ (d :: ds ++ rest)) = (decide (sgn = [45]), d :: ds ++ rest) :=
    sign_append hsgn ⟨d, ds ++ rest, rfl, hd⟩
  rw [List.dropWhile_append_of_pos hblanks, hfront, hsign]
  dsimp only
  rw [htake, if_neg (by simp)]
  simp only [decide_eq_true_eq]
  rfl

/-- Every other text is refused. -/
theorem stoi_cases (text : List UInt8) : stoi text = .error .invalidArgument ∨
    ∃ blanks sgn digits rest, text = blanks ++ (sgn ++ (digits ++ rest)) ∧
      (∀ c ∈ blanks, isSpace c = true) ∧ (sgn = [] ∨ sgn = [43] ∨ sgn = [45]) ∧
      digits ≠ [] ∧ (∀ c ∈ digits, isDigit c = true) ∧
      ∀ c, rest.head? = some c → isDigit c = false := by
  obtain ⟨sgn, hsgn, hsign, -⟩ := sign_cases (text.dropWhile isSpace)
  by_cases hempty : ((sign (text.dropWhile isSpace)).2.takeWhile isDigit).isEmpty = true
  · exact Or.inl (if_pos hempty)
  · refine Or.inr ⟨text.takeWhile isSpace, sgn,
      (sign (text.dropWhile isSpace)).2.takeWhile isDigit,
      (sign (text.dropWhile isSpace)).2.dropWhile isDigit, ?_, ?_, hsgn, by simpa using hempty,
      ?_, ?_⟩
    · rw [List.takeWhile_append_dropWhile, ← hsign, List.takeWhile_append_dropWhile]
    · exact fun c hc => List.mem_takeWhile_imp hc
    · exact fun c hc => List.mem_takeWhile_imp hc
    · intro c hc
      have hhead := List.head?_dropWhile_not isDigit (sign (text.dropWhile isSpace)).2
      rw [hc] at hhead
      simpa using hhead

/-- **`std::stoi` reads the integer that the text begins with.** -/
theorem stoi_eq_ok_iff (text : List UInt8) (value : Int) :
    stoi text = .ok value ↔ IntegerAhead text value := by
  constructor
  · intro h
    rcases stoi_cases text with herror | ⟨blanks, sgn, digits, rest, htext, hblanks, hsgn, hne,
        hdigits, hrest⟩
    · cases herror.symm.trans h
    · rw [htext, stoi_append hblanks hsgn hne hdigits hrest] at h
      dsimp only at h
      by_cases hrange : -2 ^ 31 ≤ (if sgn = [45] then -(number digits : Int) else number digits) ∧
          (if sgn = [45] then -(number digits : Int) else number digits) < 2 ^ 31
      · rw [if_pos hrange] at h
        have hvalue := Except.ok.inj h
        rw [hvalue] at hrange
        exact ⟨blanks, sgn, digits, rest, htext, hblanks, hsgn, hne, hdigits, hrest, hvalue.symm,
          hrange⟩
      · rw [if_neg hrange] at h
        cases h
  · intro h
    obtain ⟨blanks, sgn, digits, rest, htext, hblanks, hsgn, hne, hdigits, hrest, hvalue,
      hrange⟩ := h
    rw [htext, stoi_append hblanks hsgn hne hdigits hrest]
    dsimp only
    rw [← hvalue, if_pos hrange]

/-- A decimal integer. -/
def decimal : Int → List UInt8
  | .ofNat n => (Nat.toDigits 10 n).map Char.toUInt8
  | .negSucc n => 45 :: (Nat.toDigits 10 (n + 1)).map Char.toUInt8

theorem toNat_toUInt8_of_isDigit {c : Char} (h : c.isDigit = true) :
    c.toUInt8.toNat = c.toNat ∧ isDigit c.toUInt8 = true := by
  have hrange : 48 ≤ c.toNat ∧ c.toNat ≤ 57 := by
    simpa [Char.isDigit, UInt32.le_iff_toNat_le] using h
  have heq : c.toUInt8.toNat = c.toNat := Nat.mod_eq_of_lt (show c.toNat < 2 ^ 8 by omega)
  refine ⟨heq, ?_⟩
  simp only [isDigit, Bool.and_eq_true, decide_eq_true_eq, UInt8.le_iff_toNat_le, heq,
    UInt8.reduceToNat]
  exact hrange

theorem isDigit_of_mem_toDigits (n : Nat) :
    ∀ c ∈ (Nat.toDigits 10 n).map Char.toUInt8, isDigit c = true := by
  intro c hc
  obtain ⟨d, hd, rfl⟩ := List.mem_map.mp hc
  exact (toNat_toUInt8_of_isDigit
    (Nat.isDigit_of_mem_toDigits (by decide) (by decide) hd)).2

theorem number_toDigits (n : Nat) : number ((Nat.toDigits 10 n).map Char.toUInt8) = n := by
  have hfold : ∀ (cs : List Char) (start : Nat), (∀ c ∈ cs, c.isDigit = true) →
      (cs.map Char.toUInt8).foldl (fun n c => 10 * n + (c.toNat - 48)) start =
        Nat.ofDigitChars 10 cs start := by
    intro cs
    induction cs with
    | nil => intros; rfl
    | cons c cs ih =>
        intro start hcs
        obtain ⟨hc, hcs'⟩ := List.forall_mem_cons.mp hcs
        rw [List.map_cons, List.foldl_cons, ih _ hcs', (toNat_toUInt8_of_isDigit hc).1,
          Nat.ofDigitChars_cons]
        rfl
  rw [number, hfold _ _ fun c hc => Nat.isDigit_of_mem_toDigits (by decide) (by decide) hc,
    Nat.ofDigitChars_ten_toDigits]

/-- A decimal integer that ends with it is ahead. -/
theorem integerAhead_decimal {value : Int} (hmin : -2 ^ 31 ≤ value) (hmax : value < 2 ^ 31) :
    IntegerAhead (decimal value) value := by
  have hne : ∀ n, (Nat.toDigits 10 n).map Char.toUInt8 ≠ [] := fun n h =>
    Nat.toDigits_ne_nil (List.map_eq_nil_iff.mp h)
  cases value with
  | ofNat n =>
      refine ⟨[], [], _, [], by rw [decimal]; simp, by simp, Or.inl rfl, hne n,
        isDigit_of_mem_toDigits n, by simp, ?_, hmin, hmax⟩
      rw [if_neg (by decide), number_toDigits]
      rfl
  | negSucc n =>
      refine ⟨[], [45], _, [], by rw [decimal]; simp, by simp, Or.inr (Or.inr rfl), hne (n + 1),
        isDigit_of_mem_toDigits (n + 1), by simp, ?_, hmin, hmax⟩
      rw [if_pos rfl, number_toDigits]
      rfl

theorem mem_decimal {value : Int} {c : UInt8} (h : c ∈ decimal value) :
    c = 45 ∨ isDigit c = true := by
  cases value with
  | ofNat n => exact Or.inr (isDigit_of_mem_toDigits n c h)
  | negSucc n =>
      rcases List.mem_cons.mp h with rfl | h
      · exact Or.inl rfl
      · exact Or.inr (isDigit_of_mem_toDigits (n + 1) c h)

end Bifrost.Text
