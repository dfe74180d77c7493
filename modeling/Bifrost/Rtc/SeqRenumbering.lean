/-
  `RTC::SeqManager` (`rtc/seq_manager.cpp`): sequence numbers are renumbered so that dropped
  ones leave no gap.

  A manager maps an input to itself plus `base`, less the inputs dropped below it. Only drops
  of the last half circle are kept in the set; older ones are counted into `base` when
  `ClearDropped` takes them from its front. `Tracks` states this for consecutive inputs:
  the set holds the numbers of the recent drops, in their order.

  `Drop` puts its input at the end of the set, in front of the end if the comparator says
  so, and this happens when the drop before has just left the half circle (`reach`). The
  new drop then hides the old one from `ClearDropped`. Where no two successive drops are that
  far apart (`Spaced`) the outputs have no gap (`gapless_of_spaced`).

  Values of `T` are numbers. Differences are taken in `size_t`, then masked.
-/
import Bifrost.Lib.OrderedMap
import Bifrost.Lib.Trace
import Bifrost.Rtc.SeqManager
import Mathlib.Data.Nat.ModEq
import Mathlib.Data.ZMod.Basic
import Mathlib.Tactic.LinearCombination
import Mathlib.Tactic.Ring

namespace Bifrost.Rtc

open OrderedMap (emplaceEnd find? lowerBound)

structure SeqManager where
  started : Bool := false
  initialOutput : Nat := 0
  base : Nat := 0
  maxOutput : Nat := 0
  maxInput : Nat := 0
  /-- The `std::set`, in its order. -/
  dropped : List (Nat × Unit) := []
  deriving DecidableEq

namespace SeqManager

/-- `SeqManager(initialOutput)`. -/
def create (initialOutput : Nat) : SeqManager := { initialOutput }

/-- `(a - b) & MaxValue`. -/
def maskedSub (maxValue a b : Nat) : Nat := (UInt64.ofNat a - UInt64.ofNat b).toNat &&& maxValue

def clearDropped (maxValue : Nat) (m : SeqManager) : SeqManager :=
  if m.dropped = [] then m
  else
    let dropped := m.dropped.dropWhile fun value => seqHigherThan maxValue value.1 m.maxInput
    { m with
      base := maskedSub maxValue m.base (m.dropped.length - dropped.length)
      dropped }

def drop (maxValue : Nat) (m : SeqManager) (input : Nat) : SeqManager :=
  if seqHigherThan maxValue input m.maxInput then
    clearDropped maxValue
      { m with
        maxInput := input
        dropped := emplaceEnd (seqLowerThan maxValue) input () m.dropped }
  else m

/-- `Input` from the label `done` on. -/
def done (maxValue : Nat) (m : SeqManager) (input base : Nat) : SeqManager × Option Nat :=
  let output := (input + base) &&& maxValue
  let m :=
    if ¬ m.started then { m with started := true, maxInput := input, maxOutput := output }
    else
      { m with
        maxInput := if seqHigherThan maxValue input m.maxInput then input else m.maxInput
        maxOutput := if seqHigherThan maxValue output m.maxOutput then output else m.maxOutput }
  (m, some ((output + m.initialOutput) &&& maxValue))

/-- `Input`, with the output where it returns true. -/
def input (maxValue : Nat) (m : SeqManager) (input : Nat) : SeqManager × Option Nat :=
  if m.dropped = [] then m.done maxValue input m.base
  else
    let m := clearDropped maxValue <|
      if m.started ∧ seqHigherThan maxValue input m.maxInput then { m with maxInput := input }
      else m
    if m.dropped = [] then m.done maxValue input m.base
    else
      match find? (seqLowerThan maxValue) input m.dropped with
      | some _ => (m, none)
      | none =>
        let droppedCount := m.dropped.length -
          (lowerBound (seqLowerThan maxValue) input m.dropped).length
        m.done maxValue input (maskedSub maxValue m.base droppedCount)

/-! ## Consecutive numbers -/

/-- What is done with a number. -/
inductive Use where
  | input
  | drop
  deriving DecidableEq

/-- A call on a number, and what `Input` gives. -/
def call (maxValue : Nat) (m : SeqManager) : Use × Nat → SeqManager × List (Option Nat)
  | (.input, number) => ((m.input maxValue number).1, [(m.input maxValue number).2])
  | (.drop, number) => (m.drop maxValue number, [])

/-- The uses on the numbers from the count `next` on, which wrap after `n` bits. -/
def numbered (n next : Nat) : List Use → List (Use × Nat)
  | [] => []
  | use :: uses => (use, next % 2 ^ n) :: numbered n (next + 1) uses

/-- Every input has an output, one above the output before. -/
def Gapless (n : Nat) (results : List (Option Nat)) : Prop :=
  ∃ outs : List Nat, results = outs.map some ∧ outs.IsChain fun a b => b = (a + 1) % 2 ^ n

/-- No two successive drops are so far apart that the first has just got out of reach, for the
    uses of the counts from `next` on. `last` is the count of the last drop before. -/
def Spaced (n : Nat) : Option Nat → Nat → List Use → Prop
  | _, _, [] => True
  | last, next, .input :: uses => Spaced n last (next + 1) uses
  | last, next, .drop :: uses =>
    (∀ p ∈ last, next - p ≠ Serial.reach (2 ^ (n - 1)) (p % 2 ^ n)) ∧
      Spaced n (some next) (next + 1) uses

instance Spaced.decidable (n : Nat) : ∀ last next uses, Decidable (Spaced n last next uses)
  | _, _, [] => isTrue trivial
  | last, next, .input :: uses => Spaced.decidable n last (next + 1) uses
  | _, next, .drop :: uses =>
    have := Spaced.decidable n (some next) (next + 1) uses
    inferInstanceAs (Decidable (_ ∧ _))

/-- The widths the class is instantiated with. -/
inductive Instantiation where
  | uint8
  | uint8Of3
  | uint16
  | uint16Of15
  | uint32

def Instantiation.width : Instantiation → Nat
  | .uint8 | .uint8Of3 => 8
  | .uint16 | .uint16Of15 => 16
  | .uint32 => 32

def Instantiation.mask : Instantiation → Nat
  | .uint8 | .uint16 | .uint32 => 0
  | .uint8Of3 => 3
  | .uint16Of15 => 15

def Instantiation.bits (i : Instantiation) : Nat := usedBits i.width i.mask

/-- What the `Input` calls give when `Input(start)` comes first. -/
def results (i : Instantiation) (initialOutput start : Nat) (uses : List Use) :
    List (Option Nat) :=
  Trace.outputs (call (maxValue i.width i.mask)) (create initialOutput)
    ((.input, start) :: numbered i.bits (start + 1) uses)

/-! ## Numbers of counts -/

section Counts

variable {n : Nat}

theorem two_mul_half (hn : 2 ≤ n) : 2 * 2 ^ (n - 1) = 2 ^ n := by
  rw [← Nat.pow_succ', Nat.succ_eq_add_one, Nat.sub_add_cancel (by omega)]

theorem two_le_half (hn : 2 ≤ n) : 2 ≤ 2 ^ (n - 1) := Nat.le_self_pow (by omega) 2

/-- The count `p` is near enough to `y` that its number is below that of `y`. -/
def InReach (n y p : Nat) : Prop := y - p < Serial.reach (2 ^ (n - 1)) (p % 2 ^ n)

instance (n y p : Nat) : Decidable (InReach n y p) := inferInstanceAs (Decidable (_ < _))

variable {p y : Nat}

theorem lowerThan_count_iff (hn : 2 ≤ n) (hle : p ≤ y) (hcircle : y < p + 2 ^ n) :
    seqLowerThan (2 ^ n - 1) (p % 2 ^ n) (y % 2 ^ n) = true ↔ p < y ∧ InReach n y p := by
  rw [InReach, ← two_mul_half hn] at *
  rw [seqLowerThan_iff_lt _ (Nat.two_pow_pos _)]
  exact Serial.lt_mod_iff hle hcircle

theorem higherThan_count_iff (hn : 2 ≤ n) (hle : p ≤ y) (hcircle : y < p + 2 ^ n) :
    seqHigherThan (2 ^ n - 1) (p % 2 ^ n) (y % 2 ^ n) = true ↔ p < y ∧ ¬ InReach n y p := by
  rw [InReach, ← two_mul_half hn, Nat.not_lt] at *
  show seqLowerThan _ _ _ = true ↔ _
  rw [seqLowerThan_iff_lt _ (Nat.two_pow_pos _)]
  exact Serial.mod_lt_iff hle hcircle

theorem InReach.lt_circle (hn : 2 ≤ n) (h : InReach n y p) : y + 1 < p + 2 ^ n := by
  have := Serial.reach_le (2 ^ (n - 1)) (p % 2 ^ n)
  have := two_le_half hn
  have := two_mul_half hn
  unfold InReach at h
  omega

/-- The next number is the higher one. -/
theorem higherThan_next (hn : 2 ≤ n) (x : Nat) :
    seqHigherThan (2 ^ n - 1) ((x + 1) % 2 ^ n) (x % 2 ^ n) = true := by
  have := Serial.le_reach (2 ^ (n - 1)) (x % 2 ^ n)
  have := two_le_half hn
  have := two_mul_half hn
  refine (lowerThan_count_iff hn (Nat.le_succ x) (by omega)).mpr ⟨Nat.lt_succ_self x, ?_⟩
  unfold InReach
  omega

theorem inReach_self (n y : Nat) : InReach n y y := by
  have := Serial.le_reach (2 ^ (n - 1)) (y % 2 ^ n)
  have := Nat.two_pow_pos (n - 1)
  unfold InReach
  omega

/-- What comes before a count that is out of reach is out of reach too. -/
theorem InReach.of_lt {q : Nat} (hpq : p < q) (hqy : q ≤ y) (h : InReach n y p) :
    InReach n y q := by
  have := Serial.reach_le (2 ^ (n - 1)) (p % 2 ^ n)
  have := Serial.le_reach (2 ^ (n - 1)) (q % 2 ^ n)
  unfold InReach at *
  omega

theorem and_maxValue (a : Nat) : a &&& (2 ^ n - 1) = a % 2 ^ n := Nat.and_two_pow_sub_one_eq_mod a n

/-- What is taken off in `size_t` is taken off modulo the smaller power. -/
theorem maskedSub_add (hn : n ≤ 64) (a b : Nat) :
    ((maskedSub (2 ^ n - 1) a b : Nat) : ZMod (2 ^ n)) + b = a := by
  have hcast (x : Nat) : ((x % 2 ^ 64 : Nat) : ZMod (2 ^ n)) = x :=
    (ZMod.natCast_eq_natCast_iff _ _ _).mpr ((Nat.mod_modEq x _).of_dvd (Nat.pow_dvd_pow 2 hn))
  have hzero : ((2 ^ 64 : Nat) : ZMod (2 ^ n)) = 0 :=
    (ZMod.natCast_eq_zero_iff _ _).mpr (Nat.pow_dvd_pow 2 hn)
  have hb : b % 2 ^ 64 ≤ 2 ^ 64 := (Nat.mod_lt b (by decide)).le
  rw [maskedSub, and_maxValue, ZMod.natCast_mod, UInt64.toNat_sub, UInt64.toNat_ofNat',
    UInt64.toNat_ofNat', hcast, Nat.cast_add, Nat.cast_sub hb, hcast, hcast, hzero]
  ring

end Counts

/-! ## The set -/

/-- The set of the numbers of some counts. -/
def numbers (n : Nat) (ps : List Nat) : List (Nat × Unit) := ps.map fun p => (p % 2 ^ n, ())

@[simp] theorem length_numbers (n : Nat) (ps : List Nat) : (numbers n ps).length = ps.length :=
  List.length_map _

/-- The manager after the count `x` of a run, with the drops of the counts `ps` in its set and
    `L` as the last output. The count of the last drop is `last`. -/
structure Tracks (n x : Nat) (last : Option Nat) (L : Nat) (ps : List Nat) (m : SeqManager) :
    Prop where
  started : m.started = true
  maxInput : m.maxInput = x % 2 ^ n
  dropped : m.dropped = numbers n ps
  /-- The set holds no drop that has got out of reach. -/
  recent : ∀ p ∈ ps, p ≤ x ∧ InReach n x p
  sorted : ps.Pairwise (· < ·)
  newest : ∀ p ∈ ps.getLast?, last = some p
  /-- The output of a number is that of the one before and one more, but for a drop. -/
  balance : (x + m.base + m.initialOutput : ZMod (2 ^ n)) = L + ps.length

section Set

variable {n : Nat} {m : SeqManager}

/-- The drops out of reach are those at the front that are higher. -/
theorem dropWhile_numbers (hn : 2 ≤ n) {y : Nat} {ps : List Nat}
    (hcircle : ∀ p ∈ ps, p ≤ y ∧ y < p + 2 ^ n) (hsorted : ps.Pairwise (· < ·)) :
    (numbers n ps).dropWhile (fun value => seqHigherThan (2 ^ n - 1) value.1 (y % 2 ^ n)) =
      numbers n (ps.filter (InReach n y ·)) := by
  have hhigher : ∀ p ∈ ps, seqHigherThan (2 ^ n - 1) (p % 2 ^ n) (y % 2 ^ n) = true ↔
      p < y ∧ ¬ InReach n y p := fun p hp =>
    higherThan_count_iff hn (hcircle p hp).1 (hcircle p hp).2
  have hmono : ps.Pairwise fun p q => seqHigherThan (2 ^ n - 1) (q % 2 ^ n) (y % 2 ^ n) = true →
      seqHigherThan (2 ^ n - 1) (p % 2 ^ n) (y % 2 ^ n) = true := by
    refine hsorted.imp_of_mem fun hp hq hpq hdrop => ?_
    obtain ⟨hlt, hreach⟩ := (hhigher _ hq).mp hdrop
    exact (hhigher _ hp).mpr ⟨hpq.trans hlt, fun h => hreach (h.of_lt hpq hlt.le)⟩
  rw [numbers, List.dropWhile_map, numbers]
  congr 1
  refine (OrderedMap.dropWhile_eq_filter hmono).trans (List.filter_congr fun p hp => ?_)
  rw [Bool.eq_iff_iff, Bool.not_eq_true', ← Bool.not_eq_true, hhigher p hp, decide_eq_true_iff]
  constructor
  · intro hkeep
    by_contra hreach
    refine hkeep ⟨lt_of_le_of_ne (hcircle p hp).1 ?_, hreach⟩
    rintro rfl
    exact hreach (inReach_self n p)
  · exact fun hreach h => h.2 hreach

/-- What `ClearDropped` takes out are the drops out of reach, and they go into `base`. -/
theorem clearDropped_eq (hn : 2 ≤ n) (hn' : n ≤ 64) {y : Nat} {ps : List Nat}
    (hmax : m.maxInput = y % 2 ^ n) (hdropped : m.dropped = numbers n ps)
    (hcircle : ∀ p ∈ ps, p ≤ y ∧ y < p + 2 ^ n) (hsorted : ps.Pairwise (· < ·)) :
    ∃ base, clearDropped (2 ^ n - 1) m =
        { m with base, dropped := numbers n (ps.filter (InReach n y ·)) } ∧
      (base + ps.length : ZMod (2 ^ n)) = m.base + (ps.filter (InReach n y ·)).length := by
  cases hps : ps with
  | nil =>
      rw [hps] at hdropped
      refine ⟨m.base, ?_, rfl⟩
      rw [clearDropped, if_pos (show m.dropped = [] from hdropped)]
      cases m
      cases hdropped
      rfl
  | cons q qs =>
      rw [← hps]
      have hsome : m.dropped ≠ [] := by
        rw [hdropped, hps]
        exact List.cons_ne_nil _ _
      have hbase := maskedSub_add hn' m.base (ps.length - (ps.filter (InReach n y ·)).length)
      rw [Nat.cast_sub (List.length_filter_le _ _)] at hbase
      refine ⟨maskedSub (2 ^ n - 1) m.base (ps.length - (ps.filter (InReach n y ·)).length), ?_, ?_⟩
      · rw [clearDropped, if_neg hsome, hmax, hdropped, dropWhile_numbers hn hcircle hsorted]
        simp only [length_numbers]
      · linear_combination hbase

/-- `Drop` of the next number, unless the drop before has just got out of reach. -/
theorem drop_tracks (hn : 2 ≤ n) (hn' : n ≤ 64) {x L : Nat} {last : Option Nat} {ps : List Nat}
    (h : Tracks n x last L ps m)
    (hspaced : ∀ p ∈ last, x + 1 - p ≠ Serial.reach (2 ^ (n - 1)) (p % 2 ^ n)) :
    ∃ ps', Tracks n (x + 1) (some (x + 1)) L ps' (m.drop (2 ^ n - 1) ((x + 1) % 2 ^ n)) := by
  have hrecent := h.recent
  have hput : emplaceEnd (seqLowerThan (2 ^ n - 1)) ((x + 1) % 2 ^ n) () m.dropped =
      numbers n (ps ++ [x + 1]) := by
    rw [h.dropped, OrderedMap.emplaceEnd_of_last]
    · rw [numbers, numbers, List.map_append]
      rfl
    · intro e he
      rw [numbers, List.getLast?_map] at he
      obtain ⟨p, hp, rfl⟩ := Option.mem_map.mp he
      obtain ⟨hle, hreach⟩ := hrecent p (List.mem_of_getLast? hp)
      have hcircle := hreach.lt_circle hn
      have hfar := hspaced p (h.newest p hp)
      refine (lowerThan_count_iff hn (by omega) hcircle).mpr ⟨by omega, ?_⟩
      unfold InReach at *
      omega
  have hcircle : ∀ p ∈ ps ++ [x + 1], p ≤ x + 1 ∧ x + 1 < p + 2 ^ n := by
    refine List.forall_mem_append.mpr ⟨fun p hp => ?_, List.forall_mem_singleton.mpr ?_⟩
    · obtain ⟨hle, hreach⟩ := hrecent p hp
      exact ⟨by omega, hreach.lt_circle hn⟩
    · exact ⟨Nat.le_refl _, Nat.lt_add_of_pos_right (Nat.two_pow_pos n)⟩
  have hsorted : (ps ++ [x + 1]).Pairwise (· < ·) := by
    refine List.pairwise_append.mpr ⟨h.sorted, List.pairwise_singleton _ _, ?_⟩
    intro p hp q hq
    rw [List.mem_singleton.mp hq]
    exact Nat.lt_succ_of_le (hrecent p hp).1
  obtain ⟨base, hclear, hbase⟩ := @clearDropped_eq n
    { m with maxInput := (x + 1) % 2 ^ n, dropped := numbers n (ps ++ [x + 1]) } hn hn' (x + 1)
    (ps ++ [x + 1]) rfl rfl hcircle hsorted
  refine ⟨(ps ++ [x + 1]).filter (InReach n (x + 1) ·), ?_⟩
  rw [drop, h.maxInput, if_pos (higherThan_next hn x), hput, hclear]
  refine ⟨h.started, rfl, rfl, fun p hp => ?_, hsorted.filter _, fun p hp => ?_, ?_⟩
  · obtain ⟨hmem, hreach⟩ := List.mem_filter.mp hp
    exact ⟨(hcircle p hmem).1, of_decide_eq_true hreach⟩
  · -- the new drop is in reach, so it stays at the end
    have hself : [x + 1].filter (InReach n (x + 1) ·) = [x + 1] :=
      List.filter_eq_self.mpr
        (List.forall_mem_singleton.mpr (decide_eq_true (inReach_self n (x + 1))))
    rw [List.filter_append, hself, List.getLast?_concat] at hp
    exact hp
  · have hbalance := h.balance
    rw [List.length_append, List.length_singleton] at hbase
    push_cast at hbase ⊢
    linear_combination hbalance + hbase

/-- The end of `Input`, with the drops below the input taken off `base`. -/
theorem done_tracks (hn : 2 ≤ n) {x L base : Nat} {last : Option Nat} {ps : List Nat}
    (hstarted : m.started = true)
    (hmax : m.maxInput = x % 2 ^ n ∨ m.maxInput = (x + 1) % 2 ^ n)
    (hdropped : m.dropped = numbers n ps) (hrecent : ∀ p ∈ ps, p ≤ x + 1 ∧ InReach n (x + 1) p)
    (hsorted : ps.Pairwise (· < ·)) (hnewest : ∀ p ∈ ps.getLast?, last = some p)
    (hbase : (base + ps.length : ZMod (2 ^ n)) = m.base)
    (hbalance : (x + m.base + m.initialOutput : ZMod (2 ^ n)) = L + ps.length) :
    (m.done (2 ^ n - 1) ((x + 1) % 2 ^ n) base).2 = some ((L + 1) % 2 ^ n) ∧
      Tracks n (x + 1) last ((L + 1) % 2 ^ n) ps
        (m.done (2 ^ n - 1) ((x + 1) % 2 ^ n) base).1 := by
  have hoff : ¬ ¬ m.started = true := not_not.mpr hstarted
  have hnext : (if seqHigherThan (2 ^ n - 1) ((x + 1) % 2 ^ n) m.maxInput = true
      then (x + 1) % 2 ^ n else m.maxInput) = (x + 1) % 2 ^ n := by
    rcases hmax with hmax | hmax
    · rw [hmax, if_pos (higherThan_next hn x)]
    · rw [hmax, ite_self]
  have hcast : ((((x + 1) % 2 ^ n + base) % 2 ^ n + m.initialOutput : Nat) : ZMod (2 ^ n)) =
      ((L + 1 : Nat) : ZMod (2 ^ n)) := by
    push_cast [ZMod.natCast_mod]
    linear_combination hbalance + hbase
  constructor
  · simp only [done, and_maxValue, if_neg hoff]
    rw [(ZMod.natCast_eq_natCast_iff' _ _ _).mp hcast]
  · unfold done
    dsimp only
    rw [if_neg hoff, hnext]
    refine ⟨hstarted, rfl, hdropped, hrecent, hsorted, hnewest, ?_⟩
    push_cast [ZMod.natCast_mod]
    linear_combination hbalance

/-- `Input` of the next number: it is not among the drops, and its output is one more than the
    output before. -/
theorem input_tracks (hn : 2 ≤ n) (hn' : n ≤ 64) {x L : Nat} {last : Option Nat} {ps : List Nat}
    (h : Tracks n x last L ps m) :
    (m.input (2 ^ n - 1) ((x + 1) % 2 ^ n)).2 = some ((L + 1) % 2 ^ n) ∧
      ∃ ps', Tracks n (x + 1) last ((L + 1) % 2 ^ n) ps'
        (m.input (2 ^ n - 1) ((x + 1) % 2 ^ n)).1 := by
  have hbalance := h.balance
  by_cases hnone : m.dropped = []
  · have hps : ps = [] := List.map_eq_nil_iff.mp (h.dropped.symm.trans hnone)
    subst hps
    obtain ⟨hout, htracks⟩ := @done_tracks n m hn x L m.base last [] h.started (Or.inl h.maxInput)
      h.dropped (List.forall_mem_nil _) List.Pairwise.nil (fun p hp => by cases hp)
      (by rw [List.length_nil, Nat.cast_zero, add_zero]) hbalance
    rw [input, if_pos hnone]
    exact ⟨hout, [], htracks⟩
  · have hcircle : ∀ p ∈ ps, p ≤ x + 1 ∧ x + 1 < p + 2 ^ n := fun p hp =>
      ⟨Nat.le_succ_of_le (h.recent p hp).1, (h.recent p hp).2.lt_circle hn⟩
    obtain ⟨base, hclear, hbase⟩ := @clearDropped_eq n { m with maxInput := (x + 1) % 2 ^ n } hn hn'
      (x + 1) ps rfl h.dropped hcircle h.sorted
    have hhigher : m.started = true ∧
        seqHigherThan (2 ^ n - 1) ((x + 1) % 2 ^ n) m.maxInput = true :=
      ⟨h.started, by rw [h.maxInput]; exact higherThan_next hn x⟩
    have hrecent : ∀ p ∈ ps.filter (InReach n (x + 1) ·), p ≤ x ∧ InReach n (x + 1) p :=
      fun p hp => ⟨(h.recent p (List.mem_of_mem_filter hp)).1,
        of_decide_eq_true (List.mem_filter.mp hp).2⟩
    have hnewest : ∀ p ∈ (ps.filter (InReach n (x + 1) ·)).getLast?, last = some p := by
      have hmono : ps.Pairwise fun p q => decide (InReach n (x + 1) p) = true →
          decide (InReach n (x + 1) q) = true :=
        h.sorted.imp_of_mem fun _ hq hpq hreach =>
          decide_eq_true ((of_decide_eq_true hreach).of_lt hpq (hcircle _ hq).1)
      exact fun p hp => h.newest p (OrderedMap.getLast?_filter hmono p hp)
    -- all drops that are left are below the input
    have habove : ∀ e ∈ numbers n (ps.filter (InReach n (x + 1) ·)),
        seqLowerThan (2 ^ n - 1) e.1 ((x + 1) % 2 ^ n) = true := by
      intro e he
      obtain ⟨p, hp, rfl⟩ := List.mem_map.mp he
      have hp' := hcircle p (List.mem_of_mem_filter hp)
      exact (lowerThan_count_iff hn hp'.1 hp'.2).mpr
        ⟨Nat.lt_succ_of_le (hrecent p hp).1, (hrecent p hp).2⟩
    have hdone := fun count hcount => @done_tracks n
      { m with
        base
        maxInput := (x + 1) % 2 ^ n
        dropped := numbers n (ps.filter (InReach n (x + 1) ·)) } hn x L count last _ h.started
      (Or.inr rfl) rfl (fun p hp => ⟨Nat.le_succ_of_le (hrecent p hp).1, (hrecent p hp).2⟩)
      (h.sorted.filter _) hnewest hcount (by linear_combination hbalance + hbase)
    unfold input
    rw [if_neg hnone, if_pos hhigher, hclear]
    dsimp only
    split
    · next hempty =>
        have hnil : ps.filter (InReach n (x + 1) ·) = [] := List.map_eq_nil_iff.mp hempty
        obtain ⟨hout, htracks⟩ := hdone base
          (by rw [hnil, List.length_nil, Nat.cast_zero, add_zero])
        exact ⟨hout, _, htracks⟩
    · have hlower := OrderedMap.lowerBound_of_above habove
      simp only [find?, hlower, List.length_nil, Nat.sub_zero, length_numbers]
      obtain ⟨hout, htracks⟩ := hdone _ (maskedSub_add hn' base _)
      exact ⟨hout, _, htracks⟩

end Set

/-! ## The run -/

section Run

variable {n : Nat}

theorem outputs_tracks (hn : 2 ≤ n) (hn' : n ≤ 64) (uses : List Use) :
    ∀ {x L : Nat} {last : Option Nat} {ps : List Nat} {m : SeqManager}, Tracks n x last L ps m →
      Spaced n last (x + 1) uses →
      ∃ outs : List Nat,
        Trace.outputs (call (2 ^ n - 1)) m (numbered n (x + 1) uses) = outs.map some ∧
          (L :: outs).IsChain fun a b => b = (a + 1) % 2 ^ n := by
  induction uses with
  | nil => exact fun _ _ => ⟨[], rfl, List.isChain_singleton _⟩
  | cons use uses ih =>
      intro x L last ps m h hspaced
      cases use with
      | drop =>
          obtain ⟨hfar, hrest⟩ := hspaced
          obtain ⟨ps', hnext⟩ := drop_tracks hn hn' h hfar
          exact ih hnext hrest
      | input =>
          obtain ⟨hout, ps', hnext⟩ := input_tracks hn hn' h
          obtain ⟨outs, houts, hchain⟩ := ih hnext hspaced
          refine ⟨(L + 1) % 2 ^ n :: outs, ?_, List.isChain_cons_cons.mpr ⟨rfl, hchain⟩⟩
          rw [numbered, Trace.outputs, List.map_cons, ← houts]
          show [(m.input (2 ^ n - 1) ((x + 1) % 2 ^ n)).2] ++ _ = _
          rw [hout]
          rfl

/-- The first `Input`. -/
theorem start_tracks (initialOutput : Nat) {start : Nat} (hstart : start < 2 ^ n) :
    ((create initialOutput).input (2 ^ n - 1) start).2 =
        some ((start + initialOutput) % 2 ^ n) ∧
      Tracks n start none ((start + initialOutput) % 2 ^ n) []
        ((create initialOutput).input (2 ^ n - 1) start).1 := by
  have hsame : start % 2 ^ n = start := Nat.mod_eq_of_lt hstart
  constructor
  · show some _ = _
    rw [and_maxValue, and_maxValue]
    show some ((start % 2 ^ n + initialOutput) % 2 ^ n) = _
    rw [hsame]
  · refine ⟨rfl, hsame.symm, rfl, List.forall_mem_nil _, List.Pairwise.nil, ?_, ?_⟩
    · exact fun p hp => by cases hp
    · show (start + ((0 : Nat) : ZMod (2 ^ n)) + initialOutput : ZMod (2 ^ n)) = _
      push_cast [ZMod.natCast_mod, List.length_nil]
      ring

end Run

theorem two_le_bits (i : Instantiation) : 2 ≤ i.bits := by
  cases i <;> decide

theorem bits_le (i : Instantiation) : i.bits ≤ 64 := by
  cases i <;> decide

/-- **No gap in the outputs**, from any first input, whatever is dropped behind it, when no two
    successive drops are just out of reach. -/
theorem gapless_of_spaced (i : Instantiation) (initialOutput start : Nat)
    (hstart : start ≤ maxValue i.width i.mask) (uses : List Use)
    (hspaced : Spaced i.bits none (start + 1) uses) :
    Gapless i.bits (results i initialOutput start uses) := by
  have hlt : start < 2 ^ i.bits := by
    rw [maxValue_eq] at hstart
    exact Nat.lt_of_le_sub_one (Nat.two_pow_pos _) hstart
  obtain ⟨hout, htracks⟩ := start_tracks initialOutput hlt
  obtain ⟨outs, houts, hchain⟩ := outputs_tracks (two_le_bits i) (bits_le i) uses htracks hspaced
  refine ⟨_ :: outs, ?_, hchain⟩
  rw [results, maxValue_eq, Trace.outputs, List.map_cons, ← hout]
  exact congrArg ([_] ++ ·) houts

/-- Drops of any age before the wrap and after it. -/
theorem gapless_of_spaced_three :
    Gapless 3 (results .uint8Of3 7 6 [.drop, .drop, .input, .input, .input, .input, .drop,
      .input, .drop, .drop, .input]) :=
  gapless_of_spaced .uint8Of3 7 6 (by decide) _ (by decide)

/-- The drop of 5 finds that of 1 just out of reach, and the next output jumps. -/
theorem not_gapless : ¬ ∀ (i : Instantiation) (initialOutput start : Nat) (uses : List Use),
    start ≤ maxValue i.width i.mask → Gapless i.bits (results i initialOutput start uses) := by
  intro h
  obtain ⟨outs, houts, hchain⟩ :=
    h .uint8Of3 0 0 [.drop, .input, .input, .input, .drop, .input] (by decide)
  have hresults : results .uint8Of3 0 0 [.drop, .input, .input, .input, .drop, .input] =
      [0, 1, 2, 3, 5].map some := by decide
  have : outs = [0, 1, 2, 3, 5] :=
    (List.map_injective_iff.mpr (Option.some_injective Nat) (hresults.symm.trans houts)).symm
  subst this
  revert hchain
  decide

end SeqManager

end Bifrost.Rtc
