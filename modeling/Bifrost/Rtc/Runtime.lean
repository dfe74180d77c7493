/-
  What the code takes from its surroundings: the clock, and the ways a call can go wrong.

  `GetTimeMs()` is read from a `Clock`, the readings of one call in the order the code takes
  them. The host counts time from its start and never sets it back, so that readings taken
  between `first` and `last` are ordered (`Clock.Between`). A `Fault` is what no run of a
  correct program reaches: a read through a null pointer or a past-the-end iterator, an
  index outside a container, an integer division by zero, a loop that does not end, a
  conversion to a type that does not have the value.
-/
import Bifrost.Lib.Trace

namespace Bifrost.Rtc

/-- The readings of `GetTimeMs()` in one call, in order. -/
abbrev Clock := Nat → UInt64

/-- The readings from the `n`th on. -/
def Clock.from (clock : Clock) (n : Nat) : Clock := fun i => clock (n + i)

@[simp] theorem Clock.from_apply (clock : Clock) (n i : Nat) :
    clock.from n i = clock (n + i) := rfl

/-- The readings do not go back, and lie between `first` and `last`. -/
structure Clock.Between (clock : Clock) (first last : UInt64) : Prop where
  first_le : ∀ i, first ≤ clock i
  mono : ∀ i j, i ≤ j → clock i ≤ clock j
  le_last : ∀ i, clock i ≤ last

theorem Clock.Between.from {clock : Clock} {first last : UInt64} (h : clock.Between first last)
    (n : Nat) : (clock.from n).Between first last where
  first_le i := h.first_le (n + i)
  mono i j hij := h.mono (n + i) (n + j) (by omega)
  le_last i := h.le_last (n + i)

theorem Clock.Between.le {clock : Clock} {first last : UInt64} (h : clock.Between first last) :
    first ≤ last := UInt64.le_trans (h.first_le 0) (h.le_last 0)

inductive Fault where
  | nullPointer
  | pastTheEnd
  | outOfRange
  | divisionByZero
  | endlessLoop
  | unrepresentable
  deriving DecidableEq, Repr

/-- `p->`: what a pointer points to. -/
def deref {α : Type} : Option α → Except Fault α
  | some a => .ok a
  | none => .error .nullPointer

/-! ## `RTCUtils::Time` -/

/-- `Time::Ntp`. -/
structure Ntp where
  seconds : UInt32
  fractions : UInt32
  deriving DecidableEq

/-- `TimeMs2Ntp`. The code computes the fractions in `double`. The quotient by 1000 is off
    the exact one by less than `2^-53`, and the exact one is a whole number of units of
    `2^-32` or at least `2^-32 / 125` away from one, so the digits kept are the exact ones. -/
def timeMs2Ntp (ms : UInt64) : Ntp :=
  { seconds := (ms / 1000).toUInt32
    fractions := UInt32.ofNat ((ms % 1000).toNat * 2 ^ 32 / 1000) }

/-- `Ntp2TimeMs`. Product and quotient are exact in `double`, `std::round` takes halves
    away from zero. -/
def ntp2TimeMs (ntp : Ntp) : UInt64 :=
  ntp.seconds.toUInt64 * 1000 +
    UInt64.ofNat ((ntp.fractions.toNat * 1000 + 2 ^ 31) / 2 ^ 32)

end Bifrost.Rtc
