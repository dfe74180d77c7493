/-
  A byte string behind a pointer: reads that may miss it, differences that may go below
  zero, loops that may not end.

  A checked program performs the accesses of the code and ends with a `Breach` at the first
  that is not in order. That one is equal to `.ok` of a pure function says both that no
  access goes wrong and what comes out.
-/
import Bifrost.Lib.Bytes

namespace Bifrost.Checked

inductive Breach where
  /-- The bytes from `i` to `i + n` are read and are not all there. -/
  | read (i n : Nat)
  | negative
  | endless
  deriving DecidableEq, Repr

variable {α : Type}

/-- Read what the `n` bytes from `i` on hold. -/
def read (data : List UInt8) (i n : Nat) (value : i + n ≤ data.length → α) : Except Breach α :=
  if h : i + n ≤ data.length then .ok (value h) else .error (.read i n)

/-- `a - b`. -/
def sub (a b : Nat) : Except Breach Nat := if b ≤ a then .ok (a - b) else .error .negative

theorem read_ok {data : List UInt8} {i n : Nat} {value : i + n ≤ data.length → α}
    (h : i + n ≤ data.length) : read data i n value = .ok (value h) := dif_pos h

theorem sub_ok {a b : Nat} (h : b ≤ a) : sub a b = .ok (a - b) := if_pos h

end Bifrost.Checked
