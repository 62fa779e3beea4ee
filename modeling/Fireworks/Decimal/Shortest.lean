import Fireworks.Decimal.Binary

/-! # The shortest decimal that reads back

The decimals that read back as one float are those nearer to it than to any other. Among them the
ones on the coarsest decimal grid have the fewest digits, and the nearest of those is taken.
-/
namespace Fireworks

structure Decimal where
  coefficient : Nat
  exponent : Int
  deriving DecidableEq, Repr

namespace Decimal

/-- The numbers that read back as one float, over a common unit: those between `low` and `high`
around `value`, with the ends if `closed`. -/
structure Neighborhood where
  low : Nat
  value : Nat
  high : Nat
  /-- How many units make one. -/
  unit : Nat
  closed : Bool

namespace Neighborhood

/-- Numbers that read back as `mantissa * 2 ^ exponent` lie up to half a step away from it. Below a
power of two the steps are half as long. An even mantissa takes the ends as well. -/
def ofBinary (mantissa : Nat) (exponent : Int) : Neighborhood :=
  let step := 1 <<< exponent.toNat
  let below :=
    if mantissa = BinaryFloat.hiddenBit ∧ BinaryFloat.leastExponent < exponent then 1 else 2
  { low := (4 * mantissa - below) * step
    value := 4 * mantissa * step
    high := (4 * mantissa + 2) * step
    unit := 4 <<< (-exponent).toNat
    closed := mantissa % 2 == 0 }

def contains (around : Neighborhood) (x : Nat) : Bool :=
  if around.closed then around.low ≤ x && x ≤ around.high else around.low < x && x < around.high

/-- The multiple of `10 ^ exponent` that is nearest to the value, if any multiple lies around it. Of
two that are as near, the larger one is taken. -/
def onGrid (around : Neighborhood) (exponent : Int) : Option Nat :=
  let scale := Nat.pow 10 (-exponent).toNat
  let grid := around.unit * Nat.pow 10 exponent.toNat
  let around := { around with
    low := around.low * scale, value := around.value * scale, high := around.high * scale }
  let down := around.value / grid
  let up := down + 1
  match around.contains (down * grid), around.contains (up * grid) with
  | true, true =>
    if around.value - down * grid < up * grid - around.value then some down else some up
  | true, false => some down
  | false, true => some up
  | false, false => none

def search (around : Neighborhood) : Nat → Int → Decimal
  | 0, exponent => ⟨around.value, exponent⟩
  | fuel + 1, exponent =>
    match around.onGrid exponent with
    | some coefficient => ⟨coefficient, exponent⟩
    | none => around.search fuel (exponent - 1)

def startExponent (around : Neighborhood) : Int :=
  -- A binary digit is worth 0.30103 decimal ones; the sum is above the value.
  Int.fdiv (((around.value.log2 : Int) - around.unit.log2 + 1) * 30103) 100000 + 1

end Neighborhood

/-- The shortest decimal that reads back as a positive float; it has at most 17 digits, so that
the search has no more than a few grids to spare. -/
def shortest (mantissa : Nat) (exponent : Int) : Decimal :=
  let around := Neighborhood.ofBinary mantissa exponent
  around.search 24 around.startExponent

end Decimal

end Fireworks
