/-! # The numbers of a show

Times, positions and generated values are numbers of one type `ν`, and everything that computes
with them is written once over the operations below. Double precision floats run a show; the
exact numbers of `Fireworks.Arithmetic.Extended` are there to reason about one. The operations
come without laws: a definition fixes which of them are performed, and in which order.
-/
namespace Fireworks

/-- Basic operations on numbers. Comparisons are false as soon as one side is no number, and
`==` holds between two zeros of either sign. -/
class Arithmetic (ν : Type) extends Add ν, Sub ν, Mul ν, Div ν, Neg ν, LT ν, LE ν, BEq ν,
    OfScientific ν where
  ofNat : Nat → ν
  abs : ν → ν
  floor : ν → ν
  isFinite : ν → Bool
  /-- The integral part, held between `0` and `2 ^ 64 - 1`; what is no number counts `0`. -/
  toCount : ν → Nat
  decidableLT : DecidableLT ν
  decidableLE : DecidableLE ν

class Elementary (ν : Type) where
  sqrt : ν → ν
  sin : ν → ν
  cos : ν → ν
  pow : ν → ν → ν
  pi : ν

namespace Arithmetic

variable {ν : Type} [Arithmetic ν]

instance : DecidableLT ν := decidableLT
instance : DecidableLE ν := decidableLE
instance (priority := low) {n : Nat} : OfNat ν n := ⟨ofNat n⟩

/-- More than any count: the quotient of one by zero. -/
def infinity : ν := 1 / 0

/-- Only what is no number differs from itself. -/
def isNaN (x : ν) : Bool := !(x == x)

/-- The larger operand, or the other one when one is no number. -/
def maxNum (x y : ν) : ν := if x < y then y else if isNaN x then y else x

def minNum (x y : ν) : ν := if y < x then y else if isNaN x then y else x

def clamp (low high x : ν) : ν := if x < low then low else if high < x then high else x

end Arithmetic

def radians {ν : Type} [Arithmetic ν] [Elementary ν] (x : ν) : ν := x * (Elementary.pi / 180)

end Fireworks
