/-! # Double precision floats as binary fractions -/
namespace Fireworks

/-- What a double precision float stands for. -/
inductive BinaryFloat where
  | nan (negative : Bool)
  | infinite (negative : Bool)
  /-- The number `mantissa * 2 ^ exponent`, with its sign; zero has both signs. -/
  | finite (negative : Bool) (mantissa : Nat) (exponent : Int)
  deriving DecidableEq, Repr

namespace BinaryFloat

/-- The least mantissa of numbers that are written with all their bits. -/
def hiddenBit : Nat := 1 <<< 52

def leastExponent : Int := -1074

def ofBits (bits : UInt64) : BinaryFloat :=
  let negative := bits >>> 63 == 1
  let biased := (bits >>> 52).toNat % 2048
  let fraction := bits.toNat % hiddenBit
  if biased = 2047 then
    if fraction = 0 then .infinite negative else .nan negative
  else if biased = 0 then .finite negative fraction leastExponent
  else .finite negative (hiddenBit + fraction) (leastExponent + (biased - 1))

def ofFloat (x : Float) : BinaryFloat := ofBits x.toBits

def neg : BinaryFloat → BinaryFloat
  | .nan negative => .nan !negative
  | .infinite negative => .infinite !negative
  | .finite negative mantissa exponent => .finite (!negative) mantissa exponent

end BinaryFloat

end Fireworks
