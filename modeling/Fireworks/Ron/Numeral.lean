import Fireworks.Decimal.Binary

/-! # Numbers that documents hold -/
namespace Fireworks.Ron

class Numeral (ν : Type) extends OfScientific ν, Neg ν where
  infinity : ν
  undefined : ν
  toBinary : ν → BinaryFloat

instance : Numeral Float where
  infinity := 1.0 / 0.0
  undefined := 0.0 / 0.0
  toBinary := .ofFloat

/-- Floats that are taken apart keep the sign of what is no number. -/
instance : Numeral BinaryFloat where
  ofScientific mantissa isFraction exponent := .ofFloat (.ofScientific mantissa isFraction exponent)
  neg := .neg
  infinity := .infinite false
  undefined := .nan false
  toBinary := id

end Fireworks.Ron
