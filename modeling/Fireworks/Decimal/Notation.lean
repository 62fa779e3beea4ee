import Fireworks.Decimal.Shortest

/-! # Ways to write a float

Three ways are in use: all digits around a point, as a reader of a program sees them; digits with
an exponent where there would be many zeros, as data files hold them; and a fixed number of
places, as a table shows them.
-/
namespace Fireworks

namespace Decimal

def zeros (n : Nat) : List Char := List.replicate n '0'

def splitAtPoint (coefficient place : Nat) : List Char × List Char :=
  let digits := Nat.toDigits 10 coefficient
  let digits := zeros (place + 1 - digits.length) ++ digits
  (digits.take (digits.length - place), digits.drop (digits.length - place))

def positional (d : Decimal) : List Char × List Char :=
  splitAtPoint (d.coefficient * Nat.pow 10 d.exponent.toNat) (-d.exponent).toNat

def magnitude (d : Decimal) : Int := d.exponent + (Nat.toDigits 10 d.coefficient).length - 1

def scientific (d : Decimal) : List Char :=
  let mantissa :=
    match Nat.toDigits 10 d.coefficient with
    | [] => []
    | [digit] => [digit]
    | digit :: rest => digit :: '.' :: rest
  mantissa ++ 'e' :: (toString d.magnitude).toList

/-- The shortest decimal of a float; zero stands for itself. -/
def ofBinary (mantissa : Nat) (exponent : Int) : Decimal :=
  if mantissa = 0 then ⟨0, 0⟩ else shortest mantissa exponent

def roundHalfEven (num den : Nat) : Nat :=
  let down := num / den
  let rest := num % den
  if 2 * rest < den then down
  else if den < 2 * rest then down + 1
  else if down % 2 = 0 then down else down + 1

end Decimal

namespace BinaryFloat

def sign (negative : Bool) : List Char := if negative then ['-'] else []

/-- There is no point without digits after it. -/
def renderPlain : BinaryFloat → String
  | .nan _ => "NaN"
  | .infinite negative => .ofList (sign negative ++ "inf".toList)
  | .finite negative mantissa exponent =>
    let (whole, fraction) := (Decimal.ofBinary mantissa exponent).positional
    .ofList (sign negative ++ whole ++ if fraction.isEmpty then [] else '.' :: fraction)

/-- Whether a decimal is written with an exponent: from `10 ^ 16` on, and below `10 ^ -4`. -/
def usesExponent (d : Decimal) : Bool :=
  d.coefficient != 0 && (d.magnitude < -4 || 16 ≤ d.magnitude)

/-- Digits around a point, with a zero after it if need be, or digits with an exponent. -/
def renderData : BinaryFloat → String
  | .nan negative => .ofList (sign negative ++ "NaN".toList)
  | .infinite negative => .ofList (sign negative ++ "inf".toList)
  | .finite negative mantissa exponent =>
    let d := Decimal.ofBinary mantissa exponent
    if usesExponent d then .ofList (sign negative ++ d.scientific)
    else
      let (whole, fraction) := d.positional
      .ofList (sign negative ++ whole ++ '.' :: if fraction.isEmpty then ['0'] else fraction)

def renderFixed (places : Nat) : BinaryFloat → String
  | .nan _ => "NaN"
  | .infinite negative => .ofList (sign negative ++ "inf".toList)
  | .finite negative mantissa exponent =>
    let coefficient := Decimal.roundHalfEven
      ((mantissa <<< exponent.toNat) * Nat.pow 10 places) (1 <<< (-exponent).toNat)
    let (whole, fraction) := Decimal.splitAtPoint coefficient places
    .ofList (sign negative ++ whole ++ if fraction.isEmpty then [] else '.' :: fraction)

end BinaryFloat

end Fireworks
