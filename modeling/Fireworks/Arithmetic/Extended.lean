import Fireworks.Arithmetic

/-! # Exact numbers with infinities

Rational numbers, two infinities, and one value for what is no number. Sums, differences and
products of rationals are exact, so that times add up; an infinite lifespan is a number like any
other. A quotient by zero follows the sign of the dividend, as there is one zero only.
-/
namespace Fireworks

inductive Extended where
  | finite (q : Rat)
  | infinite (negative : Bool)
  | undefined
  deriving DecidableEq, Repr

namespace Extended

def add : Extended → Extended → Extended
  | .finite p, .finite q => .finite (p + q)
  | .finite _, .infinite s | .infinite s, .finite _ => .infinite s
  | .infinite s, .infinite t => if s = t then .infinite s else .undefined
  | .undefined, _ | _, .undefined => .undefined

def neg : Extended → Extended
  | .finite q => .finite (-q)
  | .infinite s => .infinite !s
  | .undefined => .undefined

/-- Whether a number lies below zero, or nothing for zero itself. -/
def negative? : Extended → Option Bool
  | .finite q => if q = 0 then none else some (decide (q < 0))
  | .infinite s => some s
  | .undefined => none

/-- The infinity whose sign is that of a product of signs; zero has no sign to give. -/
def infiniteOf : Option Bool → Option Bool → Extended
  | some s, some t => .infinite (s != t)
  | _, _ => .undefined

def mul : Extended → Extended → Extended
  | .finite p, .finite q => .finite (p * q)
  | .undefined, _ | _, .undefined => .undefined
  | x, y => infiniteOf x.negative? y.negative?

def div : Extended → Extended → Extended
  | .finite p, .finite q =>
    if q = 0 then infiniteOf (finite p).negative? (some false) else .finite (p / q)
  | .finite _, .infinite _ => .finite 0
  | .infinite s, .finite q => .infinite (s != decide (q < 0))
  | _, _ => .undefined

def le : Extended → Extended → Bool
  | .undefined, _ | _, .undefined => false
  | .finite p, .finite q => p ≤ q
  | .infinite true, _ | _, .infinite false => true
  | _, _ => false

def lt (x y : Extended) : Bool := le x y && !le y x

def beq (x y : Extended) : Bool := le x y && le y x

def toCount : Extended → Nat
  | .finite q => min q.floor.toNat (UInt64.size - 1)
  | .infinite false => UInt64.size - 1
  | .infinite true | .undefined => 0

end Extended

open Extended in
instance : Arithmetic Extended where
  add := add
  sub x y := add x (neg y)
  mul := mul
  div := div
  neg := neg
  lt x y := lt x y = true
  le x y := le x y = true
  beq := beq
  ofScientific m s e := .finite (OfScientific.ofScientific m s e)
  ofNat n := .finite n
  abs x := if lt x (.finite 0) then neg x else x
  floor
    | .finite q => .finite q.floor
    | x => x
  isFinite
    | .finite _ => true
    | _ => false
  toCount := toCount
  decidableLT _ _ := inferInstanceAs (Decidable (_ = true))
  decidableLE _ _ := inferInstanceAs (Decidable (_ = true))

end Fireworks
