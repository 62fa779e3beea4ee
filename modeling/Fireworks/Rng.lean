import Fireworks.Arithmetic

/-! # Seeded random numbers

An xorshift generator over 64 bits. A draw gives its value and the generator that makes the next
one, so that whoever draws says in which order.
-/
namespace Fireworks

structure Rng where
  state : UInt64
  deriving DecidableEq, Repr

namespace Rng

/-- The state zero would never leave itself, so that the seed zero stands for one. -/
def ofSeed (seed : UInt64) : Rng := ⟨if seed = 0 then 1 else seed⟩

instance : Inhabited Rng := ⟨ofSeed 12345⟩

def scramble (x : UInt64) : UInt64 :=
  let x := x ^^^ (x <<< 13)
  let x := x ^^^ (x >>> 7)
  x ^^^ (x <<< 17)

def next (rng : Rng) : UInt64 × Rng :=
  let x := scramble rng.state
  (x, ⟨x⟩)

variable {ν : Type} [Arithmetic ν]

/-- A draw from zero (included) to one (excluded): the upper 53 bits over `2 ^ 53`. -/
def unit (rng : Rng) : ν × Rng :=
  let (x, rng) := rng.next
  (Arithmetic.ofNat (x >>> 11).toNat / Arithmetic.ofNat 9007199254740992, rng)

def between (low high : ν) (rng : Rng) : ν × Rng :=
  let (u, rng) : ν × Rng := rng.unit
  (low + u * (high - low), rng)

/-- A draw below `size`, which takes nothing from the generator when there is nothing below. -/
def index (ν : Type) [Arithmetic ν] (size : Nat) (rng : Rng) : Nat × Rng :=
  if size = 0 then (0, rng)
  else
    let (u, rng) : ν × Rng := rng.unit
    (Arithmetic.toCount (u * Arithmetic.ofNat size) % size, rng)

end Rng

end Fireworks
