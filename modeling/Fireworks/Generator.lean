import Fireworks.Registry
import Fireworks.Rng
import Fireworks.Vector

/-! # Generators

A compiled expression gives a value for each instance it is asked for. An instance is known by its
index among the instances made together; random operators draw besides, in the order in which
the parts of an expression are evaluated.
-/
namespace Fireworks

structure Index where
  index : Nat
  total : Nat
  deriving DecidableEq, Repr

def Index.root : Index := ⟨0, 1⟩

def maxSpawn : Nat := 100000

variable {ν : Type} [Arithmetic ν]

/-- A generated number as a count of particles: its integral part, up to `maxSpawn`. Infinities,
negative numbers and what is no number count nothing. -/
def spawnCount (x : ν) : Nat :=
  if Arithmetic.isFinite x ∧ 0 < x then
    Arithmetic.toCount (Arithmetic.minNum (Arithmetic.floor x) (Arithmetic.ofNat maxSpawn))
  else 0

namespace Selection

/-- A range is read at this ratio. A single instance stands in the middle. -/
def ratio (selection : Selection) (k : Index) : StateM Rng ν :=
  match selection with
  | .each =>
    pure (if k.total ≤ 1 then 0.5 else Arithmetic.ofNat k.index / Arithmetic.ofNat (k.total - 1))
  | .random => Rng.unit

/-- An angle in degrees. The instances share the full turn evenly; two of them begin at a right
angle. -/
def angle (selection : Selection) (k : Index) : StateM Rng ν :=
  match selection with
  | .each =>
    let offset : ν := if k.total = 2 then 90 else 0
    pure (if k.total = 0 then 0
      else 360 * Arithmetic.ofNat k.index / Arithmetic.ofNat k.total + offset)
  | .random => do return (← Rng.unit) * 360

def pick (ν : Type) [Arithmetic ν] (selection : Selection) (k : Index) (size : Nat) :
    StateM Rng Nat :=
  match selection with
  | .each => pure (k.index % size)
  | .random => Rng.index ν size

end Selection

inductive NumberGen (ν : Type) where
  | const (value : ν)
  | range (selection : Selection) (low high : NumberGen ν)
  | angle (selection : Selection)
  | choice (selection : Selection) (options : List (NumberGen ν))
  deriving Repr, BEq, Inhabited

namespace NumberGen

mutual

/-- A choice of nothing is zero. -/
def generate (k : Index) : NumberGen ν → StateM Rng ν
  | .const value => pure value
  | .range selection low high => do
    let low ← low.generate k
    let high ← high.generate k
    let r ← selection.ratio k
    return low * (1 - r) + high * r
  | .angle selection => selection.angle k
  | .choice selection options => do generateNth k options (← selection.pick ν k options.length)

def generateNth (k : Index) : List (NumberGen ν) → Nat → StateM Rng ν
  | [], _ => pure 0
  | option :: _, 0 => option.generate k
  | _ :: options, i + 1 => generateNth k options i

end

end NumberGen

inductive ValueGen (α : Type) where
  | const (value : α)
  | choice (selection : Selection) (options : List (ValueGen α))
  deriving Repr, BEq, Inhabited

namespace ValueGen

variable {α : Type} [Inhabited α]

mutual

def generate (ν : Type) [Arithmetic ν] (k : Index) : ValueGen α → StateM Rng α
  | .const value => pure value
  | .choice selection options => do
    generateNth ν k options (← selection.pick ν k options.length)

def generateNth (ν : Type) [Arithmetic ν] (k : Index) : List (ValueGen α) → Nat → StateM Rng α
  | [], _ => pure default
  | option :: _, 0 => option.generate ν k
  | _ :: options, i + 1 => generateNth ν k options i

end

end ValueGen

structure VectorGen (ν : Type) where
  x : NumberGen ν
  y : NumberGen ν
  z : NumberGen ν
  deriving Repr, BEq, Inhabited

def VectorGen.generate (k : Index) (v : VectorGen ν) : StateM Rng (Vec3 ν) := do
  let x ← v.x.generate k
  let y ← v.y.generate k
  let z ← v.z.generate k
  return ⟨x, y, z⟩

/-- Generators of behaviors. The body of whatever sends out particles is kept as it is, and
evaluated anew for each of them. -/
inductive BehaviorGen (ν : Type) where
  | action (action : Action)
  | property (blend : Blend) (target : Property) (value : NumberGen ν)
  | translate (offset : VectorGen ν)
  | rotate (degrees : VectorGen ν)
  | emit (count times parallel : NumberGen ν) (body : BehaviorGen ν)
  | loop (body : BehaviorGen ν)
  | repeated (limit : NumberGen ν) (body : BehaviorGen ν)
  | flair (count : NumberGen ν) (body : BehaviorGen ν)
  | fireworks (count : NumberGen ν) (body : BehaviorGen ν)
  | character (text : ValueGen String) (body : BehaviorGen ν)
  | text (text : ValueGen String) (offset : VectorGen ν) (body : BehaviorGen ν)
  /-- Lanes run side by side, and the statements of a lane one after another. -/
  | block (lanes : List (List (BehaviorGen ν)))
  | lifespan (lifespan : NumberGen ν) (body : BehaviorGen ν)
  | eased (easing : ValueGen Easing) (body : BehaviorGen ν)
  | choice (selection : Selection) (options : List (BehaviorGen ν))
  deriving Repr, Inhabited

end Fireworks
