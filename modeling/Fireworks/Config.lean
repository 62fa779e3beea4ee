import Fireworks.Arithmetic

/-! # Settings of a simulation -/
namespace Fireworks

structure Physics (ν : Type) where
  /-- Time that one explosion step advances, whatever the size of a tick. -/
  dt : ν
  /-- Factor from a covered distance to the one shown. -/
  scale : ν
  /-- Factor of the drag, negative where the drag opposes the motion. -/
  drag : ν
  /-- Vertical acceleration of particles that nobody launched with their own. -/
  defaultGravity : ν
  defaultMass : ν
  /-- Mass of the particles that a burst sends out. -/
  spawnMass : ν
  deriving Repr

def Physics.default {ν : Type} [OfScientific ν] [Neg ν] : Physics ν where
  dt := 0.0167
  scale := 10.0
  drag := -0.0000900238
  defaultGravity := -0.2
  defaultMass := 0.001
  spawnMass := 0.01

structure Config (ν : Type) where
  seed : UInt64
  step : ν
  stepsPerUpdate : Nat
  /-- Completions of children that a chain follows up within one call; read as at least one. -/
  continuationLimit : Nat
  physics : Physics ν
  deriving Repr

namespace Config

variable {ν : Type}

def default [OfScientific ν] [Neg ν] : Config ν where
  seed := 12345
  step := 1.0
  stepsPerUpdate := 1
  continuationLimit := 100
  physics := .default

def withSeed (config : Config ν) (seed : UInt64) : Config ν := { config with seed }

/-- Sets the step, or the default one in place of a step that would not advance time. -/
def withStep [Arithmetic ν] (config : Config ν) (step : ν) : Config ν :=
  { config with
    step := if 0 < step ∧ Arithmetic.isFinite step then step else (default : Config ν).step }

def withStepsPerUpdate (config : Config ν) (steps : Nat) : Config ν :=
  { config with stepsPerUpdate := max steps 1 }

def withContinuationLimit (config : Config ν) (limit : Nat) : Config ν :=
  { config with continuationLimit := max limit 1 }

def chainLimit (config : Config ν) : Nat := max config.continuationLimit 1

end Config

end Fireworks
