import Fireworks.Behavior
import Fireworks.Particle
import Fireworks.PointCloud

/-! # The scene of a step

A behavior acts on its own particle and on the stage that all particles of a tick share: it draws
random numbers, sends out new particles and gives cues. It never removes a particle.
-/
namespace Fireworks

structure Slot (ν : Type) where
  particle : Particle ν
  behavior : Behavior ν
  progress : Progress ν := .fresh

structure Setting (ν : Type) where
  config : Config ν
  rasterizer : Rasterizer ν

structure Stage (ν : Type) where
  rng : Rng
  /-- The particles sent out so far; they join the field after the tick. -/
  spawned : Array (Slot ν) := #[]
  cues : Array Cue := #[]

structure Scene (ν : Type) where
  particle : Particle ν
  stage : Stage ν

variable {ν : Type}

namespace Stage

def draw {α : Type} (stage : Stage ν) (action : StateM Rng α) : α × Stage ν :=
  let (value, rng) := action.run stage.rng
  (value, { stage with rng })

def add (stage : Stage ν) (slot : Slot ν) : Stage ν :=
  { stage with spawned := stage.spawned.push slot }

def play (stage : Stage ν) (cue : Cue) : Stage ν := { stage with cues := stage.cues.push cue }

/-- Sends out a particle with a behavior of its own, made from a body. -/
def sendOut [Arithmetic ν] (stage : Stage ν) (particle : Particle ν) (body : BehaviorGen ν)
    (k : Index) : Stage ν :=
  let (behavior, stage) := stage.draw (body.generate k)
  stage.add { particle, behavior }

end Stage

end Fireworks
