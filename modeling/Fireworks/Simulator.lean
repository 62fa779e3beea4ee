import Fireworks.Compile
import Fireworks.Field

/-! # The simulator

A simulator owns all that one show needs: the names of the language, the active program, the
field, the random numbers, a listener to cues and a way to draw text.
-/
namespace Fireworks

structure Simulator (ν : Type) where
  registry : Registry
  config : Config ν
  rng : Rng
  program : Option (BehaviorGen ν)
  field : Field ν
  audio : Audio
  rasterizer : Rasterizer ν
  elapsed : ν

namespace Simulator

variable {ν : Type}

def setting (sim : Simulator ν) : Setting ν := ⟨sim.config, sim.rasterizer⟩

def closed (sim : Simulator ν) : Bool := sim.field.closed

def size (sim : Simulator ν) : Nat := sim.field.size

def clear (sim : Simulator ν) : Simulator ν := { sim with field := {} }

def setProgram (sim : Simulator ν) (program : BehaviorGen ν) : Simulator ν :=
  { sim with program := some program }

/-- A program that does not compile changes nothing. -/
def compileProgram (sim : Simulator ν) (program : List (Term ν)) :
    Except CompileError (Simulator ν) := do
  return sim.setProgram (← sim.registry.compileProgram program)

def drainCues (sim : Simulator ν) : Array Cue × Simulator ν :=
  let (cues, audio) := sim.audio.drain
  (cues, { sim with audio })

variable [Arithmetic ν]

def new (config : Config ν) (audio : Audio) (rasterizer : Rasterizer ν)
    (registry : Registry := .builtin) : Simulator ν where
  registry
  config
  rng := .ofSeed config.seed
  program := none
  field := {}
  audio
  rasterizer
  elapsed := 0

/-- Without an active program nothing is sent out. -/
def emitRoot (sim : Simulator ν) (position : Vec3 ν) : Bool × Simulator ν :=
  match sim.program with
  | none => (false, sim)
  | some program =>
    let (behavior, rng) := (program.generate .root).run sim.rng
    let particle := Particle.resting sim.config.physics position
    (true, { sim with rng, field := sim.field.add { particle, behavior } })

variable [Elementary ν]

def update (sim : Simulator ν) (delta : ν) : TickStats × Simulator ν :=
  let tick := sim.field.tick sim.setting delta sim.rng
  (tick.stats,
    { sim with
      rng := tick.rng
      field := tick.field
      audio := sim.audio.hear tick.cues
      elapsed := if 0 < delta then sim.elapsed + delta else sim.elapsed })

/-- Adds the counts of `count` ticks to those of the ticks before. -/
def runTicks : Nat → TickStats → Simulator ν → TickStats × Simulator ν
  | 0, total, sim => (total, sim)
  | count + 1, total, sim =>
    let (stats, sim) := sim.update sim.config.step
    runTicks count
      { spawned := total.spawned + stats.spawned, removed := total.removed + stats.removed,
        live := stats.live } sim

def runSteps (sim : Simulator ν) : TickStats × Simulator ν :=
  runTicks sim.config.stepsPerUpdate { live := sim.size } sim

end Simulator

end Fireworks
