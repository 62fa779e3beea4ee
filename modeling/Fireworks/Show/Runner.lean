import Fireworks.Show
import Fireworks.Simulator

/-! # Playing a show

Launches wait, ordered by their ticks, and start at the beginning of the step they are due at.
-/
namespace Fireworks

structure Runner (ν : Type) where
  sim : Simulator ν
  programs : NameTable (BehaviorGen ν)
  /-- The launches that have not started, by tick, and in the order of the show within a tick. -/
  pending : List (Launch ν)
  tick : Nat := 0

namespace Runner

variable {ν : Type}

/-- Prepares a show: every program has to compile, and every launch has to name one. -/
def start (sim : Simulator ν) (s : Show ν) : Except ShowError (Runner ν) := do
  let programs ← s.compileAll sim.registry
  if let some launch := s.launches.find? fun launch => !programs.contains launch.program then
    throw (.unknownProgram launch.program)
  return { sim, programs, pending := s.launches.mergeSort fun a b => a.tick ≤ b.tick }

def finished (runner : Runner ν) : Bool := runner.pending.isEmpty && runner.sim.field.isEmpty

variable [Arithmetic ν]

def fire (programs : NameTable (BehaviorGen ν)) (sim : Simulator ν) (launch : Launch ν) :
    Simulator ν :=
  match programs.find? launch.program with
  | none => sim
  | some program => ((sim.setProgram program).emitRoot launch.position).2

/-- Starts all launches that are due, up to the first one that is not. -/
def fireDue (programs : NameTable (BehaviorGen ν)) (tick : Nat) :
    List (Launch ν) → Simulator ν → List (Launch ν) × Simulator ν
  | [], sim => ([], sim)
  | launch :: rest, sim =>
    if tick < launch.tick then (launch :: rest, sim)
    else fireDue programs tick rest (fire programs sim launch)

variable [Elementary ν]

def step (runner : Runner ν) : TickStats × Runner ν :=
  let (pending, sim) := fireDue runner.programs runner.tick runner.pending runner.sim
  let (stats, sim) := sim.runSteps
  (stats, { runner with sim, pending, tick := runner.tick + 1 })

/-- Takes steps until the show is over, but at most `limit` of them; counts the steps taken. -/
def run : Nat → Runner ν → Nat × Runner ν
  | 0, runner => (0, runner)
  | limit + 1, runner =>
    if runner.finished then (0, runner)
    else
      let (steps, runner) := run limit runner.step.2
      (steps + 1, runner)

end Runner

end Fireworks
