import Fireworks.Arithmetic.Float
import Fireworks.Decimal.Notation
import Fireworks.Show.Runner

/-! # The report of a show

A show is played to its end, and the report says what it holds, how it went and what was heard.
-/
namespace Fireworks.Report

inductive Line where
  /-- A line of the report itself. -/
  | output (text : String)
  | info (text : String)
  | warning (text : String)
  deriving DecidableEq, Repr

def stepLimit : Nat := 10000

def reportInterval : Nat := 20

def padLeft (width : Nat) (s : String) : String :=
  .ofList (List.replicate (width - s.length) ' ') ++ s

def padRight (width : Nat) (s : String) : String :=
  s ++ .ofList (List.replicate (width - s.length) ' ')

structure Play where
  runner : Runner Float
  spawned : Nat := 0
  peak : Nat := 0
  lines : List Line := []

namespace Play

def progressLine (stats : TickStats) (sim : Simulator Float) : Line :=
  -- A particle is lit until it closes.
  let lit := sim.field.particles.toList.countP fun p => !p.closed
  .info ("t=" ++ padLeft 6 ((BinaryFloat.ofFloat sim.elapsed).renderFixed 1)
    ++ "  live=" ++ padLeft 4 (toString stats.live) ++ "  lit=" ++ padLeft 4 (toString lit)
    ++ "  spawned=" ++ padLeft 3 (toString stats.spawned)
    ++ "  removed=" ++ padLeft 3 (toString stats.removed))

/-- The lines are collected with the last one first. -/
def step (play : Play) : Play :=
  let (stats, runner) := play.runner.step
  { runner
    spawned := play.spawned + stats.spawned
    peak := max play.peak stats.live
    lines :=
      if runner.tick % reportInterval = 0 then progressLine stats runner.sim :: play.lines
      else play.lines }

def run : Nat → Play → Play
  | 0, play => play
  | steps + 1, play => if play.runner.finished then play else run steps play.step

end Play

def introduction (s : Show Float) : List Line :=
  [.output "=== Pyro Finale ===", .output "", .output ("Show: " ++ s.name)]
  ++ s.programs.values.map (fun p => .output ("  " ++ padRight 10 p.id ++ " " ++ p.description))
  ++ [.output ""]

def summary (play : Play) : List Line :=
  let log := play.runner.sim.audio.log
  -- Cues are counted in the order of their names.
  let heard := (Cue.all.mergeSort fun a b => a.name ≤ b.name).filter fun cue => log.count cue != 0
  (if play.runner.finished then []
    else [.warning ("Stopped after " ++ toString stepLimit ++ " ticks with particles still live")])
  ++ [.output ("Finished after " ++ (BinaryFloat.ofFloat play.runner.sim.elapsed).renderPlain
      ++ " time units"),
    .output ("  particles spawned: " ++ toString play.spawned),
    .output ("  peak live: " ++ toString play.peak)]
  ++ heard.map fun cue => .output ("  " ++ cue.name ++ ": " ++ toString (log.count cue))

def ofShow (s : Show Float) : List Line × Option ShowError :=
  let sim := Simulator.new s.config (.recording {}) (Grid.rasterize Grid.defaultSpacing)
  match Runner.start sim s with
  | .error e => (introduction s, some e)
  | .ok runner =>
    let play := Play.run stepLimit { runner }
    (introduction s ++ play.lines.reverse ++ summary play, none)

end Fireworks.Report
