import Fireworks.Arithmetic.Extended
import Fireworks.Main
import Fireworks.Proofs.Behavior.Completion
import Fireworks.Proofs.Behavior.Contract
import Fireworks.Proofs.Behavior.Emission
import Fireworks.Proofs.Behavior.Finish
import Fireworks.Proofs.Behavior.Footprint
import Fireworks.Proofs.Behavior.Forward
import Fireworks.Proofs.Behavior.Lettering
import Fireworks.Proofs.Behavior.Reordering
import Fireworks.Proofs.Behavior.Resumption
import Fireworks.Proofs.Behavior.Rounds
import Fireworks.Proofs.Behavior.SlotTable
import Fireworks.Proofs.Compile.Choices
import Fireworks.Proofs.Compile.Names
import Fireworks.Proofs.Compile.Recursion
import Fireworks.Proofs.Flight
import Fireworks.Proofs.Generator.Hull
import Fireworks.Proofs.Rng.Draws
import Fireworks.Proofs.Show.Directory
import Fireworks.Proofs.Show.Merge
import Fireworks.Proofs.Show.Running
import Fireworks.Proofs.Show.Schedule
import Fireworks.Proofs.Simulator.Emptying
import Fireworks.Proofs.Simulator.Lives
import Fireworks.Proofs.Simulator.Seed
import Fireworks.Proofs.Simulator.Stocked
