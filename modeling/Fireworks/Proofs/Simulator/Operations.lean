import Fireworks.Simulator
import Mathlib.Logic.Function.Iterate

/-! # What is done to a simulator

A simulator is driven by operations one after the other. None of them touches what all behaviors see
of it, its settings and its way to draw text.
-/
namespace Fireworks
variable {ν : Type}

/-- What a host asks of a simulator. -/
inductive Operation (ν : Type) where
  | compile (program : List (Term ν))
  | choose (program : BehaviorGen ν)
  | emit (position : Vec3 ν)
  | update (delta : ν)
  | steps
  | clear

namespace Simulator

/-- What no operation changes. -/
def fixed (sim : Simulator ν) : Registry × Config ν × Rasterizer ν :=
  (sim.registry,sim.config,sim.rasterizer)

/-- A program that compiles is made the active one, and any other is without effect. -/
theorem compileProgram_cases (sim : Simulator ν) (program : List (Term ν)) :
    (∃ generator, sim.registry.compileProgram program = .ok generator ∧
      (sim.compileProgram program).toOption = some (sim.setProgram generator)) ∨
      (sim.compileProgram program).toOption = none := by
  cases hcompile : sim.registry.compileProgram program with
  | ok generator => exact .inl ⟨generator,rfl,by rw [compileProgram,hcompile]; rfl⟩
  | error e => exact .inr (by rw [compileProgram,hcompile]; rfl)

theorem setting_eq_of_fixed {sim other : Simulator ν} (h : sim.fixed = other.fixed) :
    sim.setting = other.setting :=
  congrArg (fun f : Registry × Config ν × Rasterizer ν => (⟨f.2.1,f.2.2⟩ : Setting ν)) h

theorem config_eq_of_fixed {sim other : Simulator ν} (h : sim.fixed = other.fixed) :
    sim.config = other.config := congrArg (·.2.1) h

variable [Arithmetic ν]

def root (sim : Simulator ν) (program : BehaviorGen ν) (position : Vec3 ν) : Slot ν × Rng :=
  let (behavior,rng) := (program.generate .root).run sim.rng
  ({ particle := .resting sim.config.physics position, behavior },rng)

theorem emitRoot_of_some (sim : Simulator ν) {program : BehaviorGen ν} (h : sim.program = some program)
    (position : Vec3 ν) : sim.emitRoot position = (true,{ sim with
      rng := (sim.root program position).2
      field := sim.field.add (sim.root program position).1 }) := by
  simp only [emitRoot,h]
  rfl

theorem emitRoot_of_none (sim : Simulator ν) (h : sim.program = none) (position : Vec3 ν) :
    sim.emitRoot position = (false,sim) := by
  rw [emitRoot,h]

theorem fixed_emitRoot (sim : Simulator ν) (position : Vec3 ν) : (sim.emitRoot position).2.fixed = sim.fixed := by
  cases h : sim.program with
  | none => rw [emitRoot_of_none sim h]
  | some program => rw [emitRoot_of_some sim h]; rfl

variable [Elementary ν]

def pass (delta : ν) (sim : Simulator ν) : Simulator ν := (sim.update delta).2

/-- What an operation makes of a simulator. A program that does not compile makes nothing of it. -/
def perform (sim : Simulator ν) : Operation ν → Simulator ν
  | .compile program => (sim.compileProgram program).toOption.getD sim
  | .choose program => sim.setProgram program
  | .emit position => (sim.emitRoot position).2
  | .update delta => sim.pass delta
  | .steps => sim.runSteps.2
  | .clear => sim.clear

variable (sim : Simulator ν)

/-- The ticks of an update are updates by the fixed step. -/
theorem runTicks_snd (count : ℕ) (total : TickStats) :
    (runTicks count total sim).2 = (pass sim.config.step)^[count] sim := by
  induction count generalizing total sim with
  | zero => rfl
  | succ count ih => exact ih _ _

theorem runSteps_snd :
    sim.runSteps.2 = (pass sim.config.step)^[sim.config.stepsPerUpdate] sim :=
  sim.runTicks_snd _ _

theorem fixed_pass (delta : ν) : (sim.pass delta).fixed = sim.fixed := rfl

theorem fixed_iterate (delta : ν) (count : ℕ) :
    ((pass delta)^[count] sim).fixed = sim.fixed := by
  induction count generalizing sim with
  | zero => rfl
  | succ count ih => exact (ih _).trans (sim.fixed_pass delta)

theorem fixed_perform (op : Operation ν) : (sim.perform op).fixed = sim.fixed := by
  cases op with
  | compile program =>
    rcases sim.compileProgram_cases program with ⟨generator,-,h⟩ | h
    · rw [perform,h]; rfl
    · rw [perform,h]; rfl
  | choose | update | clear => rfl
  | emit position => exact sim.fixed_emitRoot position
  | steps => rw [perform,runSteps_snd,fixed_iterate]

theorem fixed_foldl (ops : List (Operation ν)) : (ops.foldl perform sim).fixed = sim.fixed := by
  induction ops generalizing sim with
  | nil => rfl
  | cons op ops ih => exact (ih _).trans (sim.fixed_perform op)

end Simulator
end Fireworks
