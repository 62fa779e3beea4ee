import Fireworks.Proofs.Field
import Fireworks.Proofs.Simulator.Operations

/-! # What programs hand on to a whole simulation

Root particles are made from the active program, and all others from bodies that particles hold. So what
programs hand on to behaviors, and behaviors to their bodies, is true of every particle that there ever
is, if it is true of the programs that a simulator is given.
-/
namespace Fireworks
variable {ν : Type} [Arithmetic ν] {G : BehaviorGen ν → Prop} {B : Behavior ν → Prop}

omit [Arithmetic ν] in
variable (G) in
/-- An operation that brings in no other programs than those with a property. -/
def Operation.Brings (registry : Registry) : Operation ν → Prop
  | .compile program => ∀ g, registry.compileProgram program = .ok g → G g
  | .choose program => G program
  | _ => True

namespace Simulator
variable {sim : Simulator ν}

omit [Arithmetic ν] in
variable (G B) in
/-- A property of the active program, and one of the behaviors of all particles. -/
structure Holds (sim : Simulator ν) : Prop where
  program : ∀ g ∈ sim.program, G g
  slots : ∀ slot ∈ sim.field.slots, B slot.behavior

theorem Holds.new (config : Config ν) (audio : Audio) (rasterizer : Rasterizer ν) (registry : Registry) :
    (new config audio rasterizer registry).Holds G B :=
  ⟨fun _ h => absurd h (Option.not_mem_none _),fun _ h => absurd h (Array.not_mem_empty _)⟩

omit [Arithmetic ν] in
theorem Holds.setProgram (h : sim.Holds G B) {g : BehaviorGen ν} (hg : G g) :
    (sim.setProgram g).Holds G B := by
  refine ⟨fun other hother => ?_,h.slots⟩
  cases hother
  exact hg

theorem Holds.emitRoot (hline : Lineage G B) (h : sim.Holds G B) (position : Vec3 ν) :
    (sim.emitRoot position).2.Holds G B := by
  cases hprogram : sim.program with
  | none =>
    rw [emitRoot_of_none sim hprogram]
    exact h
  | some program =>
    rw [emitRoot_of_some sim hprogram]
    refine ⟨h.program,fun slot hslot => ?_⟩
    rcases Array.mem_push.mp hslot with hmem | rfl
    · exact h.slots slot hmem
    · exact hline.made (h.program program hprogram) .root sim.rng

variable [Elementary ν]

theorem Holds.pass (hline : Lineage G B) (h : sim.Holds G B) (delta : ν) : (sim.pass delta).Holds G B :=
  ⟨h.program,Field.forall_tick sim.setting hline h.slots⟩

theorem Holds.perform (hline : Lineage G B) (h : sim.Holds G B) {op : Operation ν}
    (hop : op.Brings G sim.registry) : (sim.perform op).Holds G B := by
  cases op with
  | compile program =>
    rcases sim.compileProgram_cases program with ⟨g,hcompile,hset⟩ | hset
    · rw [Simulator.perform,hset]
      exact h.setProgram (hop g hcompile)
    · rw [Simulator.perform,hset]
      exact h
  | choose program => exact h.setProgram hop
  | emit position => exact h.emitRoot hline position
  | update delta => exact h.pass hline delta
  | steps =>
    rw [Simulator.perform,runSteps_snd]
    exact Function.Iterate.rec (Holds G B) h (fun _ h => h.pass hline _) _
  | clear => exact ⟨h.program,fun _ hslot => absurd hslot (Array.not_mem_empty _)⟩

theorem Holds.foldl (hline : Lineage G B) (h : sim.Holds G B) {ops : List (Operation ν)}
    (hops : ∀ op ∈ ops, op.Brings G sim.registry) : (ops.foldl Simulator.perform sim).Holds G B := by
  induction ops generalizing sim with
  | nil => exact h
  | cons op ops ih =>
    obtain ⟨hop,hrest⟩ := List.forall_mem_cons.mp hops
    have hregistry : (sim.perform op).registry = sim.registry := congrArg (·.1) (sim.fixed_perform op)
    exact ih (h.perform hline hop) (hregistry ▸ hrest)

end Simulator
end Fireworks
