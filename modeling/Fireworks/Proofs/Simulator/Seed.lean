import Fireworks.Proofs.Field.Order
import Fireworks.Proofs.Simulator.Lineage

/-! # What the seed decides

The seed of a simulator sets its first random number and nothing else. As long as no program that it is
given draws one, that number stands there unused: whatever is asked of the simulator, it answers the same
with any seed, and it comes through the same states.
-/
namespace Fireworks
variable {ν : Type} [Arithmetic ν]

namespace Field
variable [Elementary ν] {setting setting' : Setting ν}

omit [Arithmetic ν] [Elementary ν] in
theorem mem_of_mem_pop_swap {slots : Array (Slot ν)} {i : ℕ} (hi : i < slots.size)
    (hlast : slots.size - 1 < slots.size) {slot : Slot ν}
    (h : slot ∈ (slots.swap i (slots.size - 1) hi hlast).pop) : slot ∈ slots := by
  have hpush := Array.mem_push_of_mem slots[i] h
  rw [push_pop_swap slots hi] at hpush
  exact (Array.swap_perm hi hlast).mem_iff.mp hpush

theorem sweep_followedBy {slots : Array (Slot ν)} (h : ∀ slot ∈ slots, slot.behavior.Drawless)
    (hlimit : setting'.config.chainLimit = setting.config.chainLimit)
    (hphysics : setting'.config.physics = setting.config.physics) (dt : ν) (i removed : ℕ)
    (base stage : Stage ν) :
    sweep setting' dt slots i removed (base.followedBy stage) =
      let (kept,removed,last) := sweep setting dt slots i removed stage
      (kept,removed,base.followedBy last) := by
  -- A visit puts a slot of the same behavior back, or takes one out, so that all slots stay drawless.
  fun_induction sweep setting dt slots i removed stage with
  | case1 slots i removed stage hi slot next hadvance ih =>
    have hslot := h _ (Array.getElem_mem hi)
    have hcarried := slots[i].advance_followedBy hslot hlimit hphysics dt base stage
    have hbehavior : slot.behavior = slots[i].behavior :=
      (congrArg (·.2.1.behavior) hadvance).symm
    rw [sweep,dif_pos hi,hcarried,hadvance]
    refine ih fun other hother => ?_
    rcases Array.mem_or_eq_of_mem_set hother with hmem | rfl
    · exact h other hmem
    · rwa [hbehavior]
  | case2 slots i removed stage hi leftover slot next hadvance ih =>
    have hslot := h _ (Array.getElem_mem hi)
    have hcarried := slots[i].advance_followedBy hslot hlimit hphysics dt base stage
    rw [sweep,dif_pos hi,hcarried,hadvance]
    exact ih fun other hother => h other (mem_of_mem_pop_swap hi _ hother)
  | case3 slots i removed stage hi => rw [sweep,dif_neg hi]

/-- A tick of particles that draw nothing hands on the random numbers as it got them, and goes the same
with any of them. -/
theorem Drawless.tick_rng {field : Field ν} (h : field.Drawless)
    (hlimit : setting'.config.chainLimit = setting.config.chainLimit)
    (hphysics : setting'.config.physics = setting.config.physics) (dt : ν) (rng rng' : Rng) :
    field.tick setting' dt rng' = { field.tick setting dt rng with rng := rng' } := by
  by_cases hdt : 0 < dt
  · have hsweep := sweep_followedBy h hlimit hphysics dt 0 0 { rng := rng' } { rng }
    rw [Stage.followedBy_empty] at hsweep
    simp only [Field.tick,hdt,↓reduceIte,hsweep,Stage.followedBy,Array.empty_append]
  · rw [tick_of_not_pos setting rng field hdt,tick_of_not_pos setting' rng' field hdt]

end Field

/-- An operation that gives a simulator no program that draws. -/
def Operation.Drawless (registry : Registry) : Operation ν → Prop
  | .compile program => ∀ generator, registry.compileProgram program = .ok generator → generator.Drawless
  | .choose program => program.Drawless
  | _ => True

/-- What a simulator answers to an operation. -/
inductive Answer where
  | done
  | refused (e : CompileError)
  | emitted (sent : Bool)
  | passed (stats : TickStats)

namespace Simulator

/-- The same simulator at the start of the random numbers of another seed. -/
def reseed (sim : Simulator ν) (seed : UInt64) : Simulator ν :=
  { sim with config := sim.config.withSeed seed, rng := .ofSeed seed }

structure Drawless (sim : Simulator ν) : Prop where
  program : ∀ generator ∈ sim.program, generator.Drawless
  field : sim.field.Drawless

variable [Elementary ν]

def answer (sim : Simulator ν) : Operation ν → Answer
  | .compile program =>
    match sim.compileProgram program with
    | .ok _ => .done
    | .error e => .refused e
  | .emit position => .emitted (sim.emitRoot position).1
  | .update delta => .passed (sim.update delta).1
  | .steps => .passed sim.runSteps.1
  | .choose _ | .clear => .done

/-- The answers to operations one after the other, each with the simulator after it. -/
def history : List (Operation ν) → Simulator ν → List (Answer × Simulator ν)
  | [],_ => []
  | op :: ops,sim => (sim.answer op,sim.perform op) :: history ops (sim.perform op)

variable {sim : Simulator ν} (seed : UInt64)

omit [Arithmetic ν] [Elementary ν] in
theorem compileProgram_reseed (sim : Simulator ν) (program : List (Term ν)) :
    (sim.reseed seed).compileProgram program = (sim.compileProgram program).map (·.reseed seed) := by
  have hbind : ∀ sim : Simulator ν, sim.compileProgram program =
      (sim.registry.compileProgram program).map sim.setProgram := by
    intro sim
    rw [compileProgram]
    cases sim.registry.compileProgram program <;> rfl
  rw [hbind,hbind]
  cases hcompile : sim.registry.compileProgram program with
  | ok generator => simp only [reseed,hcompile]; rfl
  | error e => simp only [reseed,hcompile]; rfl

omit [Elementary ν] in
theorem Drawless.emitRoot_reseed (h : sim.Drawless) (position : Vec3 ν) :
    (sim.reseed seed).emitRoot position =
      ((sim.emitRoot position).1,(sim.emitRoot position).2.reseed seed) := by
  cases hprogram : sim.program with
  | none => rw [emitRoot_of_none sim hprogram,emitRoot_of_none (sim.reseed seed) hprogram]
  | some program =>
    obtain ⟨b,-,hb⟩ := (h.program program hprogram).generate .root
    rw [emitRoot_of_some sim hprogram,emitRoot_of_some (sim.reseed seed) hprogram]
    simp only [root,hb]
    rfl

theorem Drawless.update_reseed (h : sim.Drawless) (delta : ν) :
    (sim.reseed seed).update delta = ((sim.update delta).1,(sim.update delta).2.reseed seed) := by
  have hlimit : (sim.reseed seed).setting.config.chainLimit = sim.setting.config.chainLimit := rfl
  have hphysics : (sim.reseed seed).setting.config.physics = sim.setting.config.physics := rfl
  have htick : (sim.reseed seed).field.tick (sim.reseed seed).setting delta (sim.reseed seed).rng =
      { sim.field.tick sim.setting delta sim.rng with rng := .ofSeed seed } :=
    h.field.tick_rng hlimit hphysics delta sim.rng (.ofSeed seed)
  unfold update
  rw [htick]
  rfl

theorem Drawless.update (h : sim.Drawless) (delta : ν) : (sim.update delta).2.Drawless :=
  ⟨h.program,h.field.tick sim.setting delta sim.rng⟩

theorem runTicks_succ (sim : Simulator ν) (count : ℕ) (total : TickStats) :
    runTicks (count + 1) total sim =
      let (stats,after) := sim.update sim.config.step
      runTicks count
        ⟨total.spawned + stats.spawned,total.removed + stats.removed,stats.live⟩ after := rfl

theorem Drawless.runTicks_reseed (h : sim.Drawless) (count : ℕ) (total : TickStats) :
    runTicks count total (sim.reseed seed) =
      ((runTicks count total sim).1,(runTicks count total sim).2.reseed seed) := by
  induction count generalizing total sim with
  | zero => rfl
  | succ count ih =>
    have hstep : (sim.reseed seed).config.step = sim.config.step := rfl
    rw [runTicks_succ,runTicks_succ,hstep,h.update_reseed]
    exact ih (h.update sim.config.step) _

/-- Whatever is asked of it, a simulator in which nothing draws answers the same with any seed, and goes
on as the same simulator. -/
theorem Drawless.perform_reseed (h : sim.Drawless) (op : Operation ν) :
    (sim.reseed seed).perform op = (sim.perform op).reseed seed ∧
      (sim.reseed seed).answer op = sim.answer op := by
  cases op with
  | compile program =>
    rw [Simulator.perform,answer,sim.compileProgram_reseed]
    rw [Simulator.perform,answer]
    cases sim.compileProgram program <;> exact ⟨rfl,rfl⟩
  | choose program => exact ⟨rfl,rfl⟩
  | emit position =>
    rw [Simulator.perform,answer,h.emitRoot_reseed]
    exact ⟨rfl,rfl⟩
  | update delta =>
    rw [Simulator.perform,answer,pass,h.update_reseed]
    exact ⟨rfl,rfl⟩
  | steps =>
    have hticks := h.runTicks_reseed seed sim.config.stepsPerUpdate { live := sim.size }
    have hsteps : (sim.reseed seed).runSteps = (sim.runSteps.1,sim.runSteps.2.reseed seed) := hticks
    rw [Simulator.perform,answer,hsteps]
    exact ⟨rfl,rfl⟩
  | clear => exact ⟨rfl,rfl⟩

theorem Drawless.perform (h : sim.Drawless) {op : Operation ν} (hop : op.Drawless sim.registry) :
    (sim.perform op).Drawless := by
  have hbrings : op.Brings BehaviorGen.Drawless sim.registry := by cases op <;> exact hop
  have hholds : sim.Holds BehaviorGen.Drawless Behavior.Drawless := ⟨h.program,h.field⟩
  obtain ⟨hprogram,hslots⟩ := hholds.perform BehaviorGen.Drawless.lineage hbrings
  exact ⟨hprogram,hslots⟩

theorem Drawless.history_reseed (h : sim.Drawless) {ops : List (Operation ν)}
    (hops : ∀ op ∈ ops, op.Drawless sim.registry) :
    history ops (sim.reseed seed) =
      (history ops sim).map fun point => (point.1,point.2.reseed seed) := by
  induction ops generalizing sim with
  | nil => rfl
  | cons op ops ih =>
    obtain ⟨hop,hrest⟩ := List.forall_mem_cons.mp hops
    obtain ⟨hperform,hanswer⟩ := h.perform_reseed seed op
    have hregistry : (sim.perform op).registry = sim.registry := congrArg (·.1) (sim.fixed_perform op)
    have hafter := ih (h.perform hop) (fun other hother => by rw [hregistry]; exact hrest other hother)
    simp only [history,List.map_cons,hperform,hanswer,hafter]

end Simulator

/-- The seed only matters to random operators. A simulator whose programs draw nothing, whatever is asked
of it, stays at the first of its random numbers; with another seed it gives the same answers, and at every
point it is the same simulator but for the seed. -/
theorem Simulator.history_seed [Elementary ν] (registry : Registry) (config : Config ν) (audio : Audio)
    (rasterizer : Rasterizer ν) {ops : List (Operation ν)}
    (hops : ∀ op ∈ ops, op.Drawless registry) (seed seed' : UInt64) :
    (∀ point ∈ history ops (new (config.withSeed seed) audio rasterizer registry),
        point.2.rng = .ofSeed seed) ∧
      history ops (new (config.withSeed seed') audio rasterizer registry) =
        (history ops (new (config.withSeed seed) audio rasterizer registry)).map fun point =>
          (point.1,point.2.reseed seed') := by
  have hnew : (new config audio rasterizer registry).Drawless :=
    ⟨fun _ h => absurd h (Option.not_mem_none _),fun _ h => absurd h (Array.not_mem_empty _)⟩
  have hseed : ∀ seed, history ops (new (config.withSeed seed) audio rasterizer registry) =
      (history ops (new config audio rasterizer registry)).map fun point => (point.1,point.2.reseed seed) :=
    fun seed => hnew.history_reseed seed hops
  -- Both runs are the run with the seed of `config`, each brought to its own seed.
  constructor
  · intro point hpoint
    rw [hseed] at hpoint
    obtain ⟨before,-,rfl⟩ := List.mem_map.mp hpoint
    rfl
  · rw [hseed seed',hseed seed,List.map_map]
    rfl

namespace Plain

def demonstration : List (Operation Extended) :=
  [.choose (.emit (.const 3) (.const 1) (.const 3)
      (.property .set .speed (.range .each (.const 0) (.const 1)))),
    .emit .zero,.update 1,.steps,.clear,.update 1]

theorem demonstration_history_seed :
    (∀ op ∈ demonstration, op.Drawless .builtin) ∧
      (∀ point ∈ Simulator.history demonstration (.new (Config.default.withSeed 1) (.recording {})
        (Grid.rasterize Grid.defaultSpacing)), point.2.rng = .ofSeed 1) ∧
      Simulator.history demonstration (.new (Config.default.withSeed 2) (.recording {})
          (Grid.rasterize Grid.defaultSpacing)) =
        (Simulator.history demonstration (.new (Config.default.withSeed 1) (.recording {})
          (Grid.rasterize Grid.defaultSpacing))).map fun point => (point.1,point.2.reseed 2) :=
  have hbody : (BehaviorGen.property .set .speed
      (.range .each (.const 0) (.const 1)) : BehaviorGen Extended).Drawless :=
    .property _ _ (.range (.const _) (.const _))
  have hops : ∀ op ∈ demonstration, op.Drawless .builtin := by
    intro op hop
    rcases List.mem_cons.mp hop with rfl | hop
    · exact .emit (.const _) (.const _) (.const _) hbody
    · simp only [List.mem_cons,List.not_mem_nil,or_false] at hop
      rcases hop with rfl | rfl | rfl | rfl | rfl <;> trivial
  ⟨hops,Simulator.history_seed .builtin .default (.recording {}) (Grid.rasterize Grid.defaultSpacing) hops 1 2⟩

end Plain
end Fireworks
