import Fireworks.Proofs.Compile.Stocked
import Fireworks.Proofs.Simulator.Lineage

/-! # Compiled programs never choose from nothing

All choices of a compiled program have options, those in its bodies included, and bodies are kept as they
are until children are made from them. So what stands for a choice of nothing is never taken, however deep
the particles of a simulation descend from the programs that it was given.
-/
namespace Fireworks
variable {ν : Type} [Arithmetic ν]

theorem BehaviorGen.Stocked.lineage : Lineage (Stocked (ν := ν)) (Behavior.Sends Stocked) where
  made h k rng := h.sends k rng
  sends h := h

namespace Kind

/-- What generators of a kind make. -/
abbrev Value (ν : Type) : Kind → Type
  | .number => ν
  | .string => String
  | .easing => Easing
  | .behavior => Behavior ν

variable (k : Index)

def generate : (kind : Kind) → kind.Gen ν → StateM Rng (kind.Value ν)
  | .number => NumberGen.generate k
  | .string => ValueGen.generate ν k
  | .easing => ValueGen.generate ν k
  | .behavior => BehaviorGen.generate k

def generate? : (kind : Kind) → kind.Gen ν → StateT Rng Option (kind.Value ν)
  | .number => NumberGen.generate? k
  | .string => ValueGen.generate? ν k
  | .easing => ValueGen.generate? ν k
  | .behavior => BehaviorGen.generate? k

/-- No instance of a generator takes a choice of nothing, whatever it draws. -/
def Definite (kind : Kind) (gen : kind.Gen ν) : Prop :=
  ∀ k rng, (kind.generate? k gen).run rng = some ((kind.generate k gen).run rng)

theorem definite_of_stocked (kind : Kind) {gen : kind.Gen ν} (h : kind.Stocked gen) : kind.Definite gen := by
  intro k rng
  have hgenerate : kind.generate? k gen = certainly (kind.generate k gen) := by
    cases kind with
    | number => exact NumberGen.Stocked.generate? k h
    | string | easing => exact ValueGen.Stocked.generate? ν k h
    | behavior => exact BehaviorGen.Stocked.generate? k h
  rw [hgenerate]
  rfl

end Kind

namespace Registry
variable {registry : Registry}

omit [Arithmetic ν] in
theorem stocked_of_compile (kind : Kind) {t : Term ν} {gen : kind.Gen ν}
    (h : registry.compile kind t = .ok gen) : kind.Stocked gen :=
  forall_answer yields_body (.compile kind t) gen h

omit [Arithmetic ν] in
theorem stocked_of_compileProgram {statements : List (Term ν)} {g : BehaviorGen ν}
    (h : registry.compileProgram statements = .ok g) : g.Stocked :=
  forall_answer yields_body (.program statements) g h

/-- Whatever the compiler returns, at any kind and with any names, no choice in it is empty, in bodies
neither, and no evaluation of it takes what stands for a choice of nothing. So it is for the program of a
simulator that is only given compiled programs, and for every body that its particles ever hold. -/
theorem compiled_definite [Elementary ν] (registry : Registry) :
    (∀ kind (t : Term ν) gen, registry.compile kind t = .ok gen → kind.Stocked gen ∧ kind.Definite gen) ∧
    (∀ statements (g : BehaviorGen ν), registry.compileProgram statements = .ok g →
      g.Stocked ∧ Kind.behavior.Definite g) ∧
    ∀ (config : Config ν) (audio : Audio) (rasterizer : Rasterizer ν) (ops : List (Operation ν)),
      (∀ g : BehaviorGen ν, .choose g ∈ ops →
        ∃ (other : Registry) (t : Term ν), other.compile .behavior t = .ok g) →
      let sim := ops.foldl Simulator.perform (.new config audio rasterizer registry)
      (∀ g ∈ sim.program, g.Stocked ∧ Kind.behavior.Definite g) ∧
        ∀ slot ∈ sim.field.slots, slot.behavior.Sends fun body =>
          body.Stocked ∧ Kind.behavior.Definite body := by
  have hbehavior : ∀ g : BehaviorGen ν, g.Stocked → g.Stocked ∧ Kind.behavior.Definite g :=
    fun g hg => ⟨hg,Kind.behavior.definite_of_stocked hg⟩
  refine ⟨fun kind t gen h => ?_,fun statements g h => hbehavior g (stocked_of_compileProgram h),?_⟩
  · have hstocked := stocked_of_compile kind h
    exact ⟨hstocked,kind.definite_of_stocked hstocked⟩
  · intro config audio rasterizer ops hops sim
    have hbrings : ∀ op ∈ ops, op.Brings BehaviorGen.Stocked registry := by
      intro op hop
      cases op with
      | compile program => exact fun g h => stocked_of_compileProgram h
      | choose program =>
        obtain ⟨other,t,ht⟩ := hops program hop
        exact stocked_of_compile .behavior ht
      | emit | update | steps | clear => trivial
    have hnew : (Simulator.new config audio rasterizer registry).Holds BehaviorGen.Stocked
        (Behavior.Sends BehaviorGen.Stocked) := .new config audio rasterizer registry
    obtain ⟨hprogram,hslots⟩ := hnew.foldl BehaviorGen.Stocked.lineage hbrings
    refine ⟨fun g hg => hbehavior g (hprogram g hg),fun slot hslot => ?_⟩
    exact (hslots slot hslot).imp fun _ hnode timing effect heq body hbody =>
      hbehavior body (hnode timing effect heq body hbody)

end Registry

namespace Plain

/-- One or two particles, each of which may explode. -/
def toss : BehaviorGen Extended :=
  .emit (.choice .random [.const 1,.const 2]) (.const 1) (.const 1)
    (.choice .random [.action .nop,.action .explode])

theorem toss_definite :
    Registry.builtin.compile .behavior (.apply "emit" [.apply "random-choice" [.number 1,.number 2],
        .number 1,.number 1,.apply "random-choice" [.symbol "nop",.symbol "explode"]]) = .ok toss ∧
      toss.Stocked ∧ Kind.behavior.Definite toss ∧
      ([.choose toss,.emit .zero].foldl Simulator.perform idle).size = 1 ∧
      ∀ slot ∈ ([.choose toss,.emit .zero].foldl Simulator.perform idle).field.slots,
        slot.behavior.Sends fun body => body.Stocked ∧ Kind.behavior.Definite body := by
  have hcompile : Registry.builtin.compile .behavior (.apply "emit"
      [.apply "random-choice" [.number 1,.number 2],.number 1,.number 1,
        .apply "random-choice" [.symbol "nop",.symbol "explode"]]) = .ok toss := by
    with_unfolding_all rfl
  obtain ⟨hkinds,-,hruns⟩ := Registry.compiled_definite (ν := Extended) .builtin
  obtain ⟨hstocked,hdefinite⟩ := hkinds _ _ _ hcompile
  have hops : ∀ g, .choose g ∈ [Operation.choose toss,.emit .zero] →
      ∃ (other : Registry) (t : Term Extended), other.compile .behavior t = .ok g := by
    intro g hg
    rcases List.mem_cons.mp hg with heq | hrest
    · cases heq
      exact ⟨.builtin,_,hcompile⟩
    · cases List.mem_singleton.mp hrest
  exact ⟨hcompile,hstocked,hdefinite,rfl,
    (hruns .default .silent (Grid.rasterize Grid.defaultSpacing) _ hops).2⟩

end Plain
end Fireworks
