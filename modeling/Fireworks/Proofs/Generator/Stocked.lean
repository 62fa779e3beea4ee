import Fireworks.Proofs.Behavior.Bounded
import Fireworks.Proofs.Behavior.Drawless
import Fireworks.Proofs.Rng

/-! # Choices that have options

A choice of nothing still makes something: zero, the default value, or a behavior that does nothing. Beside
each evaluation stands one that fails wherever the other takes such a value. Where every choice has an
option, also in the bodies of what is sent out, the two agree.
-/
namespace Fireworks
variable {ν : Type}

inductive NumberGen.Stocked : NumberGen ν → Prop
  | const (value) : Stocked (.const value)
  | range (selection) {low high} : Stocked low → Stocked high → Stocked (.range selection low high)
  | angle (selection) : Stocked (.angle selection)
  | choice (selection) {options} : options ≠ [] → (∀ option ∈ options, Stocked option) →
      Stocked (.choice selection options)

inductive ValueGen.Stocked {α : Type} : ValueGen α → Prop
  | const (value) : Stocked (.const value)
  | choice (selection) {options} : options ≠ [] → (∀ option ∈ options, Stocked option) →
      Stocked (.choice selection options)

structure VectorGen.Stocked (v : VectorGen ν) : Prop where
  x : v.x.Stocked
  y : v.y.Stocked
  z : v.z.Stocked

/-- Programs in which every choice has an option, at every depth and in all bodies. -/
inductive BehaviorGen.Stocked : BehaviorGen ν → Prop
  | action (a) : Stocked (.action a)
  | property (blend target) {value} : value.Stocked → Stocked (.property blend target value)
  | translate {offset} : offset.Stocked → Stocked (.translate offset)
  | rotate {degrees} : degrees.Stocked → Stocked (.rotate degrees)
  | emit {count times parallel body} : count.Stocked → times.Stocked → parallel.Stocked → Stocked body →
      Stocked (.emit count times parallel body)
  | loop {body} : Stocked body → Stocked (.loop body)
  | repeated {limit body} : limit.Stocked → Stocked body → Stocked (.repeated limit body)
  | flair {count body} : count.Stocked → Stocked body → Stocked (.flair count body)
  | fireworks {count body} : count.Stocked → Stocked body → Stocked (.fireworks count body)
  | character {word body} : word.Stocked → Stocked body → Stocked (.character word body)
  | text {word offset body} : word.Stocked → offset.Stocked → Stocked body → Stocked (.text word offset body)
  | block {lanes} : (∀ lane ∈ lanes, ∀ statement ∈ lane, Stocked statement) → Stocked (.block lanes)
  | lifespan {span body} : span.Stocked → Stocked body → Stocked (.lifespan span body)
  | eased {easing body} : easing.Stocked → Stocked body → Stocked (.eased easing body)
  | choice (selection) {options} : options ≠ [] → (∀ option ∈ options, Stocked option) →
      Stocked (.choice selection options)

/-! ## Computations that may fail -/

section
variable {α β : Type}

/-- A computation that does not fail. -/
def certainly (x : StateM Rng α) : StateT Rng Option α := fun rng => some (x.run rng)

@[simp] theorem certainly_pure (a : α) : certainly (pure a) = pure a := rfl

theorem certainly_bind (x : StateM Rng α) (f : α → StateM Rng β) :
    certainly (x >>= f) = certainly x >>= fun a => certainly (f a) := rfl

variable [Arithmetic ν] (selection : Selection) (k : Index) {size : ℕ}

theorem Selection.pick_lt (h : 0 < size) (rng : Rng) : ((selection.pick ν k size).run rng).1 < size := by
  cases selection with
  | each => exact Nat.mod_lt _ h
  | random => exact Rng.index_lt h rng

/-- A choice does not fail if there is an option and no option fails. -/
theorem certainly_choice {γ : Type} {options : List γ} (hne : options ≠ [])
    {value? : γ → StateT Rng Option α} {value : γ → StateM Rng α} {fallback : StateM Rng α}
    (h : ∀ option ∈ options, value? option = certainly (value option)) :
    (certainly (selection.pick ν k options.length) >>= fun i => options[i]?.elim failure value?) =
      certainly (selection.pick ν k options.length >>= fun i => options[i]?.elim fallback value) := by
  funext rng
  let drawn := (selection.pick ν k options.length).run rng
  have hlt : drawn.1 < options.length := selection.pick_lt k (List.length_pos_iff.mpr hne) rng
  have hoption : options[drawn.1]?.elim failure value? =
      certainly (options[drawn.1]?.elim fallback value) := by
    rw [List.getElem?_eq_getElem hlt]
    exact h options[drawn.1] (List.getElem_mem hlt)
  exact congrFun hoption drawn.2

end

variable [Arithmetic ν] (k : Index)

namespace NumberGen

mutual

/-- The number of instance `k`, unless it takes a choice of nothing. -/
def generate? : NumberGen ν → StateT Rng Option ν
  | .const value => pure value
  | .range selection low high => do
    let low ← low.generate?
    let high ← high.generate?
    let r ← certainly (selection.ratio k)
    return low * (1 - r) + high * r
  | .angle selection => certainly (selection.angle k)
  | .choice selection options => do
    generateNth? options (← certainly (selection.pick ν k options.length))

def generateNth? : List (NumberGen ν) → ℕ → StateT Rng Option ν
  | [], _ => failure
  | option :: _, 0 => option.generate?
  | _ :: options, i + 1 => generateNth? options i

end

theorem generateNth?_eq (options : List (NumberGen ν)) (i : ℕ) :
    generateNth? k options i = options[i]?.elim failure (·.generate? k) :=
  walk_eq_elim (fun _ => rfl) (fun _ _ => rfl) (fun _ _ _ => rfl) options i

theorem Stocked.generate? {g : NumberGen ν} (h : g.Stocked) : g.generate? k = certainly (g.generate k) := by
  induction h with
  | const value => rfl
  | range selection _ _ ihlow ihhigh =>
    simp only [NumberGen.generate?,NumberGen.generate,ihlow,ihhigh,certainly_bind,certainly_pure]
  | angle selection => rfl
  | choice selection hne _ ih =>
    simp only [NumberGen.generate?,NumberGen.generate,generateNth?_eq,generateNth_eq]
    exact certainly_choice selection k hne ih

end NumberGen

namespace ValueGen
variable (ν) {α : Type}

mutual

def generate? : ValueGen α → StateT Rng Option α
  | .const value => pure value
  | .choice selection options => do
    generateNth? options (← certainly (selection.pick ν k options.length))

def generateNth? : List (ValueGen α) → ℕ → StateT Rng Option α
  | [], _ => failure
  | option :: _, 0 => option.generate?
  | _ :: options, i + 1 => generateNth? options i

end

theorem generateNth?_eq (options : List (ValueGen α)) (i : ℕ) :
    generateNth? ν k options i = options[i]?.elim failure (·.generate? ν k) :=
  walk_eq_elim (fun _ => rfl) (fun _ _ => rfl) (fun _ _ _ => rfl) options i

theorem Stocked.generate? [Inhabited α] {g : ValueGen α} (h : g.Stocked) :
    g.generate? ν k = certainly (g.generate ν k) := by
  induction h with
  | const value => rfl
  | choice selection hne _ ih =>
    simp only [ValueGen.generate?,ValueGen.generate,generateNth?_eq,generateNth_eq]
    exact certainly_choice selection k hne ih

end ValueGen

namespace VectorGen

def generate? (v : VectorGen ν) : StateT Rng Option (Vec3 ν) := do
  let x ← v.x.generate? k
  let y ← v.y.generate? k
  let z ← v.z.generate? k
  return ⟨x,y,z⟩

theorem Stocked.generate? {v : VectorGen ν} (h : v.Stocked) : v.generate? k = certainly (v.generate k) := by
  simp only [VectorGen.generate?,VectorGen.generate,h.x.generate?,h.y.generate?,h.z.generate?,
    certainly_bind,certainly_pure]

end VectorGen

namespace BehaviorGen

mutual

/-- The behavior of instance `k`, unless it takes a choice of nothing. -/
def generate? : BehaviorGen ν → StateT Rng Option (Behavior ν)
  | .action a => return .ofEffect (.ofAction a)
  | .property blend target value => do
    return .ofEffect (.ofBlend blend target (← value.generate? k))
  | .translate offset => do return .ofEffect (.translate (← offset.generate? k))
  | .rotate degrees => do return .ofEffect (.rotate (← degrees.generate? k))
  | .emit count times parallel body => do
    let count ← count.generate? k
    let times ← times.generate? k
    let parallel ← parallel.generate? k
    return .ofEffect <| .emit <|
      .capped (spawnCount count) (spawnCount times) (spawnCount parallel) body
  | .loop body => do return .forever (← body.generate?)
  | .repeated limit body => do
    let limit ← limit.generate? k
    return .repeatUpTo limit (← body.generate?)
  | .flair count body => do
    return .ofEffect (.burst (.flair (spawnCount (← count.generate? k)) body))
  | .fireworks count body => do
    return .ofEffect (.burst (.fireworks (spawnCount (← count.generate? k)) body))
  | .character word body => do
    return .ofEffect (.burst (.glyphs (← word.generate? ν k) .zero body))
  | .text word offset body => do
    let word ← word.generate? ν k
    return .ofEffect (.burst (.glyphs word (← offset.generate? k) body))
  | .block lanes => do return .inParallel (← generateLanes? lanes)
  | .lifespan span body => do
    let behavior ← body.generate?
    return behavior.withLifespan (← span.generate? k)
  | .eased easing body => do
    let behavior ← body.generate?
    return behavior.withEasing (← easing.generate? ν k)
  | .choice selection options => do
    generateNth? options (← certainly (selection.pick ν k options.length))

def generateNth? : List (BehaviorGen ν) → ℕ → StateT Rng Option (Behavior ν)
  | [], _ => failure
  | option :: _, 0 => option.generate?
  | _ :: options, i + 1 => generateNth? options i

def generateLane? : List (BehaviorGen ν) → StateT Rng Option (List (Behavior ν))
  | [] => return []
  | statement :: rest => do
    let first ← statement.generate?
    return first :: (← generateLane? rest)

def generateLanes? : List (List (BehaviorGen ν)) → StateT Rng Option (List (Behavior ν))
  | [] => return []
  | lane :: rest => do
    let first := Behavior.inSequence (← generateLane? lane)
    return first :: (← generateLanes? rest)

end

theorem generateNth?_eq (options : List (BehaviorGen ν)) (i : ℕ) :
    generateNth? k options i = options[i]?.elim failure (·.generate? k) :=
  walk_eq_elim (fun _ => rfl) (fun _ _ => rfl) (fun _ _ _ => rfl) options i

theorem generateLane?_of_forall {lane : List (BehaviorGen ν)}
    (h : ∀ statement ∈ lane, statement.generate? k = certainly (statement.generate k)) :
    generateLane? k lane = certainly (generateLane k lane) := by
  induction lane with
  | nil => rfl
  | cons statement rest ih =>
    obtain ⟨hfirst,hrest⟩ := List.forall_mem_cons.mp h
    simp only [generateLane?,generateLane,hfirst,ih hrest,certainly_bind,certainly_pure]

theorem generateLanes?_of_forall {lanes : List (List (BehaviorGen ν))}
    (h : ∀ lane ∈ lanes, ∀ statement ∈ lane, statement.generate? k = certainly (statement.generate k)) :
    generateLanes? k lanes = certainly (generateLanes k lanes) := by
  induction lanes with
  | nil => rfl
  | cons lane rest ih =>
    obtain ⟨hfirst,hrest⟩ := List.forall_mem_cons.mp h
    simp only [generateLanes?,generateLanes,generateLane?_of_forall k hfirst,ih hrest,certainly_bind,
      certainly_pure]

/-- A program without empty choices never takes what stands for a choice of nothing. -/
theorem Stocked.generate? {g : BehaviorGen ν} (h : g.Stocked) :
    g.generate? k = certainly (g.generate k) := by
  -- Bodies that are sent out later are not evaluated here, and their induction hypotheses are not used.
  induction h with
  | action a => rfl
  | property blend target hvalue =>
    simp only [BehaviorGen.generate?,BehaviorGen.generate,hvalue.generate?,certainly_bind,certainly_pure]
  | translate hoffset =>
    simp only [BehaviorGen.generate?,BehaviorGen.generate,hoffset.generate?,certainly_bind,certainly_pure]
  | rotate hdegrees =>
    simp only [BehaviorGen.generate?,BehaviorGen.generate,hdegrees.generate?,certainly_bind,certainly_pure]
  | emit hcount htimes hparallel _ _ =>
    simp only [BehaviorGen.generate?,BehaviorGen.generate,hcount.generate?,htimes.generate?,
      hparallel.generate?,certainly_bind,certainly_pure]
  | loop _ ih =>
    simp only [BehaviorGen.generate?,BehaviorGen.generate,ih,certainly_bind,certainly_pure]
  | repeated hlimit _ ih =>
    simp only [BehaviorGen.generate?,BehaviorGen.generate,hlimit.generate?,ih,certainly_bind,certainly_pure]
  | flair hcount _ _ | fireworks hcount _ _ =>
    simp only [BehaviorGen.generate?,BehaviorGen.generate,hcount.generate?,certainly_bind,certainly_pure]
  | character hword _ _ =>
    simp only [BehaviorGen.generate?,BehaviorGen.generate,hword.generate? ν,certainly_bind,certainly_pure]
  | text hword hoffset _ _ =>
    simp only [BehaviorGen.generate?,BehaviorGen.generate,hword.generate? ν,hoffset.generate?,certainly_bind,
      certainly_pure]
  | block _ ih =>
    simp only [BehaviorGen.generate?,BehaviorGen.generate,generateLanes?_of_forall k ih,certainly_bind,
      certainly_pure]
  | lifespan hspan _ ih =>
    simp only [BehaviorGen.generate?,BehaviorGen.generate,ih,hspan.generate?,certainly_bind,certainly_pure]
  | eased heasing _ ih =>
    simp only [BehaviorGen.generate?,BehaviorGen.generate,ih,heasing.generate? ν,certainly_bind,certainly_pure]
  | choice selection hne _ ih =>
    simp only [BehaviorGen.generate?,BehaviorGen.generate,generateNth?_eq,generateNth_eq]
    exact certainly_choice selection k hne ih

example : ((BehaviorGen.choice .each [] : BehaviorGen ν).generate? k).run default = none := rfl

/-- What such a program makes only holds bodies of the same kind. -/
theorem Stocked.sends {g : BehaviorGen ν} (h : g.Stocked) (rng : Rng) :
    ((g.generate k).run rng).1.Sends Stocked := by
  suffices hbodies : ((g.generate k).run rng).1.EachEffect
      fun effect => ∀ body ∈ effect.body?, body.Stocked from hbodies
  induction h generalizing rng with
  | action a => exact .leaf (fun body hbody => by cases a <;> cases hbody) _
  | property blend target _ => exact .leaf (fun body hbody => by cases blend <;> cases hbody) _
  | translate | rotate => exact .leaf nofun _
  | emit _ _ _ hbody _ | flair _ hbody _ | fireworks _ hbody _ | character _ hbody _ | text _ _ hbody _ =>
    exact .leaf (fun body heq => Option.some.inj heq ▸ hbody) _
  | loop _ ih => exact .forever (ih rng)
  | repeated _ _ ih => exact .repeatUpTo (ih _) _
  | block _ ih =>
    refine .inParallel (forall_generateLanes k (fun lane hlane rng => .inSequence ?_) rng)
    exact forall_generateLane k (fun statement hstatement rng => ih lane hlane statement hstatement rng) rng
  | lifespan _ _ ih | eased _ _ ih => exact (ih rng).withTiming _
  | choice selection _ _ ih => exact generateNth_of_forall k (.leaf nofun _) ih _ _

end BehaviorGen
end Fireworks
