import Fireworks.Generator

/-! # Behaviors

A behavior drives one particle through time. It is a tree that never changes; how far a run of it
has come is kept beside it, as progress of the same shape.
-/
namespace Fireworks

structure Timing (ν : Type) where
  easing : Easing := .linear
  lifespan : ν
  deriving Repr

/-- Children sent out in groups, one group after another. -/
structure Emission (ν : Type) where
  count : Nat
  times : Nat
  parallel : Nat
  body : BehaviorGen ν

/-- Children sent out all at once. -/
inductive Burst (ν : Type) where
  /-- Children that leave along a sphere. -/
  | flair (count : Nat) (body : BehaviorGen ν)
  /-- Children that leave in random directions. -/
  | fireworks (count : Nat) (body : BehaviorGen ν)
  /-- One child for each point of a text. -/
  | glyphs (text : String) (offset : Vec3 ν) (body : BehaviorGen ν)

inductive Effect (ν : Type) where
  | nop
  | set (target : Property) (value : ν)
  | add (target : Property) (value : ν)
  | multiply (target : Property) (factor : ν)
  | close
  | translate (offset : Vec3 ν)
  | rotate (degrees : Vec3 ν)
  | explode
  | emit (emission : Emission ν)
  | burst (burst : Burst ν)
  | voice (cue : Cue)

inductive Behavior (ν : Type) where
  | leaf (timing : Timing ν) (effect : Effect ν)
  | sequence (timing : Timing ν) (children : List (Behavior ν))
  /-- Runs its body once for each index below the limit. -/
  | repetition (timing : Timing ν) (limit : ν) (body : Behavior ν)
  | loop (timing : Timing ν) (body : Behavior ν)
  | parallel (timing : Timing ν) (lanes : List (Behavior ν))

/-- How far a run of a behavior has come. -/
inductive Progress (ν : Type) where
  /-- Nothing to remember, as before the first run. -/
  | fresh
  /-- The value of a property when the run began. -/
  | captured (initial : ν)
  /-- What happens once in a run has happened. -/
  | fired
  /-- The time at which the current child of a chain began, which child it is (none after the last
  one), and the progress of the children. -/
  | chain (offset : ν) (cursor : Option Nat) (children : List (Progress ν))
  /-- Which lanes have ended in this run, and the progress of the lanes. -/
  | lanes (ended : List Bool) (children : List (Progress ν))
  deriving Repr, Inhabited

variable {ν : Type} [Arithmetic ν]

namespace Emission

/-- The emission asked for, cut down to at most `maxSpawn` children: the groups are kept first, the
parallel children then, and the count last. -/
def capped (count times parallel : Nat) (body : BehaviorGen ν) : Emission ν :=
  let times := min times maxSpawn
  let parallel := min parallel (maxSpawn / max times 1)
  { count := min count (maxSpawn / max (times * parallel) 1), times, parallel, body }

omit [Arithmetic ν] in
def total (emission : Emission ν) : Nat := emission.count * emission.times * emission.parallel

omit [Arithmetic ν] in
/-- The indices of the children of one group, in the order in which they leave. Parallel children
stand a whole pass over all groups apart. -/
def slots (emission : Emission ν) (group : Nat) : List Nat :=
  (List.range emission.count).flatMap fun n =>
    (List.range emission.parallel).map fun p =>
      n + emission.count * group + emission.times * emission.count * p

end Emission

namespace Behavior

/-- A leaf ends at once unless it is given a lifespan. -/
def ofEffect (effect : Effect ν) : Behavior ν := .leaf { lifespan := 0 } effect

def nop : Behavior ν := ofEffect .nop

def inSequence (children : List (Behavior ν)) : Behavior ν :=
  .sequence { lifespan := Arithmetic.infinity } children

def repeatUpTo (limit : ν) (body : Behavior ν) : Behavior ν :=
  .repetition { lifespan := Arithmetic.infinity } limit body

def forever (body : Behavior ν) : Behavior ν := .loop { lifespan := Arithmetic.infinity } body

/-- Runs lanes side by side until the last of them ends. -/
def inParallel (lanes : List (Behavior ν)) : Behavior ν := .parallel { lifespan := 0 } lanes

omit [Arithmetic ν]

def timing : Behavior ν → Timing ν
  | .leaf timing _ | .sequence timing _ | .repetition timing _ _ | .loop timing _
  | .parallel timing _ => timing

def withTiming (timing : Timing ν) : Behavior ν → Behavior ν
  | .leaf _ effect => .leaf timing effect
  | .sequence _ children => .sequence timing children
  | .repetition _ limit body => .repetition timing limit body
  | .loop _ body => .loop timing body
  | .parallel _ lanes => .parallel timing lanes

def withLifespan (lifespan : ν) (behavior : Behavior ν) : Behavior ν :=
  behavior.withTiming { behavior.timing with lifespan }

def withEasing (easing : Easing) (behavior : Behavior ν) : Behavior ν :=
  behavior.withTiming { behavior.timing with easing }

@[simp] theorem timing_withTiming (timing : Timing ν) (behavior : Behavior ν) :
    (behavior.withTiming timing).timing = timing := by
  cases behavior <;> rfl

end Behavior

def Effect.ofAction : Action → Effect ν
  | .nop => .nop
  | .close => .close
  | .explode => .explode
  | .voice cue => .voice cue

def Effect.ofBlend : Blend → Property → ν → Effect ν
  | .set => .set
  | .add => .add
  | .multiply => .multiply

namespace BehaviorGen

mutual

/-- The behavior of instance `k`. A wrapper makes its body before its lifespan or easing. -/
def generate (k : Index) : BehaviorGen ν → StateM Rng (Behavior ν)
  | .action a => return .ofEffect (.ofAction a)
  | .property blend target value => do
    return .ofEffect (.ofBlend blend target (← value.generate k))
  | .translate offset => do return .ofEffect (.translate (← offset.generate k))
  | .rotate degrees => do return .ofEffect (.rotate (← degrees.generate k))
  | .emit count times parallel body => do
    let count ← count.generate k
    let times ← times.generate k
    let parallel ← parallel.generate k
    return .ofEffect <| .emit <|
      .capped (spawnCount count) (spawnCount times) (spawnCount parallel) body
  | .loop body => do return .forever (← body.generate k)
  | .repeated limit body => do
    let limit ← limit.generate k
    return .repeatUpTo limit (← body.generate k)
  | .flair count body => do
    return .ofEffect (.burst (.flair (spawnCount (← count.generate k)) body))
  | .fireworks count body => do
    return .ofEffect (.burst (.fireworks (spawnCount (← count.generate k)) body))
  | .character word body => do
    return .ofEffect (.burst (.glyphs (← word.generate ν k) .zero body))
  | .text word offset body => do
    let word ← word.generate ν k
    return .ofEffect (.burst (.glyphs word (← offset.generate k) body))
  | .block lanes => do return .inParallel (← generateLanes k lanes)
  | .lifespan span body => do
    let behavior ← body.generate k
    return behavior.withLifespan (← span.generate k)
  | .eased easing body => do
    let behavior ← body.generate k
    return behavior.withEasing (← easing.generate ν k)
  | .choice selection options => do
    generateNth k options (← selection.pick ν k options.length)

def generateNth (k : Index) : List (BehaviorGen ν) → Nat → StateM Rng (Behavior ν)
  | [], _ => return .nop
  | option :: _, 0 => option.generate k
  | _ :: options, i + 1 => generateNth k options i

def generateLane (k : Index) : List (BehaviorGen ν) → StateM Rng (List (Behavior ν))
  | [] => return []
  | statement :: rest => do
    let first ← statement.generate k
    return first :: (← generateLane k rest)

def generateLanes (k : Index) : List (List (BehaviorGen ν)) → StateM Rng (List (Behavior ν))
  | [] => return []
  | lane :: rest => do
    let first := Behavior.inSequence (← generateLane k lane)
    return first :: (← generateLanes k rest)

end

end BehaviorGen

end Fireworks
