import Fireworks.Scene

/-! # Sending out particles

Every child has a behavior of its own, made from the body at the moment the child leaves.
-/
namespace Fireworks

variable {ν : Type} [Arithmetic ν]

namespace Emission

def fireGroup (emission : Emission ν) (particle : Particle ν) (group : Nat) (stage : Stage ν) :
    Stage ν :=
  (emission.slots group).foldl (fun stage slot =>
    stage.sendOut particle.child emission.body ⟨slot, emission.total⟩) stage

/-- The groups whose turn comes between two eased ratios: of `n` groups, number `r`, counted from
one, has its turn when the ratio reaches `r / n`. -/
def due (emission : Emission ν) (before after : ν) : List Nat :=
  let groups := emission.times
  let first := Arithmetic.toCount (Arithmetic.floor (before * Arithmetic.ofNat groups))
  let last := Arithmetic.toCount (Arithmetic.floor (after * Arithmetic.ofNat groups))
  List.range' first (min last groups - first)

def fire (emission : Emission ν) (timing : Timing ν) (start stop : ν) (particle : Particle ν)
    (stage : Stage ν) : Stage ν :=
  let ratio := timing.easing.ratio timing.lifespan
  (emission.due (ratio start) (ratio stop)).foldl (fun stage group =>
    emission.fireGroup particle group stage) stage

end Emission

namespace Burst

def sphereSize : Nat := 300

/-- The direction of child `i` of a flair: heights are spread evenly and folded to the upper half,
and each child turns by the golden angle from the one before. -/
def sphereDirection [Elementary ν] (i : Nat) : Vec3 ν :=
  let offset := 2 / Arithmetic.ofNat sphereSize
  let turn := Elementary.pi * (3 - Elementary.sqrt 5)
  let y := Arithmetic.abs (Arithmetic.ofNat i * offset - 1 + offset / 2)
  let r := Elementary.sqrt (Arithmetic.maxNum (1 - y * y) 0)
  let phi := Arithmetic.ofNat ((i + 1) % sphereSize) * turn
  ⟨Elementary.cos phi * r, y, Elementary.sin phi * r⟩

def signed : StateM Rng ν := do return 1 - (← Rng.unit) * 2

def scatter : StateM Rng (Vec3 ν) := do
  -- The height is drawn first, here and below.
  let y ← signed
  let x ← signed
  let z ← signed
  return ⟨x, y, z⟩

/-- The velocity of a child of a text, which never turns back along x. -/
def drift : StateM Rng (Vec3 ν) := do
  let y ← signed
  let x ← Rng.unit
  let z ← signed
  return ⟨x, y, z⟩

def launch (setting : Setting ν) (parent : Particle ν) (body : BehaviorGen ν)
    (position velocity : Vec3 ν) (gravity : ν) (stage : Stage ν) : Stage ν :=
  let mass := setting.config.physics.spawnMass
  stage.sendOut (parent.launch position velocity gravity mass) body .root

/-- The children of a flair share one speed and one gravity, drawn first. -/
def fire [Elementary ν] (setting : Setting ν) (particle : Particle ν) (stage : Stage ν) :
    Burst ν → Stage ν
  | .flair count body =>
    let (speed, stage) : ν × Stage ν := stage.draw (Rng.between 2 4)
    let (weight, stage) : ν × Stage ν := stage.draw Rng.unit
    (List.range (min count maxSpawn)).foldl (fun stage i =>
      launch setting particle body particle.position ((sphereDirection i).scale speed)
        (-0.1 - weight * 2) stage) stage
  | .fireworks count body =>
    (List.range (min count maxSpawn)).foldl (fun stage _ =>
      let (velocity, stage) := stage.draw scatter
      launch setting particle body particle.position velocity
        setting.config.physics.defaultGravity stage) stage
  | .glyphs text offset body =>
    let cloud := setting.rasterizer text
    let shift := particle.position - cloud.centroid + offset
    cloud.points.foldl (fun stage point =>
      let (velocity, stage) := stage.draw drift
      launch setting particle body (point + shift) velocity
        setting.config.physics.defaultGravity stage) stage

end Burst

end Fireworks
