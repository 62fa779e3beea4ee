import Fireworks.Behavior.Chain
import Fireworks.Burst

/-! # One step of a behavior

A behavior is called with windows of time that count from the beginning of its run. The window
that starts at zero begins a new run, and each later one goes on where the one before ended.
-/
namespace Fireworks

variable {ν : Type} [Arithmetic ν]

namespace Progress

/-- Whether what happens once in a run has happened in an earlier window of this run. -/
def firedBefore (start : ν) : Progress ν → Bool
  | .fired => !(start == 0)
  | _ => false

/-- Where a chain goes on: a new run begins with the first child. -/
def resume (start : ν) (first : Option Nat) : Progress ν → ν × Option Nat × List (Progress ν)
  | .chain offset cursor children =>
    if start == 0 then (0, first, children) else (offset, cursor, children)
  | _ => (0, first, [])

def endedLanes (start : ν) : Progress ν → List Bool × List (Progress ν)
  | .lanes ended children => if start == 0 then ([], children) else (ended, children)
  | _ => ([], [])

end Progress

structure Outcome (ν : Type) where
  status : Status ν
  progress : Progress ν
  scene : Scene ν

structure LanesOutcome (ν : Type) where
  ended : List Bool
  children : List (Progress ν)
  /-- Whether a lane wants more time. -/
  running : Bool
  /-- The least leftover of the lanes that ended in this window, and of the behavior itself. -/
  leftover : ν
  scene : Scene ν

def Chain.following (more : Nat → Bool) (i : Nat) : Option Nat := if more i then some i else none

def Chain.enter (more : Nat → Bool) (progress : Progress ν) (start : ν) (scene : Scene ν) :
    Chain ν (List (Progress ν) × Scene ν) :=
  let (offset, cursor, children) := progress.resume start (Chain.following more 0)
  { now := start, offset, cursor, state := (children, scene) }

def Chain.run (setting : Setting ν) (lifespan : ν) (more : Nat → Bool)
    (call : Nat → ν → ν → List (Progress ν) × Scene ν → Status ν × (List (Progress ν) × Scene ν))
    (progress : Progress ν) (start stop : ν) (scene : Scene ν) : Outcome ν :=
  let chain := Chain.drive (Chain.following more) call (Arithmetic.minNum lifespan stop)
    setting.config.chainLimit (Chain.enter more progress start scene)
  let (children, scene) := chain.state
  ⟨chain.status lifespan stop, .chain chain.offset chain.cursor children, scene⟩

variable [Elementary ν]

namespace Effect

/-- Acts on the scene over a window. Ratios gained are applied piece by piece, so that the windows
of a run add up to the whole effect. -/
def act (setting : Setting ν) (timing : Timing ν) (progress : Progress ν) (start stop : ν)
    (scene : Scene ν) : Effect ν → Progress ν × Scene ν
  | .nop => (.fresh, scene)
  | .set target value =>
    let initial :=
      match progress with
      | .captured initial => if start == 0 then scene.particle.get target else initial
      | _ => scene.particle.get target
    let r := timing.easing.ratio timing.lifespan stop
    let particle := scene.particle.set target (initial * (1 - r) + value * r)
    (.captured initial, { scene with particle })
  | .add target value =>
    let r := timing.easing.gain timing.lifespan start stop
    let particle := scene.particle.set target (scene.particle.get target + value * r)
    (.fresh, { scene with particle })
  | .multiply target factor =>
    let r := timing.easing.gain timing.lifespan start stop
    let particle := scene.particle.set target (scene.particle.get target * Elementary.pow factor r)
    (.fresh, { scene with particle })
  | .close =>
    if progress.firedBefore start then (.fired, scene)
    else if 1 ≤ timing.easing.ratio timing.lifespan stop then
      (.fired, { scene with particle := { scene.particle with closed := true } })
    else (.fresh, scene)
  | .translate offset =>
    let r := timing.easing.gain timing.lifespan start stop
    (.fresh, { scene with particle := scene.particle.translate (offset.scale r) })
  | .rotate degrees =>
    let r := timing.easing.gain timing.lifespan start stop
    (.fresh, { scene with particle := scene.particle.rotate (degrees.scale r) })
  | .explode =>
    (.fresh, { scene with particle := scene.particle.explode setting.config.physics })
  | .emit emission =>
    let ⟨particle, stage⟩ := scene
    (.fresh, ⟨particle, emission.fire timing start stop particle stage⟩)
  | .burst b =>
    if progress.firedBefore start then (.fired, scene)
    else
      let ⟨particle, stage⟩ := scene
      (.fired, ⟨particle, b.fire setting particle stage⟩)
  | .voice cue =>
    if progress.firedBefore start then (.fired, scene)
    else
      let ⟨particle, stage⟩ := scene
      (.fired, ⟨particle, stage.play cue⟩)

end Effect

namespace Behavior

mutual

def update (setting : Setting ν) :
    Behavior ν → Progress ν → (start stop : ν) → Scene ν → Outcome ν
  | .leaf timing effect, progress, start, stop, scene =>
    let (progress, scene) := effect.act setting timing progress start stop scene
    ⟨.settle timing.lifespan start stop, progress, scene⟩
  | .sequence timing children, progress, start, stop, scene =>
    Chain.run setting timing.lifespan (fun i => i < children.length)
      (fun i start stop state => updateNth setting children i state.1 start stop state.2)
      progress start stop scene
  | .repetition timing limit body, progress, start, stop, scene =>
    Chain.run setting timing.lifespan (fun i => Arithmetic.ofNat i < limit)
      (fun _ start stop state =>
        let outcome := body.update setting (state.1.headD .fresh) start stop state.2
        (outcome.status, outcome.progress :: state.1.tail, outcome.scene))
      progress start stop scene
  | .loop timing body, progress, start, stop, scene =>
    Chain.run setting timing.lifespan (fun _ => true)
      (fun _ start stop state =>
        let outcome := body.update setting (state.1.headD .fresh) start stop state.2
        (outcome.status, outcome.progress :: state.1.tail, outcome.scene))
      progress start stop scene
  | .parallel timing lanes, progress, start, stop, scene =>
    let (ended, children) := progress.endedLanes start
    let outcome := updateLanes setting lanes ended children start stop
      (stop - Arithmetic.maxNum timing.lifespan start) scene
    ⟨if outcome.running then .running else .ofLeftover outcome.leftover,
      .lanes outcome.ended outcome.children, outcome.scene⟩

def updateNth (setting : Setting ν) :
    List (Behavior ν) → Nat → List (Progress ν) → (start stop : ν) → Scene ν →
      Status ν × List (Progress ν) × Scene ν
  | [], _, states, _, _, scene => (.running, states, scene)
  | child :: _, 0, states, start, stop, scene =>
    let outcome := child.update setting (states.headD .fresh) start stop scene
    (outcome.status, outcome.progress :: states.tail, outcome.scene)
  | _ :: children, i + 1, states, start, stop, scene =>
    let (status, rest, scene) := updateNth setting children i states.tail start stop scene
    (status, states.headD .fresh :: rest, scene)

/-- Runs the lanes that have not ended, one after the other and all over the same window. -/
def updateLanes (setting : Setting ν) :
    List (Behavior ν) → List Bool → List (Progress ν) → (start stop leftover : ν) → Scene ν →
      LanesOutcome ν
  | [], _, _, _, _, leftover, scene => ⟨[], [], false, leftover, scene⟩
  | lane :: lanes, ended, states, start, stop, leftover, scene =>
    if ended.headD false then
      let rest := updateLanes setting lanes ended.tail states.tail start stop leftover scene
      { rest with ended := true :: rest.ended, children := states.headD .fresh :: rest.children }
    else
      let outcome := lane.update setting (states.headD .fresh) start stop scene
      let leftover :=
        match outcome.status with
        | .running => leftover
        | .done l => Arithmetic.minNum leftover l
      let rest := updateLanes setting lanes ended.tail states.tail start stop leftover outcome.scene
      { rest with
        ended := outcome.status.isDone :: rest.ended
        children := outcome.progress :: rest.children
        running := !outcome.status.isDone || rest.running }

end

end Behavior

end Fireworks
