import Fireworks.Behavior.Update

/-! # The field of live particles

A tick visits every particle once, and what is sent out during a tick joins the field after it.
-/
namespace Fireworks

structure TickStats where
  spawned : Nat := 0
  removed : Nat := 0
  /-- The particles alive after the tick. -/
  live : Nat := 0
  deriving DecidableEq, Repr

structure Field (ν : Type) where
  slots : Array (Slot ν) := #[]

structure Tick (ν : Type) where
  field : Field ν
  stats : TickStats
  rng : Rng
  cues : Array Cue := #[]

variable {ν : Type}

/-- Lets time pass for one particle: its behavior runs, and then it drifts along its own z axis. -/
def Slot.advance [Arithmetic ν] [Elementary ν] (setting : Setting ν) (dt : ν) (slot : Slot ν)
    (stage : Stage ν) : Status ν × Slot ν × Stage ν :=
  let start := slot.particle.lifeTime
  let stop := start + dt
  let outcome := slot.behavior.update setting slot.progress start stop
    ⟨{ slot.particle with lifeTime := stop }, stage⟩
  let particle := outcome.scene.particle
  let particle := particle.translate ⟨0, 0, particle.speed * dt⟩
  (outcome.status, { slot with particle, progress := outcome.progress }, outcome.scene.stage)

namespace Field

def add (field : Field ν) (slot : Slot ν) : Field ν := ⟨field.slots.push slot⟩

def size (field : Field ν) : Nat := field.slots.size

def isEmpty (field : Field ν) : Bool := field.slots.isEmpty

/-- Whether every live particle is closed, as is the case when there is none. -/
def closed (field : Field ν) : Bool := field.slots.all fun slot => slot.particle.closed

def particles (field : Field ν) : Array (Particle ν) := field.slots.map (·.particle)

def snapshot (field : Field ν) : Array (Snapshot ν) := field.particles.map (·.snapshot)

variable [Arithmetic ν] [Elementary ν]

/-- Visits the slots from number `i` on. The last slot moves to the place of one that is over, and
is visited there. -/
def sweep (setting : Setting ν) (dt : ν) (slots : Array (Slot ν)) (i removed : Nat)
    (stage : Stage ν) : Array (Slot ν) × Nat × Stage ν :=
  if h : i < slots.size then
    match slots[i].advance setting dt stage with
    | (.running, slot, stage) => sweep setting dt (slots.set i slot) (i + 1) removed stage
    | (.done _, _, stage) =>
      sweep setting dt (slots.swap i (slots.size - 1)).pop i (removed + 1) stage
  else (slots, removed, stage)
termination_by slots.size - i
decreasing_by all_goals (simp; omega)

/-- Nothing happens unless the time is positive. -/
def tick (setting : Setting ν) (dt : ν) (rng : Rng) (field : Field ν) : Tick ν :=
  if 0 < dt then
    let (kept, removed, stage) := sweep setting dt field.slots 0 0 { rng }
    let slots := kept ++ stage.spawned
    { field := { slots }
      stats := { spawned := stage.spawned.size, removed, live := slots.size }
      rng := stage.rng
      cues := stage.cues }
  else { field, stats := { live := field.size }, rng }

end Field

end Fireworks
