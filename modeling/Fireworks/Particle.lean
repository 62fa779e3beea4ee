import Fireworks.Config
import Fireworks.Vector

/-! # Particles

A particle is plain data. What drives it stands beside it in the field.
-/
namespace Fireworks

inductive Property where
  | speed
  | opacity
  | hue
  deriving DecidableEq, Repr

namespace Property

def all : List Property := [.speed, .opacity, .hue]

def name : Property → String
  | .speed => "speed"
  | .opacity => "opacity"
  | .hue => "hue"

end Property

structure Particle (ν : Type) where
  position : Vec3 ν
  rotation : Rotation ν
  velocity : Vec3 ν
  /-- Drift along the own z axis per unit of time. -/
  speed : ν
  opacity : ν
  hue : ν
  gravity : ν
  mass : ν
  lifeTime : ν
  /-- Whether its part of the show is over. -/
  closed : Bool
  deriving Repr

structure Snapshot (ν : Type) where
  position : Vec3 ν
  rotation : Rotation ν
  opacity : ν
  hue : ν
  speed : ν
  deriving Repr

namespace Particle

variable {ν : Type} [Arithmetic ν]

def resting (physics : Physics ν) (position : Vec3 ν) : Particle ν where
  position
  rotation := .identity
  velocity := .zero
  speed := 0
  opacity := 1
  hue := 0
  gravity := physics.defaultGravity
  mass := physics.defaultMass
  lifeTime := 0
  closed := false

/-- A new particle in the place of `p`: at rest, opaque, open and with no time behind it. -/
def child (p : Particle ν) : Particle ν :=
  { p with velocity := .zero, opacity := 1, lifeTime := 0, closed := false }

def launch (p : Particle ν) (position velocity : Vec3 ν) (gravity mass : ν) : Particle ν :=
  { p.child with position, velocity, gravity, mass }

def get (p : Particle ν) : Property → ν
  | .speed => p.speed
  | .opacity => p.opacity
  | .hue => p.hue

def set (p : Particle ν) (property : Property) (value : ν) : Particle ν :=
  match property with
  | .speed => { p with speed := value }
  | .opacity => { p with opacity := value }
  | .hue => { p with hue := value }

/-- Moves by an offset given in the particle's own frame. -/
def translate (p : Particle ν) (offset : Vec3 ν) : Particle ν :=
  { p with position := p.position + p.rotation.apply offset }

/-- Turns by degrees around the own axes: around x first, then y, then z. -/
def rotate [Elementary ν] (p : Particle ν) (degrees : Vec3 ν) : Particle ν :=
  let turn := Rotation.aroundZ (radians degrees.z) * Rotation.aroundY (radians degrees.y)
    * Rotation.aroundX (radians degrees.x)
  { p with rotation := (p.rotation * turn).normalize }

/-- The drag on one axis, `k * v ^ 3 / |v|`, which is no force at all where that is no number. -/
def drag (k v : ν) : ν :=
  if v == 0 then 0
  else
    let force := k * v * v * v / Arithmetic.abs v
    if Arithmetic.isNaN force then 0 else force

def explode (physics : Physics ν) (p : Particle ν) : Particle ν :=
  let force : Vec3 ν :=
    ⟨drag physics.drag p.velocity.x, drag physics.drag p.velocity.y, drag physics.drag p.velocity.z⟩
  let pull := force.div p.mass
  let acceleration := { pull with y := pull.y + p.gravity }
  let velocity := p.velocity + acceleration.scale physics.dt
  { p with velocity, position := p.position + velocity.scale (physics.dt * physics.scale) }

omit [Arithmetic ν] in
def snapshot (p : Particle ν) : Snapshot ν where
  position := p.position
  rotation := p.rotation
  opacity := p.opacity
  hue := p.hue
  speed := p.speed

end Particle

end Fireworks
