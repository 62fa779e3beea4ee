import Fireworks.Arithmetic

/-! # Vectors and rotations of space

Sums and products are taken in the order written here: on floats another order gives other
numbers.
-/
namespace Fireworks

structure Vec3 (ν : Type) where
  x : ν
  y : ν
  z : ν
  deriving Repr, BEq, DecidableEq

namespace Vec3

variable {ν : Type} [Arithmetic ν]

def zero : Vec3 ν := ⟨0, 0, 0⟩

def add (a b : Vec3 ν) : Vec3 ν := ⟨a.x + b.x, a.y + b.y, a.z + b.z⟩
def sub (a b : Vec3 ν) : Vec3 ν := ⟨a.x - b.x, a.y - b.y, a.z - b.z⟩
def scale (a : Vec3 ν) (s : ν) : Vec3 ν := ⟨a.x * s, a.y * s, a.z * s⟩
def div (a : Vec3 ν) (s : ν) : Vec3 ν := ⟨a.x / s, a.y / s, a.z / s⟩

instance : Add (Vec3 ν) := ⟨add⟩
instance : Sub (Vec3 ν) := ⟨sub⟩

def dot (a b : Vec3 ν) : ν := a.x * b.x + a.y * b.y + a.z * b.z

def cross (a b : Vec3 ν) : Vec3 ν :=
  ⟨a.y * b.z - b.y * a.z, a.z * b.x - b.z * a.x, a.x * b.y - b.x * a.y⟩

end Vec3

/-- A rotation, as a quaternion with real part `w`. -/
structure Rotation (ν : Type) where
  x : ν
  y : ν
  z : ν
  w : ν
  deriving Repr, BEq, DecidableEq

namespace Rotation

variable {ν : Type} [Arithmetic ν]

def identity : Rotation ν := ⟨0, 0, 0, 1⟩

/-- The rotation that turns by `b` first and by `a` then. -/
def mul (a b : Rotation ν) : Rotation ν where
  x := a.w * b.x + a.x * b.w + a.y * b.z - a.z * b.y
  y := a.w * b.y - a.x * b.z + a.y * b.w + a.z * b.x
  z := a.w * b.z + a.x * b.y - a.y * b.x + a.z * b.w
  w := a.w * b.w - a.x * b.x - a.y * b.y - a.z * b.z

instance : Mul (Rotation ν) := ⟨mul⟩

/-- The image of a vector. -/
def apply (q : Rotation ν) (v : Vec3 ν) : Vec3 ν :=
  let b : Vec3 ν := ⟨q.x, q.y, q.z⟩
  v.scale (q.w * q.w - b.dot b) + b.scale (v.dot b * 2) + (b.cross v).scale (q.w * 2)

variable [Elementary ν]

/-- The multiple of length one. -/
def normalize (q : Rotation ν) : Rotation ν :=
  let s := 1 / Elementary.sqrt (q.x * q.x + q.y * q.y + q.z * q.z + q.w * q.w)
  ⟨q.x * s, q.y * s, q.z * s, q.w * s⟩

def aroundX (angle : ν) : Rotation ν :=
  ⟨Elementary.sin (angle * 0.5), 0, 0, Elementary.cos (angle * 0.5)⟩

def aroundY (angle : ν) : Rotation ν :=
  ⟨0, Elementary.sin (angle * 0.5), 0, Elementary.cos (angle * 0.5)⟩

def aroundZ (angle : ν) : Rotation ν :=
  ⟨0, 0, Elementary.sin (angle * 0.5), Elementary.cos (angle * 0.5)⟩

end Rotation

end Fireworks
