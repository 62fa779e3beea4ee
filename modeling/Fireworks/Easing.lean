import Fireworks.Arithmetic

/-! # Easing curves

A curve maps the elapsed share of a lifespan to an eased ratio. Every curve starts at zero and
ends at one, so that what has to happen at the end may wait for a ratio of one.
-/
namespace Fireworks

inductive Easing where
  | linear
  | easeIn
  | easeOut
  | easeInOut
  deriving DecidableEq, Repr, Inhabited

namespace Easing

def all : List Easing := [.linear, .easeIn, .easeOut, .easeInOut]

def name : Easing → String
  | .linear => "linear"
  | .easeIn => "ease-in"
  | .easeOut => "ease-out"
  | .easeInOut => "ease-in-out"

variable {ν : Type} [Arithmetic ν]

/-- The curve at a share `t`, which is first held between zero and one. -/
def curve (easing : Easing) (t : ν) : ν :=
  let t := Arithmetic.clamp 0 1 t
  match easing with
  | .linear => t
  | .easeIn => t * t * t
  | .easeOut =>
    let u := 1 - t
    1 - u * u * u
  | .easeInOut =>
    if t < 0.5 then 4 * t * t * t
    else
      let u := -2 * t + 2
      1 - u * u * u / 2

/-- The ratio reached at time `t` of a lifespan. A lifespan that is not positive is a step: the
ratio is zero until any time has passed, and one from then on. -/
def ratio (easing : Easing) (lifespan t : ν) : ν :=
  if 0 < lifespan then easing.curve (t / lifespan) else if 0 < t then 1 else 0

def gain (easing : Easing) (lifespan start stop : ν) : ν :=
  easing.ratio lifespan stop - easing.ratio lifespan start

end Easing

end Fireworks
