import Fireworks.Arithmetic

/-! # Outcome of one step of a behavior -/
namespace Fireworks

/-- What a behavior reports at the end of a window of time: that it wants more, or that it ended
before, with the part of the window it did not use. -/
inductive Status (ν : Type) where
  | running
  | done (leftover : ν)
  deriving Repr

namespace Status

variable {ν : Type} [Arithmetic ν]

/-- A negative leftover, and one that is no number, means that the behavior is still running. -/
def ofLeftover (leftover : ν) : Status ν :=
  if 0 ≤ leftover then .done (Arithmetic.maxNum leftover 0) else .running

def settle (lifespan start stop : ν) : Status ν :=
  ofLeftover (stop - Arithmetic.maxNum lifespan start)

def isDone {ν : Type} : Status ν → Bool
  | .running => false
  | .done _ => true

end Status

end Fireworks
