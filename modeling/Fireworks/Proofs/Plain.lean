import Fireworks.Arithmetic.Extended
import Fireworks.Simulator

/-! # A plain scene

Standard settings and a particle at rest, in exact numbers, to try a statement on.
-/
namespace Fireworks.Plain

/-- The elementary functions where their values are rational numbers known at sight; elsewhere
there is no exact value to give. -/
scoped instance elementary : Elementary Extended where
  sqrt x := if x = 0 ∨ x = 1 then x else .undefined
  sin x := if x = 0 then 0 else .undefined
  cos x := if x = 0 then 1 else .undefined
  pow x y := if y = 0 then 1 else if y = 1 then x else .undefined
  pi := .undefined

def setting (limit : Nat) : Setting Extended where
  config := { Config.default with continuationLimit := limit }
  rasterizer := Grid.rasterize Grid.defaultSpacing

/-- A simulator with nothing to do. -/
def idle : Simulator Extended := .new .default .silent (Grid.rasterize Grid.defaultSpacing)

def scene : Scene Extended where
  particle := .resting .default .zero
  stage := { rng := default }

end Fireworks.Plain
