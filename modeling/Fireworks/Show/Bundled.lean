import Fireworks.Arithmetic.Float
import Fireworks.Show

/-! # The bundled show

A peony shell, a willow fan and a greeting written in sparks.
-/
namespace Fireworks.Bundled

/-- The application of a name to arguments, over a lifespan. -/
def lasting (lifespan : Float) (elements : List (Term Float)) : Term Float :=
  .list (.number lifespan :: elements)

def coordinates (x y z : Float) : List (Term Float) := [.number x, .number y, .number z]

def peony : Program Float where
  id := "peony"
  description := "Rising shell that bursts into a sphere of fading stars"
  statements :=
    [lasting 20 (.symbol "translate" :: coordinates 0 80 0),
     .symbol "bloomVoice",
     .apply "fireworks"
      [.number 40,
       .block
        [[lasting 60 [.symbol "explode"]],
         [lasting 60 [.symbol "ease-in", .symbol "opacity", .number 0], .symbol "close"]]]]

def willow : Program Float where
  id := "willow"
  description := "Fan of trails emitted in three waves"
  statements :=
    [.apply "hue" [.apply "each-choice" (coordinates 30 200 320)],
     lasting 30
      (.symbol "emit" :: coordinates 6 3 1 ++
        [.block
          [[.apply "rotate" [.number 0, .symbol "each-angle", .number 0],
            lasting 40 (.symbol "ease-out" :: .symbol "translate" :: coordinates 0 0 25),
            .symbol "crackleVoice",
            .symbol "close"]]])]

def greeting : Program Float where
  id := "greeting"
  description := "Writes HI in the sky and lets it drift apart"
  statements :=
    [lasting 10 (.symbol "translate" :: coordinates 0 60 0),
     .apply "text"
      (.symbol "HI" :: coordinates 0 0 0 ++
        [.block
          [[lasting 80 [.symbol "textExplode"]],
           [lasting 80 [.symbol "opacity*", .number 0.05], .symbol "close"]]])]

/-- The show that is played when no other one is named. -/
def finale : Show Float where
  name := "finale"
  config := Config.default.withSeed 2024
  programs := .ofList ([peony, willow, greeting].map fun p => (p.id, p))
  launches :=
    [{ program := "peony", position := ⟨0, 0, 0⟩, tick := 0 },
     { program := "willow", position := ⟨30, 40, 0⟩, tick := 10 },
     { program := "peony", position := ⟨-30, 0, 0⟩, tick := 25 },
     { program := "greeting", position := ⟨0, 20, 0⟩, tick := 40 }]

end Fireworks.Bundled
