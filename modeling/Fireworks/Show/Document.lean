import Fireworks.Ron.Format
import Fireworks.Show

/-! # Shows as documents

The forms that shows and their parts have in a document. All sections of a show are optional, so
that a show can be spread over several documents.
-/
namespace Fireworks

/-- What one document adds to a show. -/
structure Definition (ν : Type) where
  name : String := ""
  config : Option (Config ν) := none
  programs : List (Program ν) := []
  launches : List (Launch ν) := []

namespace Document

open Ron (Format Numeral Reader Record)

/-! ## Names -/

def easing : Format Easing :=
  .choice [(.linear, "Linear"), (.easeIn, "EaseIn"), (.easeOut, "EaseOut"),
    (.easeInOut, "EaseInOut")]

def property : Format Property := .choice [(.speed, "Speed"), (.opacity, "Opacity"), (.hue, "Hue")]

def cue : Format Cue := .choice [(.bloom, "Bloom"), (.crackle, "Crackle")]

variable {ν : Type} [Numeral ν]

/-! ## Numbers of space -/

def vectorOf (type : Option String) : Format (Vec3 ν) :=
  .tuple type .number 3 (fun | [x, y, z] => some ⟨x, y, z⟩ | _ => none) fun v => [v.x, v.y, v.z]

/-- The place of a launch, which is a tuple without a name. -/
def place : Format (Vec3 ν) := vectorOf none

def vector : Format (Vec3 ν) := vectorOf (some "DVec3")

def rotation : Format (Rotation ν) :=
  .tuple (some "DQuat") .number 4 (fun | [x, y, z, w] => some ⟨x, y, z, w⟩ | _ => none)
    fun q => [q.x, q.y, q.z, q.w]

/-! ## Terms -/

/-- A term whose lists nest no deeper than a number of levels. -/
def readTermIn : Nat → Reader (Term ν)
  | 0 => failure
  | levels + 1 =>
    .variant fun
      | "Number" => some (.number <$> Format.number.read)
      | "Symbol" => some (.symbol <$> Format.text.read)
      | "List" => some (.list <$> .bracketed '[' ']' (readTermIn levels))
      | _ => none

mutual

def writeTerm : Term ν → Ron
  | .number value => .tuple (some "Number") [Format.number.write value]
  | .symbol name => .tuple (some "Symbol") [.text name]
  | .list elements => .tuple (some "List") [.sequence (writeTerms elements)]

def writeTerms : List (Term ν) → List Ron
  | [] => []
  | t :: ts => writeTerm t :: writeTerms ts

end

/-- Every list of a term takes up levels of the document, so that its depth bounds them. -/
def term : Format (Term ν) where
  read := do readTermIn ((← Reader.depth) + 1)
  write := writeTerm

/-! ## Records -/

def physics : Record (Physics ν) where
  type := "PhysicsConfig"
  blank := .default
  fields :=
    [.optional "dt" .number (·.dt) fun p dt => { p with dt },
     .optional "scale" .number (·.scale) fun p scale => { p with scale },
     .optional "drag" .number (·.drag) fun p drag => { p with drag },
     .optional "default_gravity" .number (·.defaultGravity)
      fun p defaultGravity => { p with defaultGravity },
     .optional "default_mass" .number (·.defaultMass) fun p defaultMass => { p with defaultMass },
     .optional "spawn_mass" .number (·.spawnMass) fun p spawnMass => { p with spawnMass }]

def config : Record (Config ν) where
  type := "SimConfig"
  blank := .default
  fields :=
    [.optional "seed" .word64 (·.seed) fun c seed => { c with seed },
     .optional "step" .number (·.step) fun c step => { c with step },
     .optional "steps_per_update" (.natural .u32) (·.stepsPerUpdate)
      fun c stepsPerUpdate => { c with stepsPerUpdate },
     .optional "continuation_limit" (.natural .u32) (·.continuationLimit)
      fun c continuationLimit => { c with continuationLimit },
     .optional "physics" physics.format (·.physics) fun c physics => { c with physics }]

def program : Record (Program ν) where
  type := "ProgramDef"
  blank := { id := "", statements := [] }
  fields :=
    [.required "id" .text (·.id) fun p id => { p with id },
     .optional "description" .text (·.description) fun p description => { p with description },
     .required "statements" (.sequence term) (·.statements)
      fun p statements => { p with statements }]

def launch : Record (Launch ν) where
  type := "LaunchDef"
  blank := { program := "", position := ⟨0.0, 0.0, 0.0⟩, tick := 0 }
  fields :=
    [.required "program" .text (·.program) fun l program => { l with program },
     .optional "at" place (·.position) fun l position => { l with position },
     .optional "tick" (.natural .u64) (·.tick) fun l tick => { l with tick }]

def definition : Record (Definition ν) where
  type := "ShowDef"
  blank := {}
  fields :=
    [.optional "name" .text (·.name) fun d name => { d with name },
     .optional "config" config.option (·.config) fun d config => { d with config },
     .optional "programs" (.sequence program.format) (·.programs)
      fun d programs => { d with programs },
     .optional "launches" (.sequence launch.format) (·.launches)
      fun d launches => { d with launches }]

def rng : Record Rng where
  type := "SimRng"
  blank := ⟨0⟩
  fields := [.required "state" .word64 (·.state) fun r state => { r with state }]

def snapshot : Record (Snapshot ν) where
  type := "ParticleSnapshot"
  blank :=
    { position := ⟨0.0, 0.0, 0.0⟩, rotation := ⟨0.0, 0.0, 0.0, 1.0⟩, opacity := 0.0, hue := 0.0,
      speed := 0.0 }
  fields :=
    [.required "position" vector (·.position) fun s position => { s with position },
     .required "rotation" rotation (·.rotation) fun s rotation => { s with rotation },
     .required "opacity" .number (·.opacity) fun s opacity => { s with opacity },
     .required "hue" .number (·.hue) fun s hue => { s with hue },
     .required "speed" .number (·.speed) fun s speed => { s with speed }]

end Document

end Fireworks
