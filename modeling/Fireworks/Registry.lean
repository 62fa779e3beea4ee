import Fireworks.Cue
import Fireworks.Easing
import Fireworks.NameTable
import Fireworks.Particle
import Fireworks.Term

/-! # Names of the show language

The registry says what a name stands for. The compiler reads these descriptions and treats all
names of one description alike.
-/
namespace Fireworks

/-- How an operator picks its value: by the index of the instance, or by a draw. -/
inductive Selection where
  | each
  | random
  deriving DecidableEq, Repr

inductive Blend where
  | set
  | add
  | multiply
  deriving DecidableEq, Repr

/-- Behaviors that need no arguments. -/
inductive Action where
  | nop
  | close
  | explode
  | voice (cue : Cue)
  deriving DecidableEq, Repr

/-- Behaviors that are built from a fixed number of arguments. -/
inductive Constructor where
  | property (blend : Blend) (target : Property)
  | translate
  | rotate
  | emit
  | loop
  | repeated
  | flair
  | fireworks
  | character
  | text
  deriving DecidableEq, Repr

def Constructor.arity : Constructor → Nat
  | .property .. | .loop => 1
  | .repeated | .flair | .fireworks | .character => 2
  | .translate | .rotate => 3
  | .emit => 4
  | .text => 5

inductive Builtin where
  | easing (easing : Easing)
  | action (action : Action)
  | angle (selection : Selection)
  | constructor (constructor : Constructor)
  | block
  | choice (selection : Selection)
  | range (selection : Selection)
  deriving DecidableEq, Repr

abbrev Registry := NameTable Builtin

namespace Registry

def empty : Registry := {}

def propertyNames (target : Property) : List (String × Builtin) :=
  [(target.name, .constructor (.property .set target)),
   (target.name ++ "+", .constructor (.property .add target)),
   (target.name ++ "*", .constructor (.property .multiply target))]

def operatorNames (word : String) (selection : Selection) : List (String × Builtin) :=
  [(word ++ "-choice", .choice selection),
   (word ++ "-range", .range selection),
   (word ++ "-angle", .angle selection)]

def builtin : Registry := .ofList <|
  Easing.all.map (fun easing => (easing.name, .easing easing))
  ++ [("nop", .action .nop), ("close", .action .close), ("explode", .action .explode),
    ("fireworksExplode", .action .explode), ("textExplode", .action .explode)]
  ++ Cue.all.map (fun cue => (cue.name, .action (.voice cue)))
  ++ Property.all.flatMap propertyNames
  ++ [("translate", .constructor .translate), ("rotate", .constructor .rotate),
    ("emit", .constructor .emit), ("loop", .constructor .loop),
    ("repeat", .constructor .repeated), ("flair", .constructor .flair),
    ("fireworks", .constructor .fireworks), ("character", .constructor .character),
    ("text", .constructor .text), (Term.blockName, .block)]
  ++ operatorNames "each" .each ++ operatorNames "random" .random

end Registry

end Fireworks
