import Fireworks.Compile
import Fireworks.Config

/-! # Shows

A show names its programs, and says which of them a particle runs from which place and tick on.
-/
namespace Fireworks

structure Program (ν : Type) where
  id : String
  description : String := ""
  statements : List (Term ν)

/-- A particle that starts at a tick and runs a program. -/
structure Launch (ν : Type) where
  program : String
  position : Vec3 ν
  tick : Nat

inductive ShowError where
  /-- A file that is missing, a directory in its place, or bytes that are no text. -/
  | unreadable
  /-- A text that does not describe a show. -/
  | malformed
  | duplicate (id : String)
  | unknownProgram (id : String)
  | compile (id : String) (cause : CompileError)
  deriving DecidableEq, Repr

def ShowError.message : ShowError → String
  | .unreadable => "The show cannot be read"
  | .malformed => "The text does not describe a show"
  | .duplicate id => "Duplicate definition: " ++ id
  | .unknownProgram id => "Unknown program: " ++ id
  | .compile id cause => "Program " ++ id ++ " failed to compile: " ++ cause.message

structure Show (ν : Type) where
  name : String := ""
  config : Config ν
  /-- The programs by their ids, in the order in which they were loaded. -/
  programs : NameTable (Program ν) := {}
  /-- The launches in the order in which they were loaded. -/
  launches : List (Launch ν) := []

namespace Show

variable {ν : Type}

def empty [Arithmetic ν] : Show ν := { config := .default }

def compile (registry : Registry) (s : Show ν) (id : String) :
    Except ShowError (BehaviorGen ν) :=
  match s.programs.find? id with
  | none => .error (.unknownProgram id)
  | some program => (registry.compileProgram program.statements).mapError (.compile id)

/-- Compiles all programs in order, up to the first that does not compile. -/
def compileAll (registry : Registry) (s : Show ν) :
    Except ShowError (NameTable (BehaviorGen ν)) := do
  return ⟨← s.programs.names.mapM fun id => do return (id, ← s.compile registry id)⟩

end Show

end Fireworks
