import Fireworks.Show.Bundled
import Fireworks.Show.Loader
import Fireworks.Show.Report

/-! # The command line

Plays the show of a file, or the bundled one, and reports on it.
-/
namespace Fireworks

def printLine : Report.Line → IO Unit
  | .output text => IO.println text
  | .info text => IO.eprintln ("INFO " ++ text)
  | .warning text => IO.eprintln ("WARN " ++ text)

def reportError (error : ShowError) : IO UInt32 := do
  IO.eprintln ("Error: " ++ error.message)
  return 1

/-- Reads a show from a file. -/
def readShow (path : String) : IO (Except ShowError (Show Float)) := do
  try
    let bytes ← IO.FS.readBinFile path
    let (result, s) := (Load.file (.file bytes)).run.run .empty
    return result.map fun _ => s
  catch _ => return .error .unreadable

end Fireworks

open Fireworks in
def main (args : List String) : IO UInt32 := do
  let loaded ←
    match args with
    | [] => pure (.ok Bundled.finale)
    | path :: _ => readShow path
  match loaded with
  | .error error => reportError error
  | .ok s =>
    let (lines, error?) := Report.ofShow s
    lines.forM printLine
    match error? with
    | none => return 0
    | some error => reportError error
