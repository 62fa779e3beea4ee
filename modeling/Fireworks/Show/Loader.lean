import Fireworks.FileTree
import Fireworks.Show.Document

/-! # Loading shows

A show is collected from one document after another. The first name that is not empty is kept, a
later configuration replaces an earlier one, and programs and launches add up. A document that
cannot be taken over as a whole leaves behind what came before its fault.
-/
namespace Fireworks

/-- A step of loading, which may fail and changes the show even so. -/
abbrev Load (ν : Type) := ExceptT ShowError (StateM (Show ν))

namespace Load

variable {ν : Type}

def program (p : Program ν) : Load ν Unit := do
  if (← get).programs.contains p.id then throw (.duplicate p.id)
  modify fun s => { s with programs := s.programs.insert p.id p }

/-- Launches come last, and only from a document without fault. -/
def definition (d : Definition ν) : Load ν Unit := do
  modify fun s => { s with
    name := if s.name.isEmpty then d.name else s.name
    config := d.config.getD s.config }
  d.programs.forM program
  modify fun s => { s with launches := s.launches ++ d.launches }

def text (content : String) : Load Float Unit :=
  match Document.definition.format.parse? content with
  | none => throw .malformed
  | some d => definition d

def file (tree : FileTree) : Load Float Unit :=
  match tree.text? with
  | none => throw .unreadable
  | some content => text content

def showExtension : String := "ron"

/-- Runs the loads of the entries of a directory in the order of their names. -/
def inOrder (loads : List (String × Load ν Unit)) : Load ν Unit :=
  (loads.mergeSort fun a b => a.1 ≤ b.1).forM Prod.snd

mutual

def directory : FileTree → Load Float Unit
  | .file _ => throw .unreadable
  | .directory entries => inOrder (entryLoads entries)

/-- How each entry of a directory is taken over. Neither files nor directories are asked what they
are when their name says that they hold a show; what else is no directory is left out. -/
def entryLoads : List (String × FileTree) → List (String × Load Float Unit)
  | [] => []
  | (name, tree) :: rest =>
    let load :=
      if FileTree.extension? name = some showExtension then file tree
      else if tree.isDirectory then directory tree
      else pure ()
    (name, load) :: entryLoads rest

end

def fileAt (root : FileTree) (path : String) : Load Float Unit :=
  match root.find? path with
  | none => throw .unreadable
  | some tree => file tree

def directoryAt (root : FileTree) (path : String) : Load Float Unit :=
  match root.find? path with
  | none => throw .unreadable
  | some tree => directory tree

end Load

end Fireworks
