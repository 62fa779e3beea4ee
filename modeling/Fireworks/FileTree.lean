/-! # Trees of files

What can be read from a place: a file with its bytes, or a directory with named entries.
-/
namespace Fireworks

inductive FileTree where
  | file (bytes : ByteArray)
  | directory (entries : List (String × FileTree))

namespace FileTree

def empty : FileTree := .directory []

def isDirectory : FileTree → Bool
  | .file _ => false
  | .directory _ => true

def entries : FileTree → List (String × FileTree)
  | .file _ => []
  | .directory entries => entries

def steps (path : String) : List String := (path.toList.splitOn '/').map String.ofList

def components (path : String) : List String :=
  (steps path).filter fun name => name != "" && name != "."

/-- Goes on along a path from a tree with the directories above it, the next one first. Every step
starts in a directory, also one that stays there or leads back up. -/
def walk (above : List FileTree) (tree : FileTree) : List String → Option FileTree
  | [] => some tree
  | step :: rest =>
    match tree with
    | .file _ => none
    | .directory entries =>
      if step = "" ∨ step = "." then walk above tree rest
      else if step = ".." then
        match above with
        | [] => none
        | parent :: above => walk above parent rest
      else (entries.lookup step).bind fun entry => walk (tree :: above) entry rest

/-- What stands at a path. No path leads out of the tree. -/
def find? (tree : FileTree) (path : String) : Option FileTree :=
  if path.startsWith "/" then none else walk [] tree (steps path)

def putEntry (name : String) (tree : FileTree) : List (String × FileTree) → List (String × FileTree)
  | [] => [(name, tree)]
  | (key, old) :: rest =>
    if key = name then (key, tree) :: rest else (key, old) :: putEntry name tree rest

/-- Changes what stands at a path, and makes the directories on the way to it. What was not there
begins as an empty directory. -/
def change (f : FileTree → FileTree) : List String → FileTree → FileTree
  | [], tree => f tree
  | name :: rest, tree =>
    let old := (tree.entries.lookup name).getD empty
    .directory (putEntry name (change f rest old) tree.entries)

def asDirectory (tree : FileTree) : FileTree := if tree.isDirectory then tree else empty

/-- Changes what stands at the end of a path that goes on from walked names, which come in reverse.
A step back up leaves behind the directory that it starts in. -/
def changeAlong (f : FileTree → FileTree) (walked : List String) (tree : FileTree) :
    List String → FileTree
  | [] => change f walked.reverse tree
  | name :: rest =>
    if name = ".." then changeAlong f walked.tail (change asDirectory walked.reverse tree) rest
    else changeAlong f (name :: walked) tree rest

def addFile (tree : FileTree) (path : String) (bytes : ByteArray) : FileTree :=
  changeAlong (fun _ => .file bytes) [] tree (components path)

def addDirectory (tree : FileTree) (path : String) : FileTree :=
  changeAlong asDirectory [] tree (components path)

/-- The part of a file name after its last point. A name that begins with its only point has
none. -/
def extension? (name : String) : Option String :=
  let reversed := name.toList.reverse
  match reversed.dropWhile (· != '.') with
  | '.' :: _ :: _ => some (.ofList (reversed.takeWhile (· != '.')).reverse)
  | _ => none

def text? : FileTree → Option String
  | .file bytes => String.fromUTF8? bytes
  | .directory _ => none

end FileTree

end Fireworks
