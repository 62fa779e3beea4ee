import Fireworks.Arithmetic

/-! # Terms of the show language

A program is a list of terms. A term is a number, a name, or a head followed by its arguments. A
block is a term headed by the reserved name `block`, whose arguments are lists of statements, one
list for each lane.
-/
namespace Fireworks

inductive Term (ν : Type) where
  | number (value : ν)
  | symbol (name : String)
  | list (elements : List (Term ν))
  deriving BEq, Repr, Inhabited

namespace Term

variable {ν : Type}

def blockName : String := "block"

def ofInt [Arithmetic ν] : Int → Term ν
  | .ofNat n => .number (Arithmetic.ofNat n)
  | .negSucc n => .number (-Arithmetic.ofNat (n + 1))

def apply (head : String) (args : List (Term ν)) : Term ν := .list (.symbol head :: args)

def block (lanes : List (List (Term ν))) : Term ν := apply blockName (lanes.map .list)

/-- The kind of a term, as messages call it. -/
def kind : Term ν → String
  | .number _ => "number"
  | .symbol _ => "symbol"
  | .list _ => "list"

def elements? : Term ν → Option (List (Term ν))
  | .list elements => some elements
  | _ => none

mutual

def size : Term ν → Nat
  | .number _ | .symbol _ => 1
  | .list elements => 1 + sizeAll elements

def sizeAll : List (Term ν) → Nat
  | [] => 0
  | t :: ts => t.size + sizeAll ts

end

mutual

/-- The text of a term: a list stands in parentheses, with single blanks between its elements. -/
def render (number : ν → String) : Term ν → String
  | .number value => number value
  | .symbol name => name
  | .list elements => "(" ++ " ".intercalate (renderAll number elements) ++ ")"

def renderAll (number : ν → String) : List (Term ν) → List String
  | [] => []
  | t :: ts => t.render number :: renderAll number ts

end

end Term

end Fireworks
