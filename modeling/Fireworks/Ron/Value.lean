import Fireworks.Text.Invisible

/-! # Values of the object notation

Shows are kept as text in the notation RON. What is written is put together as a tree first; its
text is the shortest one, without blanks and without names of records. What is read is taken from
the text at once, as it depends on the type of a value which spellings are right.
-/
namespace Fireworks

inductive Ron where
  /-- A name that nothing follows. -/
  | word (name : String)
  /-- A number, as it is spelled. -/
  | number (token : String)
  | text (value : String)
  | sequence (elements : List Ron)
  /-- Elements in parentheses, after a name or without one. -/
  | tuple (name : Option String) (elements : List Ron)
  | record (fields : List (String × Ron))
  /-- A value that is given although it might not be. -/
  | given (value : Ron)
  deriving Repr, Inhabited

namespace Ron

def escape (c : Char) : List Char :=
  match c with
  | '\t' => ['\\', 't']
  | '\r' => ['\\', 'r']
  | '\n' => ['\\', 'n']
  | '\x00' => ['\\', '0']
  | '\'' | '"' | '\\' => ['\\', c]
  | _ =>
    if Text.isInvisible c then ['\\', 'u', '\x7b'] ++ Nat.toDigits 16 c.toNat ++ ['\x7d'] else [c]

def quote (value : String) : List Char := '"' :: value.toList.flatMap escape ++ ['"']

def commas (pieces : List (List Char)) : List Char := [','].intercalate pieces

def parenthesize (content : List Char) : List Char := '(' :: content ++ [')']

mutual

def render : Ron → List Char
  | .word name => name.toList
  | .number token => token.toList
  | .text value => quote value
  | .sequence elements => '[' :: commas (renderAll elements) ++ [']']
  | .tuple name elements => (name.getD "").toList ++ parenthesize (commas (renderAll elements))
  | .record fields => parenthesize (commas (renderFields fields))
  | .given value => "Some".toList ++ parenthesize value.render

def renderAll : List Ron → List (List Char)
  | [] => []
  | value :: rest => value.render :: renderAll rest

def renderFields : List (String × Ron) → List (List Char)
  | [] => []
  | (key, value) :: rest => (key.toList ++ ':' :: value.render) :: renderFields rest

end

end Ron

end Fireworks
