import Fireworks.Text.Identifier

/-! # Readers of the object notation

A reader takes characters from the front of a text and fails without saying why. It knows the
dialect of the document, and how many levels of values there may still be below its place.
-/
namespace Fireworks.Ron

structure Dialect where
  /-- A value that is given needs no mark. -/
  implicitSome : Bool := false
  /-- What an option holds stands without parentheses of its own. -/
  unwrapVariants : Bool := false
  /-- Records need their names. -/
  explicitNames : Bool := false
  deriving Repr

structure Place where
  dialect : Dialect := {}
  /-- How many levels of values may follow below. -/
  depth : Nat := 128

abbrev Reader := ReaderT Place (StateT (List Char) Option)

namespace Reader

variable {α : Type}

def dialect : Reader Dialect := return (← read).dialect

def depth : Reader Nat := return (← read).depth

def deeper (reader : Reader α) : Reader α := do
  match ← depth with
  | 0 => failure
  | depth + 1 => withReader ({ · with depth }) reader

def peek? : Reader (Option Char) := do return (← get).head?

def next : Reader Char := do
  match ← get with
  | [] => failure
  | c :: rest => do
    set rest
    return c

def stands (word : String) : Reader Bool := do return word.toList.isPrefixOf (← get)

def take? (word : String) : Reader Bool := do
  let found ← stands word
  if found then modify (·.drop word.length)
  return found

def expect (word : String) : Reader Unit := do guard (← take? word)

/-- Takes a word from the front, if it stands there and is not the beginning of a longer one. -/
def keyword? (word : String) : Reader Bool := do
  let rest := (← get).drop word.length
  let found := (← stands word) && !rest.head?.any Text.isIdentifierPart
  if found then set rest
  return found

def keyword (word : String) : Reader Unit := do guard (← keyword? word)

def span (p : Char → Bool) : Reader (List Char) := do
  let cs ← get
  set (cs.dropWhile p)
  return cs.takeWhile p

/-- What a reader would take, without taking it. -/
def ahead (reader : Reader α) : Reader (Option α) := do
  return ((reader.run (← read)).run (← get)).map Prod.fst

/-! ## Blanks and comments -/

def isSpace (c : Char) : Bool :=
  c ∈ [' ', '\t', '\n', '\r', '\x0b', '\x0c', '\u0085', '\u200e', '\u200f', '\u2028', '\u2029']

inductive Between where
  | outside
  | line
  | block (depth : Nat)

/-- What follows blanks and comments. Block comments nest, and have to end. -/
def skip : Between → List Char → Option (List Char)
  | .outside, '/' :: '/' :: rest => skip .line rest
  | .outside, '/' :: '*' :: rest => skip (.block 0) rest
  | .outside, '/' :: _ => none
  | .outside, c :: rest => if isSpace c then skip .outside rest else some (c :: rest)
  | .line, c :: rest => skip (if c = '\n' then .outside else .line) rest
  | .block depth, '/' :: '*' :: rest => skip (.block (depth + 1)) rest
  | .block 0, '*' :: '/' :: rest => skip .outside rest
  | .block (depth + 1), '*' :: '/' :: rest => skip (.block depth) rest
  | .block depth, _ :: rest => skip (.block depth) rest
  | .block _, [] => none
  | _, [] => some []

def blanks : Reader Unit := do
  match skip .outside (← get) with
  | none => failure
  | some rest => set rest

def token (word : String) : Reader Unit := do
  expect word
  blanks

def comma : Reader Bool := do
  blanks
  let found ← take? ","
  if found then blanks
  return found

/-! ## Elements -/

/-- Elements with commas between them, up to a closing bracket that is not taken. Each element takes
a character, so that there is no need for more rounds than characters. -/
def elementsIn (close : Char) (element : Reader α) : Nat → Reader (List α)
  | 0 => failure
  | rounds + 1 => do
    blanks
    if (← peek?) == some close then return []
    let first ← deeper element
    if ← comma then return first :: (← elementsIn close element rounds)
    guard ((← peek?) == some close)
    return [first]

/-- The elements between brackets, without the brackets. All of them together are one level of
values, and each one is another. -/
def elements (close : Char) (element : Reader α) : Reader (List α) := do
  let rounds := (← get).length + 1
  deeper (elementsIn close element rounds)

def bracketed (left right : Char) (element : Reader α) : Reader (List α) := do
  expect left.toString
  let all ← elements right element
  expect right.toString
  return all

def parenthesized (content : Reader α) : Reader α := do
  expect "("
  blanks
  let value ← deeper content
  let _ ← comma
  expect ")"
  return value

/-- What stands after the mark of an option. It may not need its parentheses, or it may use them as
its own. -/
def given (value unwrapped : Reader α) : Reader α := do
  let dialect ← dialect
  blanks
  if ← stands "(" then parenthesized (if dialect.unwrapVariants then unwrapped else value)
  else
    guard dialect.implicitSome
    deeper value

/-! ## Names -/

def isRawPart (c : Char) : Bool := Text.isIdentifierPart c || c ∈ ['.', '+', '-']

/-- Beginnings of texts and bytes that look like names. -/
def literalMarks : List String := ["b\"", "b'", "br#", "br\"", "r\"", "r#\"", "r##"]

/-- A name, whatever follows it. After the mark `r#` it may hold points and signs as well. -/
def name : Reader String := do
  guard ((← peek?).any Text.isIdentifierStart)
  guard !(← literalMarks.anyM stands)
  let isPart := if ← take? "r#" then isRawPart else Text.isIdentifierPart
  let cs ← span isPart
  guard !cs.isEmpty
  return .ofList cs

def identifier : Reader String := do
  let found ← name
  guard !(← peek?).any isRawPart
  return found

def typeName (type : String) : Reader Unit := do
  if (← peek?).any Text.isIdentifierPart then guard ((← identifier) == type)
  else guard !(← dialect).explicitNames

def variant (payload : String → Option (Reader α)) : Reader α :=
  deeper do
    match payload (← deeper identifier) with
    | none => failure
    | some content => do
      blanks
      parenthesized content

end Reader

end Fireworks.Ron
