import Fireworks.Ron.Quoted

/-! # Values that nobody asks for

Fields that a record does not know may hold values of any type. They have to be well formed, and
their content is dropped.
-/
namespace Fireworks.Ron.Reader

/-! ## Numbers and ranges -/

/-- An integer within its type, which has 64 bits unless there is a suffix. -/
def anyInteger : Reader Unit := do
  let (n, suffix) ← integer
  guard ((suffix.getD (if n < 0 then .i64 else .u64)).contains n)

/-- What is no integer, or too large for one, is a floating number. -/
def anyNumber : Reader Unit :=
  (do
    anyInteger
    guard ((← stands "..") || !(← stands "."))) <|>
  discard float

def bound : Reader Unit := byteCharacter <|> anyNumber

def upperBound : Reader Unit := do
  if ← take? "=" then bound else bound <|> pure ()

def numbers : Reader Unit := do
  if ← take? ".." then upperBound
  else
    bound
    if ← take? ".." then upperBound

/-! ## Groups -/

def atField : Reader Bool := do
  let found ← ahead do
    let _ ← name
    blanks
    expect ":"
  return found.isSome

def keyed {α : Type} (key : Reader α) (part : Reader Unit) : Reader Unit := do
  let _ ← key
  blanks
  token ":"
  part

def parts (part : Reader Unit) : Reader Unit := do
  blanks
  let isRecord ← atField
  let _ ← elements ')' (if isRecord then keyed identifier part else part)

def group (part : Reader Unit) : Reader Unit := do
  expect "("
  parts part
  expect ")"

/-- Takes what a reader reads, if it stands here and is not without an end. -/
def passOver (isEndless : Reader Bool) (reader : Reader Unit) : Reader Unit := do
  guard ((← ahead isEndless) != some true)
  reader <|> pure ()

/-- Reads on to the first comma that stands outside of brackets, or to the end of the group:
whether something follows the comma. Brackets and commas do not count within literals. -/
def secondPart : Nat → Nat → Reader Bool
  | 0, _ => failure
  | rounds + 1, depth => do
    blanks
    discard character <|> pure ()
    passOver endlessText (discard text)
    passOver endlessBytes byteText
    blanks
    let c ← next
    if c ∈ ['(', '[', '\x7b'] then secondPart rounds (depth + 1)
    else if c ∈ [')', ']', '\x7d'] then
      match depth with
      | 0 => return false
      | depth + 1 => secondPart rounds depth
    else if c = ',' ∧ depth = 0 then
      blanks
      return !(← stands ")")
    else secondPart rounds depth

def hasSecondPart : Reader Bool := do
  let found ← ahead do
    discard name <|> pure ()
    secondPart ((← get).length + 1) 0
  ofOption found

/-- The content of an option whose parentheses belong to the content. -/
def unwrapped (part : Reader Unit) : Reader Unit := do
  if ← stands ")" then return
  if ← atField then parts part
  else if ← hasSecondPart then parts part
  else part

/-! ## Values -/

def valueOf (part : Reader Unit) : Reader Unit := do
  if ← ["true", "false", "None"].anyM keyword? then return
  if ← keyword? "Some" then given part (unwrapped part)
  else if ← take? "()" then return
  else if (← ahead floatWord).isSome then numbers
  else if (← ahead name).isSome then
    let _ ← name
    blanks
    if ← stands "(" then group part
  else
    match ← peek? with
    | some '(' => group part
    | some '[' => discard (bracketed '[' ']' part)
    | some '\x7b' => discard (bracketed '\x7b' '\x7d' (keyed part part))
    | some '"' | some 'r' => discard text
    | some '\'' => discard character
    | some 'b' => if ← stands "b'" then numbers else byteText
    | _ => numbers

def valueIn : Nat → Reader Unit
  | 0 => failure
  | levels + 1 => valueOf (valueIn levels)

/-- Every value within a value is at least one level further down. -/
def anything : Reader Unit := do valueIn ((← depth) + 1)

end Fireworks.Ron.Reader
