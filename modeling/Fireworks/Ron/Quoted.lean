import Fireworks.Ron.Number

/-! # Texts, characters and bytes in quotes

A backslash introduces a character that is named by a letter or by its number, or at the end of a
line leaves out the blanks up to the next character. Raw texts know no such marks.
-/
namespace Fireworks.Ron.Reader

def hexDigit : Reader Nat := do ofOption (digit? (← next))

def byte : Reader UInt8 := do
  let high ← hexDigit
  let low ← hexDigit
  return (16 * high + low).toUInt8

def character? (bytes : List UInt8) : Option Char :=
  (String.fromUTF8? ⟨bytes.toArray⟩).bind fun s => s.toList.head?

def moreBytes : Nat → List UInt8 → Reader Char
  | 0, _ => failure
  | rounds + 1, bytes => do
    expect "\\x"
    let bytes := bytes ++ [← byte]
    match character? bytes with
    | some c => return c
    | none => moreBytes rounds bytes

/-- Up to six hexadecimal digits, in braces. -/
def codePoint : Reader Char := do
  expect "\x7b"
  let digits ← span fun c => (digit? c).isSome
  expect "\x7d"
  guard (1 ≤ digits.length && digits.length ≤ 6)
  let n ← ofOption (digits? 16 digits)
  guard (decide n.isValidChar)
  return .ofNat n

/-- What a byte beyond ASCII stands for depends on the kind of text. -/
def escaped (wide : UInt8 → Reader Char) : Reader Char := do
  match ← next with
  | 'n' => return '\n'
  | 'r' => return '\r'
  | 't' => return '\t'
  | '0' => return '\x00'
  | '\'' => return '\''
  | '"' => return '"'
  | '\\' => return '\\'
  | 'x' => do
    let first ← byte
    if first < 128 then return .ofUInt8 first else wide first
  | 'u' => codePoint
  | _ => failure

def lineBreak : Reader Unit := do
  let _ ← take? "\r"
  expect "\n"
  let _ ← span (· ∈ [' ', '\t', '\n', '\r'])

def afterBackslash (wide : UInt8 → Reader Char) : Reader (List Char) :=
  (do
    lineBreak
    return []) <|>
  (do return [← escaped wide])

def quotedIn (wide : UInt8 → Reader Char) : Nat → Reader (List Char)
  | 0 => failure
  | rounds + 1 => do
    match ← next with
    | '"' => return []
    | '\\' => do
      let cs ← afterBackslash wide
      return cs ++ (← quotedIn wide rounds)
    | c => return c :: (← quotedIn wide rounds)

def quoted (wide : UInt8 → Reader Char) : Reader (List Char) := do
  expect "\""
  quotedIn wide ((← get).length + 1)

def splitAt? (word : List Char) : List Char → Option (List Char × List Char)
  | [] => if word.isEmpty then some ([], []) else none
  | c :: rest =>
    if word.isPrefixOf (c :: rest) then some ([], (c :: rest).drop word.length)
    else (splitAt? word rest).map fun (before, after) => (c :: before, after)

/-- The end of a raw text: a quote with as many hashes as stand at its beginning. -/
def rawOpening : Reader (List Char) := do
  let hashes ← span (· == '#')
  expect "\""
  return '"' :: hashes

def rawText : Reader (List Char) := do
  let ending ← rawOpening
  let (content, rest) ← ofOption (splitAt? ending (← get))
  set rest
  return content

/-- Bytes beyond ASCII have to make up whole characters in a text. -/
def wholeCharacter (first : UInt8) : Reader Char := moreBytes 3 [first]

def text : Reader String := do
  let raw ← take? "r"
  return .ofList (← if raw then rawText else quoted wholeCharacter)

def character : Reader Char := do
  expect "'"
  let c ← next
  let c ← if c == '\\' then escaped fun _ => failure else pure c
  expect "'"
  return c

/-! ## Bytes

Only values that nobody asks for hold bytes, so that their content is dropped.
-/

def anyByte (byte : UInt8) : Reader Char := return .ofUInt8 byte

def byteText : Reader Unit := do
  expect "b"
  let raw ← take? "r"
  let _ ← if raw then rawText else quoted anyByte

/-- A byte in single quotes: an ASCII character, or any escape but that of a code point. -/
def byteCharacter : Reader Unit := do
  expect "b'"
  let c ← next
  if c == '\\' then
    guard ((← peek?) != some 'u')
    let _ ← escaped anyByte
  else guard (c.toNat < 128)
  expect "'"

/-! ## Texts without an end -/

/-- Whether the rest of a text in quotes can be read up to where no quote is left to end it. -/
def endlessIn (wide : UInt8 → Reader Char) : Nat → Reader Bool
  | 0 => failure
  | rounds + 1 => do
    if !(← get).contains '"' then return true
    let _ ← span fun c => c != '"' && c != '\\'
    if ← take? "\\" then
      if (← ahead (afterBackslash wide)).isNone then return false
      let _ ← afterBackslash wide
      endlessIn wide rounds
    else return false

def endless (wide : UInt8 → Reader Char) : Reader Bool := do
  if ← take? "r" then
    let ending ← rawOpening
    return (splitAt? ending (← get)).isNone
  else
    expect "\""
    endlessIn wide ((← get).length + 1)

def endlessText : Reader Bool := endless wholeCharacter

def endlessBytes : Reader Bool := do
  expect "b"
  endless anyByte

end Fireworks.Ron.Reader
