import Fireworks.Decimal.Notation
import Fireworks.Ron.Anything
import Fireworks.Ron.Attributes
import Fireworks.Ron.Value

/-! # Types in the object notation

A format says how the values of a type are written, and which forms are read as one. Records are
read by field names, in any order; unknown fields do not matter, and no known one may come twice.
-/
namespace Fireworks.Ron

structure Format (α : Type) where
  read : Reader α
  write : α → Ron

namespace Format

open Reader

variable {α β : Type}

def parse? (format : Format α) (text : String) : Option α :=
  (((document format.read).run {}).run text.toList).map Prod.fst

def print (format : Format α) (value : α) : String := .ofList (format.write value).render

/-! ## Plain types -/

def natural (type : IntegerType) : Format Nat where
  read := do return (← integerOf type).toNat
  write n := .number (toString n)

def word64 : Format UInt64 where
  read := do return (← integerOf .u64).toNat.toUInt64
  write n := .number (toString n.toNat)

def number {ν : Type} [Numeral ν] : Format ν where
  read := double
  write x := .number (Numeral.toBinary x).renderData

def text : Format String where
  read := Reader.text
  write := .text

def choice [BEq α] (names : List (α × String)) : Format α where
  read :=
    deeper do
      let name ← deeper identifier
      ofOption ((names.find? fun entry => entry.2 == name).map Prod.fst)
  write value := .word ((names.lookup value).getD "")

def sequence (format : Format α) : Format (List α) where
  read := bracketed '[' ']' format.read
  write values := .sequence (values.map format.write)

/-! ## Tuples -/

/-- A comma may follow the last element. -/
def readExactly (element : Reader α) : Nat → Reader (List α)
  | 0 => return []
  | n + 1 => do
    blanks
    let first ← deeper element
    let more ← comma
    guard (more || n == 0)
    return first :: (← readExactly element n)

/-- A fixed number of elements in parentheses, which the name of a type may precede. -/
def tuple (type : Option String) (format : Format α) (count : Nat) (ofList? : List α → Option β)
    (toList : β → List α) : Format β where
  read := do
    type.forM typeName
    expect "("
    let elements ← deeper (readExactly format.read count)
    expect ")"
    ofOption (ofList? elements)
  write value := .tuple none ((toList value).map format.write)

end Format

/-! ## Records -/

/-- A field of a record: how it is put there when read, and how it is written. -/
structure Record.Field (ρ : Type) where
  key : String
  isRequired : Bool
  read : Reader (ρ → ρ)
  write : ρ → Ron

structure Record (ρ : Type) where
  type : String
  /-- The record before any field is read, with what fields hold that are left out. -/
  blank : ρ
  fields : List (Record.Field ρ)

namespace Record

open Reader

variable {ρ α : Type}

namespace Field

def of (isRequired : Bool) (key : String) (format : Format α) (get : ρ → α) (set : ρ → α → ρ) :
    Field ρ where
  key
  isRequired
  read := do
    let value ← format.read
    return fun record => set record value
  write record := format.write (get record)

def required (key : String) (format : Format α) (get : ρ → α) (set : ρ → α → ρ) : Field ρ :=
  of true key format get set

def optional (key : String) (format : Format α) (get : ρ → α) (set : ρ → α → ρ) : Field ρ :=
  of false key format get set

end Field

/-- Reads a field: its name and what it does to the record, if the record knows it. -/
def readField (record : Record ρ) : Reader (Option (String × (ρ → ρ))) := do
  let key ← identifier
  blanks
  token ":"
  match record.fields.find? (·.key == key) with
  | some field => return some (key, ← field.read)
  | none => do
    anything
    return none

def readFields (record : Record ρ) : Reader ρ := do
  let found := (← elements ')' record.readField).filterMap id
  let keys := found.map Prod.fst
  guard (decide keys.Nodup)
  guard (record.fields.all fun field => !field.isRequired || keys.contains field.key)
  return found.foldl (fun value field => field.2 value) record.blank

def format (record : Record ρ) : Format ρ where
  read := do
    typeName record.type
    blanks
    expect "("
    let value ← record.readFields
    expect ")"
    return value
  write value := .record (record.fields.map fun field => (field.key, field.write value))

def option (record : Record ρ) : Format (Option ρ) where
  read := do
    if ← keyword? "None" then return none
    else if ← keyword? "Some" then return some (← Reader.given record.format.read record.readFields)
    else
      guard (← dialect).implicitSome
      return some (← deeper record.format.read)
  write
    | none => .word "None"
    | some value => .given (record.format.write value)

end Record

end Fireworks.Ron
