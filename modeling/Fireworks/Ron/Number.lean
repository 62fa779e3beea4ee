import Fireworks.Ron.Numeral
import Fireworks.Ron.Reader

/-! # Spellings of numbers

An integer may have a base, underscores between its digits and a suffix that names its type. A
floating number may have a point, an exponent and a suffix, or is one of the words for what is no
finite number.
-/
namespace Fireworks.Ron

/-! ## Integers -/

structure IntegerType where
  name : String
  least : Int
  greatest : Int
  deriving DecidableEq, Repr

namespace IntegerType

def unsigned (name : String) (size : Nat) : IntegerType := ⟨name, 0, size - 1⟩
def signed (name : String) (size : Nat) : IntegerType := ⟨name, -(size / 2), size / 2 - 1⟩

def u32 : IntegerType := unsigned "u32" UInt32.size
def u64 : IntegerType := unsigned "u64" UInt64.size
def i64 : IntegerType := signed "i64" UInt64.size

def all : List IntegerType :=
  [signed "i8" UInt8.size, signed "i16" UInt16.size, signed "i32" UInt32.size, i64,
   unsigned "u8" UInt8.size, unsigned "u16" UInt16.size, u32, u64]

def contains (type : IntegerType) (n : Int) : Bool := type.least ≤ n && n ≤ type.greatest

end IntegerType

def digit? (c : Char) : Option Nat :=
  if c.isDigit then some (c.toNat - '0'.toNat)
  else if 'a' ≤ c ∧ c ≤ 'f' then some (c.toNat - 'a'.toNat + 10)
  else if 'A' ≤ c ∧ c ≤ 'F' then some (c.toNat - 'A'.toNat + 10)
  else none

/-- The number that digits of a base spell; underscores do not count. -/
def digits? (base : Nat) (cs : List Char) : Option Nat :=
  (cs.filter (· != '_')).foldlM (fun n c => do
    let d ← digit? c
    if d < base then some (base * n + d) else none) 0

namespace Reader

def ofOption {α : Type} : Option α → Reader α
  | none => failure
  | some value => return value

/-- A sign, if there is one: whether it is a minus. -/
def sign : Reader Bool := do
  if ← take? "-" then return true
  let _ ← take? "+"
  return false

def base : Reader Nat := do
  if ← take? "0b" then return 2
  if ← take? "0o" then return 8
  if ← take? "0x" then return 16
  return 10

def integer : Reader (Int × Option IntegerType) := do
  let negative ← sign
  let base ← base
  let body ← span fun c => (digit? c).isSome || c == '_'
  guard (body.head?.any (· != '_'))
  let n ← ofOption (digits? base body)
  let suffix ← IntegerType.all.findM? fun type => keyword? type.name
  return (if negative then -n else n, suffix)

def integerOf (type : IntegerType) : Reader Int := do
  let (n, suffix) ← integer
  guard (suffix.all (· == type))
  guard (type.contains n)
  return n

end Reader

/-! ## Floating numbers -/

/-- What a floating number says, its sign apart. -/
inductive Magnitude where
  | infinite
  | undefined
  /-- The number `coefficient * 10 ^ exponent`. -/
  | decimal (coefficient : Nat) (exponent : Int)
  deriving DecidableEq, Repr

def Magnitude.value {ν : Type} [Numeral ν] : Magnitude → ν
  | .infinite => Numeral.infinity
  | .undefined => Numeral.undefined
  | .decimal coefficient exponent =>
    OfScientific.ofScientific coefficient (exponent < 0) exponent.natAbs

/-- Decimal exponents are cut off where every double precision float is long infinite or zero. -/
def cutExponent (digits : Nat) (exponent : Int) : Int :=
  max (-(digits + 400 : Int)) (min 400 exponent)

/-- There has to be a digit before or after the point. -/
def decimal? (cs : List Char) : Option Magnitude := do
  let whole := cs.takeWhile Char.isDigit
  let (fraction, rest) :=
    match cs.dropWhile Char.isDigit with
    | '.' :: rest => (rest.takeWhile Char.isDigit, rest.dropWhile Char.isDigit)
    | rest => ([], rest)
  let digits := whole ++ fraction
  guard !digits.isEmpty
  let exponent : Int ←
    match rest with
    | [] => some 0
    | c :: rest => do
      guard (c == 'e' || c == 'E')
      let (negative, power) :=
        match rest with
        | '-' :: power => (true, power)
        | '+' :: power => (false, power)
        | power => (false, power)
      guard (!power.isEmpty && power.all Char.isDigit)
      let n ← digits? 10 power
      some (if negative then -(n : Int) else n)
  let coefficient ← digits? 10 digits
  return .decimal coefficient (cutExponent digits.length (exponent - fraction.length))

/-- The longest beginning that may be a floating number, up to two points in a row, and what
follows it. -/
def splitFloat : List Char → List Char × List Char
  | '.' :: '.' :: rest => ([], '.' :: '.' :: rest)
  | c :: rest =>
    if c.isDigit || c ∈ ['e', 'E', '.', '+', '-', '_'] then
      let (token, rest) := splitFloat rest
      (c :: token, rest)
    else ([], c :: rest)
  | [] => ([], [])

/-- The characters that are no underscores. An underscore may stand after a digit or an exponent
mark, with signs in between, but not after a point. -/
def dropUnderscores? : Bool → List Char → Option (List Char)
  | _, [] => some []
  | allowed, c :: rest =>
    if c = '_' then if allowed then dropUnderscores? true rest else none
    else
      let allowed := c != '.' && (allowed || c != '+' && c != '-')
      (dropUnderscores? allowed rest).map (c :: ·)

namespace Reader

def floatSuffix : Reader (Option String) := ["f32", "f64"].findM? fun name => keyword? name

def floatWord : Reader (Magnitude × Option String) :=
  [("inf", Magnitude.infinite), ("NaN", .undefined)].firstM fun (word, magnitude) =>
    [none, some "f32", some "f64"].firstM fun suffix => do
      keyword (word ++ suffix.getD "")
      return (magnitude, suffix)

def decimal : Reader (Magnitude × Option String) := do
  let (token, rest) := splitFloat (← get)
  let magnitude ← ofOption ((dropUnderscores? false token).bind decimal?)
  set rest
  return (magnitude, ← floatSuffix)

def float : Reader (Bool × Magnitude × Option String) := do
  let negative ← sign
  return (negative, ← floatWord <|> decimal)

def double {ν : Type} [Numeral ν] : Reader ν := do
  let (negative, magnitude, suffix) ← float
  guard (suffix != some "f32")
  return if negative then -magnitude.value else magnitude.value

end Reader

end Fireworks.Ron
