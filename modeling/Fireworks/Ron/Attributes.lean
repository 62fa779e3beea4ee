import Fireworks.Ron.Quoted

/-! # Documents of the object notation

A document is a list of attributes and one value. An attribute asks for changes to the notation,
or names a type or a schema, which does not matter here.
-/
namespace Fireworks.Ron.Reader

def extension (dialect : Dialect) : String → Option Dialect
  | "implicit_some" => some { dialect with implicitSome := true }
  | "unwrap_variant_newtypes" => some { dialect with unwrapVariants := true }
  | "explicit_struct_names" => some { dialect with explicitNames := true }
  | "unwrap_newtypes" => some dialect
  | _ => none

def extensions : Nat → Dialect → Reader Dialect
  | 0, _ => failure
  | rounds + 1, dialect => do
    let dialect ← ofOption (extension dialect (← identifier))
    let more ← comma
    if more && (← peek?).any Text.isIdentifierStart then extensions rounds dialect
    else return dialect

def attributeChanges (dialect : Dialect) : Reader Dialect := do
  ["#", "!", "["].forM token
  if ← take? "enable" then
    blanks
    token "("
    let dialect ← extensions ((← get).length + 1) dialect
    blanks
    [")", "]"].forM token
    return dialect
  else
    guard (← ["type", "schema"].anyM take?)
    blanks
    token "="
    let _ ← text
    blanks
    token "]"
    return dialect

def attributes : Nat → Dialect → Reader Dialect
  | 0, _ => failure
  | rounds + 1, dialect => do
    if ← stands "#" then attributes rounds (← attributeChanges dialect) else return dialect

/-- Nothing may follow the value of a document. -/
def document {α : Type} (value : Reader α) : Reader α := do
  blanks
  let dialect ← attributes ((← get).length + 1) {}
  let result ← withReader ({ · with dialect }) value
  blanks
  guard (← get).isEmpty
  return result

end Fireworks.Ron.Reader
