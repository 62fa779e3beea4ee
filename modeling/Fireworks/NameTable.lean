/-! # Tables by name, in order of insertion

An entry that is inserted again keeps its place and changes its value.
-/
namespace Fireworks

structure NameTable (α : Type) where
  entries : List (String × α) := []
  deriving Repr

namespace NameTable

variable {α : Type}

instance : Inhabited (NameTable α) := ⟨{}⟩

def find? (table : NameTable α) (name : String) : Option α := table.entries.lookup name

def contains (table : NameTable α) (name : String) : Bool := (table.find? name).isSome

/-- Replaces the value of the first entry of that name, or adds an entry at the end. -/
def insertEntry (name : String) (value : α) : List (String × α) → List (String × α)
  | [] => [(name, value)]
  | (key, old) :: rest =>
    if key == name then (key, value) :: rest else (key, old) :: insertEntry name value rest

def insert (table : NameTable α) (name : String) (value : α) : NameTable α :=
  ⟨insertEntry name value table.entries⟩

def names (table : NameTable α) : List String := table.entries.map Prod.fst

def values (table : NameTable α) : List α := table.entries.map Prod.snd

def size (table : NameTable α) : Nat := table.entries.length

def isEmpty (table : NameTable α) : Bool := table.entries.isEmpty

def ofList (entries : List (String × α)) : NameTable α :=
  entries.foldl (fun table entry => table.insert entry.1 entry.2) {}

@[simp] theorem insertEntry_nil (name : String) (value : α) :
    insertEntry name value [] = [(name, value)] := rfl

theorem lookup_entry (name key : String) (value : α) (rest : List (String × α)) :
    List.lookup key ((name, value) :: rest) =
      if key = name then some value else rest.lookup key := by
  rw [List.lookup_cons]
  by_cases h : key = name
  · rw [if_pos h, beq_iff_eq.mpr h]
  · rw [if_neg h, beq_eq_false_iff_ne.mpr h]

theorem lookup_insertEntry (name key : String) (value : α) (entries : List (String × α)) :
    (insertEntry name value entries).lookup key =
      if key = name then some value else entries.lookup key := by
  induction entries with
  | nil => rw [insertEntry_nil, lookup_entry]
  | cons entry rest ih =>
    obtain ⟨first, old⟩ := entry
    rw [insertEntry]
    by_cases h : first = name
    · rw [if_pos (beq_iff_eq.mpr h), lookup_entry, lookup_entry, h]
      by_cases hk : key = name
      · rw [if_pos hk, if_pos hk]
      · rw [if_neg hk, if_neg hk, if_neg hk]
    · rw [if_neg (mt beq_iff_eq.mp h), lookup_entry, lookup_entry, ih]
      by_cases hk : key = first
      · rw [if_pos hk, if_pos hk, if_neg (hk ▸ h)]
      · rw [if_neg hk, if_neg hk]

/-- A look-up sees the last value inserted under its name. -/
@[simp] theorem find?_insert (table : NameTable α) (name key : String) (value : α) :
    (table.insert name value).find? key = if key = name then some value else table.find? key :=
  lookup_insertEntry name key value table.entries

end NameTable

end Fireworks
