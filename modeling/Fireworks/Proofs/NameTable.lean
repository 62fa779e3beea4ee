import Mathlib.Data.List.Basic
import Fireworks.NameTable

/-! # The order of a table

A table keeps its entries in the order in which their names came up. A new name goes to the end.
-/
namespace Fireworks.NameTable
variable {α : Type} {table : NameTable α} {name : String}

theorem mem_names_iff : name ∈ table.names ↔ ∃ value, table.find? name = some value := by
  rw [← Option.isSome_iff_exists,find?,List.lookup_isSome_iff,names,List.mem_map]
  exact exists_congr fun entry => and_congr_right fun _ => by rw [beq_iff_eq,eq_comm]

theorem contains_iff : table.contains name = true ↔ name ∈ table.names := by
  rw [mem_names_iff,contains,Option.isSome_iff_exists]

theorem find?_append (entries entries' : List (String × α)) (name : String) :
    (⟨entries ++ entries'⟩ : NameTable α).find? name =
      ((⟨entries⟩ : NameTable α).find? name).or ((⟨entries'⟩ : NameTable α).find? name) :=
  List.lookup_append

theorem insertEntry_of_notMem {entries : List (String × α)} (h : name ∉ entries.map Prod.fst) (value : α) :
    insertEntry name value entries = entries ++ [(name,value)] := by
  induction entries with
  | nil => rfl
  | cons entry rest ih =>
    obtain ⟨key,old⟩ := entry
    rw [List.map_cons,List.mem_cons,not_or] at h
    obtain ⟨hkey,hrest⟩ := h
    have hne : ¬ (key == name) = true := fun heq => hkey (beq_iff_eq.mp heq).symm
    rw [insertEntry,if_neg hne,ih hrest,List.cons_append]

theorem insert_of_notMem (h : name ∉ table.names) (value : α) :
    table.insert name value = ⟨table.entries ++ [(name,value)]⟩ :=
  congrArg mk (insertEntry_of_notMem h value)

end Fireworks.NameTable
