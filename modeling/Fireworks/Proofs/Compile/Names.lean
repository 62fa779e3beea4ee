import Fireworks.Proofs.Compile.Recursion
import Fireworks.Proofs.NameTable

/-! # The names that a program depends on

The compiler looks up the names that occur in a term and no others, wherever lists of arguments have
been taken to, except that it sets a block around a program that is not a single statement. So two
registries that say the same of these names compile it alike, to the same generator or the same
refusal, and names that are registered later change nothing.
-/
namespace Fireworks
variable {ν : Type}

namespace Term

mutual

/-- The names that occur in a term. -/
def symbols : Term ν → List String
  | .number _ => []
  | .symbol name => [name]
  | .list elements => symbolsAll elements

def symbolsAll : List (Term ν) → List String
  | [] => []
  | t :: ts => t.symbols ++ symbolsAll ts

end

theorem symbols_subset_symbolsAll {t : Term ν} {ts : List (Term ν)} (h : t ∈ ts) :
    t.symbols ⊆ symbolsAll ts := by
  induction ts with
  | nil => cases h
  | cons first rest ih =>
    rw [symbolsAll]
    rcases List.mem_cons.mp h with rfl | h
    · exact List.subset_append_left _ _
    · exact List.Subset.trans (ih h) (List.subset_append_right _ _)

theorem symbolsAll_subset_flatMap {args : List (Term ν)} {lists : List (List (Term ν))}
    (h : args ∈ lists) : symbolsAll args ⊆ lists.flatMap symbolsAll :=
  fun _ hname => List.mem_flatMap.mpr ⟨args,h,hname⟩

theorem symbols_body (args : List (Term ν)) : (Term.body args).symbols = symbolsAll args := by
  unfold Term.body
  split
  · rw [symbolsAll,symbolsAll,List.append_nil]
  · rw [symbols]

theorem symbols_applied (head : Term ν) (lists : List (List (Term ν))) :
    (head.applied lists).symbols = head.symbols ++ lists.flatMap symbolsAll := by
  induction lists generalizing head with
  | nil => simp
  | cons args rest ih => simp [ih,symbols,symbolsAll]

end Term

def programSymbols (statements : List (Term ν)) : List String :=
  if statements.length = 1 then Term.symbolsAll statements
  else Term.blockName :: Term.symbolsAll statements

def Request.symbols : Request ν → List String
  | .read t | .compile _ t => t.symbols
  | .coerce _ phrase => phrase.applied.flatMap Term.symbolsAll
  | .program statements => programSymbols statements

theorem Phrase.symbols_subset_of_resolve {registry : Registry} {t : Term ν} {phrase : Phrase ν}
    (h : resolve registry t = .ok phrase) : phrase.applied.flatMap Term.symbolsAll ⊆ t.symbols := by
  obtain ⟨-,ht⟩ := eq_applied_of_resolve h
  rw [ht,Term.symbols_applied]
  exact List.subset_append_right _ _

/-- No call is about a name that does not occur in what it is made for. -/
theorem Request.Leads.symbols_subset {registry : Registry} {request call : Request ν}
    (h : request.Leads registry call) : call.symbols ⊆ request.symbols := by
  cases h with
  | head first args => exact List.subset_append_left _ _
  | phrase kind t => exact List.Subset.refl _
  | coerce kind hphrase => exact Phrase.symbols_subset_of_resolve hphrase
  | option kind head rest hoption =>
    exact List.Subset.trans (Term.symbols_subset_symbolsAll hoption) (List.subset_append_left _ _)
  | applied kind head hoption hphrase =>
    rw [← Phrase.resolve_applied] at hphrase
    have hsub := Phrase.symbols_subset_of_resolve hphrase
    rw [Term.symbols_applied] at hsub
    refine List.Subset.trans hsub (List.append_subset.mpr ⟨?_,List.subset_append_right _ _⟩)
    exact List.Subset.trans (Term.symbols_subset_symbolsAll hoption) (List.subset_append_left _ _)
  | argument kind kind' head hargs harg =>
    exact List.Subset.trans (Term.symbols_subset_symbolsAll harg)
      (Term.symbolsAll_subset_flatMap hargs)
  | statement kind head hlanes hlane hstatement =>
    have hlane' := Term.symbols_subset_symbolsAll hlane
    rw [Term.symbols] at hlane'
    exact List.Subset.trans (Term.symbols_subset_symbolsAll hstatement)
      (List.Subset.trans hlane' (Term.symbolsAll_subset_flatMap hlanes))
  | body kind head bounds args =>
    rw [symbols,Term.symbols_body]
    exact Term.symbolsAll_subset_flatMap (List.mem_append_right _ List.mem_cons_self)
  | span kind kind' head bounds args =>
    simp only [symbols,List.flatMap_append]
    exact List.subset_append_left _ _
  | single statement => exact List.subset_append_left _ _
  | @block statements hne =>
    rw [symbols,symbols,programSymbols,if_neg hne]
    simp [Term.block,Term.apply,Term.symbols,Term.symbolsAll]

namespace Registry
variable {registry registry' : Registry}

/-- Registries that say the same of these names. -/
def Agree (registry registry' : Registry) (names : List String) : Prop :=
  ∀ name ∈ names, registry.find? name = registry'.find? name

instance (names : List String) : Decidable (registry.Agree registry' names) :=
  inferInstanceAs (Decidable (∀ name ∈ names, registry.find? name = registry'.find? name))

theorem Agree.mono {names names' : List String} (h : registry.Agree registry' names)
    (hsub : names' ⊆ names) : registry.Agree registry' names' :=
  fun name hname => h name (hsub hname)

theorem body_congr {request : Request ν} (h : registry.Agree registry' request.symbols) :
    registry.body request = registry'.body request := by
  match request with
  | .read (.number _) | .read (.list []) | .read (.list (_ :: _)) => rfl
  | .read (.symbol name) =>
    rw [body,body,h name (List.mem_singleton.mpr rfl)]
  | .coerce _ _ | .compile _ _ => rfl
  | .program [_] | .program [] | .program (_ :: _ :: _) => rfl

/-- The compiler looks up the names that a request is about. -/
theorem answer_congr (request : Request ν) (h : registry.Agree registry' request.symbols) :
    registry'.answer request = registry.answer request := by
  induction request using request_induction registry with
  | h request ih =>
    rw [answer_eq_run,answer_eq_run,← body_congr h]
    refine Inquiry.run_congr fun call hcall => ih call hcall (h.mono ?_)
    exact (leads_of_mem_calls hcall).symbols_subset

theorem Agree.programSymbols {statements : List (Term ν)}
    (h : registry.Agree registry' (Term.symbolsAll statements))
    (hblock : statements.length = 1 ∨
      registry.find? Term.blockName = registry'.find? Term.blockName) :
    registry.Agree registry' (programSymbols statements) := by
  rw [Fireworks.programSymbols]
  split
  · exact h
  · next hne => exact List.forall_mem_cons.mpr ⟨hblock.resolve_left hne,h⟩

def register (registry : Registry) (entries : List (String × Builtin)) : Registry :=
  entries.foldl (fun table entry => table.insert entry.1 entry.2) registry

theorem find?_register {entries : List (String × Builtin)} {name : String}
    (h : name ∉ entries.map Prod.fst) :
    (registry.register entries).find? name = registry.find? name := by
  induction entries generalizing registry with
  | nil => rfl
  | cons entry rest ih =>
    rw [List.map_cons,List.mem_cons,not_or] at h
    obtain ⟨hne,hrest⟩ := h
    rw [register,List.foldl_cons,← register,ih hrest,NameTable.find?_insert,if_neg hne]

theorem agree_register {entries : List (String × Builtin)} {names : List String}
    (h : ∀ name ∈ names, name ∉ entries.map Prod.fst) :
    registry.Agree (registry.register entries) names :=
  fun name hname => (find?_register (h name hname)).symm

/-- Two registries compile a term alike if they say the same of the names in it, and a program if
they say the same of its names and, unless it is a single statement, of the block. So names that do
not occur may be registered, anew or once more, without a change. -/
theorem compiles_by_names (registry registry' : Registry) (entries : List (String × Builtin)) :
    (∀ (kind : Kind) (t : Term ν), registry.Agree registry' t.symbols →
      registry'.compile kind t = registry.compile kind t) ∧
    (∀ statements : List (Term ν), registry.Agree registry' (Term.symbolsAll statements) →
      (statements.length = 1 ∨
        registry.find? Term.blockName = registry'.find? Term.blockName) →
      registry'.compileProgram statements = registry.compileProgram statements) ∧
    (∀ (kind : Kind) (t : Term ν), (∀ name ∈ t.symbols, name ∉ entries.map Prod.fst) →
      (registry.register entries).compile kind t = registry.compile kind t) ∧
    ∀ statements : List (Term ν),
      (∀ name ∈ Term.symbolsAll statements, name ∉ entries.map Prod.fst) →
      (statements.length = 1 ∨ Term.blockName ∉ entries.map Prod.fst) →
      (registry.register entries).compileProgram statements = registry.compileProgram statements := by
  refine ⟨fun kind t h => ?_,fun statements h hblock => ?_,fun kind t h => ?_,
    fun statements h hblock => ?_⟩
  · exact answer_congr (.compile kind t) h
  · exact answer_congr (.program statements) (h.programSymbols hblock)
  · exact answer_congr (.compile kind t) (agree_register h)
  · have hblock' : statements.length = 1 ∨ registry.find? Term.blockName =
        (registry.register entries).find? Term.blockName :=
      hblock.imp_right fun hname => (find?_register hname).symm
    exact answer_congr (.program statements) ((agree_register h).programSymbols hblock')

end Registry

namespace Plain

/-- A registry of a few names. -/
def fewNames : Registry := .ofList
  [("random-choice",.choice .random),("each-range",.range .each),("explode",.action .explode),
    (Term.blockName,.block)]

/-- A name that is new to the language, and one that gets another meaning. -/
def further : List (String × Builtin) := [("sparkle",.action .close),("nop",.action .explode)]

/-- Several statements. -/
def twice : List (Term Extended) := [blinking,blinking]

theorem blinking_compiles_by_names :
    (Registry.builtin.Agree fewNames blinking.symbols ∧
      fewNames.compile .behavior blinking = Registry.builtin.compile .behavior blinking) ∧
    (Registry.builtin.Agree fewNames (Term.symbolsAll twice) ∧
      Registry.builtin.find? Term.blockName = fewNames.find? Term.blockName ∧
      fewNames.compileProgram twice = Registry.builtin.compileProgram twice) ∧
    ((∀ name ∈ blinking.symbols, name ∉ further.map Prod.fst) ∧
      (Registry.builtin.register further).compile .behavior blinking =
        Registry.builtin.compile .behavior blinking) ∧
    (∀ name ∈ Term.symbolsAll twice, name ∉ further.map Prod.fst) ∧
      Term.blockName ∉ further.map Prod.fst ∧
      (Registry.builtin.register further).compileProgram twice =
        Registry.builtin.compileProgram twice := by
  have hagree : Registry.builtin.Agree fewNames blinking.symbols := by decide +kernel
  have htwice : Registry.builtin.Agree fewNames (Term.symbolsAll twice) := by decide +kernel
  have hblock : Registry.builtin.find? Term.blockName = fewNames.find? Term.blockName := by
    decide +kernel
  have hnew : ∀ name ∈ blinking.symbols, name ∉ further.map Prod.fst := by decide +kernel
  have hnew' : ∀ name ∈ Term.symbolsAll twice, name ∉ further.map Prod.fst := by decide +kernel
  have hblock' : Term.blockName ∉ further.map Prod.fst := by decide +kernel
  obtain ⟨hterm,hprogram,hterm',hprogram'⟩ :=
    @Registry.compiles_by_names Extended Registry.builtin fewNames further
  exact ⟨⟨hagree,hterm .behavior blinking hagree⟩,
    ⟨htwice,hblock,hprogram twice htwice (.inr hblock)⟩,
    ⟨hnew,hterm' .behavior blinking hnew⟩,
    hnew',hblock',hprogram' twice hnew' (.inr hblock')⟩

end Plain
end Fireworks
