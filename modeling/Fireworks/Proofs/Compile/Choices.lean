import Fireworks.Arithmetic.Extended
import Fireworks.Proofs.Compile.Acceptance

/-! # Choices

A choice has the kinds that all its options have. Every other head has one kind at most, and so has
every term, through choices however deep. Lists of arguments that a choice is applied to go to each
of its options: a choice applied is the choice among its options applied.
-/
namespace Fireworks
variable {ν : Type}

theorem Term.size_option_lt {options : List (Term ν)} {option : Term ν} (h : option ∈ options)
    (head : Head ν) (rest : List (List (Term ν))) :
    (option.applied rest).size < (head.term.applied (options :: rest)).size := by
  have hle := Term.size_le_sizeAll h
  rw [Term.size_applied,Term.size_applied,Head.size_term,Phrase.appliedWeight_cons]
  omega

/-- A head and its lists are under the rules of one kind only, if that holds of smaller terms. -/
theorem Rule.kind_eq {P : Kind → Term ν → Prop} {kind kind' : Kind} {head : Head ν}
    {lists : List (List (Term ν))} (h : Rule P kind head lists) (h' : Rule P kind' head lists)
    (hP : ∀ t : Term ν, t.size < (head.term.applied lists).size → P kind t → P kind' t →
      kind' = kind) : kind' = kind := by
  cases h with
  | choice name selection hne hoptions =>
    cases h' with
    | choice _ _ _ hoptions' =>
      obtain ⟨option,ho⟩ := List.exists_mem_of_ne_nil _ hne
      exact hP _ (Term.size_option_lt ho _ _) (hoptions option ho) (hoptions' option ho)
  | _ => cases h'; rfl

namespace Registry
variable {registry : Registry} {kind : Kind}

theorem rule_of_compiles {t : Term ν} {phrase : Phrase ν}
    (hr : Phrase.resolve registry t = .ok phrase) (h : registry.Compiles kind t) :
    Rule registry.Compiles kind phrase.head phrase.applied := by
  rw [Compiles,compile_eq_bind,hr] at h
  exact rule_of_coerce h

theorem Compiles.kind_eq {kind' : Kind} {t : Term ν} (h : registry.Compiles kind t)
    (h' : registry.Compiles kind' t) : kind' = kind := by
  induction hn : t.size using Nat.strongRecOn generalizing t with
  | ind n ih =>
    subst hn
    cases hr : Phrase.resolve registry t with
    | error e =>
      rw [Compiles,compile_eq_bind,hr] at h
      obtain ⟨gen,hgen⟩ := h
      cases hgen
    | ok phrase =>
      obtain ⟨-,ht⟩ := Phrase.eq_applied_of_resolve hr
      refine (rule_of_compiles hr h).kind_eq (rule_of_compiles hr h') fun t' hlt hk hk' => ?_
      exact ih t'.size (ht ▸ hlt) hk hk' rfl

/-- A term that compiles at a kind compiles at no other. -/
theorem exists_compile_iff_eq {t : Term ν} {gen : kind.Gen ν}
    (h : registry.compile kind t = .ok gen) (kind' : Kind) :
    (∃ gen', registry.compile kind' t = .ok gen') ↔ kind' = kind := by
  constructor
  · exact fun h' => Compiles.kind_eq ⟨gen,h⟩ h'
  · rintro rfl
    exact ⟨gen,h⟩

/-- Terms compile one after the other, each of them applied to the lists. -/
theorem compileAll_eq_mapM (kind : Kind) (terms : List (Term ν)) (lists : List (List (Term ν))) :
    registry.compileAll kind terms lists =
      terms.mapM fun t => registry.compile kind (t.applied lists) := by
  induction terms with
  | nil => rw [compileAll]; rfl
  | cons t ts ih =>
    rw [List.mapM_cons,← ih,compile_eq_bind,Phrase.resolve_applied,compileAll]
    cases Phrase.resolveApplied registry t lists <;> rfl

theorem compileAll_map_applied (kind : Kind) (terms : List (Term ν))
    (lists : List (List (Term ν))) :
    registry.compileAll kind (terms.map (Term.applied · lists)) [] =
      registry.compileAll kind terms lists := by
  rw [compileAll_eq_mapM,compileAll_eq_mapM,List.mapM_map]
  rfl

theorem resolve_choice {name : String} {selection : Selection}
    (h : registry.find? name = some (.choice selection)) (options : List (Term ν))
    (lists : List (List (Term ν))) :
    Phrase.resolve registry ((Term.apply name options).applied lists) =
      .ok ⟨.named name (.choice selection),options :: lists⟩ := by
  have hknown : (Head.named name (.choice selection) : Head ν).Known registry := h
  show Phrase.resolve registry ((Head.named name (.choice selection)).term.applied
    (options :: lists)) = _
  exact Phrase.resolve_term_applied hknown fun _ _ => rfl

theorem compile_choice {name : String} {selection : Selection}
    (h : registry.find? name = some (.choice selection)) (kind : Kind) (options : List (Term ν))
    (lists : List (List (Term ν))) :
    registry.compile kind ((Term.apply name options).applied lists) =
      if options.isEmpty then .error (.arity name (.atLeast 1) 0)
      else (registry.compileAll kind options lists).map (kind.choice selection) := by
  rw [compile_eq_bind,resolve_choice h,Except.bind,coerce]
  split
  · rfl
  · cases registry.compileAll kind options lists <;> rfl

/-- Lists of arguments that a choice is applied to may as well be applied to its options. -/
theorem compile_choice_applied {name : String} {selection : Selection}
    (h : registry.find? name = some (.choice selection)) (kind : Kind) (options : List (Term ν))
    (lists : List (List (Term ν))) :
    registry.compile kind ((Term.apply name options).applied lists) =
      registry.compile kind (Term.apply name (options.map (Term.applied · lists))) := by
  calc registry.compile kind ((Term.apply name options).applied lists)
    _ = if options.isEmpty then .error (.arity name (.atLeast 1) 0)
        else (registry.compileAll kind options lists).map (kind.choice selection) :=
      compile_choice h kind options lists
    _ = registry.compile kind ((Term.apply name (options.map (Term.applied · lists))).applied []) := by
      rw [compile_choice h,List.isEmpty_map,compileAll_map_applied]

end Registry

namespace Plain

def spans : List (Term Extended) := [.number 1,.apply "each-range" [.number 2,.number 3]]

/-- A choice of lifespans, applied to what lasts. -/
def blinking : Term Extended := (Term.apply "random-choice" spans).applied [[.symbol "explode"]]

theorem blinking_compile_iff :
    Registry.builtin.compile .behavior blinking = .ok (.choice .random
      [.lifespan (.const 1) (.action .explode),
        .lifespan (.range .each (.const 2) (.const 3)) (.action .explode)]) ∧
      ((∃ gen, Registry.builtin.compile .number blinking = .ok gen) ↔ Kind.number = .behavior) := by
  have h : Registry.builtin.compile .behavior blinking = .ok (.choice .random
      [.lifespan (.const 1) (.action .explode),
        .lifespan (.range .each (.const 2) (.const 3)) (.action .explode)]) := by
    with_unfolding_all rfl
  exact ⟨h,Registry.exists_compile_iff_eq h .number⟩

theorem compile_spans_applied :
    Registry.builtin.find? "random-choice" = some (.choice .random) ∧
      Registry.builtin.compile .behavior blinking =
        Registry.builtin.compile .behavior (Term.apply "random-choice"
          (spans.map (Term.applied · [[.symbol "explode"]]))) := by
  have h : Registry.builtin.find? "random-choice" = some (.choice .random) := by decide +kernel
  exact ⟨h,Registry.compile_choice_applied h .behavior spans [[.symbol "explode"]]⟩

end Plain
end Fireworks
