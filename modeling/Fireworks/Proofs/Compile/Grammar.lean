import Mathlib.Data.List.Forall2
import Fireworks.Compile

/-! # The kinds of a term

A term is a head applied in turn to lists of arguments. Which kinds it has depends on what the head
means and on those lists: the rules below say so in one step, from the kinds of terms that are
smaller, and a term has the kinds that it gets by the rules alone.
-/
namespace Fireworks
variable {ν : Type}

namespace Term

def applied (head : Term ν) (lists : List (List (Term ν))) : Term ν :=
  lists.foldl (fun t args => .list (t :: args)) head

@[simp] theorem applied_nil (head : Term ν) : head.applied [] = head := rfl

@[simp] theorem applied_cons (head : Term ν) (args : List (Term ν)) (rest : List (List (Term ν))) :
    head.applied (args :: rest) = (list (head :: args)).applied rest := rfl

theorem applied_concat (head : Term ν) (lists : List (List (Term ν))) (args : List (Term ν)) :
    head.applied (lists ++ [args]) = .list (head.applied lists :: args) := by
  simp [applied]

theorem size_applied (head : Term ν) (lists : List (List (Term ν))) :
    (head.applied lists).size = head.size + Phrase.appliedWeight lists := by
  induction lists generalizing head with
  | nil => rfl
  | cons args rest ih =>
    rw [applied_cons,ih,Phrase.appliedWeight_cons,size,sizeAll]
    omega

theorem size_le_sizeAll {t : Term ν} {ts : List (Term ν)} (h : t ∈ ts) : t.size ≤ sizeAll ts := by
  induction ts with
  | nil => cases h
  | cons first rest ih =>
    rw [sizeAll]
    rcases List.mem_cons.mp h with rfl | h
    · exact Nat.le_add_right _ _
    · exact Nat.le_trans (ih h) (Nat.le_add_left _ _)

end Term

/-- What a constructor asks for in each place. -/
def Constructor.kinds : Constructor → List Kind
  | .property .. => [.number]
  | .translate | .rotate => [.number,.number,.number]
  | .emit => [.number,.number,.number,.behavior]
  | .loop => [.behavior]
  | .repeated | .flair | .fireworks => [.number,.behavior]
  | .character => [.string,.behavior]
  | .text => [.string,.number,.number,.number,.behavior]

namespace Head

def term : Head ν → Term ν
  | .nil => .list []
  | .number value => .number value
  | .text name | .named name _ => .symbol name

/-- Whether a head means what the registry says. -/
def Known (registry : Registry) : Head ν → Prop
  | .nil | .number _ => True
  | .text name => registry.find? name = none
  | .named name meaning => registry.find? name = some meaning

theorem size_term (head : Head ν) : head.term.size = 1 := by
  cases head <;> rfl

end Head

/-- A list of arguments that stands for one term: its only element, or the list as a whole. -/
inductive IsBody (P : Term ν → Prop) : List (Term ν) → Prop
  | single {body} : P body → IsBody P [body]
  | whole {args} : args.length ≠ 1 → P (.list args) → IsBody P args

/-- A list of statements. -/
inductive IsLane (P : Term ν → Prop) : Term ν → Prop
  | list {statements} : (∀ statement ∈ statements, P statement) → IsLane P (.list statements)

/-- The kinds of a head applied to lists, where `P` says which kinds smaller terms have. -/
inductive Rule (P : Kind → Term ν → Prop) : Kind → Head ν → List (List (Term ν)) → Prop
  | number (value) : Rule P .number (.number value) []
  | string (value) : Rule P .string (.text value) []
  | easing (name easing) : Rule P .easing (.named name (.easing easing)) []
  | action (name action) : Rule P .behavior (.named name (.action action)) []
  | angle (name selection) : Rule P .number (.named name (.angle selection)) []
  | range (name selection) {low high} : P .number low → P .number high →
      Rule P .number (.named name (.range selection)) [[low,high]]
  | lasting (value) {args} : IsBody (P .behavior) args → Rule P .behavior (.number value) [args]
  | lastingRange (name selection) {low high args} : P .number low → P .number high →
      IsBody (P .behavior) args →
      Rule P .behavior (.named name (.range selection)) [[low,high],args]
  | eased (name easing) {args} : IsBody (P .behavior) args →
      Rule P .behavior (.named name (.easing easing)) [args]
  | constructor (name constructor) {args} : List.Forall₂ P constructor.kinds args →
      Rule P .behavior (.named name (.constructor constructor)) [args]
  | block (name) {lanes} : (∀ lane ∈ lanes, IsLane (P .behavior) lane) →
      Rule P .behavior (.named name .block) [lanes]
  | choice {kind} (name selection) {options rest} : options ≠ [] →
      (∀ option ∈ options, P kind (option.applied rest)) →
      Rule P kind (.named name (.choice selection)) (options :: rest)

inductive HasKind (registry : Registry) : Kind → Term ν → Prop
  | intro {kind head lists} : Head.Known registry head → Rule (HasKind registry) kind head lists →
      HasKind registry kind (head.term.applied lists)

section Smaller
variable {P Q : Kind → Term ν → Prop}

theorem IsBody.imp {kind : Kind} {args : List (Term ν)} (h : IsBody (P kind) args)
    (hPQ : ∀ t : Term ν, t.size ≤ 1 + Term.sizeAll args → P kind t → Q kind t) :
    IsBody (Q kind) args := by
  cases h with
  | single h => exact .single (hPQ _ (by rw [Term.sizeAll]; omega) h)
  | whole hne h => exact .whole hne (hPQ _ (Nat.le_of_eq (by rw [Term.size])) h)

theorem IsLane.imp {kind : Kind} {lane : Term ν} (h : IsLane (P kind) lane)
    (hPQ : ∀ t : Term ν, t.size ≤ lane.size → P kind t → Q kind t) : IsLane (Q kind) lane := by
  cases h with
  | list h =>
    refine .list fun statement hs => hPQ _ ?_ (h statement hs)
    have hle := Term.size_le_sizeAll hs
    rw [Term.size]
    omega

theorem forall₂_imp_of_size {kinds : List Kind} {args : List (Term ν)}
    (h : List.Forall₂ P kinds args)
    (hPQ : ∀ kind (t : Term ν), t.size ≤ Term.sizeAll args → P kind t → Q kind t) :
    List.Forall₂ Q kinds args := by
  induction h with
  | nil => exact .nil
  | cons hfirst _ ih =>
    simp only [Term.sizeAll] at hPQ
    exact .cons (hPQ _ _ (Nat.le_add_right _ _) hfirst)
      (ih fun kind t ht => hPQ kind t (Nat.le_trans ht (Nat.le_add_left _ _)))

/-- A rule asks for the kinds of smaller terms only. -/
theorem Rule.imp {kind : Kind} {head : Head ν} {lists : List (List (Term ν))}
    (h : Rule P kind head lists)
    (hPQ : ∀ kind' (t : Term ν), t.size < (head.term.applied lists).size → P kind' t → Q kind' t) :
    Rule Q kind head lists := by
  rw [Term.size_applied,Head.size_term] at hPQ
  cases h with
  | number value => exact .number value
  | string value => exact .string value
  | easing name easing => exact .easing name easing
  | action name action => exact .action name action
  | angle name selection => exact .angle name selection
  | range name selection hlow hhigh =>
    simp only [Phrase.appliedWeight_cons,Phrase.appliedWeight_nil,Term.sizeAll] at hPQ
    exact .range name selection (hPQ _ _ (by omega) hlow) (hPQ _ _ (by omega) hhigh)
  | lasting value hbody =>
    simp only [Phrase.appliedWeight_cons,Phrase.appliedWeight_nil] at hPQ
    exact .lasting value (hbody.imp fun t ht => hPQ _ t (by omega))
  | lastingRange name selection hlow hhigh hbody =>
    simp only [Phrase.appliedWeight_cons,Phrase.appliedWeight_nil,Term.sizeAll] at hPQ
    exact .lastingRange name selection (hPQ _ _ (by omega) hlow) (hPQ _ _ (by omega) hhigh)
      (hbody.imp fun t ht => hPQ _ t (by omega))
  | eased name easing hbody =>
    simp only [Phrase.appliedWeight_cons,Phrase.appliedWeight_nil] at hPQ
    exact .eased name easing (hbody.imp fun t ht => hPQ _ t (by omega))
  | constructor name c hargs =>
    simp only [Phrase.appliedWeight_cons,Phrase.appliedWeight_nil] at hPQ
    exact .constructor name c (forall₂_imp_of_size hargs fun kind t ht => hPQ kind t (by omega))
  | block name hlanes =>
    simp only [Phrase.appliedWeight_cons,Phrase.appliedWeight_nil] at hPQ
    refine .block name fun lane hlane => (hlanes lane hlane).imp fun t ht => hPQ _ t ?_
    have hle := Term.size_le_sizeAll hlane
    omega
  | choice name selection hne hoptions =>
    rw [Phrase.appliedWeight_cons] at hPQ
    refine .choice name selection hne fun option ho => hPQ _ _ ?_ (hoptions option ho)
    have hle := Term.size_le_sizeAll ho
    rw [Term.size_applied]
    omega

end Smaller
end Fireworks
