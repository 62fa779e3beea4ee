import Fireworks.CompileError
import Fireworks.Registry

/-! # Phrases

Any term is a head that was applied to lists of arguments, one after the other: `((h a b) c)` is
`h` applied to `a b` and then to `c`. Reading a term as a phrase only collects those lists; what
they mean depends on where the phrase stands.
-/
namespace Fireworks

inductive Head (ν : Type) where
  /-- The empty list. -/
  | nil
  | number (value : ν)
  /-- A name that is not registered stands for itself. -/
  | text (value : String)
  | named (name : String) (meaning : Builtin)
  deriving Repr

structure Phrase (ν : Type) where
  head : Head ν
  applied : List (List (Term ν)) := []
  deriving Repr

variable {ν : Type}

namespace Head

def name : Head ν → String
  | .nil => "nil"
  | .number _ => "number"
  | .text _ => "string"
  | .named _ (.easing easing) => easing.name
  | .named name _ => name

/-- Whether a head accepts one more list of arguments after `count` of them. A choice always does,
as it hands them on to its options. -/
def accepts : Head ν → Nat → Bool
  | .nil, _ => false
  | .number _, count | .text _, count => count == 0
  | .named _ meaning, count =>
    match meaning with
    | .action _ | .angle _ => false
    | .easing _ | .constructor _ | .block => count == 0
    | .range _ => count < 2
    | .choice _ => true

end Head

namespace Phrase

/-- The name of a phrase in messages. A number, text or range with a body is a lifespan, and an
easing with a body is an easing, whatever its curve. -/
def name : Phrase ν → String
  | ⟨.number _, _ :: _⟩ | ⟨.text _, _ :: _⟩ | ⟨.named _ (.range _), _ :: _ :: _⟩ => "lifespan"
  | ⟨.named _ (.easing _), _ :: _⟩ => "easing"
  | ⟨.named _ .block, _ :: _⟩ => Term.blockName
  | ⟨head, _⟩ => head.name

def apply (phrase : Phrase ν) (args : List (Term ν)) : Except CompileError (Phrase ν) :=
  if phrase.head.accepts phrase.applied.length then
    .ok { phrase with applied := phrase.applied ++ [args] }
  else .error (.noArguments phrase.name)

def applyAll (phrase : Phrase ν) : List (List (Term ν)) → Except CompileError (Phrase ν)
  | [] => .ok phrase
  | args :: rest => (phrase.apply args).bind fun applied => applied.applyAll rest

def resolve (registry : Registry) : Term ν → Except CompileError (Phrase ν)
  | .number value => .ok { head := .number value }
  | .symbol name =>
    match registry.find? name with
    | some builtin => .ok { head := .named name builtin }
    | none => .ok { head := .text name }
  | .list [] => .ok { head := .nil }
  | .list (head :: args) => (resolve registry head).bind fun phrase => phrase.apply args

/-- The number of nodes that lists of arguments bring along. -/
def appliedWeight : List (List (Term ν)) → Nat
  | [] => 0
  | args :: rest => 1 + Term.sizeAll args + appliedWeight rest

def weight (phrase : Phrase ν) : Nat := 1 + appliedWeight phrase.applied

@[simp] theorem appliedWeight_nil : appliedWeight ([] : List (List (Term ν))) = 0 := rfl

@[simp] theorem appliedWeight_cons (args : List (Term ν)) (rest : List (List (Term ν))) :
    appliedWeight (args :: rest) = 1 + Term.sizeAll args + appliedWeight rest := rfl

@[simp] theorem appliedWeight_append (xs ys : List (List (Term ν))) :
    appliedWeight (xs ++ ys) = appliedWeight xs + appliedWeight ys := by
  induction xs with
  | nil => simp
  | cons args rest ih => simp [ih, Nat.add_assoc]

theorem weight_apply {phrase result : Phrase ν} {args : List (Term ν)}
    (h : phrase.apply args = .ok result) :
    result.weight = phrase.weight + (1 + Term.sizeAll args) := by
  unfold apply at h
  split at h
  · cases h
    simp [weight]
    omega
  · cases h

theorem weight_applyAll {phrase result : Phrase ν} {applied : List (List (Term ν))}
    (h : phrase.applyAll applied = .ok result) :
    result.weight = phrase.weight + appliedWeight applied := by
  induction applied generalizing phrase with
  | nil => cases h; rfl
  | cons args rest ih =>
    unfold applyAll at h
    cases hp : phrase.apply args with
    | error e => simp [hp, Except.bind] at h
    | ok next =>
      simp only [hp, Except.bind] at h
      rw [ih h, weight_apply hp, appliedWeight_cons]
      omega

/-- A term and the phrase it reads as have the same number of nodes. -/
theorem weight_resolve {registry : Registry} {t : Term ν} {phrase : Phrase ν}
    (h : resolve registry t = .ok phrase) : phrase.weight = t.size := by
  fun_induction resolve registry t generalizing phrase with
  | case1 | case4 => cases h; rfl
  | case2 | case3 => cases h; rfl
  | case5 head args ih =>
    cases hr : resolve registry head with
    | error e => simp [hr, Except.bind] at h
    | ok next =>
      simp only [hr, Except.bind] at h
      rw [weight_apply h, ih hr, Term.size, Term.sizeAll]
      omega

def resolveApplied (registry : Registry) (t : Term ν) (applied : List (List (Term ν))) :
    Except CompileError (Phrase ν) :=
  (resolve registry t).bind fun phrase => phrase.applyAll applied

theorem weight_resolveApplied {registry : Registry} {t : Term ν}
    {applied : List (List (Term ν))} {phrase : Phrase ν}
    (h : resolveApplied registry t applied = .ok phrase) :
    phrase.weight = t.size + appliedWeight applied := by
  unfold resolveApplied at h
  cases hr : resolve registry t with
  | error e => simp [hr, Except.bind] at h
  | ok next =>
    simp only [hr, Except.bind] at h
    rw [weight_applyAll h, weight_resolve hr]

end Phrase

end Fireworks
