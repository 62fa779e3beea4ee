import Fireworks.Generator
import Fireworks.Phrase

/-! # The compiler

A term has no meaning of its own: it is read as a number, a string, an easing or a behavior,
whichever its place asks for. `180 ease-out explode`, nested as a list, is a number applied to an
easing applied to a behavior, and as a behavior it explodes, eased out, over a lifespan of 180.
-/
namespace Fireworks

inductive Kind where
  | number
  | string
  | easing
  | behavior
  deriving DecidableEq, Repr

namespace Kind

def name : Kind → String
  | .number => "number"
  | .string => "string"
  | .easing => "easing"
  | .behavior => "behavior"

abbrev Gen (ν : Type) : Kind → Type
  | .number => NumberGen ν
  | .string => ValueGen String
  | .easing => ValueGen Easing
  | .behavior => BehaviorGen ν

def choice {ν : Type} (selection : Selection) : (kind : Kind) → List (kind.Gen ν) → kind.Gen ν
  | .number => NumberGen.choice selection
  | .string => ValueGen.choice selection
  | .easing => ValueGen.choice selection
  | .behavior => BehaviorGen.choice selection

end Kind

variable {ν : Type}

/-- The body that a list of arguments stands for; several arguments are the elements of one
list. -/
def Term.body : List (Term ν) → Term ν
  | [body] => body
  | args => .list args

theorem Term.size_body_le (args : List (Term ν)) :
    (Term.body args).size ≤ 1 + Term.sizeAll args := by
  unfold Term.body
  split
  · simp [Term.sizeAll]
  · simp [Term.size]

theorem Term.size_pos (t : Term ν) : 0 < t.size := by
  cases t <;> (simp only [Term.size]; omega)

def Phrase.mismatch {α : Type} (phrase : Phrase ν) (kind : Kind) : Except CompileError α :=
  .error (.mismatch kind.name phrase.name)

namespace Registry

mutual

def coerce (registry : Registry) (kind : Kind) (phrase : Phrase ν) :
    Except CompileError (kind.Gen ν) :=
  match phrase with
  | ⟨.named name (.choice selection), options :: rest⟩ => do
    if options.isEmpty then throw (.arity name (.atLeast 1) 0)
    return kind.choice selection (← compileAll registry kind options rest)
  | ⟨head, applied⟩ =>
    match kind with
    | .number =>
      match head, applied with
      | .number value, [] => .ok (.const value)
      | .named _ (.angle selection), [] => .ok (.angle selection)
      | .named _ (.range selection), [[low, high]] => do
        let low ← compile registry .number low
        let high ← compile registry .number high
        return .range selection low high
      | .named name (.range _), [args] => .error (.arity name (.exactly 2) args.length)
      | _, _ => phrase.mismatch kind
    | .string =>
      match head, applied with
      | .text value, [] => .ok (.const value)
      | _, _ => phrase.mismatch kind
    | .easing =>
      match head, applied with
      | .named _ (.easing easing), [] => .ok (.const easing)
      | _, _ => phrase.mismatch kind
    | .behavior =>
      match head, applied with
      | .named _ (.action action), [] => .ok (.action action)
      | .named name (.constructor constructor), [args] =>
        construct registry name constructor args
      | .named _ .block, [lanes] => do return .block (← compileLanes registry lanes)
      | .number value, [args] => do
        let body ← compile registry .behavior (Term.body args)
        return .lifespan (.const value) body
      | .text value, [args] => do
        let body ← compile registry .behavior (Term.body args)
        return .lifespan (← coerce registry .number ⟨.text value, []⟩) body
      | .named name (.range selection), [bounds, args] => do
        let body ← compile registry .behavior (Term.body args)
        return .lifespan (← coerce registry .number ⟨.named name (.range selection), [bounds]⟩) body
      | .named _ (.easing easing), [args] => do
        let body ← compile registry .behavior (Term.body args)
        return .eased (.const easing) body
      | _, _ => phrase.mismatch kind
termination_by 4 * phrase.weight
decreasing_by
  all_goals
    simp only [Phrase.weight, Phrase.appliedWeight_cons, Phrase.appliedWeight_nil, Term.sizeAll]
  all_goals try have := Term.size_body_le args
  all_goals omega

def construct (registry : Registry) (name : String) (constructor : Constructor)
    (args : List (Term ν)) : Except CompileError (BehaviorGen ν) :=
  match constructor, args with
  | .property blend target, [value] => do
    return .property blend target (← compile registry .number value)
  | .translate, [x, y, z] => do return .translate (← compileVector registry x y z)
  | .rotate, [x, y, z] => do return .rotate (← compileVector registry x y z)
  | .emit, [count, times, parallel, body] => do
    let count ← compile registry .number count
    let times ← compile registry .number times
    let parallel ← compile registry .number parallel
    return .emit count times parallel (← compile registry .behavior body)
  | .loop, [body] => do return .loop (← compile registry .behavior body)
  | .repeated, [limit, body] => do
    let limit ← compile registry .number limit
    return .repeated limit (← compile registry .behavior body)
  | .flair, [count, body] => do
    let count ← compile registry .number count
    return .flair count (← compile registry .behavior body)
  | .fireworks, [count, body] => do
    let count ← compile registry .number count
    return .fireworks count (← compile registry .behavior body)
  | .character, [text, body] => do
    let text ← compile registry .string text
    return .character text (← compile registry .behavior body)
  | .text, [text, x, y, z, body] => do
    let text ← compile registry .string text
    let offset ← compileVector registry x y z
    return .text text offset (← compile registry .behavior body)
  | _, _ => .error (.arity name (.exactly constructor.arity) args.length)
termination_by 4 * Term.sizeAll args + 2
decreasing_by all_goals (simp only [Term.sizeAll]; omega)

def compileVector (registry : Registry) (x y z : Term ν) : Except CompileError (VectorGen ν) := do
  let x ← compile registry .number x
  let y ← compile registry .number y
  let z ← compile registry .number z
  return ⟨x, y, z⟩
termination_by 4 * (x.size + y.size + z.size) + 1
decreasing_by
  all_goals have := x.size_pos
  all_goals have := y.size_pos
  all_goals have := z.size_pos
  all_goals omega

def compile (registry : Registry) (kind : Kind) (t : Term ν) : Except CompileError (kind.Gen ν) :=
  match _h : Phrase.resolve registry t with
  | .error e => .error e
  | .ok phrase => coerce registry kind phrase
termination_by 4 * t.size + 1
decreasing_by
  have := Phrase.weight_resolve _h
  omega

/-- Compiles terms to a kind, each of them applied to the same lists of arguments. -/
def compileAll (registry : Registry) (kind : Kind) (terms : List (Term ν))
    (applied : List (List (Term ν))) : Except CompileError (List (kind.Gen ν)) :=
  match terms with
  | [] => .ok []
  | t :: ts =>
    match _h : Phrase.resolveApplied registry t applied with
    | .error e => .error e
    | .ok phrase => do
      let first ← coerce registry kind phrase
      let others ← compileAll registry kind ts applied
      return first :: others
termination_by 4 * (Term.sizeAll terms + Phrase.appliedWeight applied) + 2
decreasing_by
  · have := Phrase.weight_resolveApplied _h
    simp only [Term.sizeAll]
    omega
  · have := t.size_pos
    simp only [Term.sizeAll]
    omega

/-- Compiles the lanes of a block, each of which has to be a list of statements. -/
def compileLanes (registry : Registry) (lanes : List (Term ν)) :
    Except CompileError (List (List (BehaviorGen ν))) :=
  match lanes with
  | [] => .ok []
  | .list statements :: rest => do
    let lane ← compileAll registry .behavior statements []
    let others ← compileLanes registry rest
    return lane :: others
  | t :: _ => .error (.mismatch "list" t.kind)
termination_by 4 * Term.sizeAll lanes + 3
decreasing_by
  all_goals simp only [Phrase.appliedWeight_nil, Term.sizeAll, Term.size]
  all_goals omega

end

/-- Compiles a program. A single statement stands for itself, and several are one lane of a
block. -/
def compileProgram (registry : Registry) : List (Term ν) → Except CompileError (BehaviorGen ν)
  | [statement] => registry.compile .behavior statement
  | statements => registry.compile .behavior (Term.block [statements])

end Registry

end Fireworks
