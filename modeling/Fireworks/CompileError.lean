/-! # What a compiler may refuse -/
namespace Fireworks

/-- How many arguments something takes. -/
inductive Arity where
  | exactly (count : Nat)
  | atLeast (count : Nat)
  deriving DecidableEq, Repr

def Arity.describe : Arity → String
  | .exactly count => toString count
  | .atLeast count => "at least " ++ toString count

inductive CompileError where
  | arity (subject : String) (expected : Arity) (got : Nat)
  | mismatch (expected got : String)
  | noArguments (subject : String)
  deriving DecidableEq, Repr

def CompileError.message : CompileError → String
  | .arity subject expected got =>
    subject ++ " takes " ++ expected.describe ++ " arguments but got " ++ toString got
  | .mismatch expected got => "Type error: expected " ++ expected ++ ", got " ++ got
  | .noArguments subject => subject ++ " takes no arguments"

end Fireworks
