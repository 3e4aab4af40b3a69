import MonkeyLang.Token

namespace MonkeyLang

/-- Why a statement could not be read. -/
inductive Diagnostic.Reason where
  | unexpected (expected got : Token.Kind)
  | noOperand (kind : Token.Kind)
  | badInteger (digits : String)
  deriving DecidableEq

/-- A reason and the place of the token that gave it, counted from the start of the text. -/
structure Diagnostic where
  place : Nat
  reason : Diagnostic.Reason
  deriving DecidableEq

def Diagnostic.Reason.message : Reason → String
  | .unexpected expected got =>
      "expected next token to be " ++ expected.name ++ ", got " ++ got.name ++ " instead"
  | .noOperand kind => "no prefix parse function for " ++ kind.name ++ " found"
  | .badInteger digits => "could not parse " ++ digits ++ " as integer"

def Diagnostic.message (d : Diagnostic) : String := d.reason.message

end MonkeyLang
