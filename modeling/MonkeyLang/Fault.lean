import MonkeyLang.Builtin
import MonkeyLang.Program

namespace MonkeyLang

/-- Why an evaluation failed. Types are given by name. -/
inductive Fault where
  | unbound (name : String)
  | unknownUnary (op : Operator) (type : String)
  | unknownBinary (left : String) (op : Operator) (right : String)
  | typeMismatch (left : String) (op : Operator) (right : String)
  | divisionByZero
  | notFunction (type : String)
  | badArgument (b : Builtin) (type : String)
  | badArguments (b : Builtin) (first second : String)
  | wrongArity (got want : Nat)
  | notIndexable (type : String)
  | notHashable (type : String)
  deriving DecidableEq

/-- Operands of one type have no such operator; operands of different types do not match. -/
def Fault.binary (left : String) (op : Operator) (right : String) : Fault :=
  if left = right then .unknownBinary left op right else .typeMismatch left op right

def Fault.message : Fault → String
  | .unbound name => "identifier not found: " ++ name
  | .unknownUnary op type => "unknown operator: " ++ op.text ++ type
  | .unknownBinary left op right =>
      "unknown operator: " ++ left ++ " " ++ op.text ++ " " ++ right
  | .typeMismatch left op right => "type mismatch: " ++ left ++ " " ++ op.text ++ " " ++ right
  | .divisionByZero => "division by zero"
  | .notFunction type => "not a function: " ++ type
  | .badArgument b type => "argument to `" ++ b.name ++ "` not supported, got " ++ type
  | .badArguments b first second =>
      "argument to `" ++ b.name ++ "` not supported, got " ++ first ++ ", " ++ second
  | .wrongArity got want =>
      "wrong number of arguments. got=" ++ toString got ++ ", want=" ++ toString want
  | .notIndexable type => "index operator not supported: " ++ type
  | .notHashable type => "unusable as hash key: " ++ type

end MonkeyLang
