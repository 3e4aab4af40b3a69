import MonkeyLang.Value.Operation
import MonkeyLang.Value.Text

namespace MonkeyLang

namespace Builtin

open Value

def one (f : Value → Except Fault Value) : List Value → Except Fault Value
  | [v] => f v
  | args => .error (.wrongArity args.length 1)

def two (f : Value → Value → Except Fault Value) : List Value → Except Fault Value
  | [v, w] => f v w
  | args => .error (.wrongArity args.length 2)

/-- The length of a text is its number of characters. -/
def lenOf : Value → Except Fault Value
  | .string s => .ok (.int (Int64.ofNat s.length))
  | .array items => .ok (.int (Int64.ofNat items.length))
  | v => .error (.badArgument .len v.typeName)

def firstOf : Value → Except Fault Value
  | .array items => .ok (items.head?.getD .null)
  | v => .error (.badArgument .first v.typeName)

def lastOf : Value → Except Fault Value
  | .array items => .ok (items.getLast?.getD .null)
  | v => .error (.badArgument .last v.typeName)

def restOf : Value → Except Fault Value
  | .array items => .ok (.array items.tail)
  | v => .error (.badArgument .rest v.typeName)

def pushOnto : Value → Value → Except Fault Value
  | .array items, v => .ok (.array (items ++ [v]))
  | v, w => .error (.badArguments .push v.typeName w.typeName)

/-- What a call gives. -/
def result : Builtin → List Value → Except Fault Value
  | .len => one lenOf
  | .first => one firstOf
  | .last => one lastOf
  | .rest => one restOf
  | .push => two pushOnto
  | .puts => fun _ => .ok .null

/-- What a call prints: only `puts` prints, a line for each argument. -/
def printed : Builtin → List Value → String
  | .puts, args => String.join (args.map fun v => v.text ++ "\n")
  | _, _ => ""

end Builtin

end MonkeyLang
