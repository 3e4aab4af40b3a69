import MonkeyLang.Fault
import MonkeyLang.Value.Equality

namespace MonkeyLang

namespace Value

def key : Value → Except Fault HashKey
  | .string text => .ok (.string text)
  | .int value => .ok (.int value)
  | .bool value => .ok (.bool value)
  | v => .error (.notHashable v.typeName)

def unary (op : Operator) (right : Value) : Except Fault Value :=
  match op, right with
  | .bang, v => .ok (.bool (!v.isTrue))
  | .minus, .int n => .ok (.int (-n))
  | op, v => .error (.unknownUnary op v.typeName)

/-- Arithmetic wraps around at 64 bits, and a quotient goes toward zero. -/
def onInts (m : Int64) (op : Operator) (n : Int64) : Except Fault Value :=
  match op with
  | .plus => .ok (.int (m + n))
  | .minus => .ok (.int (m - n))
  | .asterisk => .ok (.int (m * n))
  | .slash => if n = 0 then .error .divisionByZero else .ok (.int (m / n))
  | .lt => .ok (.bool (m < n))
  | .gt => .ok (.bool (m > n))
  | .eq => .ok (.bool (m = n))
  | .notEq => .ok (.bool (m ≠ n))
  | .bang => .error (.binary "INTEGER" .bang "INTEGER")

/-- Strings can only be joined. -/
def onStrings (s : String) (op : Operator) (t : String) : Except Fault Value :=
  match op with
  | .plus => .ok (.string (s ++ t))
  | op => .error (.binary "STRING" op "STRING")

def binary (left : Value) (op : Operator) (right : Value) : Except Fault Value :=
  match left, right with
  | .int m, .int n => onInts m op n
  | .string s, .string t => onStrings s op t
  | a, b =>
      match op with
      | .eq => .ok (.bool (a.equals b))
      | .notEq => .ok (.bool (!a.equals b))
      | op => .error (.binary a.typeName op b.typeName)

/-- The item at a place; there is none before the first one and after the last one. -/
def item (items : List Value) (i : Int64) : Value :=
  if i < 0 then .null else items[i.toInt.toNat]?.getD .null

def index (left right : Value) : Except Fault Value :=
  match left, right with
  | .array items, .int i => .ok (item items i)
  | .hash entries, v => v.key.map fun k => (Table.get? k entries).getD .null
  | v, _ => .error (.notIndexable v.typeName)

end Value

end MonkeyLang
