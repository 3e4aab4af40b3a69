import MonkeyLang.Program

namespace MonkeyLang

/-- How tightly an operator binds, loosest first. -/
inductive Precedence where
  | lowest | equals | lessGreater | sum | product | unary | call | index
  deriving DecidableEq

def Precedence.rank : Precedence → Nat
  | .lowest => 0
  | .equals => 1
  | .lessGreater => 2
  | .sum => 3
  | .product => 4
  | .unary => 5
  | .call => 6
  | .index => 7

instance : LT Precedence := ⟨fun p q => p.rank < q.rank⟩

instance (p q : Precedence) : Decidable (p < q) := inferInstanceAs (Decidable (p.rank < q.rank))

def Symbol.precedence : Symbol → Precedence
  | .eq | .notEq => .equals
  | .lt | .gt => .lessGreater
  | .plus | .minus => .sum
  | .asterisk | .slash => .product
  | .lparen => .call
  | .lbracket => .index
  | _ => .lowest

/-- A token that continues no expression binds loosest of all. -/
def Token.precedence : Token → Precedence
  | .symbol s => s.precedence
  | _ => .lowest

def Token.operator? : Token → Option Operator
  | .symbol s => Operator.ofSymbol? s
  | _ => none

end MonkeyLang
