import MonkeyLang.Token

namespace MonkeyLang

inductive Operator where
  | bang | minus | plus | asterisk | slash | lt | gt | eq | notEq
  deriving DecidableEq

def Operator.symbol : Operator → Symbol
  | .bang => .bang
  | .minus => .minus
  | .plus => .plus
  | .asterisk => .asterisk
  | .slash => .slash
  | .lt => .lt
  | .gt => .gt
  | .eq => .eq
  | .notEq => .notEq

def Operator.text (op : Operator) : String := op.symbol.text

def Operator.ofSymbol? : Symbol → Option Operator
  | .bang => some .bang
  | .minus => some .minus
  | .plus => some .plus
  | .asterisk => some .asterisk
  | .slash => some .slash
  | .lt => some .lt
  | .gt => some .gt
  | .eq => some .eq
  | .notEq => some .notEq
  | _ => none

theorem Operator.ofSymbol?_symbol (op : Operator) : ofSymbol? op.symbol = some op := by
  cases op <;> rfl

theorem Operator.symbol_of_ofSymbol? {s : Symbol} {op : Operator} (h : ofSymbol? s = some op) :
    op.symbol = s := by
  cases s <;> simp [ofSymbol?] at h <;> subst h <;> rfl

mutual

inductive Expr where
  | ident (name : String)
  | int (value : Int64)
  | bool (value : Bool)
  | string (text : String)
  | unary (op : Operator) (right : Expr)
  | binary (left : Expr) (op : Operator) (right : Expr)
  | cond (test : Expr) (yes : List Stmt) (no : Option (List Stmt))
  | fn (params : List String) (body : List Stmt)
  | call (callee : Expr) (args : List Expr)
  | array (items : List Expr)
  | hash (pairs : List (Expr × Expr))
  | index (left : Expr) (index : Expr)

inductive Stmt where
  | bind (name : String) (value : Expr)
  | ret (value : Expr)
  | expr (value : Expr)
  | block (body : List Stmt)

end

abbrev Block := List Stmt

abbrev Program := List Stmt

mutual

def Expr.same : Expr → Expr → Bool
  | .ident x, .ident y => x = y
  | .int m, .int n => m = n
  | .bool a, .bool b => a = b
  | .string s, .string t => s = t
  | .unary op e, .unary op' e' => op = op' && e.same e'
  | .binary l op r, .binary l' op' r' => op = op' && l.same l' && r.same r'
  | .cond c t none, .cond c' t' none => c.same c' && sameStmts t t'
  | .cond c t (some f), .cond c' t' (some f') =>
      c.same c' && sameStmts t t' && sameStmts f f'
  | .fn ps b, .fn ps' b' => ps = ps' && sameStmts b b'
  | .call e es, .call e' es' => e.same e' && sameExprs es es'
  | .array es, .array es' => sameExprs es es'
  | .hash ps, .hash ps' => samePairs ps ps'
  | .index l i, .index l' i' => l.same l' && i.same i'
  | _, _ => false

def Stmt.same : Stmt → Stmt → Bool
  | .bind x e, .bind x' e' => x = x' && e.same e'
  | .ret e, .ret e' => e.same e'
  | .expr e, .expr e' => e.same e'
  | .block b, .block b' => sameStmts b b'
  | _, _ => false

def sameStmts : List Stmt → List Stmt → Bool
  | [], [] => true
  | s :: b, s' :: b' => s.same s' && sameStmts b b'
  | _, _ => false

def sameExprs : List Expr → List Expr → Bool
  | [], [] => true
  | e :: es, e' :: es' => e.same e' && sameExprs es es'
  | _, _ => false

def samePairs : List (Expr × Expr) → List (Expr × Expr) → Bool
  | [], [] => true
  | (k, v) :: ps, (k', v') :: ps' => k.same k' && v.same v' && samePairs ps ps'
  | _, _ => false

end

mutual

theorem Expr.same_iff : ∀ a b : Expr, a.same b = true ↔ a = b
  | .ident _, b => by cases b <;> simp [Expr.same]
  | .int _, b => by cases b <;> simp [Expr.same]
  | .bool _, b => by cases b <;> simp [Expr.same]
  | .string _, b => by cases b <;> simp [Expr.same]
  | .unary _ e, b => by cases b <;> simp [Expr.same, Expr.same_iff e]
  | .binary l _ r, b => by
      cases b <;> simp [Expr.same, Expr.same_iff l, Expr.same_iff r]
      grind
  | .cond c t none, b => by
      rcases b with _ | _ | _ | _ | _ | _ | ⟨_, _, _ | _⟩ | _ | _ | _ | _ | _ <;>
        simp [Expr.same, Expr.same_iff c, sameStmts_iff t]
  | .cond c t (some f), b => by
      rcases b with _ | _ | _ | _ | _ | _ | ⟨_, _, _ | _⟩ | _ | _ | _ | _ | _ <;>
        simp [Expr.same, Expr.same_iff c, sameStmts_iff t, sameStmts_iff f, and_assoc]
  | .fn _ body, b => by cases b <;> simp [Expr.same, sameStmts_iff body]
  | .call e es, b => by cases b <;> simp [Expr.same, Expr.same_iff e, sameExprs_iff es]
  | .array es, b => by cases b <;> simp [Expr.same, sameExprs_iff es]
  | .hash ps, b => by cases b <;> simp [Expr.same, samePairs_iff ps]
  | .index l i, b => by cases b <;> simp [Expr.same, Expr.same_iff l, Expr.same_iff i]

theorem Stmt.same_iff : ∀ a b : Stmt, a.same b = true ↔ a = b
  | .bind _ e, b => by cases b <;> simp [Stmt.same, Expr.same_iff e]
  | .ret e, b => by cases b <;> simp [Stmt.same, Expr.same_iff e]
  | .expr e, b => by cases b <;> simp [Stmt.same, Expr.same_iff e]
  | .block body, b => by cases b <;> simp [Stmt.same, sameStmts_iff body]

theorem sameStmts_iff : ∀ a b : List Stmt, sameStmts a b = true ↔ a = b
  | [], b => by cases b <;> simp [sameStmts]
  | s :: r, b => by cases b <;> simp [sameStmts, Stmt.same_iff s, sameStmts_iff r]

theorem sameExprs_iff : ∀ a b : List Expr, sameExprs a b = true ↔ a = b
  | [], b => by cases b <;> simp [sameExprs]
  | e :: r, b => by cases b <;> simp [sameExprs, Expr.same_iff e, sameExprs_iff r]

theorem samePairs_iff : ∀ a b : List (Expr × Expr), samePairs a b = true ↔ a = b
  | [], b => by cases b <;> simp [samePairs]
  | (k, v) :: r, b => by
      rcases b with _ | ⟨⟨_, _⟩, _⟩ <;>
        simp [samePairs, Expr.same_iff k, Expr.same_iff v, samePairs_iff r]

end

instance : DecidableEq Expr := fun a b => decidable_of_iff _ (Expr.same_iff a b)

instance : DecidableEq Stmt := fun a b => decidable_of_iff _ (Stmt.same_iff a b)

end MonkeyLang
