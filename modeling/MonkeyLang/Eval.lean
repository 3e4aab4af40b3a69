import MonkeyLang.Builtin.Call
import MonkeyLang.World

namespace MonkeyLang

/-- How a function is applied: its parameters, its body, the scope it captured, the arguments. -/
abbrev Application := List String → Block → ScopeId → List Value → Eval Value

/-- The values of operands, or the first one that is on its way out of a function. -/
inductive Operands where
  | values (vs : List Value)
  | returned (v : Value)

namespace Eval

/-- Goes on with the value of an operand. One that is on its way out goes out at once. -/
def operand (x : Eval Value) (k : Value → Eval Value) : Eval Value := do
  match ← x with
  | .returned v => return .returned v
  | v => k v

def operands (x : Eval Operands) (k : List Value → Eval Value) : Eval Value := do
  match ← x with
  | .returned v => return .returned v
  | .values vs => k vs

/-- A name is looked for in the scopes, innermost first, and then among the builtins. -/
def name (s : ScopeId) (x : String) : Eval Value := do
  match ← lookup s x with
  | some v => return v
  | none =>
      match Builtin.ofName? x with
      | some b => return .builtin b
      | none => fail (.unbound x)

end Eval

def Builtin.call (b : Builtin) (args : List Value) : Eval Value := do
  Eval.note (.called b args.length)
  Eval.print (b.printed args)
  Eval.ofExcept (b.result args)

open Eval

mutual

def Expr.evalWith (app : Application) (s : ScopeId) : Expr → Eval Value
  | .ident x => name s x
  | .int n => return .int n
  | .bool b => return .bool b
  | .string t => return .string t
  | .unary op e => operand (e.evalWith app s) fun v => ofExcept (v.unary op)
  | .binary l op r =>
      operand (l.evalWith app s) fun a =>
        operand (r.evalWith app s) fun b => ofExcept (a.binary op b)
  | .cond test yes none =>
      operand (test.evalWith app s) fun v =>
        if v.isTrue then evalBlock app s .null yes else return .null
  | .cond test yes (some no) =>
      operand (test.evalWith app s) fun v =>
        if v.isTrue then evalBlock app s .null yes else evalBlock app s .null no
  | .fn params body => return .function params body s
  | .call callee args =>
      operand (callee.evalWith app s) fun
        | .function params body scope =>
            operands (evalExprs app s args) fun vs => do
              note (.applied vs.length)
              app params body scope vs
        | .builtin b => operands (evalExprs app s args) b.call
        | v => fail (.notFunction v.typeName)
  | .array items => operands (evalExprs app s items) fun vs => return .array vs
  | .hash pairs => evalPairs app s [] pairs
  | .index l i =>
      operand (l.evalWith app s) fun a =>
        operand (i.evalWith app s) fun b => ofExcept (a.index b)

def Stmt.evalWith (app : Application) (s : ScopeId) : Stmt → Eval Value
  | .bind x e =>
      operand (e.evalWith app s) fun v => do
        bind s x v
        return v
  | .ret e => operand (e.evalWith app s) fun v => return .returned v
  | .expr e => e.evalWith app s
  | .block b => evalBlock app s .null b

/-- The value of the last statement, or `last` if there is none. A value on its way out ends the
block. -/
def evalBlock (app : Application) (s : ScopeId) (last : Value) : List Stmt → Eval Value
  | [] => return last
  | t :: b => operand (t.evalWith app s) fun v => evalBlock app s v b

def evalExprs (app : Application) (s : ScopeId) : List Expr → Eval Operands
  | [] => return .values []
  | e :: es => do
      match ← e.evalWith app s with
      | .returned v => return .returned v
      | v =>
          match ← evalExprs app s es with
          | .returned w => return .returned w
          | .values vs => return .values (v :: vs)

/-- A key is checked before its value is evaluated. -/
def evalPairs (app : Application) (s : ScopeId) (t : List (HashKey × Value)) :
    List (Expr × Expr) → Eval Value
  | [] => return .hash t
  | (k, e) :: ps =>
      operand (k.evalWith app s) fun v => do
        let key ← ofExcept v.key
        operand (e.evalWith app s) fun v => evalPairs app s (Table.insert key v t) ps

end

def bindAll (s : ScopeId) : List (String × Value) → Eval Unit
  | [] => return ()
  | (x, v) :: ps => do
      bind s x v
      bindAll s ps

/-- Runs a body in a fresh scope inside the captured one. A parameter without an argument stays
unbound there. Calls nest at most `depth` deep. -/
def apply (depth : Nat) : Application := fun params body captured args =>
  match depth with
  | 0 => throw .tooDeep
  | depth + 1 => do
      let s ← openScope captured
      bindAll s (params.zip args)
      return (← evalBlock (apply depth) s .null body).unwrap

/-- More calls than a machine can nest. -/
def Eval.ample : Nat := Nat.pow 2 60

def Expr.eval (depth : Nat) (s : ScopeId) (e : Expr) : Eval Value := e.evalWith (apply depth) s

def Stmt.eval (depth : Nat) (s : ScopeId) (t : Stmt) : Eval Value := t.evalWith (apply depth) s

def Block.eval (depth : Nat) (s : ScopeId) (b : Block) : Eval Value :=
  evalBlock (apply depth) s .null b

/-- A value on its way out of the program is its result. -/
def Program.eval (depth : Nat) (s : ScopeId) (p : Program) : Eval Value :=
  return (← Block.eval depth s p).unwrap

end MonkeyLang
