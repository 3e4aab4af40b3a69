import MonkeyLang.Program
import MonkeyLang.Text.Commas

namespace MonkeyLang

open Text (commas)

def signature (params : List String) : String := "fn(" ++ commas params ++ ") "

/-- What stands between a statement and the next one. An expression closes with a semicolon there,
or the next statement could be read as its continuation. -/
def Stmt.gap : Stmt → String
  | .expr _ => "; "
  | _ => " "

mutual

def Expr.text : Expr → String
  | .ident name => name
  | .int value => toString value.toInt
  | .bool value => if value then "true" else "false"
  | .string text => "\"" ++ text ++ "\""
  | .unary op right => "(" ++ op.text ++ right.text ++ ")"
  | .binary left op right => "(" ++ left.text ++ " " ++ op.text ++ " " ++ right.text ++ ")"
  | .cond test yes none => "if (" ++ test.text ++ ") " ++ blockText yes
  | .cond test yes (some no) =>
      "if (" ++ test.text ++ ") " ++ blockText yes ++ " else " ++ blockText no
  | .fn params body => signature params ++ blockText body
  | .call callee args => callee.text ++ "(" ++ commas (exprTexts args) ++ ")"
  | .array items => "[" ++ commas (exprTexts items) ++ "]"
  | .hash pairs => "\x7b" ++ commas (pairTexts pairs) ++ "\x7d"
  | .index left index => "(" ++ left.text ++ "[" ++ index.text ++ "])"

def Stmt.text : Stmt → String
  | .bind name value => "let " ++ name ++ " = " ++ value.text ++ ";"
  | .ret value => "return " ++ value.text ++ ";"
  | .expr value => value.text
  | .block body => blockText body

def blockText : List Stmt → String
  | [] => "\x7b \x7d"
  | s :: b => "\x7b " ++ s.text ++ restText s b ++ " \x7d"

/-- The statements that follow `s`, each after the gap before it. -/
def restText (s : Stmt) : List Stmt → String
  | [] => ""
  | t :: b => s.gap ++ t.text ++ restText t b

def exprTexts : List Expr → List String
  | [] => []
  | e :: es => e.text :: exprTexts es

def pairTexts : List (Expr × Expr) → List String
  | [] => []
  | (k, v) :: ps => (k.text ++ ":" ++ v.text) :: pairTexts ps

end

def Block.text (b : Block) : String := blockText b

def Program.text : Program → String
  | [] => ""
  | s :: p => s.text ++ restText s p

theorem exprTexts_eq_map (es : List Expr) : exprTexts es = es.map Expr.text := by
  induction es with
  | nil => rfl
  | cons e es ih => simp [exprTexts, ih]

theorem pairTexts_eq_map (ps : List (Expr × Expr)) :
    pairTexts ps = ps.map fun p => p.1.text ++ ":" ++ p.2.text := by
  induction ps with
  | nil => rfl
  | cons p ps ih => simp [pairTexts, ih]

end MonkeyLang
