import MonkeyLang.Precedence
import MonkeyLang.Program.Cursor

namespace MonkeyLang

namespace Production

def digitsValue (digits : String) : Nat :=
  Nat.ofDigitChars 10 digits.toList 0

def integer (digits : String) : Production Expr :=
  if digitsValue digits < Nat.pow 2 63 then
    return .int (Int64.ofNat (digitsValue digits))
  else
    refuse (.badInteger digits)

/-- A block ends at its brace, or at the end of the text. -/
def endsBlock (t : Token) : Bool := t = .symbol .rbrace || t = .eof

def endsProgram (t : Token) : Bool := t = .eof

mutual

/-- Statements up to a token that ends them. A statement that cannot be read is left out, and
reading goes on with the token after the one it stopped at. -/
def statements : Nat → (Token → Bool) → Production (List Stmt)
  | 0, _ => failure
  | n + 1, ends => do
      if ends (← cur) then
        return []
      else
        match ← attempt (statement n) with
        | some s =>
            advance
            return s :: (← statements n ends)
        | none =>
            skip
            advance
            statements n ends

def statement : Nat → Production Stmt
  | 0 => failure
  | n + 1 => do
      match ← cur with
      | .keyword .letKey =>
          let name ← expectName
          expect (.symbol .assign)
          advance
          let value ← expression n .lowest
          skipSemicolon
          return .bind name value
      | .keyword .returnKey =>
          advance
          let value ← expression n .lowest
          skipSemicolon
          return .ret value
      | _ =>
          let value ← expression n .lowest
          skipSemicolon
          return .expr value

/-- An expression all of whose operators outside brackets bind tighter than `p`. -/
def expression : Nat → Precedence → Production Expr
  | 0, _ => failure
  | n + 1, p => do
      let left ← operand n
      continuation n p left

def continuation : Nat → Precedence → Expr → Production Expr
  | 0, _, _ => failure
  | n + 1, p, left => do
      if p < (← peek).precedence then
        advance
        let left ← extension n left
        continuation n p left
      else
        return left

/-- The call, index or binary expression that `left` begins, from its operator on. -/
def extension : Nat → Expr → Production Expr
  | 0, _ => failure
  | n + 1, left => do
      let t ← cur
      match t with
      | .symbol .lparen =>
          let args ← listed (do advance; expression n .lowest) .rparen n
          return .call left args
      | .symbol .lbracket =>
          advance
          let index ← expression n .lowest
          expect (.symbol .rbracket)
          return .index left index
      | _ =>
          match t.operator? with
          | none => failure
          | some op =>
              advance
              let right ← expression n t.precedence
              return .binary left op right

def operand : Nat → Production Expr
  | 0 => failure
  | n + 1 => do
      match ← cur with
      | .ident name => return .ident name
      | .int digits => integer digits
      | .string text => return .string text
      | .keyword .trueKey => return .bool true
      | .keyword .falseKey => return .bool false
      | .symbol .bang =>
          advance
          let right ← expression n .unary
          return .unary .bang right
      | .symbol .minus =>
          advance
          let right ← expression n .unary
          return .unary .minus right
      | .symbol .lparen =>
          advance
          let inner ← expression n .lowest
          expect (.symbol .rparen)
          return inner
      | .keyword .ifKey =>
          expect (.symbol .lparen)
          advance
          let test ← expression n .lowest
          expect (.symbol .rparen)
          expect (.symbol .lbrace)
          advance
          let yes ← statements n endsBlock
          if (← peek) = .keyword .elseKey then
            advance
            expect (.symbol .lbrace)
            advance
            let no ← statements n endsBlock
            return .cond test yes (some no)
          else
            return .cond test yes none
      | .keyword .fnKey =>
          expect (.symbol .lparen)
          let params ← listed expectName .rparen n
          expect (.symbol .lbrace)
          advance
          let body ← statements n endsBlock
          return .fn params body
      | .symbol .lbracket =>
          let items ← listed (do advance; expression n .lowest) .rbracket n
          return .array items
      | .symbol .lbrace =>
          let ps ← pairs n
          expect (.symbol .rbrace)
          return .hash ps
      | t => refuse (.noOperand t.kind)

/-- The pairs of a hash up to its brace. A comma may follow the last pair. -/
def pairs : Nat → Production (List (Expr × Expr))
  | 0 => failure
  | n + 1 => do
      if (← peek) = .symbol .rbrace then
        return []
      else
        advance
        let key ← expression n .lowest
        expect (.symbol .colon)
        advance
        let value ← expression n .lowest
        if (← peek) ≠ .symbol .rbrace then
          expect (.symbol .comma)
        return (key, value) :: (← pairs n)

end

end Production

namespace Cursor

/-- Productions nest at most this deep over the tokens that are left. -/
def depth (c : Cursor) : Nat := 8 * (c.unread.length + 3)

/-- Reads statements up to the end of the text. -/
def program (c : Cursor) : Program × Cursor :=
  let (p, c') := (Production.statements c.depth Production.endsProgram).run c
  (p.getD [], c')

/-- What reading on to the end of the text gives. A diagnostic from before counts as well. -/
def parse (c : Cursor) : Except (Array Diagnostic) Program :=
  let (p, c') := c.program
  if c'.diagnostics.isEmpty then .ok p else .error c'.diagnostics

end Cursor

/-- The program that a text spells, or all reasons why it spells none. -/
def Program.ofSource (cs : Source) : Except (Array Diagnostic) Program :=
  let (p, c) := (Cursor.ofSource cs).program
  if c.diagnostics.isEmpty then .ok p else .error c.diagnostics

theorem Program.ofSource_eq_parse (cs : Source) : ofSource cs = (Cursor.ofSource cs).parse := rfl

end MonkeyLang
