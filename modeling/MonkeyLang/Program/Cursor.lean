import MonkeyLang.Log
import MonkeyLang.Source

namespace MonkeyLang

open Log (Event)

/-- A place in the token stream of a text, with what was noted on the way. Two tokens are in sight,
the one at `place` and the one after it; the text behind them is not looked at yet. -/
structure Cursor where
  place : Nat
  cur : Token
  peek : Token
  unread : Source
  skipped : Nat
  diagnostics : Array Diagnostic
  events : Array Event

namespace Cursor

/-- Notes that a token came into sight. -/
def saw (events : Array Event) (t : Token) : Array Event :=
  match Event.ofToken? t with
  | some e => events.push e
  | none => events

def ofSource (cs : Source) : Cursor :=
  let (t, rest) := cs.next
  let (u, rest) := rest.next
  ⟨0, t, u, rest, 0, #[], saw (saw #[] t) u⟩

def advance (c : Cursor) : Cursor :=
  let (t, rest) := c.unread.next
  { c with
    place := c.place + 1
    cur := c.peek
    peek := t
    unread := rest
    events := saw c.events t }

def report (c : Cursor) (d : Diagnostic) : Cursor :=
  { c with diagnostics := c.diagnostics.push d, events := c.events.push (.refused d) }

/-- Counts a statement that was left out. -/
def skip (c : Cursor) : Cursor := { c with skipped := c.skipped + 1 }

/-- The tokens from the current one on, up to the end of the text. -/
def tokens (c : Cursor) : List Token :=
  if c.cur = .eof then []
  else c.cur :: if c.peek = .eof then [] else c.peek :: c.unread.tokens

theorem tokens_ofSource (cs : Source) : (ofSource cs).tokens = cs.tokens := by
  rw [Source.tokens_eq cs, Source.tokens_eq cs.next.2]
  rfl

theorem tokens_advance {c : Cursor} (h : c.cur ≠ .eof) : c.tokens = c.cur :: c.advance.tokens := by
  simp only [tokens, advance, h, if_false]
  rw [Source.tokens_eq c.unread]
  rfl

end Cursor

/-- A production moves a cursor and may give a result. What it noted stays when it gives none. -/
abbrev Production (α : Type) := OptionT (StateM Cursor) α

namespace Production

def advance : Production Unit := modify Cursor.advance

def skip : Production Unit := modify Cursor.skip

def cur : Production Token := return (← get).cur

def peek : Production Token := return (← get).peek

/-- Gives no result because of the current token. -/
def refuse {α : Type} (reason : Diagnostic.Reason) : Production α := do
  modify fun c => c.report ⟨c.place, reason⟩
  failure

/-- Moves to the next token if it is of the given kind, and gives no result because of it
otherwise. -/
def expect (kind : Token.Kind) : Production Unit := do
  let t ← peek
  if t.kind = kind then
    advance
  else
    modify fun c => c.report ⟨c.place + 1, .unexpected kind t.kind⟩
    failure

def expectName : Production String := do
  expect .ident
  return (← cur).literal

/-- Goes on where the production stopped, whether it gave a result or not. -/
def attempt {α : Type} (p : Production α) : Production (Option α) := fun c =>
  let (result, c) := p.run c
  (some result, c)

def skipSemicolon : Production Unit := do
  if (← peek) = .symbol .semicolon then advance

/-- Further items, each after a comma. -/
def more {α : Type} (item : Production α) : Nat → Production (List α)
  | 0 => failure
  | n + 1 => do
      if (← peek) = .symbol .comma then
        advance
        let x ← item
        return x :: (← more item n)
      else
        return []

/-- Items with commas between them, up to and including the closing symbol. -/
def listed {α : Type} (item : Production α) (close : Symbol) (n : Nat) : Production (List α) := do
  if (← peek) = .symbol close then
    advance
    return []
  else
    let x ← item
    let xs ← more item n
    expect (.symbol close)
    return x :: xs

end Production

end MonkeyLang
