import MonkeyLang.Program.Parser

namespace MonkeyLang

theorem Token.kind_eq_symbol {t : Token} {s : Symbol} : t.kind = .symbol s ↔ t = .symbol s := by
  cases t <;> simp [kind]

theorem Token.kind_eq_ident {t : Token} : t.kind = .ident ↔ ∃ x, t = .ident x := by
  cases t <;> simp [kind]

namespace Production

variable {α β : Type}

def outcome (p : Production α) (c : Cursor) : Option α × Cursor := p.run c

theorem outcome_bind (p : Production α) (f : α → Production β) (c : Cursor) :
    (p >>= f).outcome c = match p.outcome c with
      | (some a, c₁) => (f a).outcome c₁
      | (none, c₁) => (none, c₁) := by
  have h : (p >>= f).outcome c = (match p.outcome c with
      | (r, c₁) => (r.elim (pure none) fun a => (f a).run : StateM Cursor (Option β)) c₁) := by
    unfold outcome
    rw [OptionT.run_bind]
    rfl
  rw [h]
  rcases p.outcome c with ⟨_ | a, c₁⟩ <;> rfl

theorem bind_some {p : Production α} {f : α → Production β} {c c' : Cursor} {b : β} :
    (p >>= f).outcome c = (some b, c') ↔
      ∃ a c₁, p.outcome c = (some a, c₁) ∧ (f a).outcome c₁ = (some b, c') := by
  rw [outcome_bind]
  rcases p.outcome c with ⟨_ | a, c₁⟩ <;> simp [and_assoc]

@[simp] theorem outcome_pure (a : α) (c : Cursor) :
    (pure a : Production α).outcome c = (some a, c) := rfl

theorem pure_some {a b : α} {c c' : Cursor} :
    (pure a : Production α).outcome c = (some b, c') ↔ a = b ∧ c = c' := by
  rw [outcome_pure, Prod.mk.injEq, Option.some.injEq]

@[simp] theorem outcome_failure (c : Cursor) :
    (failure : Production α).outcome c = (none, c) := rfl

@[simp] theorem outcome_cur (c : Cursor) : cur.outcome c = (some c.cur, c) := rfl

@[simp] theorem outcome_peek (c : Cursor) : peek.outcome c = (some c.peek, c) := rfl

@[simp] theorem outcome_advance (c : Cursor) : advance.outcome c = (some (), c.advance) := rfl

@[simp] theorem outcome_skip (c : Cursor) : skip.outcome c = (some (), c.skip) := rfl

@[simp] theorem outcome_refuse (r : Diagnostic.Reason) (c : Cursor) :
    (refuse r : Production α).outcome c = (none, c.report ⟨c.place, r⟩) := rfl

@[simp] theorem outcome_attempt (p : Production α) (c : Cursor) :
    (attempt p).outcome c = (some (p.outcome c).1, (p.outcome c).2) := rfl

@[simp] theorem outcome_cur_bind (f : Token → Production β) (c : Cursor) :
    (cur >>= f).outcome c = (f c.cur).outcome c := rfl

@[simp] theorem outcome_peek_bind (f : Token → Production β) (c : Cursor) :
    (peek >>= f).outcome c = (f c.peek).outcome c := rfl

@[simp] theorem outcome_advance_bind (f : Unit → Production β) (c : Cursor) :
    (advance >>= f).outcome c = (f ()).outcome c.advance := rfl

@[simp] theorem outcome_skip_bind (f : Unit → Production β) (c : Cursor) :
    (skip >>= f).outcome c = (f ()).outcome c.skip := rfl

@[simp] theorem outcome_ite (q : Prop) [Decidable q] (p p' : Production α) (c : Cursor) :
    (if q then p else p').outcome c = if q then p.outcome c else p'.outcome c := by
  split <;> rfl

theorem outcome_expect (k : Token.Kind) (c : Cursor) :
    (expect k).outcome c =
      if c.peek.kind = k then (some (), c.advance)
      else (none, c.report ⟨c.place + 1, .unexpected k c.peek.kind⟩) := by
  simp only [expect, outcome_bind, outcome_peek]
  split <;> rfl

@[simp] theorem expect_symbol {s : Symbol} {u : Unit} {c c' : Cursor} :
    (expect (.symbol s)).outcome c = (some u, c') ↔ c.peek = .symbol s ∧ c.advance = c' := by
  rw [outcome_expect, ← Token.kind_eq_symbol]
  split <;> simp [*]

theorem outcome_expect_symbol {s : Symbol} {c : Cursor} (h : c.peek = .symbol s) :
    (expect (.symbol s)).outcome c = (some (), c.advance) :=
  expect_symbol.mpr ⟨h, rfl⟩

@[simp] theorem expectName_some {x : String} {c c' : Cursor} :
    expectName.outcome c = (some x, c') ↔ c.peek = .ident x ∧ c.advance = c' := by
  simp only [expectName, bind_some, outcome_expect, outcome_cur]
  split
  · rename_i h
    obtain ⟨y, hy⟩ := Token.kind_eq_ident.mp h
    simp [hy, Cursor.advance, Token.literal, and_assoc]
  · rename_i h
    have hn : c.peek ≠ .ident x := fun hx => h (Token.kind_eq_ident.mpr ⟨x, hx⟩)
    simp [hn]

theorem outcome_expectName {x : String} {c : Cursor} (h : c.peek = .ident x) :
    expectName.outcome c = (some x, c.advance) :=
  expectName_some.mpr ⟨h, rfl⟩

end Production

namespace Cursor

@[simp] theorem skipped_advance (c : Cursor) : c.advance.skipped = c.skipped := rfl

@[simp] theorem diagnostics_advance (c : Cursor) : c.advance.diagnostics = c.diagnostics := rfl

@[simp] theorem skipped_skip (c : Cursor) : c.skip.skipped = c.skipped + 1 := rfl

@[simp] theorem diagnostics_skip (c : Cursor) : c.skip.diagnostics = c.diagnostics := rfl

theorem tokens_skip_advance (c : Cursor) : c.skip.advance.tokens = c.advance.tokens := rfl

end Cursor

/-- A semicolon right after a statement belongs to it. -/
def Cursor.pastSemicolon (c : Cursor) : Cursor :=
  if c.peek = .symbol .semicolon then c.advance else c

theorem Cursor.skipped_pastSemicolon (c : Cursor) : c.pastSemicolon.skipped = c.skipped := by
  unfold pastSemicolon
  split <;> rfl

namespace Production

variable {β : Type}

@[simp] theorem outcome_skipSemicolon (c : Cursor) :
    skipSemicolon.outcome c = (some (), c.pastSemicolon) := by
  simp only [skipSemicolon, outcome_bind, outcome_peek, outcome_ite, outcome_advance,
    outcome_pure, Cursor.pastSemicolon]
  split <;> rfl

@[simp] theorem outcome_skipSemicolon_bind (f : Unit → Production β) (c : Cursor) :
    (skipSemicolon >>= f).outcome c = (f ()).outcome c.pastSemicolon := by
  rw [outcome_bind, outcome_skipSemicolon]

end Production

end MonkeyLang
