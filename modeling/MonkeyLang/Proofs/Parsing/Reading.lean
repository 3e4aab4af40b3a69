import Mathlib.Algebra.Group.Nat.Defs
import MonkeyLang.Proofs.Parsing.Outcome

namespace MonkeyLang

namespace Production

variable {α : Type}

def argument (n : Nat) : Production Expr := do
  advance
  expression n .lowest

theorem argument_some {n : Nat} {c c' : Cursor} {e : Expr} :
    (argument n).outcome c = (some e, c') ↔
      (expression n .lowest).outcome c.advance = (some e, c') := by
  rw [argument, outcome_advance_bind]

inductive MoreReads (item : Production α) (n : Nat) (c : Cursor) : List α → Cursor → Prop
  | done (h : c.peek ≠ .symbol .comma) : MoreReads item n c [] c
  | item {x xs c₁ c'} (h : c.peek = .symbol .comma) (hx : item.outcome c.advance = (some x, c₁))
      (hxs : (more item n).outcome c₁ = (some xs, c')) : MoreReads item n c (x :: xs) c'

theorem more_some {item : Production α} {n : Nat} {c c' : Cursor} {xs : List α} :
    (more item (n + 1)).outcome c = (some xs, c') ↔ MoreReads item n c xs c' := by
  constructor
  · intro h
    simp only [more, outcome_peek_bind, outcome_ite] at h
    split at h
    · rename_i hc
      simp only [outcome_advance_bind, bind_some, pure_some] at h
      obtain ⟨x, c₁, hx, xs, _, hxs, rfl, rfl⟩ := h
      exact .item hc hx hxs
    · rename_i hc
      cases h
      exact .done hc
  · intro h
    cases h with
    | done h => simp [more, h]
    | item h hx hxs => simp [more, outcome_bind, -bind_pure_comp, h, hx, hxs]

inductive ListReads (item : Production α) (close : Symbol) (n : Nat) (c : Cursor) :
    List α → Cursor → Prop
  | empty (h : c.peek = .symbol close) : ListReads item close n c [] c.advance
  | items {x xs c₁ c₂} (h : c.peek ≠ .symbol close) (hx : item.outcome c = (some x, c₁))
      (hxs : (more item n).outcome c₁ = (some xs, c₂)) (hc : c₂.peek = .symbol close) :
      ListReads item close n c (x :: xs) c₂.advance

theorem listed_some {item : Production α} {close : Symbol} {n : Nat} {c c' : Cursor}
    {xs : List α} :
    (listed item close n).outcome c = (some xs, c') ↔ ListReads item close n c xs c' := by
  constructor
  · intro h
    simp only [listed, outcome_peek_bind, outcome_ite, outcome_advance_bind] at h
    split at h
    · rename_i hc
      cases h
      exact .empty hc
    · rename_i hc
      simp only [bind_some, expect_symbol, pure_some] at h
      obtain ⟨x, c₁, hx, xs, c₂, hxs, _, _, ⟨hp, rfl⟩, rfl, rfl⟩ := h
      exact .items hc hx hxs hp
  · intro h
    cases h with
    | empty h => simp [listed, h, -bind_pure_comp]
    | items h hx hxs hc =>
      simp [listed, outcome_bind, outcome_expect_symbol, h, hx, hxs, hc, -bind_pure_comp]

inductive StatementsReads (n : Nat) (ends : Token → Bool) (c : Cursor) : List Stmt → Cursor → Prop
  | done (h : ends c.cur = true) : StatementsReads n ends c [] c
  | keep {s b c₁ c'} (h : ends c.cur = false) (hs : (statement n).outcome c = (some s, c₁))
      (hb : (statements n ends).outcome c₁.advance = (some b, c')) :
      StatementsReads n ends c (s :: b) c'
  | drop {b c₁ c'} (h : ends c.cur = false) (hs : (statement n).outcome c = (none, c₁))
      (hb : (statements n ends).outcome c₁.skip.advance = (some b, c')) :
      StatementsReads n ends c b c'

theorem statements_some {n : Nat} {ends : Token → Bool} {c c' : Cursor} {b : List Stmt} :
    (statements (n + 1) ends).outcome c = (some b, c') ↔ StatementsReads n ends c b c' := by
  constructor
  · intro h
    simp only [statements, outcome_cur_bind, outcome_ite] at h
    split at h
    · rename_i he
      cases h
      exact .done he
    · rename_i he
      have he : ends c.cur = false := by simpa using he
      rw [outcome_bind, outcome_attempt] at h
      rcases hs : (statement n).outcome c with ⟨_ | s, c₁⟩
      · rw [hs] at h
        exact .drop he hs h
      · simp only [hs, outcome_advance_bind, bind_some, pure_some] at h
        obtain ⟨b, _, hb, rfl, rfl⟩ := h
        exact .keep he hs hb
  · intro h
    cases h with
    | done h => simp [statements, h]
    | keep h hs hb => simp [statements, outcome_bind, -bind_pure_comp, h, hs, hb]
    | drop h hs hb => simp [statements, outcome_bind, h, hs, hb]

inductive StatementReads (n : Nat) (c : Cursor) : Stmt → Cursor → Prop
  | bind {x e c₁} (h : c.cur = .keyword .letKey) (hx : c.peek = .ident x)
      (ha : c.advance.peek = .symbol .assign)
      (he : (expression n .lowest).outcome c.advance.advance.advance = (some e, c₁)) :
      StatementReads n c (.bind x e) c₁.pastSemicolon
  | ret {e c₁} (h : c.cur = .keyword .returnKey)
      (he : (expression n .lowest).outcome c.advance = (some e, c₁)) :
      StatementReads n c (.ret e) c₁.pastSemicolon
  | expr {e c₁} (hl : c.cur ≠ .keyword .letKey) (hr : c.cur ≠ .keyword .returnKey)
      (he : (expression n .lowest).outcome c = (some e, c₁)) :
      StatementReads n c (.expr e) c₁.pastSemicolon

theorem statement_some {n : Nat} {c c' : Cursor} {s : Stmt} :
    (statement (n + 1)).outcome c = (some s, c') ↔ StatementReads n c s c' := by
  constructor
  · intro h
    simp only [statement, outcome_cur_bind] at h
    split at h
    · rename_i hc
      simp only [outcome_advance_bind, outcome_skipSemicolon_bind, bind_some, expectName_some,
        expect_symbol, pure_some] at h
      obtain ⟨x, _, ⟨hx, rfl⟩, _, _, ⟨ha, rfl⟩, e, c₂, he, rfl, rfl⟩ := h
      exact .bind hc hx ha he
    · rename_i hc
      simp only [outcome_advance_bind, outcome_skipSemicolon_bind, bind_some, pure_some] at h
      obtain ⟨e, c₂, he, rfl, rfl⟩ := h
      exact .ret hc he
    · rename_i hl hr
      simp only [outcome_skipSemicolon_bind, bind_some, pure_some] at h
      obtain ⟨e, c₂, he, rfl, rfl⟩ := h
      exact .expr hl hr he
  · intro h
    cases h with
    | bind h hx ha he =>
      simp [statement, outcome_bind, outcome_expectName, outcome_expect_symbol, h, hx, ha, he,
        -bind_pure_comp]
    | ret h he => simp [statement, outcome_bind, h, he, -bind_pure_comp]
    | expr hl hr he => simp [statement, outcome_bind, he, -bind_pure_comp]

theorem expression_some {n : Nat} {p : Precedence} {c c' : Cursor} {e : Expr} :
    (expression (n + 1) p).outcome c = (some e, c') ↔
      ∃ left c₁, (operand n).outcome c = (some left, c₁) ∧
        (continuation n p left).outcome c₁ = (some e, c') := by
  rw [expression, bind_some]

inductive ContinuationReads (n : Nat) (p : Precedence) (left : Expr) (c : Cursor) :
    Expr → Cursor → Prop
  | stop (h : ¬ p < c.peek.precedence) : ContinuationReads n p left c left c
  | step {longer e c₁ c'} (h : p < c.peek.precedence)
      (hx : (extension n left).outcome c.advance = (some longer, c₁))
      (he : (continuation n p longer).outcome c₁ = (some e, c')) :
      ContinuationReads n p left c e c'

theorem continuation_some {n : Nat} {p : Precedence} {left e : Expr} {c c' : Cursor} :
    (continuation (n + 1) p left).outcome c = (some e, c') ↔
      ContinuationReads n p left c e c' := by
  constructor
  · intro h
    simp only [continuation, outcome_peek_bind, outcome_ite] at h
    split at h
    · rename_i hp
      simp only [outcome_advance_bind, bind_some] at h
      obtain ⟨longer, c₁, hx, he⟩ := h
      exact .step hp hx he
    · rename_i hp
      cases h
      exact .stop hp
  · intro h
    cases h with
    | stop h => simp [continuation, h]
    | step h hx he => simp [continuation, outcome_bind, h, hx, he]

inductive ExtensionReads (n : Nat) (left : Expr) (c : Cursor) : Expr → Cursor → Prop
  | call {args c'} (h : c.cur = .symbol .lparen)
      (ha : ListReads (argument n) .rparen n c args c') :
      ExtensionReads n left c (.call left args) c'
  | index {i c₁} (h : c.cur = .symbol .lbracket)
      (hi : (expression n .lowest).outcome c.advance = (some i, c₁))
      (hc : c₁.peek = .symbol .rbracket) : ExtensionReads n left c (.index left i) c₁.advance
  | binary {op r c'} (h : c.cur = .symbol op.symbol)
      (hr : (expression n op.symbol.precedence).outcome c.advance = (some r, c')) :
      ExtensionReads n left c (.binary left op r) c'

theorem extension_some {n : Nat} {left e : Expr} {c c' : Cursor} :
    (extension (n + 1) left).outcome c = (some e, c') ↔ ExtensionReads n left c e c' := by
  constructor
  · intro h
    simp only [extension, outcome_cur_bind] at h
    split at h
    · rename_i hc
      simp only [bind_some, pure_some] at h
      obtain ⟨args, _, ha, rfl, rfl⟩ := h
      exact .call hc (listed_some.mp ha)
    · rename_i hc
      simp only [outcome_advance_bind, bind_some, expect_symbol, pure_some] at h
      obtain ⟨i, c₁, hi, _, _, ⟨hp, rfl⟩, rfl, rfl⟩ := h
      exact .index hc hi hp
    · split at h
      · cases h
      · rename_i op ho
        obtain ⟨s, hs⟩ : ∃ s, c.cur = .symbol s := by
          cases hc : c.cur <;> simp [hc, Token.operator?] at ho ⊢
        obtain rfl : op.symbol = s :=
          Operator.symbol_of_ofSymbol? (by simpa [hs, Token.operator?] using ho)
        simp only [outcome_advance_bind, bind_some, hs, Token.precedence, pure_some] at h
        obtain ⟨r, _, hr, rfl, rfl⟩ := h
        exact .binary hs hr
  · intro h
    cases h with
    | call h ha =>
      have ha := listed_some.mpr ha
      unfold argument at ha
      simp [extension, outcome_bind, h, ha, -bind_pure_comp]
    | index h hi hc =>
      simp [extension, outcome_bind, outcome_expect_symbol, h, hi, hc, -bind_pure_comp]
    | @binary op r c' h hr =>
      cases op <;>
        simp [extension, outcome_bind, h, Operator.symbol, Token.operator?, Operator.ofSymbol?,
          Token.precedence, -bind_pure_comp] at hr ⊢ <;>
        simp [hr]

inductive OperandReads (n : Nat) (c : Cursor) : Expr → Cursor → Prop
  | ident {x} (h : c.cur = .ident x) : OperandReads n c (.ident x) c
  | int {d} (h : c.cur = .int d) (hd : digitsValue d < 2 ^ 63) :
      OperandReads n c (.int (Int64.ofNat (digitsValue d))) c
  | string {t} (h : c.cur = .string t) : OperandReads n c (.string t) c
  | yes (h : c.cur = .keyword .trueKey) : OperandReads n c (.bool true) c
  | no (h : c.cur = .keyword .falseKey) : OperandReads n c (.bool false) c
  | unary {op e c'} (ho : op = .bang ∨ op = .minus) (h : c.cur = .symbol op.symbol)
      (he : (expression n .unary).outcome c.advance = (some e, c')) :
      OperandReads n c (.unary op e) c'
  | group {e c₁} (h : c.cur = .symbol .lparen)
      (he : (expression n .lowest).outcome c.advance = (some e, c₁))
      (hc : c₁.peek = .symbol .rparen) : OperandReads n c e c₁.advance
  | cond {test yes c₁ c₂} (h : c.cur = .keyword .ifKey) (ho : c.peek = .symbol .lparen)
      (ht : (expression n .lowest).outcome c.advance.advance = (some test, c₁))
      (hc : c₁.peek = .symbol .rparen) (hb : c₁.advance.peek = .symbol .lbrace)
      (hy : (statements n endsBlock).outcome c₁.advance.advance.advance = (some yes, c₂))
      (he : c₂.peek ≠ .keyword .elseKey) : OperandReads n c (.cond test yes none) c₂
  | condElse {test yes no c₁ c₂ c₃} (h : c.cur = .keyword .ifKey) (ho : c.peek = .symbol .lparen)
      (ht : (expression n .lowest).outcome c.advance.advance = (some test, c₁))
      (hc : c₁.peek = .symbol .rparen) (hb : c₁.advance.peek = .symbol .lbrace)
      (hy : (statements n endsBlock).outcome c₁.advance.advance.advance = (some yes, c₂))
      (he : c₂.peek = .keyword .elseKey) (hb' : c₂.advance.peek = .symbol .lbrace)
      (hn : (statements n endsBlock).outcome c₂.advance.advance.advance = (some no, c₃)) :
      OperandReads n c (.cond test yes (some no)) c₃
  | fn {params body c₁ c₂} (h : c.cur = .keyword .fnKey) (ho : c.peek = .symbol .lparen)
      (hp : ListReads expectName .rparen n c.advance params c₁) (hb : c₁.peek = .symbol .lbrace)
      (hs : (statements n endsBlock).outcome c₁.advance.advance = (some body, c₂)) :
      OperandReads n c (.fn params body) c₂
  | array {items c'} (h : c.cur = .symbol .lbracket)
      (hi : ListReads (argument n) .rbracket n c items c') : OperandReads n c (.array items) c'
  | hash {ps c₁} (h : c.cur = .symbol .lbrace) (hp : (pairs n).outcome c = (some ps, c₁))
      (hc : c₁.peek = .symbol .rbrace) : OperandReads n c (.hash ps) c₁.advance

theorem integer_some {digits : String} {c c' : Cursor} {e : Expr} :
    (integer digits).outcome c = (some e, c') ↔
      digitsValue digits < 2 ^ 63 ∧ .int (Int64.ofNat (digitsValue digits)) = e ∧ c = c' := by
  rw [integer, outcome_ite, Nat.pow_eq]
  split
  · rename_i hd
    rw [pure_some, and_iff_right hd]
  · rename_i hd
    constructor
    · intro h
      cases h
    · rintro ⟨h, -⟩
      exact absurd h hd

theorem operandReads_of_some {n : Nat} {c c' : Cursor} {e : Expr}
    (h : (operand (n + 1)).outcome c = (some e, c')) : OperandReads n c e c' := by
  simp only [operand, outcome_cur_bind] at h
  split at h
  · rename_i hc
    cases h
    exact .ident hc
  · rename_i hc
    obtain ⟨hd, rfl, rfl⟩ := integer_some.mp h
    exact .int hc hd
  · rename_i hc
    cases h
    exact .string hc
  · rename_i hc
    cases h
    exact .yes hc
  · rename_i hc
    cases h
    exact .no hc
  · rename_i hc
    simp only [outcome_advance_bind, bind_some, pure_some] at h
    obtain ⟨e, _, he, rfl, rfl⟩ := h
    exact .unary (.inl rfl) hc he
  · rename_i hc
    simp only [outcome_advance_bind, bind_some, pure_some] at h
    obtain ⟨e, _, he, rfl, rfl⟩ := h
    exact .unary (.inr rfl) hc he
  · rename_i hc
    simp only [outcome_advance_bind, bind_some, expect_symbol, pure_some] at h
    obtain ⟨e, c₁, he, _, _, ⟨hp, rfl⟩, rfl, rfl⟩ := h
    exact .group hc he hp
  · rename_i hc
    simp only [outcome_advance_bind, outcome_peek_bind, outcome_ite, bind_some, expect_symbol] at h
    obtain ⟨_, _, ⟨ho, rfl⟩, test, c₁, ht, _, _, ⟨hp, rfl⟩, _, _, ⟨hb, rfl⟩, yes, c₂, hy, h⟩ := h
    split at h
    · rename_i he
      simp only [outcome_advance_bind, bind_some, expect_symbol, pure_some] at h
      obtain ⟨_, _, ⟨hb', rfl⟩, no, _, hn, rfl, rfl⟩ := h
      exact .condElse hc ho ht hp hb hy he hb' hn
    · rename_i he
      cases h
      exact .cond hc ho ht hp hb hy he
  · rename_i hc
    simp only [outcome_advance_bind, bind_some, expect_symbol, pure_some] at h
    obtain ⟨_, _, ⟨ho, rfl⟩, params, c₁, hp, _, _, ⟨hb, rfl⟩, body, _, hs, rfl, rfl⟩ := h
    exact .fn hc ho (listed_some.mp hp) hb hs
  · rename_i hc
    simp only [bind_some, pure_some] at h
    obtain ⟨items, _, hi, rfl, rfl⟩ := h
    exact .array hc (listed_some.mp hi)
  · rename_i hc
    simp only [bind_some, expect_symbol, pure_some] at h
    obtain ⟨ps, c₁, hp, _, _, ⟨hb, rfl⟩, rfl, rfl⟩ := h
    exact .hash hc hp hb
  · cases h

theorem OperandReads.some {n : Nat} {c c' : Cursor} {e : Expr} (h : OperandReads n c e c') :
    (Production.operand (n + 1)).outcome c = (.some e, c') := by
  cases h with
  | ident h => simp [operand, h]
  | int h hd =>
    rw [operand, outcome_cur_bind, h]
    exact integer_some.mpr ⟨hd, rfl, rfl⟩
  | string h => simp [operand, h]
  | yes h => simp [operand, h]
  | no h => simp [operand, h]
  | unary ho h he =>
    rcases ho with rfl | rfl <;>
      simp [operand, outcome_bind, h, he, Operator.symbol, -bind_pure_comp]
  | group h he hc =>
    simp [operand, outcome_bind, outcome_expect_symbol, h, he, hc, -bind_pure_comp]
  | cond h ho ht hc hb hy he =>
    simp [operand, outcome_bind, outcome_expect_symbol, h, ho, ht, hc, hb, hy, he, -bind_pure_comp]
  | condElse h ho ht hc hb hy he hb' hn =>
    simp [operand, outcome_bind, outcome_expect_symbol, h, ho, ht, hc, hb, hy, he, hb', hn,
      -bind_pure_comp]
  | fn h ho hp hb hs =>
    have hp := listed_some.mpr hp
    simp [operand, outcome_bind, outcome_expect_symbol, h, ho, hp, hb, hs, -bind_pure_comp]
  | array h hi =>
    have hi := listed_some.mpr hi
    unfold argument at hi
    simp [operand, outcome_bind, h, hi, -bind_pure_comp]
  | hash h hp hc =>
    simp [operand, outcome_bind, outcome_expect_symbol, h, hp, hc, -bind_pure_comp]

theorem operand_some {n : Nat} {c c' : Cursor} {e : Expr} :
    (operand (n + 1)).outcome c = (some e, c') ↔ OperandReads n c e c' :=
  ⟨operandReads_of_some, OperandReads.some⟩

inductive PairsReads (n : Nat) (c : Cursor) : List (Expr × Expr) → Cursor → Prop
  | done (h : c.peek = .symbol .rbrace) : PairsReads n c [] c
  | last {k v ps c₁ c₂ c'} (h : c.peek ≠ .symbol .rbrace)
      (hk : (expression n .lowest).outcome c.advance = (some k, c₁))
      (hc : c₁.peek = .symbol .colon)
      (hv : (expression n .lowest).outcome c₁.advance.advance = (some v, c₂))
      (hb : c₂.peek = .symbol .rbrace) (hp : (pairs n).outcome c₂ = (some ps, c')) :
      PairsReads n c ((k, v) :: ps) c'
  | pair {k v ps c₁ c₂ c'} (h : c.peek ≠ .symbol .rbrace)
      (hk : (expression n .lowest).outcome c.advance = (some k, c₁))
      (hc : c₁.peek = .symbol .colon)
      (hv : (expression n .lowest).outcome c₁.advance.advance = (some v, c₂))
      (hb : c₂.peek = .symbol .comma) (hp : (pairs n).outcome c₂.advance = (some ps, c')) :
      PairsReads n c ((k, v) :: ps) c'

theorem pairs_some {n : Nat} {c c' : Cursor} {ps : List (Expr × Expr)} :
    (pairs (n + 1)).outcome c = (some ps, c') ↔ PairsReads n c ps c' := by
  constructor
  · intro h
    simp only [pairs, outcome_peek_bind, outcome_ite] at h
    split at h
    · rename_i hc
      cases h
      exact .done hc
    · rename_i hc
      simp only [outcome_advance_bind, outcome_peek_bind, outcome_ite, bind_some, expect_symbol,
        ite_not] at h
      obtain ⟨k, c₁, hk, _, _, ⟨hp, rfl⟩, v, c₂, hv, h⟩ := h
      split at h
      · rename_i hb
        simp only [bind_some, pure_some] at h
        obtain ⟨ps, _, hps, rfl, rfl⟩ := h
        exact .last hc hk hp hv hb hps
      · rename_i hb
        simp only [bind_some, expect_symbol, pure_some] at h
        obtain ⟨_, _, ⟨hb, rfl⟩, ps, _, hps, rfl, rfl⟩ := h
        exact .pair hc hk hp hv hb hps
  · intro h
    cases h with
    | done h => simp [pairs, h]
    | last h hk hc hv hb hp =>
      simp [pairs, outcome_bind, outcome_expect_symbol, h, hk, hc, hv, hb, hp, -bind_pure_comp]
    | pair h hk hc hv hb hp =>
      simp [pairs, outcome_bind, outcome_expect_symbol, h, hk, hc, hv, hb, hp, -bind_pure_comp]

end Production

end MonkeyLang
