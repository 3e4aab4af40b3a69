import MonkeyLang.Proofs.Grammar
import MonkeyLang.Proofs.Parsing.Accounting

namespace MonkeyLang

open Phrase (Spans Parted level)

namespace Cursor

theorem tokens_of_cur {c : Cursor} {t : Token} (h : c.cur = t) (ht : t ≠ .eof) :
    c.tokens = t :: c.advance.tokens := by
  rw [tokens_advance (h ▸ ht), h]

theorem tokens_of_peek {c : Cursor} {t : Token} (h : c.peek = t) (ht : t ≠ .eof) :
    c.advance.tokens = t :: c.advance.advance.tokens :=
  tokens_of_cur (c := c.advance) h ht

theorem tokens_symbol {c : Cursor} {s : Symbol} (h : c.peek = .symbol s) :
    c.advance.tokens = .symbol s :: c.advance.advance.tokens :=
  tokens_of_peek h (by simp)

theorem parted_of_peek {c : Cursor} (h : c.peek.precedence.rank = 0) :
    Parted c.advance.tokens := by
  intro t ht
  have hp : c.peek = t := by
    rw [peek_eq, List.headD_eq_head?_getD, Option.mem_def.mp ht, Option.getD_some]
  intro hm
  rw [hp] at h
  simp at hm
  rcases hm with rfl | rfl | rfl <;>
    simp [Token.precedence, Symbol.precedence, Precedence.rank] at h

end Cursor

namespace Production

theorem more_names {n : Nat} {c c' : Cursor} {xs : List String}
    (h : (more expectName n).outcome c = (some xs, c')) :
    c.advance.tokens = (xs.flatMap fun y => [.symbol .comma, .ident y]) ++ c'.advance.tokens := by
  induction n generalizing c xs with
  | zero => cases h
  | succ n ih =>
    cases more_some.mp h with
    | done _ => rfl
    | item hp hx hxs =>
      obtain ⟨hy, rfl⟩ := expectName_some.mp hx
      rw [Cursor.tokens_symbol hp, Cursor.tokens_of_peek hy (by simp), ih hxs]
      rfl

theorem listed_names {n : Nat} {c c' : Cursor} {xs : List String}
    (h : ListReads expectName .rparen n c xs c') :
    c.advance.tokens = Phrase.names xs ++ .symbol .rparen :: c'.advance.tokens := by
  cases h with
  | empty h => exact Cursor.tokens_symbol h
  | items _ hx hxs hc =>
    obtain ⟨hy, rfl⟩ := expectName_some.mp hx
    rw [Cursor.tokens_of_peek hy (by simp), more_names hxs, Cursor.tokens_symbol hc,
      Phrase.names_cons]
    rfl

/-- What every production gives spans the tokens it read, as long as no statement was left out. -/
structure Sound (n : Nat) : Prop where
  statements : ∀ {ends c b c'}, c.Aligned → (statements n ends).outcome c = (some b, c') →
    c'.skipped ≤ c.skipped → Spans Parted (.stmts b) c.tokens c'.tokens ∧ ends c'.cur = true
  statement : ∀ {c s c'}, c.Aligned → (statement n).outcome c = (some s, c') →
    c'.skipped ≤ c.skipped →
      Spans Parted (.stmt s) c.tokens (.symbol .semicolon :: c'.advance.tokens) ∨
        Spans Parted (.stmt s) c.tokens c'.advance.tokens ∧ Parted c'.advance.tokens
  expression : ∀ {p c e c'}, c.Aligned → (expression n p).outcome c = (some e, c') →
    c'.skipped ≤ c.skipped →
      Spans Parted (level (min (p.rank + 1) 5) e) c.tokens c'.advance.tokens ∧
        c'.peek.precedence.rank ≤ p.rank
  continuation : ∀ {p left ts k c e c'}, c.Aligned →
    (continuation n p left).outcome c = (some e, c') → c'.skipped ≤ c.skipped →
    Spans Parted (level k left) ts c.advance.tokens → min (p.rank + 1) 5 ≤ k →
    c.peek.precedence.rank ≤ k →
      Spans Parted (level (min (p.rank + 1) 5) e) ts c'.advance.tokens ∧
        c'.peek.precedence.rank ≤ p.rank
  extension : ∀ {left ts k c e c'}, c.Aligned → (extension n left).outcome c = (some e, c') →
    c'.skipped ≤ c.skipped → Spans Parted (level k left) ts c.tokens →
    0 < c.cur.precedence.rank → c.cur.precedence.rank ≤ k →
      ∃ k', Spans Parted (level k' e) ts c'.advance.tokens ∧ c.cur.precedence.rank ≤ k' ∧
        c'.peek.precedence.rank ≤ k'
  operand : ∀ {c e c'}, c.Aligned → (operand n).outcome c = (some e, c') →
    c'.skipped ≤ c.skipped →
      ∃ k, 5 ≤ k ∧ Spans Parted (level k e) c.tokens c'.advance.tokens ∧
        c'.peek.precedence.rank ≤ k
  pairs : ∀ {c ps c'}, c.Aligned → (pairs n).outcome c = (some ps, c') →
    c'.skipped ≤ c.skipped → Spans Parted (.pairs ps) c.advance.tokens c'.advance.tokens

theorem sound_zero : Sound 0 where
  statements _ h := by cases h
  statement _ h := by cases h
  expression _ h := by cases h
  continuation _ h := by cases h
  extension _ h := by cases h
  operand _ h := by cases h
  pairs _ h := by cases h

variable {n : Nat} {c c' : Cursor} {e : Expr}

theorem Sound.expr (ih : Sound n) (hc : c.Aligned)
    (h : (Production.expression n .lowest).outcome c = (some e, c'))
    (hk : c'.skipped ≤ c.skipped) : Spans Parted (.expr e) c.tokens c'.advance.tokens :=
  (ih.expression hc h hk).1

theorem Sound.block (ih : Sound n) {b : List Stmt} (hc : c.Aligned) (hb : c.peek = .symbol .lbrace)
    (h : (Production.statements n endsBlock).outcome c.advance.advance = (some b, c'))
    (hk : c'.skipped ≤ c.skipped) : Spans Parted (.block b) c.advance.tokens c'.advance.tokens := by
  have ha := hc.advance.advance
  obtain ⟨hs, he⟩ := ih.statements ha h hk
  have ha' := ((moves_statements n endsBlock).reaches h).aligned ha
  rw [Cursor.tokens_symbol hb]
  simp only [endsBlock, Bool.or_eq_true, decide_eq_true_eq] at he
  rcases he with he | he
  · rw [Cursor.tokens_of_cur he (by simp)] at hs
    exact .closed hs
  · have hn : c'.advance.tokens = [] := Cursor.tokens_eq_nil.mpr (ha'.peek he)
    rw [Cursor.tokens_eq_nil.mpr he] at hs
    rw [hn]
    exact .unclosed hs

theorem Sound.more_arguments (ih : Sound n) {m : Nat} {es : List Expr} (hc : c.Aligned)
    (h : (more (argument n) m).outcome c = (some es, c')) (hk : c'.skipped ≤ c.skipped) :
    Spans Parted (.tail es) c.advance.tokens c'.advance.tokens := by
  induction m generalizing c es with
  | zero => cases h
  | succ m hm =>
    cases more_some.mp h with
    | done _ => exact .tailNil
    | item hp hx hxs =>
      have hr := (moves_argument n).reaches hx
      have hs := hr.skipped_le
      have hs' := (((moves_argument n).more m).reaches hxs).skipped_le
      simp only [Cursor.skipped_advance] at hs
      have he := ih.expr hc.advance.advance (argument_some.mp hx)
        (by simp only [Cursor.skipped_advance]; omega)
      rw [Cursor.tokens_symbol hp]
      exact .tailCons he (hm (hr.aligned hc.advance) hxs (by omega))

theorem Sound.arguments (ih : Sound n) {es : List Expr} {close : Symbol} (hc : c.Aligned)
    (h : ListReads (argument n) close n c es c') (hk : c'.skipped ≤ c.skipped) :
    Spans Parted (.list es) c.advance.tokens (.symbol close :: c'.advance.tokens) := by
  cases h with
  | empty h =>
    rw [Cursor.tokens_symbol h]
    exact .listNil
  | items _ hx hxs hp =>
    have hr := (moves_argument n).reaches hx
    have hs := hr.skipped_le
    have hs' := (((moves_argument n).more n).reaches hxs).skipped_le
    simp only [Cursor.skipped_advance] at hk
    have he := ih.expr hc.advance (argument_some.mp hx)
      (by simp only [Cursor.skipped_advance]; omega)
    rw [← Cursor.tokens_symbol hp]
    exact .listCons he (ih.more_arguments (hr.aligned hc) hxs (by omega))

theorem pairs_of_brace {ps : List (Expr × Expr)} (hb : c.peek = .symbol .rbrace)
    (h : (pairs n).outcome c = (some ps, c')) : ps = [] ∧ c' = c := by
  cases n with
  | zero => cases h
  | succ n =>
    cases pairs_some.mp h with
    | done _ => exact ⟨rfl, rfl⟩
    | last hb' => exact absurd hb hb'
    | pair hb' => exact absurd hb hb'

theorem Sound.pair (ih : Sound n) {k v : Expr} {c₁ : Cursor} (hc : c.Aligned)
    (hk : (Production.expression n .lowest).outcome c.advance = (some k, c₁))
    (hp : c₁.peek = .symbol .colon)
    (hv : (Production.expression n .lowest).outcome c₁.advance.advance = (some v, c'))
    (hs : c'.skipped ≤ c.skipped) :
    Spans Parted (.pair k v) c.advance.tokens c'.advance.tokens := by
  have hr := (moves_expression n .lowest).reaches hk
  have hs₁ := hr.skipped_le
  have hs₂ := ((moves_expression n .lowest).reaches hv).skipped_le
  simp only [Cursor.skipped_advance] at hs₁ hs₂
  have hks := ih.expr hc.advance hk (by simp only [Cursor.skipped_advance]; omega)
  have hvs := ih.expr (hr.aligned hc.advance).advance.advance hv
    (by simp only [Cursor.skipped_advance]; omega)
  rw [Cursor.tokens_symbol hp] at hks
  exact .pair hks hvs

theorem Sound.cond (ih : Sound n) (hc : c.Aligned) {test : Expr} {yes : List Stmt}
    {c₁ c₂ : Cursor} (h : c.cur = .keyword .ifKey) (ho : c.peek = .symbol .lparen)
    (ht : (Production.expression n .lowest).outcome c.advance.advance = (some test, c₁))
    (hp : c₁.peek = .symbol .rparen) (hb : c₁.advance.peek = .symbol .lbrace)
    (hy : (Production.statements n endsBlock).outcome c₁.advance.advance.advance = (some yes, c₂))
    (hk : c₂.skipped ≤ c.skipped) :
    ∃ ts mid, c.tokens = .keyword .ifKey :: .symbol .lparen :: ts ∧
      Spans Parted (.expr test) ts (.symbol .rparen :: mid) ∧
      Spans Parted (.block yes) mid c₂.advance.tokens ∧ c₂.Aligned := by
  have hr := (moves_expression n .lowest).reaches ht
  have hr' := (moves_statements n endsBlock).reaches hy
  have hs := hr.skipped_le
  have hs' := hr'.skipped_le
  simp only [Cursor.skipped_advance] at hs hs'
  have ha := hr.aligned hc.advance.advance
  have hts := ih.expr hc.advance.advance ht (by simp only [Cursor.skipped_advance]; omega)
  have hys := ih.block ha.advance hb hy (by simp only [Cursor.skipped_advance]; omega)
  refine ⟨_, _, ?_, Cursor.tokens_symbol hp ▸ hts, hys, hr'.aligned ha.advance.advance.advance⟩
  rw [Cursor.tokens_of_cur h (by simp), Cursor.tokens_symbol ho]

theorem rank_le_suffixed (c : Cursor) : c.peek.precedence.rank ≤ 7 := by
  cases c.peek.precedence <;> simp [Precedence.rank]

theorem Sound.operand_succ (ih : Sound n) (hc : c.Aligned)
    (hg : (Production.operand (n + 1)).outcome c = (some e, c')) (hk : c'.skipped ≤ c.skipped) :
    ∃ k, 5 ≤ k ∧ Spans Parted (level k e) c.tokens c'.advance.tokens ∧
      c'.peek.precedence.rank ≤ k := by
  have atom (ha : Spans Parted (.atom e) c.tokens c'.advance.tokens) :
      ∃ k, 5 ≤ k ∧ Spans Parted (level k e) c.tokens c'.advance.tokens ∧
        c'.peek.precedence.rank ≤ k :=
    ⟨7, by decide, .atom ha, rank_le_suffixed c'⟩
  cases operand_some.mp hg with
  | ident h => exact atom (Cursor.tokens_of_cur h (by simp) ▸ .ident)
  | int h hd => exact atom (Cursor.tokens_of_cur h (by simp) ▸ .int hd)
  | string h => exact atom (Cursor.tokens_of_cur h (by simp) ▸ .string)
  | yes h => exact atom (Cursor.tokens_of_cur h (by simp) ▸ .yes)
  | no h => exact atom (Cursor.tokens_of_cur h (by simp) ▸ .no)
  | unary ho h he =>
    obtain ⟨hs, hp⟩ := ih.expression hc.advance he hk
    exact ⟨5, Nat.le_refl _, Cursor.tokens_of_cur h (by simp) ▸ .unary ho hs, hp⟩
  | group h he hp =>
    have hs := ih.expr hc.advance he hk
    rw [Cursor.tokens_symbol hp] at hs
    exact atom (Cursor.tokens_of_cur h (by simp) ▸ .group hs)
  | cond h ho ht hp hb hy he =>
    obtain ⟨ts, mid, hts, hs, hys, -⟩ := ih.cond hc h ho ht hp hb hy hk
    exact atom (hts ▸ .cond hs hys)
  | condElse h ho ht hp hb hy he hb' hn =>
    have hs₃ := ((moves_statements n endsBlock).reaches hn).skipped_le
    obtain ⟨ts, mid, hts, hs, hys, ha⟩ := ih.cond hc h ho ht hp hb hy (Nat.le_trans hs₃ hk)
    have hs₂ := ((moves_expression n .lowest).reaches ht).skipped_le
    have hs₂' := ((moves_statements n endsBlock).reaches hy).skipped_le
    simp only [Cursor.skipped_advance] at hs₂ hs₂'
    have hns := ih.block ha.advance hb' hn (by simp only [Cursor.skipped_advance]; omega)
    rw [Cursor.tokens_of_peek he (by simp)] at hys
    exact atom (hts ▸ .condElse hs hys hns)
  | fn h ho hp hb hs =>
    have hr := (moves_expectName.listed .rparen n).reaches (listed_some.mpr hp)
    have hk' := hr.skipped_le
    have hbs := ih.block (hr.aligned hc.advance) hb hs
      (by simp only [Cursor.skipped_advance] at hk'; omega)
    refine atom ?_
    rw [Cursor.tokens_of_cur h (by simp), Cursor.tokens_symbol ho, listed_names hp]
    exact .fn hbs
  | array h hi => exact atom (Cursor.tokens_of_cur h (by simp) ▸ .array (ih.arguments hc hi hk))
  | hash h hp hb =>
    have hs := ih.pairs hc hp hk
    rw [Cursor.tokens_symbol hb] at hs
    exact atom (Cursor.tokens_of_cur h (by simp) ▸ .hash hs)

theorem tier_of_operator (op : Operator) (h : 0 < op.symbol.precedence.rank) :
    ∃ t : Tier, op.symbol.precedence.rank = t.rank ∧ op ∈ t.operators := by
  cases op with
  | bang => exact absurd h (by decide)
  | eq | notEq => exact ⟨.equality, rfl, by decide⟩
  | lt | gt => exact ⟨.comparison, rfl, by decide⟩
  | plus | minus => exact ⟨.sum, rfl, by decide⟩
  | asterisk | slash => exact ⟨.product, rfl, by decide⟩

theorem Sound.extension_succ (ih : Sound n) {left : Expr} {ts : List Token} {k : Nat}
    (hc : c.Aligned) (hg : (Production.extension (n + 1) left).outcome c = (some e, c'))
    (hs : c'.skipped ≤ c.skipped) (hl : Spans Parted (level k left) ts c.tokens)
    (ho : 0 < c.cur.precedence.rank) (hk : c.cur.precedence.rank ≤ k) :
    ∃ k', Spans Parted (level k' e) ts c'.advance.tokens ∧ c.cur.precedence.rank ≤ k' ∧
      c'.peek.precedence.rank ≤ k' := by
  have hl := hl.loosen hk
  cases extension_some.mp hg with
  | call h ha =>
    rw [h] at hl ⊢
    rw [Cursor.tokens_of_cur h (by simp)] at hl
    exact ⟨7, .call hl (ih.arguments hc ha hs), by decide, rank_le_suffixed c'⟩
  | index h hi hp =>
    rw [h] at hl ⊢
    rw [Cursor.tokens_of_cur h (by simp)] at hl
    have his := ih.expr hc.advance hi hs
    rw [Cursor.tokens_symbol hp] at his
    exact ⟨7, .index hl his, by decide, rank_le_suffixed _⟩
  | @binary op r _ h hr =>
    rw [h] at hl ho ⊢
    rw [Cursor.tokens_of_cur h (by simp)] at hl
    obtain ⟨hrs, hp⟩ := ih.expression hc.advance hr hs
    obtain ⟨t, ht, hop⟩ := tier_of_operator op ho
    change Spans Parted (level op.symbol.precedence.rank left) _ _ at hl
    rw [ht] at hl hrs hp
    have hm : min (t.rank + 1) 5 = t.rank + 1 := by cases t <;> rfl
    rw [hm, Phrase.level_operand] at hrs
    rw [Phrase.level_rank] at hl
    refine ⟨t.rank, ?_, Nat.le_of_eq ht, hp⟩
    rw [Phrase.level_rank]
    exact .binary hop hl hrs

theorem Sound.continuation_succ (ih : Sound n) {p : Precedence} {left : Expr} {ts : List Token}
    {k : Nat} (hc : c.Aligned)
    (hg : (Production.continuation (n + 1) p left).outcome c = (some e, c'))
    (hs : c'.skipped ≤ c.skipped) (hl : Spans Parted (level k left) ts c.advance.tokens)
    (hp : min (p.rank + 1) 5 ≤ k) (hk : c.peek.precedence.rank ≤ k) :
    Spans Parted (level (min (p.rank + 1) 5) e) ts c'.advance.tokens ∧
      c'.peek.precedence.rank ≤ p.rank := by
  cases continuation_some.mp hg with
  | stop h => exact ⟨hl.loosen hp, Nat.le_of_not_lt h⟩
  | step h hx he =>
    have hr := (moves_extension n left).reaches hx
    have hs₁ := hr.skipped_le
    have hs₂ := ((moves_continuation n p _).reaches he).skipped_le
    have ho : p.rank < c.advance.cur.precedence.rank := h
    simp only [Cursor.skipped_advance] at hs₁
    obtain ⟨k', hls, hk', hpk⟩ := ih.extension hc.advance hx
      (by simp only [Cursor.skipped_advance]; omega) hl (Nat.zero_lt_of_lt ho) hk
    exact ih.continuation (hr.aligned hc.advance) he (by omega) hls (by omega) hpk

theorem Sound.ended (ih : Sound n) {s : Stmt} {ts : List Token} (hc : c.Aligned)
    (he : (Production.expression n .lowest).outcome c = (some e, c')) (hk : c'.skipped ≤ c.skipped)
    (hs : ∀ {rest}, Spans Parted (.expr e) c.tokens rest → Spans Parted (.stmt s) ts rest) :
    Spans Parted (.stmt s) ts (.symbol .semicolon :: c'.pastSemicolon.advance.tokens) ∨
      Spans Parted (.stmt s) ts c'.pastSemicolon.advance.tokens ∧
        Parted c'.pastSemicolon.advance.tokens := by
  obtain ⟨hes, hp⟩ := ih.expression hc he hk
  unfold Cursor.pastSemicolon
  split
  · rename_i hsc
    rw [Cursor.tokens_symbol hsc] at hes
    exact .inl (hs hes)
  · exact .inr ⟨hs hes, Cursor.parted_of_peek (Nat.le_zero.mp hp)⟩

theorem Sound.statement_succ (ih : Sound n) {s : Stmt} (hc : c.Aligned)
    (hg : (Production.statement (n + 1)).outcome c = (some s, c')) (hs : c'.skipped ≤ c.skipped) :
    Spans Parted (.stmt s) c.tokens (.symbol .semicolon :: c'.advance.tokens) ∨
      Spans Parted (.stmt s) c.tokens c'.advance.tokens ∧ Parted c'.advance.tokens := by
  cases statement_some.mp hg with
  | bind h hx ha he =>
    rw [Cursor.skipped_pastSemicolon] at hs
    refine ih.ended hc.advance.advance.advance he hs fun hes => ?_
    rw [Cursor.tokens_of_cur h (by simp), Cursor.tokens_of_peek hx (by simp),
      Cursor.tokens_symbol ha]
    exact .bind hes
  | ret h he =>
    rw [Cursor.skipped_pastSemicolon] at hs
    refine ih.ended hc.advance he hs fun hes => ?_
    rw [Cursor.tokens_of_cur h (by simp)]
    exact .ret hes
  | expr _ _ he =>
    rw [Cursor.skipped_pastSemicolon] at hs
    exact ih.ended hc he hs .expr

theorem Sound.statements_succ (ih : Sound n) {ends : Token → Bool} {b : List Stmt} (hc : c.Aligned)
    (hg : (Production.statements (n + 1) ends).outcome c = (some b, c'))
    (hk : c'.skipped ≤ c.skipped) :
    Spans Parted (.stmts b) c.tokens c'.tokens ∧ ends c'.cur = true := by
  cases statements_some.mp hg with
  | done h => exact ⟨.stmtsNil, h⟩
  | keep _ hs hb =>
    have hr := (moves_statement n).reaches hs
    have hs₁ := hr.skipped_le
    have hs₂ := ((moves_statements n ends).reaches hb).skipped_le
    rw [Cursor.skipped_advance] at hs₂
    obtain ⟨hbs, he⟩ := ih.statements (hr.aligned hc).advance hb
      (by rw [Cursor.skipped_advance]; omega)
    rcases ih.statement hc hs (by omega) with hss | ⟨hss, hp⟩
    · exact ⟨.stmtsClosed hss hbs, he⟩
    · exact ⟨.stmtsBare hss hp hbs, he⟩
  | @drop b c₁ _ _ hs hb =>
    have hs₁ := ((moves_statement n).reaches hs).skipped_le
    have hs₂ := ((moves_statements n ends).reaches hb).skipped_le
    rw [Cursor.skipped_advance, Cursor.skipped_skip] at hs₂
    omega

theorem Sound.pairs_succ (ih : Sound n) {ps : List (Expr × Expr)} (hc : c.Aligned)
    (hg : (Production.pairs (n + 1)).outcome c = (some ps, c')) (hk : c'.skipped ≤ c.skipped) :
    Spans Parted (.pairs ps) c.advance.tokens c'.advance.tokens := by
  cases pairs_some.mp hg with
  | done _ => exact .pairsNil
  | last _ hks hp hvs hb hps =>
    obtain ⟨rfl, rfl⟩ := pairs_of_brace hb hps
    exact .pairsLast (ih.pair hc hks hp hvs hk)
  | pair _ hks hp hvs hb hps =>
    have hrk := (moves_expression n .lowest).reaches hks
    have hrv := (moves_expression n .lowest).reaches hvs
    have ha := hrv.aligned (hrk.aligned hc.advance).advance.advance
    have hs₁ := hrk.skipped_le
    have hs₂ := hrv.skipped_le
    have hs₃ := ((moves_pairs n).reaches hps).skipped_le
    simp only [Cursor.skipped_advance] at hs₁ hs₂ hs₃
    have hpair := ih.pair hc hks hp hvs (by omega)
    rw [Cursor.tokens_symbol hb] at hpair
    exact .pairsCons hpair (ih.pairs ha.advance hps (by rw [Cursor.skipped_advance]; omega))

theorem sound_succ (ih : Sound n) : Sound (n + 1) where
  statements hc h hk := ih.statements_succ hc h hk
  statement hc h hk := ih.statement_succ hc h hk
  expression {p c e c'} hc h hk := by
    obtain ⟨left, c₁, ho, he⟩ := expression_some.mp h
    have hr := (moves_operand n).reaches ho
    have hs₁ := hr.skipped_le
    have hs₂ := ((moves_continuation n p left).reaches he).skipped_le
    obtain ⟨k, hk5, hls, hpk⟩ := ih.operand hc ho (by omega)
    exact ih.continuation (hr.aligned hc) he (by omega) hls (by omega) hpk
  continuation hc h hs hl hp hk := ih.continuation_succ hc h hs hl hp hk
  extension hc h hs hl ho hk := ih.extension_succ hc h hs hl ho hk
  operand hc h hk := ih.operand_succ hc h hk
  pairs hc h hk := ih.pairs_succ hc h hk

theorem sound (n : Nat) : Sound n := by
  induction n with
  | zero => exact sound_zero
  | succ n ih => exact sound_succ ih

end Production

end MonkeyLang
