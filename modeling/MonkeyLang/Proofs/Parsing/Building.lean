import MonkeyLang.Proofs.Parsing.Soundness
import MonkeyLang.Proofs.WellFormed

namespace MonkeyLang

def Token.Lexical : Token → Prop
  | .ident x => IsName x
  | .string t => '"' ∉ t.toList
  | _ => True

namespace Source

theorem lexical_ofWord {w : List Char} (hn : w ≠ []) (hw : ∀ c ∈ w, isLetter c = true) :
    (Token.ofWord (String.ofList w)).Lexical := by
  unfold Token.ofWord
  split
  · trivial
  · rename_i hf
    exact ⟨by rwa [String.toList_ofList], by rwa [String.toList_ofList], hf⟩

theorem lexical_token (c : Char) (cs : Source) : (token c cs).1.Lexical := by
  unfold token
  split
  · show '"' ∉ (String.ofList _).toList
    rw [String.toList_ofList]
    intro hm
    exact absurd (List.all_eq_true.mp List.all_takeWhile _ hm) (by simp)
  · split
    · rename_i hc
      refine lexical_ofWord (List.cons_ne_nil _ _) fun d hd => ?_
      rcases List.mem_cons.mp hd with rfl | hd
      · exact hc
      · exact List.all_eq_true.mp List.all_takeWhile _ hd
    · split
      · trivial
      · split <;> trivial

theorem lexical_next (cs : Source) : (next cs).1.Lexical := by
  unfold next
  split
  · trivial
  · exact lexical_token _ _

end Source

namespace Cursor

structure Lexical (c : Cursor) : Prop where
  cur : c.cur.Lexical
  peek : c.peek.Lexical

theorem lexical_ofSource (cs : Source) : (ofSource cs).Lexical :=
  ⟨Source.lexical_next _, Source.lexical_next _⟩

theorem Lexical.advance {c : Cursor} (h : c.Lexical) : c.advance.Lexical :=
  ⟨h.peek, Source.lexical_next _⟩

theorem Reaches.lexical {c c' : Cursor} (h : c.Reaches c') (hc : c.Lexical) : c'.Lexical := by
  induction h with
  | refl => exact hc
  | tail _ hs ih =>
    cases hs with
    | advance => exact ih.advance
    | report d => exact ⟨ih.cur, ih.peek⟩
    | skip => exact ⟨ih.cur, ih.peek⟩

theorem Lexical.name {c : Cursor} {x : String} (h : c.Lexical) (hx : c.peek = .ident x) :
    IsName x := by
  have hp := h.peek
  rwa [hx] at hp

end Cursor

namespace Production

theorem names_more {n : Nat} {c c' : Cursor} {xs : List String} (hc : c.Lexical)
    (h : (more expectName n).outcome c = (some xs, c')) : ∀ x ∈ xs, IsName x := by
  induction n generalizing c xs with
  | zero => cases h
  | succ n ih =>
    cases more_some.mp h with
    | done _ => simp
    | item hp hx hxs =>
      obtain ⟨hy, rfl⟩ := expectName_some.mp hx
      intro y hm
      rcases List.mem_cons.mp hm with rfl | hm
      · exact hc.advance.name hy
      · exact ih hc.advance.advance hxs y hm

theorem names_listed {n : Nat} {c c' : Cursor} {xs : List String} (hc : c.Lexical)
    (h : ListReads expectName .rparen n c xs c') : ∀ x ∈ xs, IsName x := by
  cases h with
  | empty _ => simp
  | items _ hx hxs _ =>
    obtain ⟨hy, rfl⟩ := expectName_some.mp hx
    intro y hm
    rcases List.mem_cons.mp hm with rfl | hm
    · exact hc.name hy
    · exact names_more hc.advance hxs y hm

/-- Whatever is noted or left out on the way, every production gives something well-formed. -/
structure Building (n : Nat) : Prop where
  statements : ∀ {ends c b c'}, c.Lexical → (statements n ends).outcome c = (some b, c') →
    WellFormedStmts b
  statement : ∀ {c s c'}, c.Lexical → (statement n).outcome c = (some s, c') → s.WellFormed
  expression : ∀ {p c e c'}, c.Lexical → (expression n p).outcome c = (some e, c') → e.WellFormed
  continuation : ∀ {p left c e c'}, c.Lexical → left.WellFormed →
    (continuation n p left).outcome c = (some e, c') → e.WellFormed
  extension : ∀ {left c e c'}, c.Lexical → left.WellFormed → 0 < c.cur.precedence.rank →
    (extension n left).outcome c = (some e, c') → e.WellFormed
  operand : ∀ {c e c'}, c.Lexical → (operand n).outcome c = (some e, c') → e.WellFormed
  pairs : ∀ {c ps c'}, c.Lexical → (pairs n).outcome c = (some ps, c') → WellFormedPairs ps

theorem building_zero : Building 0 where
  statements _ h := by cases h
  statement _ h := by cases h
  expression _ h := by cases h
  continuation _ _ h := by cases h
  extension _ _ _ h := by cases h
  operand _ h := by cases h
  pairs _ h := by cases h

variable {n : Nat} {c c' : Cursor} {e : Expr}

theorem Building.more_arguments (ih : Building n) {m : Nat} {es : List Expr} (hc : c.Lexical)
    (h : (more (argument n) m).outcome c = (some es, c')) : WellFormedExprs es := by
  induction m generalizing c es with
  | zero => cases h
  | succ m hm =>
    cases more_some.mp h with
    | done _ => trivial
    | item hp hx hxs =>
      have hr := (moves_argument n).reaches hx
      exact ⟨ih.expression hc.advance.advance (argument_some.mp hx), hm (hr.lexical hc.advance) hxs⟩

theorem Building.arguments (ih : Building n) {es : List Expr} {close : Symbol} (hc : c.Lexical)
    (h : ListReads (argument n) close n c es c') : WellFormedExprs es := by
  cases h with
  | empty _ => trivial
  | items _ hx hxs _ =>
    have hr := (moves_argument n).reaches hx
    exact ⟨ih.expression hc.advance (argument_some.mp hx), ih.more_arguments (hr.lexical hc) hxs⟩

theorem Building.cond (ih : Building n) {test : Expr} {yes : List Stmt} {c₁ c₂ : Cursor}
    (hc : c.Lexical)
    (ht : (Production.expression n .lowest).outcome c.advance.advance = (some test, c₁))
    (hy : (Production.statements n endsBlock).outcome c₁.advance.advance.advance = (some yes, c₂)) :
    test.WellFormed ∧ WellFormedStmts yes ∧ c₂.Lexical := by
  have h₁ := ((moves_expression n .lowest).reaches ht).lexical hc.advance.advance
  have h₂ := ((moves_statements n endsBlock).reaches hy).lexical h₁.advance.advance.advance
  exact ⟨ih.expression hc.advance.advance ht, ih.statements h₁.advance.advance.advance hy, h₂⟩

theorem Building.operand_succ (ih : Building n) (hc : c.Lexical)
    (hg : (Production.operand (n + 1)).outcome c = (some e, c')) : e.WellFormed := by
  have hcur := hc.cur
  cases operand_some.mp hg with
  | ident h => rwa [h] at hcur
  | @int d h hd =>
    have hv : (Int64.ofNat (digitsValue d)).toInt = digitsValue d := Int64.toInt_ofNat_of_lt hd
    show 0 ≤ (Int64.ofNat (digitsValue d)).toInt
    omega
  | string h => rwa [h] at hcur
  | yes h => trivial
  | no h => trivial
  | unary ho h he => exact ⟨ho, ih.expression hc.advance he⟩
  | group h he hp => exact ih.expression hc.advance he
  | cond h ho ht hp hb hy he =>
    obtain ⟨htest, hyes, -⟩ := ih.cond hc ht hy
    exact ⟨htest, hyes⟩
  | condElse h ho ht hp hb hy he hb' hn =>
    obtain ⟨htest, hyes, h₂⟩ := ih.cond hc ht hy
    exact ⟨htest, hyes, ih.statements h₂.advance.advance.advance hn⟩
  | fn h ho hp hb hs =>
    have h₁ := ((moves_expectName.listed .rparen n).reaches (listed_some.mpr hp)).lexical hc.advance
    exact ⟨names_listed hc.advance hp, ih.statements h₁.advance.advance hs⟩
  | array h hi => exact ih.arguments hc hi
  | hash h hp hb => exact ih.pairs hc hp

theorem Building.extension_succ (ih : Building n) {left : Expr} (hc : c.Lexical)
    (hl : left.WellFormed) (hk : 0 < c.cur.precedence.rank)
    (hg : (Production.extension (n + 1) left).outcome c = (some e, c')) : e.WellFormed := by
  cases extension_some.mp hg with
  | call h ha => exact ⟨hl, ih.arguments hc ha⟩
  | index h hi hp => exact ⟨hl, ih.expression hc.advance hi⟩
  | @binary op r _ h hr =>
    have hop : op ≠ .bang := by
      rintro rfl
      rw [h] at hk
      exact absurd hk (by decide)
    exact ⟨hop, hl, ih.expression hc.advance hr⟩

theorem Building.statement_succ (ih : Building n) {s : Stmt} (hc : c.Lexical)
    (hg : (Production.statement (n + 1)).outcome c = (some s, c')) : s.WellFormed := by
  cases statement_some.mp hg with
  | bind h hx ha he => exact ⟨hc.name hx, ih.expression hc.advance.advance.advance he⟩
  | ret h he => exact ih.expression hc.advance he
  | expr _ _ he => exact ih.expression hc he

theorem Building.statements_succ (ih : Building n) {ends : Token → Bool} {b : List Stmt}
    (hc : c.Lexical) (hg : (Production.statements (n + 1) ends).outcome c = (some b, c')) :
    WellFormedStmts b := by
  cases statements_some.mp hg with
  | done _ => trivial
  | keep _ hs hb =>
    have h₁ := ((moves_statement n).reaches hs).lexical hc
    exact ⟨ih.statement hc hs, ih.statements h₁.advance hb⟩
  | drop _ hs hb =>
    have h₁ := Cursor.Reaches.lexical (((moves_statement n).reaches hs).tail .skip) hc
    exact ih.statements h₁.advance hb

theorem Building.pair (ih : Building n) {k v : Expr} {c₁ : Cursor} (hc : c.Lexical)
    (hk : (Production.expression n .lowest).outcome c.advance = (some k, c₁))
    (hv : (Production.expression n .lowest).outcome c₁.advance.advance = (some v, c')) :
    k.WellFormed ∧ v.WellFormed ∧ c'.Lexical := by
  have h₁ := ((moves_expression n .lowest).reaches hk).lexical hc.advance
  have h₂ := ((moves_expression n .lowest).reaches hv).lexical h₁.advance.advance
  exact ⟨ih.expression hc.advance hk, ih.expression h₁.advance.advance hv, h₂⟩

theorem Building.pairs_succ (ih : Building n) {ps : List (Expr × Expr)} (hc : c.Lexical)
    (hg : (Production.pairs (n + 1)).outcome c = (some ps, c')) : WellFormedPairs ps := by
  cases pairs_some.mp hg with
  | done _ => trivial
  | last _ hk hp hv hb hps =>
    obtain ⟨hkw, hvw, h₂⟩ := ih.pair hc hk hv
    exact ⟨hkw, hvw, ih.pairs h₂ hps⟩
  | pair _ hk hp hv hb hps =>
    obtain ⟨hkw, hvw, h₂⟩ := ih.pair hc hk hv
    exact ⟨hkw, hvw, ih.pairs h₂.advance hps⟩

theorem building_succ (ih : Building n) : Building (n + 1) where
  statements hc h := ih.statements_succ hc h
  statement hc h := ih.statement_succ hc h
  expression hc h := by
    obtain ⟨left, c₁, ho, he⟩ := expression_some.mp h
    exact ih.continuation (((moves_operand n).reaches ho).lexical hc) (ih.operand hc ho) he
  continuation {p left c e c'} hc hl h := by
    cases continuation_some.mp h with
    | stop _ => exact hl
    | step hp hx he =>
      have h₁ := ((moves_extension n left).reaches hx).lexical hc.advance
      have ho : p.rank < c.advance.cur.precedence.rank := hp
      exact ih.continuation h₁ (ih.extension hc.advance hl (Nat.zero_lt_of_lt ho) hx) he
  extension hc hl hk h := ih.extension_succ hc hl hk h
  operand hc h := ih.operand_succ hc h
  pairs hc h := ih.pairs_succ hc h

theorem building (n : Nat) : Building n := by
  induction n with
  | zero => exact building_zero
  | succ n ih => exact building_succ ih

end Production

end MonkeyLang
