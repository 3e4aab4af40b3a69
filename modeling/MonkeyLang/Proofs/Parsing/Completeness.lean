import MonkeyLang.Proofs.Parsing.Soundness

namespace MonkeyLang

open Phrase (Spans Parted Begins)

namespace Cursor

theorem cur_of_tokens {c : Cursor} {t : Token} {us : List Token} (h : c.tokens = t :: us) :
    c.cur = t := by
  rw [cur_eq, h, List.headD_cons]

theorem peek_of_tokens {c : Cursor} {t : Token} {us : List Token} (h : c.advance.tokens = t :: us) :
    c.peek = t :=
  cur_of_tokens (c := c.advance) h

theorem Aligned.rest {c : Cursor} {t : Token} {us : List Token} (hc : c.Aligned)
    (h : c.tokens = t :: us) : c.advance.tokens = us := by
  rw [hc.tail, h, List.tail_cons]

/-- Without a complaint, reading got from one cursor to another where `rest` is left. -/
structure Lands (c : Cursor) (rest : List Token) (c' : Cursor) : Prop where
  aligned : c'.Aligned
  tokens : c'.advance.tokens = rest
  quiet : c'.diagnostics = c.diagnostics

variable {c c₁ c' : Cursor} {rest : List Token}

theorem Lands.after (h : c₁.Lands rest c') (hd : c₁.diagnostics = c.diagnostics) :
    c.Lands rest c' :=
  ⟨h.aligned, h.tokens, h.quiet.trans hd⟩

theorem Lands.peek (h : c.Lands rest c') : c'.peek = rest.headD .eof := by
  rw [peek_eq, h.tokens]

theorem Lands.advance {t : Token} (h : c.Lands (t :: rest) c') : c.Lands rest c'.advance :=
  ⟨h.aligned.advance, h.aligned.advance.rest h.tokens, h.quiet⟩

end Cursor

namespace Production

open Cursor (Lands)

/-- What an expression of some strength needs to be read from `ts` down to `rest`: operators of at
most `bound` asked for, and none above `follow` next. -/
def Starts (bound follow : Nat) (e : Expr) (ts rest : List Token) : Prop :=
  rest.headD .eof ≠ .keyword .elseKey → (rest.headD .eof).precedence.rank ≤ follow →
    ∀ (p : Precedence) (c : Cursor) (n : Nat), p.rank ≤ bound → c.Aligned → c.tokens = ts →
      4 * ts.length + 2 ≤ n → ∃ c' m,
        (expression n p).outcome c = (continuation m p e).outcome c' ∧ c.Lands rest c' ∧
          4 * rest.length + 4 ≤ m

/-- Nothing that follows continues an expression. -/
structure Loose (rest : List Token) : Prop where
  noElse : rest.headD .eof ≠ .keyword .elseKey
  lowest : (rest.headD .eof).precedence.rank = 0

theorem continuation_stops {n : Nat} {p : Precedence} {e : Expr} {c : Cursor}
    (h : c.peek.precedence.rank ≤ p.rank) : (continuation (n + 1) p e).outcome c = (some e, c) :=
  continuation_some.mpr (.stop (Nat.not_lt.mpr h))

variable {bound follow : Nat} {e : Expr} {ts rest : List Token}

theorem Starts.mono {bound' follow' : Nat} (h : Starts bound follow e ts rest)
    (hb : bound' ≤ bound) (hf : follow' ≤ follow) : Starts bound' follow' e ts rest :=
  fun hn hl p c n hp => h hn (Nat.le_trans hl hf) p c n (Nat.le_trans hp hb)

theorem Starts.upTo {p : Precedence} (h : Starts bound follow e ts rest)
    (hn : rest.headD .eof ≠ .keyword .elseKey) (hl : (rest.headD .eof).precedence.rank ≤ p.rank)
    (hf : p.rank ≤ follow) (hb : p.rank ≤ bound) {c : Cursor} {n : Nat} (hc : c.Aligned)
    (ht : c.tokens = ts) (hd : 4 * ts.length + 2 ≤ n) :
    ∃ c', (expression n p).outcome c = (some e, c') ∧ c.Lands rest c' := by
  obtain ⟨c', m, he, hr, hm⟩ := h hn (Nat.le_trans hl hf) p c n hb hc ht hd
  obtain ⟨m, rfl⟩ : ∃ k, m = k + 1 := ⟨m - 1, by omega⟩
  refine ⟨c', ?_, hr⟩
  rw [he, continuation_stops]
  rwa [hr.peek]

theorem Starts.whole (h : Starts bound follow e ts rest) (hl : Loose rest) {c : Cursor} {n : Nat}
    (hc : c.Aligned) (ht : c.tokens = ts) (hd : 4 * ts.length + 2 ≤ n) :
    ∃ c', (expression n .lowest).outcome c = (some e, c') ∧ c.Lands rest c' :=
  h.upTo (p := .lowest) hl.noElse (Nat.le_of_eq hl.lowest) (Nat.zero_le _) (Nat.zero_le _) hc ht hd

/-- How the parser reads a phrase that spans `ts` down to `rest`. -/
def Reads : Phrase → List Token → List Token → Prop
  | .tier t e, ts, rest => Starts (t.rank - 1) t.rank e ts rest
  | .unary e, ts, rest => Starts 5 5 e ts rest
  | .suffixed e, ts, rest => Starts 5 7 e ts rest
  | .atom e, ts, rest => rest.headD .eof ≠ .keyword .elseKey → ∀ (c : Cursor) (n : Nat),
      c.Aligned → c.tokens = ts → 4 * ts.length + 1 ≤ n →
        ∃ c', (operand n).outcome c = (some e, c') ∧ c.Lands rest c'
  | .list es, ts, rest =>
    ∀ (close : Symbol) (rest' : List Token), close = .rparen ∨ close = .rbracket →
      rest = .symbol close :: rest' → ∀ (c : Cursor) (n : Nat), c.Aligned → c.advance.tokens = ts →
        4 * ts.length + 2 ≤ n →
          ∃ c', ListReads (argument n) close n c es c' ∧ c.Lands rest' c'
  | .tail es, ts, rest => Loose rest → rest.headD .eof ≠ .symbol .comma →
      ∀ (c : Cursor) (n m : Nat), c.Aligned → c.advance.tokens = ts → 4 * ts.length ≤ n →
        ts.length < m → ∃ c', (more (argument n) m).outcome c = (some es, c') ∧ c.Lands rest c'
  | .pair k v, ts, rest => Loose rest → ∀ (c : Cursor) (n : Nat), c.Aligned →
      c.advance.tokens = ts → 4 * ts.length + 2 ≤ n → ∃ c₁ c',
        (expression n .lowest).outcome c.advance = (some k, c₁) ∧ c₁.peek = .symbol .colon ∧
        (expression n .lowest).outcome c₁.advance.advance = (some v, c') ∧ c.Lands rest c'
  | .pairs ps, ts, rest => rest.headD .eof = .symbol .rbrace → ∀ (c : Cursor) (n : Nat), c.Aligned →
      c.advance.tokens = ts → 4 * ts.length + 3 ≤ n →
        ∃ c', (pairs n).outcome c = (some ps, c') ∧ c.Lands rest c'
  | .stmt s, ts, rest => Loose rest → ∀ (c : Cursor) (n : Nat), c.Aligned → c.tokens = ts →
      4 * ts.length + 3 ≤ n →
        ∃ c', (statement n).outcome c = (some s, c'.pastSemicolon) ∧ c.Lands rest c'
  | .stmts b, ts, rest => endsBlock (rest.headD .eof) = true → ∀ (ends : Token → Bool),
      ends (rest.headD .eof) = true → (∀ t : Token, t.Leads → ends t = false) →
      ∀ (c : Cursor) (n : Nat), c.Aligned → c.tokens = ts → 4 * ts.length + 4 ≤ n →
        ∃ c', (statements n ends).outcome c = (some b, c') ∧ c'.Aligned ∧ c'.tokens = rest ∧
          c'.diagnostics = c.diagnostics
  | .block b, ts, rest => ∀ (c : Cursor) (n : Nat), c.Aligned → c.advance.tokens = ts →
      4 * ts.length ≤ n → ∃ c', c.peek = .symbol .lbrace ∧
        (statements n endsBlock).outcome c.advance.advance = (some b, c') ∧ c.Lands rest c'

theorem reads_operand {t : Tier} (h : Reads (t.operand e) ts rest) :
    Starts t.rank (t.rank + 1) e ts rest := by
  cases t with
  | equality | comparison | sum => exact h
  | product => exact Starts.mono h (by decide) (by decide)

theorem rank_of_operator {t : Tier} {op : Operator} (h : op ∈ t.operators) :
    op.symbol.precedence.rank = t.rank := by
  cases t with
  | equality | comparison | sum | product =>
    simp only [Tier.operators, List.mem_cons, List.not_mem_nil, or_false] at h
    rcases h with rfl | rfl <;> rfl

theorem loose_of_head {s : Symbol} (h : rest.headD .eof = .symbol s) (hs : s.precedence.rank = 0) :
    Loose rest :=
  ⟨by rw [h]; simp, by rw [h]; exact hs⟩

theorem loose_symbol {s : Symbol} (h : s.precedence.rank = 0) (rest : List Token) :
    Loose (.symbol s :: rest) :=
  loose_of_head rfl h

theorem starts_atom (h : Reads (.atom e) ts rest) (hlt : rest.length < ts.length) :
    Starts 5 7 e ts rest := by
  intro hn _ p c n _ hc ht hd
  obtain ⟨n, rfl⟩ : ∃ k, n = k + 1 := ⟨n - 1, by omega⟩
  obtain ⟨c', ho, hr⟩ := h hn c n hc ht (by omega)
  refine ⟨c', n, ?_, hr, by omega⟩
  rw [expression, outcome_bind, ho]

theorem Starts.extend {longer : Expr} {mid : List Token} {s : Symbol}
    (h : Starts bound follow e ts (.symbol s :: mid)) (hs : bound < s.precedence.rank)
    (hf : s.precedence.rank ≤ follow) (follow' : Nat) (hlt : rest.length < mid.length + 1)
    (hx : rest.headD .eof ≠ .keyword .elseKey → (rest.headD .eof).precedence.rank ≤ follow' →
      ∀ (c : Cursor) (n : Nat), c.Aligned → c.cur = .symbol s → c.advance.tokens = mid →
      4 * mid.length + 5 ≤ n → ∃ c', (extension n e).outcome c = (some longer, c') ∧
        c.Lands rest c') :
    Starts bound follow' longer ts rest := by
  intro hn hl p c n hp hc ht hd
  obtain ⟨c₁, m, he, hr, hm⟩ := h (by simp) hf p c n hp hc ht hd
  rw [List.length_cons] at hm
  obtain ⟨m, rfl⟩ : ∃ k, m = k + 1 := ⟨m - 1, by omega⟩
  have hpk : c₁.peek = .symbol s := hr.peek
  have hmid : c₁.advance.advance.tokens = mid := hr.aligned.advance.rest hr.tokens
  obtain ⟨c', hx, hr'⟩ := hx hn hl c₁.advance m hr.aligned.advance hpk hmid (by omega)
  refine ⟨c', m, ?_, hr'.after hr.quiet, by omega⟩
  have hlow : p < c₁.peek.precedence := by
    rw [hpk]
    exact Nat.lt_of_le_of_lt hp hs
  rw [he, continuation]
  simp only [outcome_peek_bind, if_pos hlow, outcome_advance_bind]
  rw [outcome_bind, hx]

theorem reads_binary {t : Tier} {op : Operator} {l r : Expr} {mid : List Token}
    (ho : op ∈ t.operators) (hl : Reads (.tier t l) ts (.symbol op.symbol :: mid))
    (hr : Reads (t.operand r) mid rest) (hlt : rest.length < mid.length) :
    Reads (.tier t (.binary l op r)) ts rest := by
  have hrank := rank_of_operator ho
  have hpos : 0 < t.rank := by cases t <;> decide
  refine Starts.extend hl (by omega) (by omega) t.rank (by omega) ?_
  intro hn hf c n hc hcur hmid hd
  obtain ⟨n, rfl⟩ : ∃ k, n = k + 1 := ⟨n - 1, by omega⟩
  obtain ⟨c', he, hr'⟩ := (reads_operand hr).upTo (p := op.symbol.precedence) hn (by omega)
    (by omega) (by omega) hc.advance hmid (n := n) (by omega)
  exact ⟨c', extension_some.mpr (.binary hcur he), hr'.after rfl⟩

theorem reads_call {es : List Expr} {mid : List Token}
    (he : Reads (.suffixed e) ts (.symbol .lparen :: mid))
    (hl : Reads (.list es) mid (.symbol .rparen :: rest)) (hlt : rest.length < mid.length) :
    Reads (.suffixed (.call e es)) ts rest := by
  refine Starts.extend he (by decide) (by decide) 7 (by omega) ?_
  intro _ _ c n hc hcur hmid hd
  obtain ⟨n, rfl⟩ : ∃ k, n = k + 1 := ⟨n - 1, by omega⟩
  obtain ⟨c', ha, hr⟩ := hl .rparen rest (.inl rfl) rfl c n hc hmid (by omega)
  exact ⟨c', extension_some.mpr (.call hcur ha), hr⟩

theorem reads_index {i : Expr} {mid : List Token}
    (he : Reads (.suffixed e) ts (.symbol .lbracket :: mid))
    (hi : Reads (.expr i) mid (.symbol .rbracket :: rest)) (hlt : rest.length < mid.length) :
    Reads (.suffixed (.index e i)) ts rest := by
  refine Starts.extend he (by decide) (by decide) 7 (by omega) ?_
  intro _ _ c n hc hcur hmid hd
  obtain ⟨n, rfl⟩ : ∃ k, n = k + 1 := ⟨n - 1, by omega⟩
  obtain ⟨c', he, hr⟩ := Starts.whole hi (loose_symbol rfl _) hc.advance hmid (n := n) (by omega)
  exact ⟨c'.advance, extension_some.mpr (.index hcur he hr.peek), hr.advance.after rfl⟩

theorem reads_unary {op : Operator} (ho : op = .bang ∨ op = .minus) (h : Reads (.unary e) ts rest)
    (hlt : rest.length < ts.length) :
    Reads (.unary (.unary op e)) (.symbol op.symbol :: ts) rest := by
  intro hn hf p c n hp hc ht hd
  rw [List.length_cons] at hd
  obtain ⟨n, rfl⟩ : ∃ k, n = k + 2 := ⟨n - 2, by omega⟩
  obtain ⟨c', he, hr⟩ :=
    Starts.upTo (p := .unary) h hn hf (Nat.le_refl _) (Nat.le_refl _) hc.advance (hc.rest ht)
      (n := n) (by omega)
  refine ⟨c', n + 1, ?_, hr.after rfl, by omega⟩
  have hx := operand_some.mpr (.unary ho (Cursor.cur_of_tokens ht) he)
  rw [expression, outcome_bind, hx]

theorem reads_single {t : Token} (h : ∀ n c, c.cur = t → OperandReads n c e c) :
    Reads (.atom e) (t :: rest) rest := by
  intro _ c n hc ht hd
  obtain ⟨n, rfl⟩ : ∃ k, n = k + 1 := ⟨n - 1, by omega⟩
  exact ⟨c, operand_some.mpr (h n c (Cursor.cur_of_tokens ht)), hc, hc.rest ht, rfl⟩

theorem reads_group (h : Reads (.expr e) ts (.symbol .rparen :: rest)) :
    Reads (.atom e) (.symbol .lparen :: ts) rest := by
  intro _ c n hc ht hd
  rw [List.length_cons] at hd
  obtain ⟨n, rfl⟩ : ∃ k, n = k + 1 := ⟨n - 1, by omega⟩
  obtain ⟨c', he, hr⟩ :=
    Starts.whole h (loose_symbol rfl _) hc.advance (hc.rest ht) (n := n) (by omega)
  exact ⟨c'.advance, operand_some.mpr (.group (Cursor.cur_of_tokens ht) he hr.peek),
    hr.advance.after rfl⟩

theorem reads_test {test : Expr} {yes : List Stmt} {mid : List Token}
    (ht : Reads (.expr test) ts (.symbol .rparen :: mid)) (hy : Reads (.block yes) mid rest)
    (hlt : mid.length < ts.length) {c : Cursor} {n : Nat} (hc : c.Aligned)
    (hts : c.tokens = .keyword .ifKey :: .symbol .lparen :: ts) (hd : 4 * ts.length + 2 ≤ n) :
    c.peek = .symbol .lparen ∧ ∃ c₁ c₂,
      (expression n .lowest).outcome c.advance.advance = (some test, c₁) ∧
      c₁.peek = .symbol .rparen ∧ c₁.advance.peek = .symbol .lbrace ∧
      (statements n endsBlock).outcome c₁.advance.advance.advance = (some yes, c₂) ∧
      c.Lands rest c₂ := by
  have hp := hc.rest hts
  obtain ⟨c₁, he, hr⟩ :=
    Starts.whole ht (loose_symbol rfl _) hc.advance.advance (hc.advance.rest hp) (n := n) hd
  obtain ⟨c₂, hb, hs, hr'⟩ := hy c₁.advance n hr.advance.aligned hr.advance.tokens (by omega)
  exact ⟨Cursor.peek_of_tokens hp, c₁, c₂, he, hr.peek, hb, hs, hr'.after hr.quiet⟩

theorem reads_cond {test : Expr} {yes : List Stmt} {mid : List Token}
    (ht : Reads (.expr test) ts (.symbol .rparen :: mid)) (hy : Reads (.block yes) mid rest)
    (hlt : mid.length < ts.length) :
    Reads (.atom (.cond test yes none)) (.keyword .ifKey :: .symbol .lparen :: ts) rest := by
  intro hn c n hc hts hd
  simp only [List.length_cons] at hd
  obtain ⟨n, rfl⟩ : ∃ k, n = k + 1 := ⟨n - 1, by omega⟩
  obtain ⟨ho, c₁, c₂, he, hp, hb, hs, hr⟩ := reads_test ht hy hlt hc hts (n := n) (by omega)
  have hne : c₂.peek ≠ .keyword .elseKey := hr.peek ▸ hn
  exact ⟨c₂, operand_some.mpr (.cond (Cursor.cur_of_tokens hts) ho he hp hb hs hne), hr⟩

theorem reads_condElse {test : Expr} {yes no : List Stmt} {mid mid' : List Token}
    (ht : Reads (.expr test) ts (.symbol .rparen :: mid))
    (hy : Reads (.block yes) mid (.keyword .elseKey :: mid')) (hno : Reads (.block no) mid' rest)
    (hlt : mid.length < ts.length) (hlt' : mid'.length < mid.length) :
    Reads (.atom (.cond test yes (some no))) (.keyword .ifKey :: .symbol .lparen :: ts) rest := by
  intro _ c n hc hts hd
  simp only [List.length_cons] at hd
  obtain ⟨n, rfl⟩ : ∃ k, n = k + 1 := ⟨n - 1, by omega⟩
  obtain ⟨ho, c₁, c₂, he, hp, hb, hs, hr⟩ := reads_test ht hy hlt hc hts (n := n) (by omega)
  obtain ⟨c₃, hb', hs', hr'⟩ :=
    hno c₂.advance n hr.advance.aligned hr.advance.tokens (by omega)
  exact ⟨c₃, operand_some.mpr (.condElse (Cursor.cur_of_tokens hts) ho he hp hb hs hr.peek hb' hs'),
    hr'.after hr.quiet⟩

theorem reads_more_names (xs : List String) (h : rest.headD .eof ≠ .symbol .comma) {c : Cursor}
    {n : Nat} (hc : c.Aligned)
    (ht : c.advance.tokens = (xs.flatMap fun y => [.symbol .comma, .ident y]) ++ rest)
    (hn : xs.length < n) :
    ∃ c', (more expectName n).outcome c = (some xs, c') ∧ c.Lands rest c' := by
  induction xs generalizing c n with
  | nil =>
    obtain ⟨n, rfl⟩ : ∃ k, n = k + 1 := ⟨n - 1, by omega⟩
    have hp : c.peek ≠ .symbol .comma := by
      rw [Cursor.peek_eq, ht]
      exact h
    exact ⟨c, more_some.mpr (.done hp), hc, ht, rfl⟩
  | cons x xs ih =>
    rw [List.length_cons] at hn
    obtain ⟨n, rfl⟩ : ∃ k, n = k + 1 := ⟨n - 1, by omega⟩
    have ht₁ := hc.advance.rest ht
    have ht₂ := hc.advance.advance.rest ht₁
    obtain ⟨c', hxs, hr⟩ := ih hc.advance.advance ht₂ (n := n) (by omega)
    have hx := outcome_expectName (Cursor.peek_of_tokens ht₁)
    exact ⟨c', more_some.mpr (.item (Cursor.peek_of_tokens ht) hx hxs), hr.after rfl⟩

theorem length_names : ∀ xs : List String, xs.length ≤ (Phrase.names xs).length
  | [] => Nat.le_refl _
  | [_] => Nat.le_refl _
  | x :: y :: xs => by
    have h := length_names (y :: xs)
    simp only [Phrase.names, List.length_cons] at h ⊢
    omega

theorem reads_names (xs : List String) {c : Cursor} {n : Nat} (hc : c.Aligned)
    (ht : c.advance.tokens = Phrase.names xs ++ .symbol .rparen :: rest)
    (hn : (Phrase.names xs).length ≤ n) :
    ∃ c', ListReads expectName .rparen n c xs c' ∧ c.Lands rest c' := by
  cases xs with
  | nil =>
    have hr : c.Lands rest c.advance := ⟨hc.advance, hc.advance.rest ht, rfl⟩
    exact ⟨c.advance, .empty (Cursor.peek_of_tokens ht), hr⟩
  | cons x xs =>
    have hl := length_names (x :: xs)
    rw [Phrase.names_cons] at ht
    have hp := Cursor.peek_of_tokens ht
    have hne : c.peek ≠ .symbol .rparen := by simp [hp]
    rw [List.length_cons] at hl
    have hnc : (Token.symbol .rparen :: rest).headD .eof ≠ .symbol .comma := by simp
    obtain ⟨c', hxs, hr⟩ :=
      reads_more_names xs hnc hc.advance (hc.advance.rest ht) (n := n) (by omega)
    exact ⟨c'.advance, .items hne (outcome_expectName hp) hxs hr.peek, hr.advance.after rfl⟩

theorem reads_fn {xs : List String} {body : List Stmt} {mid : List Token}
    (hb : Reads (.block body) mid rest) :
    Reads (.atom (.fn xs body))
      (.keyword .fnKey :: .symbol .lparen :: (Phrase.names xs ++ .symbol .rparen :: mid)) rest := by
  intro _ c n hc ht hd
  simp only [List.length_cons, List.length_append] at hd
  obtain ⟨n, rfl⟩ : ∃ k, n = k + 1 := ⟨n - 1, by omega⟩
  have ht₁ := hc.rest ht
  obtain ⟨c₁, hp, hr⟩ := reads_names xs hc.advance (hc.advance.rest ht₁) (n := n) (by omega)
  obtain ⟨c₂, hlb, hs, hr'⟩ := hb c₁ n hr.aligned hr.tokens (by omega)
  exact ⟨c₂, operand_some.mpr (.fn (Cursor.cur_of_tokens ht) (Cursor.peek_of_tokens ht₁) hp hlb hs),
    (hr'.after hr.quiet).after rfl⟩

theorem reads_array {es : List Expr} (h : Reads (.list es) ts (.symbol .rbracket :: rest)) :
    Reads (.atom (.array es)) (.symbol .lbracket :: ts) rest := by
  intro _ c n hc ht hd
  rw [List.length_cons] at hd
  obtain ⟨n, rfl⟩ : ∃ k, n = k + 1 := ⟨n - 1, by omega⟩
  obtain ⟨c', hl, hr⟩ := h .rbracket rest (.inr rfl) rfl c n hc (hc.rest ht) (by omega)
  exact ⟨c', operand_some.mpr (.array (Cursor.cur_of_tokens ht) hl), hr⟩

theorem reads_hash {ps : List (Expr × Expr)} (h : Reads (.pairs ps) ts (.symbol .rbrace :: rest)) :
    Reads (.atom (.hash ps)) (.symbol .lbrace :: ts) rest := by
  intro _ c n hc ht hd
  rw [List.length_cons] at hd
  obtain ⟨n, rfl⟩ : ∃ k, n = k + 1 := ⟨n - 1, by omega⟩
  obtain ⟨c', hp, hr⟩ := h rfl c n hc (hc.rest ht) (by omega)
  exact ⟨c'.advance, operand_some.mpr (.hash (Cursor.cur_of_tokens ht) hp hr.peek), hr.advance⟩

theorem peek_of_begins {first : Token → Prop} {c : Cursor} (h : Begins first ts rest)
    (ht : c.advance.tokens = ts) : first c.peek := by
  obtain ⟨t, us, rfl, hf, -⟩ := h
  rwa [Cursor.peek_of_tokens ht]

theorem cur_of_begins {first : Token → Prop} {c : Cursor} (h : Begins first ts rest)
    (ht : c.tokens = ts) : first c.cur := by
  obtain ⟨t, us, rfl, hf, -⟩ := h
  rwa [Cursor.cur_of_tokens ht]

theorem not_opens_of_closes {t : Token}
    (h : t ∈ [.symbol .rparen, .symbol .rbracket, .symbol .rbrace, .keyword .letKey,
      .keyword .returnKey]) : ¬ t.Opens := by
  simp only [List.mem_cons, List.not_mem_nil, or_false] at h
  rcases h with rfl | rfl | rfl | rfl | rfl <;> simp [Token.Opens]

theorem reads_listNil : Reads (.list []) ts ts := by
  intro close rest' _ hts c n hc ht _
  rw [hts] at ht
  exact ⟨c.advance, .empty (Cursor.peek_of_tokens ht), hc.advance, hc.advance.rest ht, rfl⟩

theorem reads_listCons {es : List Expr} {mid : List Token} (hb : Begins Token.Opens ts mid)
    (he : Reads (.expr e) ts mid) (hes : Reads (.tail es) mid rest) (hl : Loose rest → Loose mid) :
    Reads (.list (e :: es)) ts rest := by
  intro close rest' hclose hrest c n hc ht hd
  subst hrest
  have hlt := hb.length_lt
  have hp : c.peek ≠ .symbol close := by
    have ho := peek_of_begins hb ht
    intro hp
    rw [hp] at ho
    rcases hclose with rfl | rfl <;> exact not_opens_of_closes (by simp) ho
  have hrl : Loose (.symbol close :: rest') := by
    rcases hclose with rfl | rfl <;> exact loose_symbol rfl _
  obtain ⟨c₁, hx, hr⟩ := Starts.whole he (hl hrl) hc.advance ht hd
  have hnc : (Token.symbol close :: rest').headD .eof ≠ .symbol .comma := by
    rcases hclose with rfl | rfl <;> simp
  obtain ⟨c₂, hxs, hr'⟩ := hes hrl hnc c₁ n n hr.aligned hr.tokens (by omega) (by omega)
  exact ⟨c₂.advance, .items hp (argument_some.mpr hx) hxs hr'.peek,
    (hr'.after hr.quiet).advance.after rfl⟩

theorem reads_tailNil : Reads (.tail []) ts ts := by
  intro _ hnc c n m hc ht _ hm
  obtain ⟨m, rfl⟩ : ∃ k, m = k + 1 := ⟨m - 1, by omega⟩
  have hp : c.peek ≠ .symbol .comma := by
    rw [Cursor.peek_eq, ht]
    exact hnc
  exact ⟨c, more_some.mpr (.done hp), hc, ht, rfl⟩

theorem reads_tailCons {es : List Expr} {mid : List Token} (hlt : mid.length < ts.length)
    (he : Reads (.expr e) ts mid) (hes : Reads (.tail es) mid rest) (hl : Loose rest → Loose mid) :
    Reads (.tail (e :: es)) (.symbol .comma :: ts) rest := by
  intro hrl hnc c n m hc ht hn hm
  rw [List.length_cons] at hn hm
  obtain ⟨m, rfl⟩ : ∃ k, m = k + 1 := ⟨m - 1, by omega⟩
  obtain ⟨c₁, hx, hr⟩ :=
    Starts.whole he (hl hrl) hc.advance.advance (hc.advance.rest ht) (n := n) (by omega)
  obtain ⟨c₂, hxs, hr'⟩ := hes hrl hnc c₁ n m hr.aligned hr.tokens (by omega) (by omega)
  exact ⟨c₂, more_some.mpr (.item (Cursor.peek_of_tokens ht) (argument_some.mpr hx) hxs),
    (hr'.after hr.quiet).after rfl⟩

theorem reads_pair {k v : Expr} {mid : List Token} (hk : Reads (.expr k) ts (.symbol .colon :: mid))
    (hv : Reads (.expr v) mid rest) (hlt : mid.length < ts.length) :
    Reads (.pair k v) ts rest := by
  intro hl c n hc ht hd
  obtain ⟨c₁, hke, hr⟩ := Starts.whole hk (loose_symbol rfl _) hc.advance ht hd
  have hr₁ := hr.advance
  obtain ⟨c', hve, hr'⟩ := Starts.whole hv hl hr₁.aligned.advance hr₁.tokens (n := n) (by omega)
  exact ⟨c₁, c', hke, hr.peek, hve, (hr'.after hr.quiet).after rfl⟩

theorem pairs_at_brace {c : Cursor} {n : Nat} (h : c.peek = .symbol .rbrace) :
    (pairs (n + 1)).outcome c = (some [], c) :=
  pairs_some.mpr (.done h)

theorem reads_pairsNil : Reads (.pairs []) ts ts := by
  intro hb c n hc ht hn
  obtain ⟨n, rfl⟩ : ∃ k, n = k + 1 := ⟨n - 1, by omega⟩
  have hp : c.peek = .symbol .rbrace := by rw [Cursor.peek_eq, ht, hb]
  exact ⟨c, pairs_at_brace hp, hc, ht, rfl⟩

theorem reads_pairsLast {k v : Expr} (hb : Begins Token.Opens ts rest)
    (h : Reads (.pair k v) ts rest) : Reads (.pairs [(k, v)]) ts rest := by
  intro hrb c n hc ht hn
  obtain ⟨n, rfl⟩ : ∃ k, n = k + 2 := ⟨n - 2, by have := hb.length_lt; omega⟩
  have hp : c.peek ≠ .symbol .rbrace := fun hp =>
    not_opens_of_closes (by simp) (hp ▸ peek_of_begins hb ht)
  obtain ⟨c₁, c', hk, hc₁, hv, hr⟩ := h (loose_of_head hrb rfl) c (n + 1) hc ht (by omega)
  have hp' : c'.peek = .symbol .rbrace := by rw [hr.peek, hrb]
  exact ⟨c', pairs_some.mpr (.last hp hk hc₁ hv hp' (pairs_at_brace hp')), hr⟩

theorem reads_pairsCons {k v : Expr} {ps : List (Expr × Expr)} {mid : List Token}
    (hb : Begins Token.Opens ts (.symbol .comma :: mid))
    (h : Reads (.pair k v) ts (.symbol .comma :: mid)) (hps : Reads (.pairs ps) mid rest) :
    Reads (.pairs ((k, v) :: ps)) ts rest := by
  intro hrb c n hc ht hn
  have hlt := hb.length_lt
  rw [List.length_cons] at hlt
  obtain ⟨n, rfl⟩ : ∃ k, n = k + 1 := ⟨n - 1, by omega⟩
  have hp : c.peek ≠ .symbol .rbrace := fun hp =>
    not_opens_of_closes (by simp) (hp ▸ peek_of_begins hb ht)
  obtain ⟨c₁, c₂, hk, hc₁, hv, hr⟩ := h (loose_symbol rfl _) c n hc ht (by omega)
  obtain ⟨c', hps, hr'⟩ := hps hrb c₂.advance n hr.advance.aligned hr.advance.tokens (by omega)
  exact ⟨c', pairs_some.mpr (.pair hp hk hc₁ hv hr.peek hps), hr'.after hr.quiet⟩

theorem reads_bind {x : String} (h : Reads (.expr e) ts rest) :
    Reads (.stmt (.bind x e)) (.keyword .letKey :: .ident x :: .symbol .assign :: ts) rest := by
  intro hl c n hc ht hd
  simp only [List.length_cons] at hd
  obtain ⟨n, rfl⟩ : ∃ k, n = k + 1 := ⟨n - 1, by omega⟩
  have ht₁ := hc.rest ht
  have ht₂ := hc.advance.rest ht₁
  have ha := hc.advance.advance
  obtain ⟨c', he, hr⟩ := Starts.whole h hl ha.advance (ha.rest ht₂) (n := n) (by omega)
  have hs : StatementReads n c (.bind x e) c'.pastSemicolon :=
    .bind (Cursor.cur_of_tokens ht) (Cursor.peek_of_tokens ht₁) (Cursor.peek_of_tokens ht₂) he
  exact ⟨c', statement_some.mpr hs, hr.after rfl⟩

theorem reads_ret (h : Reads (.expr e) ts rest) :
    Reads (.stmt (.ret e)) (.keyword .returnKey :: ts) rest := by
  intro hl c n hc ht hd
  rw [List.length_cons] at hd
  obtain ⟨n, rfl⟩ : ∃ k, n = k + 1 := ⟨n - 1, by omega⟩
  obtain ⟨c', he, hr⟩ := Starts.whole h hl hc.advance (hc.rest ht) (n := n) (by omega)
  exact ⟨c', statement_some.mpr (.ret (Cursor.cur_of_tokens ht) he), hr.after rfl⟩

theorem reads_expr (hb : Begins Token.Opens ts rest) (h : Reads (.expr e) ts rest) :
    Reads (.stmt (.expr e)) ts rest := by
  intro hl c n hc ht hd
  obtain ⟨n, rfl⟩ : ∃ k, n = k + 1 := ⟨n - 1, by omega⟩
  obtain ⟨c', he, hr⟩ := Starts.whole h hl hc ht (n := n) (by omega)
  have ho := cur_of_begins hb ht
  have hlet : c.cur ≠ .keyword .letKey := fun hk => not_opens_of_closes (by simp) (hk ▸ ho)
  have hret : c.cur ≠ .keyword .returnKey := fun hk => not_opens_of_closes (by simp) (hk ▸ ho)
  exact ⟨c', statement_some.mpr (.expr hlet hret he), hr⟩

theorem endsBlock_of_leads {t : Token} (h : t.Leads) : endsBlock t = false := by
  rw [endsBlock, Bool.or_eq_false_iff, decide_eq_false_iff_not, decide_eq_false_iff_not]
  constructor <;> rintro rfl <;> simp [Token.Leads, Token.Opens] at h

theorem endsProgram_of_leads {t : Token} (h : t.Leads) : endsProgram t = false := by
  rw [endsProgram, decide_eq_false_iff_not]
  rintro rfl
  simp [Token.Leads, Token.Opens] at h

theorem loose_of_ends (h : endsBlock (rest.headD .eof) = true) :
    Loose rest ∧ rest.headD .eof ≠ .symbol .semicolon := by
  simp only [endsBlock, Bool.or_eq_true, decide_eq_true_eq] at h
  rcases h with h | h
  · exact ⟨loose_of_head h rfl, by rw [h]; simp⟩
  · exact ⟨⟨by rw [h]; simp, by rw [h]; rfl⟩, by rw [h]; simp⟩

theorem loose_of_leads {t : Token} {us : List Token} (h : t.Leads) (hp : Parted (t :: us)) :
    Loose (t :: us) ∧ t ≠ .symbol .semicolon := by
  have hp := hp t rfl
  simp only [List.mem_cons, List.not_mem_nil, or_false, not_or] at hp
  obtain ⟨hp₁, hp₂, hp₃⟩ := hp
  rcases h with h | rfl | rfl
  · cases t with
    | symbol s =>
      simp only [Token.Opens, List.mem_cons, List.not_mem_nil, or_false] at h
      rcases h with rfl | rfl | rfl | rfl | rfl
      · exact ⟨loose_symbol rfl _, by simp⟩
      · exact absurd rfl hp₃
      · exact absurd rfl hp₁
      · exact absurd rfl hp₂
      · exact ⟨loose_symbol rfl _, by simp⟩
    | keyword k =>
      refine ⟨⟨?_, rfl⟩, by simp⟩
      rintro ⟨⟩
      simp [Token.Opens] at h
    | ident _ | int _ | string _ => exact ⟨⟨by simp, rfl⟩, by simp⟩
    | illegal _ | eof => exact h.elim
  · exact ⟨⟨by simp, rfl⟩, by simp⟩
  · exact ⟨⟨by simp, rfl⟩, by simp⟩

theorem loose_of_stmts {b : List Stmt} (h : Spans Parted (.stmts b) ts rest) (hp : Parted ts)
    (he : endsBlock (rest.headD .eof) = true) : Loose ts ∧ ts.headD .eof ≠ .symbol .semicolon := by
  cases b with
  | nil =>
    cases h
    exact loose_of_ends he
  | cons s b =>
    obtain ⟨t, us, rfl, ht, -⟩ := h.begins trivial
    exact loose_of_leads ht hp

theorem reads_stmtsNil : Reads (.stmts []) ts ts := by
  intro _ ends he _ c n hc ht hn
  obtain ⟨n, rfl⟩ : ∃ k, n = k + 1 := ⟨n - 1, by omega⟩
  have hcur : ends c.cur = true := by rwa [Cursor.cur_eq, ht]
  exact ⟨c, statements_some.mpr (.done hcur), hc, ht, rfl⟩

theorem reads_stmtsCons {s : Stmt} {b : List Stmt} {mid mid' : List Token}
    (hb : Begins Token.Leads ts mid') (hs : Reads (.stmt s) ts mid') (hl : Loose mid')
    (hrest : ∀ {c c' : Cursor}, c.Lands mid' c' → c.Lands mid c'.pastSemicolon)
    (hle : mid.length ≤ mid'.length) (hbs : Reads (.stmts b) mid rest) :
    Reads (.stmts (s :: b)) ts rest := by
  intro hend ends he hleads c n hc ht hn
  have hlt := hb.length_lt
  obtain ⟨n, rfl⟩ : ∃ k, n = k + 1 := ⟨n - 1, by omega⟩
  obtain ⟨c₁, hse, hr⟩ := hs hl c n hc ht (by omega)
  have hr := hrest hr
  obtain ⟨c', hbe, hc', hct, hq⟩ :=
    hbs hend ends he hleads c₁.pastSemicolon.advance n hr.aligned.advance hr.tokens (by omega)
  have hcur := hleads _ (cur_of_begins hb ht)
  exact ⟨c', statements_some.mpr (.keep hcur hse hbe), hc', hct, hq.trans hr.quiet⟩

theorem lands_pastSemicolon {c c' : Cursor} (h : c.Lands (.symbol .semicolon :: rest) c') :
    c.Lands rest c'.pastSemicolon := by
  have hp : c'.peek = .symbol .semicolon := h.peek
  rw [Cursor.pastSemicolon, if_pos hp]
  exact h.advance

theorem lands_noSemicolon {c c' : Cursor} (hs : rest.headD .eof ≠ .symbol .semicolon)
    (h : c.Lands rest c') : c.Lands rest c'.pastSemicolon := by
  have hp : c'.peek ≠ .symbol .semicolon := h.peek ▸ hs
  rwa [Cursor.pastSemicolon, if_neg hp]

theorem reads_stmtsClosed {s : Stmt} {b : List Stmt} {mid : List Token}
    (hb : Begins Token.Leads ts (.symbol .semicolon :: mid))
    (hs : Reads (.stmt s) ts (.symbol .semicolon :: mid)) (hbs : Reads (.stmts b) mid rest) :
    Reads (.stmts (s :: b)) ts rest :=
  reads_stmtsCons hb hs (loose_symbol rfl _) lands_pastSemicolon (Nat.le_succ _) hbs

theorem reads_stmtsBare {s : Stmt} {b : List Stmt} {mid : List Token}
    (hb : Begins Token.Leads ts mid) (hs : Reads (.stmt s) ts mid) (hp : Parted mid)
    (h : Spans Parted (.stmts b) mid rest) (hbs : Reads (.stmts b) mid rest) :
    Reads (.stmts (s :: b)) ts rest := by
  intro hend
  obtain ⟨hl, hn⟩ := loose_of_stmts h hp hend
  exact reads_stmtsCons hb hs hl (lands_noSemicolon hn) (Nat.le_refl _) hbs hend

theorem reads_closed {b : List Stmt} (h : Reads (.stmts b) ts (.symbol .rbrace :: rest)) :
    Reads (.block b) (.symbol .lbrace :: ts) rest := by
  intro c n hc ht hn
  rw [List.length_cons] at hn
  obtain ⟨c', hs, hc', hct, hq⟩ := h rfl endsBlock rfl (fun _ => endsBlock_of_leads)
    c.advance.advance n hc.advance.advance (hc.advance.rest ht) (by omega)
  exact ⟨c', Cursor.peek_of_tokens ht, hs, hc', hc'.rest hct, hq⟩

theorem reads_unclosed {b : List Stmt} (h : Reads (.stmts b) ts []) :
    Reads (.block b) (.symbol .lbrace :: ts) [] := by
  intro c n hc ht hn
  rw [List.length_cons] at hn
  obtain ⟨c', hs, hc', hct, hq⟩ := h rfl endsBlock rfl (fun _ => endsBlock_of_leads)
    c.advance.advance n hc.advance.advance (hc.advance.rest ht) (by omega)
  have hr : c'.advance.tokens = [] := by rw [hc'.tail, hct, List.tail_nil]
  exact ⟨c', Cursor.peek_of_tokens ht, hs, hc', hr, hq⟩

theorem loose_of_tail {es : List Expr} (h : Spans Parted (.tail es) ts rest) (hl : Loose rest) :
    Loose ts := by
  cases h with
  | tailNil => exact hl
  | tailCons => exact loose_symbol rfl _

theorem reads {g : Phrase} (h : Spans Parted g ts rest) : Reads g ts rest := by
  induction h with
  | operand _ ih => exact (reads_operand ih).mono (Nat.sub_le _ _) (Nat.le_succ _)
  | binary ho _ hr ihl ihr =>
    exact reads_binary ho ihl ihr (hr.begins (Phrase.solid_operand _ _)).length_lt
  | suffixed _ ih => exact Starts.mono ih (Nat.le_refl _) (by decide)
  | unary ho h ih => exact reads_unary ho ih (h.begins trivial).length_lt
  | atom h ih => exact starts_atom ih (h.begins trivial).length_lt
  | call _ hl ihe ihl => exact reads_call ihe ihl (Nat.lt_of_succ_le hl.suffix.length_le)
  | index _ hi ihe ihi => exact reads_index ihe ihi (Nat.lt_of_succ_le hi.suffix.length_le)
  | ident => exact reads_single fun _ _ => .ident
  | int hd => exact reads_single fun _ _ h => .int h hd
  | string => exact reads_single fun _ _ => .string
  | yes => exact reads_single fun _ _ => .yes
  | no => exact reads_single fun _ _ => .no
  | group _ ih => exact reads_group ih
  | cond hc _ ihc ihb => exact reads_cond ihc ihb (Nat.lt_of_succ_le hc.suffix.length_le)
  | condElse hc hb _ ihc ihb ihb' =>
    exact reads_condElse ihc ihb ihb' (Nat.lt_of_succ_le hc.suffix.length_le)
      (Nat.lt_of_succ_le hb.suffix.length_le)
  | fn _ ih => exact reads_fn ih
  | array _ ih => exact reads_array ih
  | hash _ ih => exact reads_hash ih
  | listNil => exact reads_listNil
  | listCons he ht ihe iht => exact reads_listCons (he.begins trivial) ihe iht (loose_of_tail ht)
  | tailNil => exact reads_tailNil
  | tailCons he ht ihe iht =>
    exact reads_tailCons (he.begins trivial).length_lt ihe iht (loose_of_tail ht)
  | pair hk _ ihk ihv => exact reads_pair ihk ihv (Nat.lt_of_succ_le hk.suffix.length_le)
  | pairsNil => exact reads_pairsNil
  | pairsLast h ih => exact reads_pairsLast (h.begins trivial) ih
  | pairsCons h _ ih ihps => exact reads_pairsCons (h.begins trivial) ih ihps
  | bind _ ih => exact reads_bind ih
  | ret _ ih => exact reads_ret ih
  | expr h ih => exact reads_expr (h.begins trivial) ih
  | stmtsNil => exact reads_stmtsNil
  | stmtsClosed h _ ih ihb => exact reads_stmtsClosed (h.begins trivial) ih ihb
  | stmtsBare h hp hb ih ihb => exact reads_stmtsBare (h.begins trivial) ih hp hb ihb
  | closed _ ih => exact reads_closed ih
  | unclosed _ ih => exact reads_unclosed ih

end Production

end MonkeyLang
