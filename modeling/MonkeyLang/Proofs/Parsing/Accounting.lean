import MonkeyLang.Proofs.Parsing.Reading
import MonkeyLang.Proofs.Parsing.Trace

namespace MonkeyLang

namespace Production

variable {α β : Type}

/-- How a production may end that began at a cursor. Where it gives no result, the last thing it did
was to note the reason. -/
inductive Accounted (c : Cursor) : Option α × Cursor → Prop
  | given {a : α} {c' : Cursor} (h : c.Trace .phrase c') : Accounted c (some a, c')
  | refused {c' : Cursor} {d : Diagnostic} (h : c.Trace .phrase c') (hd : d.Fits c') :
      Accounted c (none, c'.report d)

def Accounts (p : Production α) (c : Cursor) : Prop := Accounted c (p.outcome c)

theorem Accounts.given {p : Production α} {c c' : Cursor} {a : α} (h : Accounts p c)
    (ha : p.outcome c = (some a, c')) : c.Trace .phrase c' := by
  rw [Accounts, ha] at h
  cases h with
  | given h => exact h

theorem Accounts.refused {p : Production α} {c c' : Cursor} (h : Accounts p c)
    (ha : p.outcome c = (none, c')) :
    ∃ c₁ d, c.Trace .phrase c₁ ∧ d.Fits c₁ ∧ c₁.report d = c' := by
  rw [Accounts, ha] at h
  cases h with
  | refused h hd => exact ⟨_, _, h, hd, rfl⟩

theorem accounts_of_some {p : Production α} {c c' : Cursor} {a : α}
    (h : p.outcome c = (some a, c')) (ht : c.Trace .phrase c') : Accounts p c := by
  rw [Accounts, h]
  exact .given ht

theorem Accounts.after {p : Production β} {c c₁ : Cursor} {o : Option β × Cursor}
    (ht : c.Trace .phrase c₁) (hp : p.outcome c = o) (h : Accounted c₁ o) : Accounts p c := by
  rw [Accounts, hp]
  cases h with
  | given h => exact .given (ht.trans h)
  | refused h hd => exact .refused (ht.trans h) hd

theorem accounts_pure (a : α) (c : Cursor) : Accounts (pure a) c :=
  Accounted.given .refl

theorem accounts_cur_bind {f : Token → Production β} {c : Cursor} (h : Accounts (f c.cur) c) :
    Accounts (cur >>= f) c := h

theorem accounts_peek_bind {f : Token → Production β} {c : Cursor} (h : Accounts (f c.peek) c) :
    Accounts (peek >>= f) c := h

theorem accounts_advance_bind {f : Unit → Production β} {c : Cursor}
    (h : Accounts (f ()) c.advance) : Accounts (advance >>= f) c :=
  .after (.advance .refl) rfl h

theorem accounts_skipSemicolon_bind {f : Unit → Production β} {c : Cursor}
    (h : Accounts (f ()) c.pastSemicolon) : Accounts (skipSemicolon >>= f) c := by
  refine .after ?_ (outcome_skipSemicolon_bind f c) h
  unfold Cursor.pastSemicolon
  split
  · exact .advance .refl
  · exact .refl

theorem accounts_expect (k : Token.Kind) (c : Cursor) : Accounts (expect k) c := by
  rw [Accounts, outcome_expect]
  split
  · exact .given (.advance .refl)
  · rename_i hk
    exact .refused .refl (.unexpected hk)

theorem Accounts.bind {p : Production α} {f : α → Production β} {c : Cursor} (hp : Accounts p c)
    (hf : ∀ a c₁, p.outcome c = (some a, c₁) → Accounts (f a) c₁) : Accounts (p >>= f) c := by
  rcases h : p.outcome c with ⟨_ | a, c₁⟩
  · obtain ⟨c₂, d, ht, hd, rfl⟩ := hp.refused h
    exact .after ht (by rw [outcome_bind, h]) (.refused .refl hd)
  · exact .after (hp.given h) (by rw [outcome_bind, h]) (hf a c₁ h)

theorem accounts_expectName (c : Cursor) : Accounts expectName c :=
  (accounts_expect _ _).bind fun _ _ _ => accounts_pure _ _

theorem Accounts.ite {q : Prop} [Decidable q] {p p' : Production α} {c : Cursor}
    (hp : q → Accounts p c) (hp' : ¬ q → Accounts p' c) : Accounts (if q then p else p') c := by
  split
  · exact hp ‹_›
  · exact hp' ‹_›

theorem accounts_integer {digits : String} {c : Cursor} (h : c.cur = .int digits) :
    Accounts (integer digits) c :=
  Accounts.ite (fun _ => accounts_pure _ _) fun _ =>
    Accounted.refused .refl (.badInteger h)

theorem accounts_noOperand (c : Cursor) :
    Accounts (refuse (.noOperand c.cur.kind) : Production α) c :=
  Accounted.refused .refl .noOperand

theorem accounts_more {item : Production α} {n : Nat} {c : Cursor} (hm : item.Moves)
    (hc : c.Aligned) (hn : c.tokens.length < n)
    (hi : ∀ c', c.Reaches c' → Accounts item c') : Accounts (more item n) c := by
  induction n generalizing c with
  | zero => omega
  | succ n ih =>
    refine Accounts.ite (c := c) (fun hp => ?_) fun _ => accounts_pure _ _
    have ha : c.advance.tokens.length < n := by
      have hl := hc.length_advance
      have hpos := Cursor.tokens_length_pos (c := c) fun he => by simp [hc.peek he] at hp
      omega
    refine accounts_advance_bind ((hi _ c.reaches_advance).bind fun x c₁ hx => ?_)
    have h₁ : c.advance.Reaches c₁ := hm.reaches hx
    have hl := h₁.length_le hc.advance
    refine (ih (h₁.aligned hc.advance) (by omega) fun c' h' => ?_).bind
      fun _ _ _ => accounts_pure _ _
    exact hi c' (c.reaches_advance.trans (h₁.trans h'))

theorem accounts_listed {item : Production α} {close : Symbol} {n : Nat} {c : Cursor}
    (hm : item.Moves) (hc : c.Aligned) (hn : c.tokens.length < n)
    (hi : ∀ c', c.Reaches c' → Accounts item c') : Accounts (listed item close n) c := by
  refine Accounts.ite (c := c) (fun _ => accounts_advance_bind (accounts_pure _ _)) fun _ => ?_
  refine (hi c .refl).bind fun x c₁ hx => ?_
  have h₁ : c.Reaches c₁ := hm.reaches hx
  have hl := h₁.length_le hc
  have hxs := accounts_more hm (h₁.aligned hc) (Nat.lt_of_le_of_lt hl hn)
    fun c' h' => hi c' (h₁.trans h')
  exact hxs.bind fun xs c₂ _ => (accounts_expect _ c₂).bind fun _ _ _ => accounts_pure _ _

/-- A depth is enough for the tokens that are left, with some calls to spare. -/
abbrev Ample (n : Nat) (c : Cursor) (calls : Nat) : Prop := 4 * c.tokens.length + calls ≤ n

/-- At an ample depth, every production accounts for what it leaves out, and lists of statements
always have an end. -/
structure Accounting (n : Nat) : Prop where
  statements : ∀ ends c, ends .eof = true → c.Aligned → Ample n c 4 →
    ∃ b c', (statements n ends).outcome c = (some b, c') ∧ c.Trace .block c'
  statement : ∀ c, c.Aligned → Ample n c 3 → Accounts (statement n) c
  expression : ∀ p c, c.Aligned → Ample n c 2 → Accounts (expression n p) c
  continuation : ∀ p left c, c.Aligned → Ample n c 1 → Accounts (continuation n p left) c
  extension : ∀ left c, c.Aligned → .lowest < c.cur.precedence → Ample n c 4 →
    Accounts (extension n left) c
  operand : ∀ c, c.Aligned → Ample n c 1 → Accounts (operand n) c
  pairs : ∀ c, c.Aligned → c.cur ≠ .eof → Ample n c 0 → Accounts (pairs n) c

theorem Accounting.zero : Accounting 0 where
  statements ends c _ _ hn := by omega
  statement c _ hn := by omega
  expression p c _ hn := by omega
  continuation p left c _ hn := by omega
  extension left c _ _ hn := by omega
  operand c _ hn := by omega
  pairs c _ he hn := by
    have := Cursor.tokens_length_pos he
    omega

theorem moves_argument (n : Nat) : (argument n).Moves :=
  moves_advance.bind fun _ => moves_expression n _

theorem accounts_argument {n : Nat} {c : Cursor} (ih : Accounting n) (hc : c.Aligned)
    (hn : 4 * (c.tokens.length - 1) + 2 ≤ n) : Accounts (argument n) c := by
  have hl := hc.length_advance
  exact accounts_advance_bind (ih.expression _ _ hc.advance (by omega))

theorem cur_of_peek {c : Cursor} {s : Symbol} (h : c.peek = .symbol s) : c.advance.cur ≠ .eof := by
  rw [show c.advance.cur = .symbol s from h]
  simp

theorem accounts_block {n : Nat} {f : List Stmt → Production β} {c : Cursor} (ih : Accounting n)
    (hc : c.Aligned) (he : c.cur ≠ .eof) (hn : Ample n c.advance 4)
    (hf : ∀ b c', (statements n endsBlock).outcome c.advance = (some b, c') → Accounts (f b) c') :
    Accounts (do
      advance
      f (← statements n endsBlock)) c := by
  obtain ⟨b, c', hb, ht⟩ := ih.statements endsBlock _ rfl hc.advance hn
  refine .after (.block .refl he ht) ?_ (hf b c' hb)
  rw [outcome_advance_bind, outcome_bind, hb]

theorem ample_past {n calls : Nat} {c : Cursor} (c' : Cursor) (hc : c.Aligned) (he : c.cur ≠ .eof)
    (hn : Ample (n + 1) c calls) (h : c.advance.Reaches c') :
    c'.Aligned ∧ Ample n c' (calls + 3) := by
  have hl := hc.length_advance
  have hle := h.length_le hc.advance
  have hpos := Cursor.tokens_length_pos he
  exact ⟨h.aligned hc.advance, by omega⟩

variable {n : Nat} {c : Cursor}

theorem Accounting.cond (ih : Accounting n) (hc : c.Aligned) (he : c.cur = .keyword .ifKey)
    (hn : Ample (n + 1) c 1) : Accounts (Production.operand (n + 1)) c := by
  have past {c' : Cursor} := ample_past c' hc (by simp [he]) hn
  unfold Production.operand
  refine accounts_cur_bind ?_
  rw [he]
  refine (accounts_expect _ _).bind fun _ c₁ h₁ => ?_
  obtain ⟨-, rfl⟩ := expect_symbol.mp h₁
  have hr := c.advance.reaches_advance
  obtain ⟨ha, hm⟩ := past hr
  refine accounts_advance_bind ((ih.expression _ _ ha (by omega)).bind fun test c₂ h₂ => ?_)
  refine (accounts_expect _ _).bind fun _ c₃ h₃ => ?_
  refine (accounts_expect _ _).bind fun _ c₄ h₄ => ?_
  obtain ⟨hb, rfl⟩ := expect_symbol.mp h₄
  have hr := hr.trans <| ((moves_expression _ _).reaches h₂).trans <|
    ((moves_expect _).reaches h₃).tail .advance
  obtain ⟨ha, -⟩ := past hr
  obtain ⟨-, hm⟩ := past (hr.tail .advance)
  refine accounts_block ih ha (cur_of_peek hb) (by omega) fun yes c₅ h₅ => ?_
  refine accounts_peek_bind (Accounts.ite (fun _ => ?_) fun _ => accounts_pure _ _)
  refine accounts_advance_bind ((accounts_expect _ _).bind fun _ c₆ h₆ => ?_)
  obtain ⟨hb', rfl⟩ := expect_symbol.mp h₆
  have hr := (hr.tail .advance).trans <|
    ((moves_statements _ _).reaches h₅).trans <| .head .advance <| .single .advance
  obtain ⟨ha, -⟩ := past hr
  obtain ⟨-, hm⟩ := past (hr.tail .advance)
  exact accounts_block ih ha (cur_of_peek hb') (by omega) fun _ _ _ => accounts_pure _ _

theorem Accounting.fn (ih : Accounting n) (hc : c.Aligned) (he : c.cur = .keyword .fnKey)
    (hn : Ample (n + 1) c 1) : Accounts (Production.operand (n + 1)) c := by
  have past {c' : Cursor} := ample_past c' hc (by simp [he]) hn
  unfold Production.operand
  refine accounts_cur_bind ?_
  rw [he]
  refine (accounts_expect _ _).bind fun _ c₁ h₁ => ?_
  obtain ⟨-, rfl⟩ := expect_symbol.mp h₁
  obtain ⟨ha, hm⟩ := past .refl
  have hp : Accounts (listed expectName .rparen n) c.advance :=
    accounts_listed moves_expectName ha (by omega) fun c' _ => accounts_expectName c'
  refine hp.bind fun params c₂ h₂ => ?_
  refine (accounts_expect _ _).bind fun _ c₃ h₃ => ?_
  obtain ⟨hb, rfl⟩ := expect_symbol.mp h₃
  have hr := ((moves_expectName.listed _ _).reaches h₂).tail .advance
  obtain ⟨ha, -⟩ := past hr
  obtain ⟨-, hm⟩ := past (hr.tail .advance)
  exact accounts_block ih ha (cur_of_peek hb) (by omega) fun _ _ _ => accounts_pure _ _

theorem Accounting.arguments (ih : Accounting n) (close : Symbol) (hc : c.Aligned)
    (hn : 4 * (c.tokens.length - 1) + 2 ≤ n) (hl : c.tokens.length < n) :
    Accounts (listed (argument n) close n) c := by
  refine accounts_listed (moves_argument n) hc hl fun c' h => ?_
  have hle := h.length_le hc
  exact accounts_argument ih (h.aligned hc) (by omega)

theorem Accounting.operand_succ (ih : Accounting n) (hc : c.Aligned) (hn : Ample (n + 1) c 1) :
    Accounts (Production.operand (n + 1)) c := by
  cases h : c.cur with
  | keyword k =>
    cases k with
    | ifKey => exact ih.cond hc h hn
    | fnKey => exact ih.fn hc h hn
    | trueKey => exact accounts_of_some (operand_some.mpr (.yes h)) .refl
    | falseKey => exact accounts_of_some (operand_some.mpr (.no h)) .refl
    | elseKey | letKey | returnKey =>
      have hr : Accounts (refuse (.noOperand c.cur.kind) : Production Expr) c := accounts_noOperand c
      unfold Production.operand
      exact accounts_cur_bind (by rw [h] at hr ⊢; exact hr)
  | ident x => exact accounts_of_some (operand_some.mpr (.ident h)) .refl
  | string t => exact accounts_of_some (operand_some.mpr (.string h)) .refl
  | int d =>
    unfold Production.operand
    exact accounts_cur_bind (by rw [h]; exact accounts_integer h)
  | eof | illegal _ =>
    have hr : Accounts (refuse (.noOperand c.cur.kind) : Production Expr) c := accounts_noOperand c
    unfold Production.operand
    exact accounts_cur_bind (by rw [h] at hr ⊢; exact hr)
  | symbol s =>
    obtain ⟨ha, hm⟩ := ample_past _ hc (by simp [h]) hn .refl
    have hpos := Cursor.tokens_length_pos (c := c) (by simp [h])
    have he (p : Precedence) := ih.expression p _ ha (by omega)
    have hr : Accounts (refuse (.noOperand c.cur.kind) : Production Expr) c := accounts_noOperand c
    unfold Production.operand
    refine accounts_cur_bind ?_
    rw [h] at hr ⊢
    cases s with
    | bang | minus =>
      exact accounts_advance_bind ((he .unary).bind fun _ _ _ =>
        accounts_pure _ _)
    | lparen =>
      exact accounts_advance_bind ((he .lowest).bind fun _ _ _ =>
        (accounts_expect _ _).bind fun _ _ _ => accounts_pure _ _)
    | lbracket =>
      have hi := ih.arguments .rbracket hc (by omega) (by omega)
      exact hi.bind fun _ _ _ => accounts_pure _ _
    | lbrace =>
      have hp := ih.pairs c hc (by simp [h]) (by omega)
      exact hp.bind fun _ _ _ =>
        (accounts_expect _ _).bind fun _ _ _ => accounts_pure _ _
    | _ => exact hr

theorem operator_of_precedence {t : Token} (h : .lowest < t.precedence) :
    t = .symbol .lparen ∨ t = .symbol .lbracket ∨ ∃ op, t.operator? = some op := by
  cases t with
  | symbol s =>
    cases s <;> simp [Token.operator?, Operator.ofSymbol?] <;> exact absurd h (by decide)
  | _ => exact absurd h (Nat.lt_irrefl _)

theorem Accounting.extension_succ (ih : Accounting n) (left : Expr) (hc : c.Aligned)
    (hp : .lowest < c.cur.precedence) (hn : Ample (n + 1) c 4) :
    Accounts (Production.extension (n + 1) left) c := by
  have hl := hc.length_advance
  have he (p : Precedence) := ih.expression p _ hc.advance (by omega)
  unfold Production.extension
  refine accounts_cur_bind ?_
  split
  · have hi := ih.arguments .rparen hc (by omega) (by omega)
    exact hi.bind fun _ _ _ => accounts_pure _ _
  · exact accounts_advance_bind ((he .lowest).bind fun _ _ _ =>
      (accounts_expect _ _).bind fun _ _ _ => accounts_pure _ _)
  · rename_i hnp hnb
    rcases operator_of_precedence hp with h | h | ⟨op, h⟩
    · exact absurd h hnp
    · exact absurd h hnb
    · rw [h]
      exact accounts_advance_bind ((he _).bind fun _ _ _ =>
        accounts_pure _ _)

theorem Accounting.pairs_succ (ih : Accounting n) (hc : c.Aligned) (he : c.cur ≠ .eof)
    (hn : Ample (n + 1) c 0) : Accounts (Production.pairs (n + 1)) c := by
  have past {c' : Cursor} := ample_past c' hc he hn
  unfold Production.pairs
  refine accounts_peek_bind (Accounts.ite (fun _ => accounts_pure _ _) fun _ => ?_)
  obtain ⟨ha, hm⟩ := past .refl
  refine accounts_advance_bind ((ih.expression _ _ ha (by omega)).bind fun key c₁ h₁ => ?_)
  refine (accounts_expect _ _).bind fun _ c₂ h₂ => ?_
  have hr := ((moves_expression _ _).reaches h₁).trans
    (((moves_expect _).reaches h₂).tail .advance)
  obtain ⟨ha, hm⟩ := past hr
  refine accounts_advance_bind ((ih.expression _ _ ha (by omega)).bind fun value c₃ h₃ => ?_)
  have hr := hr.trans ((moves_expression _ _).reaches h₃)
  obtain ⟨ha, hm⟩ := past hr
  refine accounts_peek_bind (Accounts.ite (fun _ => ?_) fun hb => ?_)
  · refine (accounts_expect _ _).bind fun _ c₄ h₄ => ?_
    obtain ⟨hp, rfl⟩ := expect_symbol.mp h₄
    obtain ⟨ha, hm⟩ := past (hr.tail .advance)
    have he : c₃.advance.cur ≠ .eof := by simp [show c₃.advance.cur = _ from hp]
    exact (ih.pairs _ ha he (by omega)).bind fun _ _ _ => accounts_pure _ _
  · have he : c₃.cur ≠ .eof := fun he => by simp [ha.peek he] at hb
    exact (ih.pairs _ ha he (by omega)).bind fun _ _ _ => accounts_pure _ _

theorem Accounting.statement_succ (ih : Accounting n) (hc : c.Aligned) (hn : Ample (n + 1) c 3) :
    Accounts (Production.statement (n + 1)) c := by
  have ended {f : Expr → Stmt} {c' : Cursor} (h : c.Reaches c') :
      Accounts (do
        let value ← Production.expression n .lowest
        skipSemicolon
        return f value) c' := by
    have hl := h.length_le hc
    exact (ih.expression _ _ (h.aligned hc) (by omega)).bind
      fun _ _ _ => accounts_skipSemicolon_bind (accounts_pure _ _)
  unfold Production.statement
  refine accounts_cur_bind ?_
  split
  · refine (accounts_expectName _).bind fun x c₁ h₁ => ?_
    refine (accounts_expect _ _).bind fun _ c₂ h₂ => accounts_advance_bind ?_
    exact ended <| (moves_expectName.reaches h₁).trans <|
      ((moves_expect _).reaches h₂).tail .advance
  · exact accounts_advance_bind (ended c.reaches_advance)
  · exact ended .refl

theorem Accounting.continuation_succ (ih : Accounting n) (p : Precedence) (left : Expr)
    (hc : c.Aligned) (hn : Ample (n + 1) c 1) :
    Accounts (Production.continuation (n + 1) p left) c := by
  unfold Production.continuation
  refine accounts_peek_bind (Accounts.ite (fun hp => ?_) fun _ => accounts_pure _ _)
  have ho : .lowest < c.peek.precedence := Nat.lt_of_le_of_lt (Nat.zero_le _) hp
  have he : c.cur ≠ .eof := fun he => by
    rw [hc.peek he] at ho
    exact Nat.lt_irrefl _ ho
  have past {c' : Cursor} := ample_past c' hc he hn
  obtain ⟨ha, hm⟩ := past .refl
  refine accounts_advance_bind ((ih.extension left _ ha ho (by omega)).bind fun longer c₁ h₁ => ?_)
  obtain ⟨ha, hm⟩ := past ((moves_extension n left).reaches h₁)
  exact ih.continuation p longer c₁ ha (by omega)

theorem Accounting.statements_succ (ih : Accounting n) {ends : Token → Bool}
    (he : ends .eof = true) (hc : c.Aligned) (hn : Ample (n + 1) c 4) :
    ∃ b c', (Production.statements (n + 1) ends).outcome c = (some b, c') ∧ c.Trace .block c' := by
  cases hec : ends c.cur with
  | true => exact ⟨[], c, statements_some.mpr (.done hec), .refl⟩
  | false =>
    have hne : c.cur ≠ .eof := fun h => by simp [h, he] at hec
    have hpos := Cursor.tokens_length_pos hne
    have hs := ih.statement c hc (by omega)
    rcases ho : (Production.statement n).outcome c with ⟨r, c₁⟩
    have hr := (moves_statement n).reaches ho
    have hle := hr.length_le hc
    have hl := (hr.aligned hc).length_advance
    cases r with
    | none =>
      have ha := (Cursor.Reaches.aligned (hr.tail .skip) hc).advance
      have hl' := congrArg List.length (Cursor.tokens_skip_advance c₁)
      obtain ⟨b, c', hb, ht⟩ := ih.statements ends c₁.skip.advance he ha (by omega)
      obtain ⟨c₂, d, hs₂, hd, rfl⟩ := hs.refused ho
      exact ⟨b, c', statements_some.mpr (.drop hec ho hb), .trans (.drop .refl hne hs₂ hd) ht⟩
    | some s =>
      obtain ⟨b, c', hb, ht⟩ :=
        ih.statements ends c₁.advance he (hr.aligned hc).advance (by omega)
      exact ⟨s :: b, c', statements_some.mpr (.keep hec ho hb),
        .trans (.keep .refl hne (hs.given ho)) ht⟩

theorem accounting_succ (ih : Accounting n) : Accounting (n + 1) where
  statements ends c he hc hn := ih.statements_succ he hc hn
  statement c hc hn := ih.statement_succ hc hn
  expression p c hc hn := by
    unfold expression
    refine (ih.operand c hc (by omega)).bind fun left c₁ h => ?_
    have hr := (moves_operand n).reaches h
    have hl := hr.length_le hc
    exact ih.continuation p left c₁ (hr.aligned hc) (by omega)
  continuation p left c hc hn := ih.continuation_succ p left hc hn
  extension left c hc hp hn := ih.extension_succ left hc hp hn
  operand c hc hn := ih.operand_succ hc hn
  pairs c hc he hn := ih.pairs_succ hc he hn

theorem accounting (n : Nat) : Accounting n := by
  induction n with
  | zero => exact .zero
  | succ n ih => exact accounting_succ ih

end Production

end MonkeyLang
