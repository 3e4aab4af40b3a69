import MonkeyLang.Proofs.Parsing.Surroundings

namespace MonkeyLang

namespace Production

variable {σ : Surroundings} {m n : Nat} {c c' : Cursor}

/-- At depths that are enough, the productions do within surroundings what they do in the text
alone. In a closed text no block begins, so only an open one is read by `statements` and `pairs`. -/
structure Local (σ : Surroundings) (m n : Nat) : Prop where
  statements : ∀ ends c c', ¬ σ.closed → ends .eof = true → Within σ c c' → Enough σ m n c 4 →
    Same σ (Inside σ) (statements m ends) (statements n ends) c c'
  statement : ∀ c c', Within σ c c' → Enough σ m n c 3 →
    Same σ (fun _ => True) (statement m) (statement n) c c'
  expression : ∀ p c c', Within σ c c' → Enough σ m n c 2 →
    Same σ (Inside σ) (expression m p) (expression n p) c c'
  continuation : ∀ p left c c', Within σ c c' → Inside σ c → Enough σ m n c 1 →
    Same σ (Inside σ) (continuation m p left) (continuation n p left) c c'
  extension : ∀ left c c', Within σ c c' → .lowest < c.cur.precedence → Enough σ m n c 4 →
    Same σ (Inside σ) (extension m left) (extension n left) c c'
  operand : ∀ c c', Within σ c c' → Enough σ m n c 1 →
    Same σ (Inside σ) (operand m) (operand n) c c'
  pairs : ∀ c c', ¬ σ.closed → Within σ c c' → c.cur ≠ .eof → Enough σ m n c 0 →
    Same σ (Inside σ) (pairs m) (pairs n) c c'

theorem local_of_shallow (h : m = 0 ∨ n = 0) : Local σ m n where
  statements ends c c' _ _ _ hn := by omega
  statement c c' _ hn := by omega
  expression p c c' _ hn := by omega
  continuation p left c c' _ _ hn := by omega
  extension left c c' _ _ hn := by omega
  operand c c' _ hn := by omega
  pairs c c' _ _ he hn := by
    have := Cursor.tokens_length_pos he
    omega

theorem enough_past {calls : Nat} {d : Cursor} (hc : c.Aligned) (he : c.cur ≠ .eof)
    (hn : Enough σ (m + 1) (n + 1) c calls) (h : c.advance.Reaches d) :
    Enough σ m n d (calls + 3) := by
  have hl := hc.length_advance
  have hle := h.length_le hc.advance
  have hpos := Cursor.tokens_length_pos he
  constructor <;> omega

theorem inside_of_precedence {t : Token} (h : c.cur = t) (hp : .lowest < t.precedence) :
    Inside σ c :=
  inside_of_cur h fun ht => by
    rw [ht] at hp
    exact Nat.lt_irrefl _ hp

theorem same_argument (ih : Local σ m n) (hw : Within σ c c') (hi : Inside σ c)
    (hn : 4 * (c.tokens.length - 1) + 2 ≤ m ∧ 4 * (c.tokens.length - 1 + σ.after.length) + 2 ≤ n) :
    Same σ (Inside σ) (argument m) (argument n) c c' := by
  have hl := hw.aligned.length_advance
  exact same_advance_bind (ih.expression _ _ _ (hw.advance hi) (by omega))

theorem same_arguments (ih : Local σ m n) {close : Symbol} (hs : close ≠ .semicolon)
    (hw : Within σ c c') (hi : Inside σ c)
    (hn : 4 * (c.tokens.length - 1) + 2 ≤ m ∧ 4 * (c.tokens.length - 1 + σ.after.length) + 2 ≤ n)
    (hl : c.tokens.length < m ∧ c.tokens.length + σ.after.length < n) :
    Same σ (Inside σ) (listed (argument m) close m) (listed (argument n) close n) c c' := by
  refine same_listed (moves_argument m) hs hw hi hl fun d d' hr hd hi => ?_
  have hle := hr.length_le hw.aligned
  exact same_argument ih hd hi (by omega)

theorem same_block {α : Type} {f g : List Stmt → Production α} {Q : Cursor → Prop}
    (ih : Local σ m n) (hw : Within σ c c') (hi : Inside σ c) (hn : Enough σ m n c 4)
    (hf : ∀ b d d', ¬ σ.closed → c.Reaches d → Within σ d d' → Same σ Q (f b) (g b) d d') :
    Same σ Q (do
        expect (.symbol .lbrace)
        advance
        f (← statements m endsBlock)) (do
        expect (.symbol .lbrace)
        advance
        g (← statements n endsBlock)) c c' := by
  refine (same_expect hw hi (by simp)).bind fun _ c₁ c₁' h₁ hw₁ hi₁ => ?_
  obtain ⟨hb, rfl⟩ := expect_symbol.mp h₁
  -- No closed text gets past the brace.
  have ho : ¬ σ.closed := hw₁.open_of_cur hb
  have hr : c.Reaches c.advance.advance := c.reaches_advance.tail .advance
  have hle := hr.length_le hw.aligned
  have hs := ih.statements endsBlock _ _ ho rfl (hw₁.advance hi₁) (by omega)
  exact same_advance_bind (hs.bind fun b d d' hd hw₂ _ =>
    hf b d d' ho (hr.trans ((moves_statements _ _).reaches hd)) hw₂)

theorem Local.cond (ih : Local σ m n) (hw : Within σ c c') (he : c.cur = .keyword .ifKey)
    (hn : Enough σ (m + 1) (n + 1) c 1) :
    Same σ (Inside σ) (Production.operand (m + 1)) (Production.operand (n + 1)) c c' := by
  have past {d : Cursor} (hr : c.advance.Reaches d) : Enough σ m n d 4 :=
    enough_past hw.aligned (by simp [he]) hn hr
  unfold Production.operand
  refine same_cur_bind hw ?_
  rw [he]
  refine (same_expect hw (inside_of_cur he (by simp)) (by simp)).bind fun _ c₁ c₁' h₁ hw₁ hi₁ => ?_
  obtain ⟨-, rfl⟩ := expect_symbol.mp h₁
  have hr := c.advance.reaches_advance
  have hm := past hr
  refine same_advance_bind
    ((ih.expression _ _ _ (hw₁.advance hi₁) (by omega)).bind fun test c₂ c₂' h₂ hw₂ hi₂ => ?_)
  refine (same_expect hw₂ hi₂ (by simp)).bind fun _ c₃ c₃' h₃ hw₃ hi₃ => ?_
  have hr := hr.trans (((moves_expression _ _).reaches h₂).trans ((moves_expect _).reaches h₃))
  refine same_block ih hw₃ hi₃ (past hr) fun yes c₄ c₄' ho hr' hw₄ => ?_
  have hi {d : Cursor} : Inside σ d := fun hc => absurd hc ho
  refine same_peek_bind hw₄ hi (Same.ite (fun _ => ?_) fun _ => same_pure hw₄ hi _)
  refine same_advance_bind (same_block ih (hw₄.advance hi) hi (past ?_) ?_)
  · exact hr.trans (hr'.tail .advance)
  · exact fun no c₅ c₅' _ _ hw₅ => same_pure hw₅ hi _

theorem Local.fn (ih : Local σ m n) (hw : Within σ c c') (he : c.cur = .keyword .fnKey)
    (hn : Enough σ (m + 1) (n + 1) c 1) :
    Same σ (Inside σ) (Production.operand (m + 1)) (Production.operand (n + 1)) c c' := by
  have past {d : Cursor} (hr : c.advance.Reaches d) : Enough σ m n d 4 :=
    enough_past hw.aligned (by simp [he]) hn hr
  unfold Production.operand
  refine same_cur_bind hw ?_
  rw [he]
  refine (same_expect hw (inside_of_cur he (by simp)) (by simp)).bind fun _ c₁ c₁' h₁ hw₁ hi₁ => ?_
  obtain ⟨-, rfl⟩ := expect_symbol.mp h₁
  have hm := past .refl
  have hp : Same σ (Inside σ) (listed expectName .rparen m) (listed expectName .rparen n)
      c.advance c₁' :=
    same_listed moves_expectName (by simp) hw₁ hi₁ (by omega) fun d d' _ hw hi =>
      same_expectName hw hi
  refine hp.bind fun params c₂ c₂' h₂ hw₂ hi₂ => ?_
  refine same_block ih hw₂ hi₂ (past ((moves_expectName.listed _ _).reaches h₂)) ?_
  exact fun body d d' ho _ hd => same_pure hd (fun hc => absurd hc ho) _

theorem Local.operand_succ (ih : Local σ m n) (hw : Within σ c c')
    (hn : Enough σ (m + 1) (n + 1) c 1) :
    Same σ (Inside σ) (Production.operand (m + 1)) (Production.operand (n + 1)) c c' := by
  cases h : c.cur with
  | keyword k =>
    cases k with
    | ifKey => exact ih.cond hw h hn
    | fnKey => exact ih.fn hw h hn
    | trueKey | falseKey =>
      unfold Production.operand
      exact same_cur_bind hw (by rw [h]; exact same_pure hw (inside_of_cur h (by simp)) _)
    | elseKey | letKey | returnKey =>
      unfold Production.operand
      exact same_cur_bind hw (by rw [h]; exact same_refuse hw _)
  | ident _ | string _ =>
    unfold Production.operand
    exact same_cur_bind hw (by rw [h]; exact same_pure hw (inside_of_cur h (by simp)) _)
  | int d =>
    unfold Production.operand
    exact same_cur_bind hw (by rw [h]; exact same_integer hw (inside_of_cur h (by simp)) d)
  | eof | illegal _ =>
    unfold Production.operand
    exact same_cur_bind hw (by rw [h]; exact same_refuse hw _)
  | symbol s =>
    have hm := enough_past hw.aligned (by simp [h]) hn .refl
    have hpos := Cursor.tokens_length_pos (c := c) (by simp [h])
    have he (p : Precedence) (hs : s ≠ .semicolon) :=
      ih.expression p _ _ (hw.advance (inside_of_cur h (by simpa using hs))) (by omega)
    unfold Production.operand
    refine same_cur_bind hw ?_
    rw [h]
    cases s with
    | bang | minus =>
      exact same_advance_bind ((he .unary (by simp)).bind fun _ _ _ _ hw₁ hi₁ =>
        same_pure hw₁ hi₁ _)
    | lparen =>
      exact same_advance_bind ((he .lowest (by simp)).bind fun _ _ _ _ hw₁ hi₁ =>
        (same_expect hw₁ hi₁ (by simp)).bind fun _ _ _ _ hw₂ hi₂ => same_pure hw₂ hi₂ _)
    | lbracket =>
      have hi : Inside σ c := inside_of_cur h (by simp)
      have hs : Same σ (Inside σ) (listed (argument m) .rbracket m)
          (listed (argument n) .rbracket n) c c' :=
        same_arguments ih (by simp) hw hi (by omega) (by omega)
      exact hs.bind fun _ _ _ _ hw₁ hi₁ => same_pure hw₁ hi₁ _
    | lbrace =>
      have hp := ih.pairs c c' (hw.open_of_cur h) hw (by simp [h]) (by omega)
      exact hp.bind fun _ _ _ _ hw₁ hi₁ =>
        (same_expect hw₁ hi₁ (by simp)).bind fun _ _ _ _ hw₂ hi₂ => same_pure hw₂ hi₂ _
    | _ => exact same_refuse hw _

theorem Local.extension_succ (ih : Local σ m n) (left : Expr) (hw : Within σ c c')
    (hp : .lowest < c.cur.precedence) (hn : Enough σ (m + 1) (n + 1) c 4) :
    Same σ (Inside σ) (Production.extension (m + 1) left) (Production.extension (n + 1) left)
      c c' := by
  have hi : Inside σ c := inside_of_precedence rfl hp
  have hl := hw.aligned.length_advance
  have he (p : Precedence) := ih.expression p _ _ (hw.advance hi) (by omega)
  unfold Production.extension
  refine same_cur_bind hw ?_
  split
  · have hs : Same σ (Inside σ) (listed (argument m) .rparen m) (listed (argument n) .rparen n)
        c c' :=
      same_arguments ih (by simp) hw hi (by omega) (by omega)
    exact hs.bind fun _ _ _ _ hw₁ hi₁ => same_pure hw₁ hi₁ _
  · exact same_advance_bind ((he .lowest).bind fun _ _ _ _ hw₁ hi₁ =>
      (same_expect hw₁ hi₁ (by simp)).bind fun _ _ _ _ hw₂ hi₂ => same_pure hw₂ hi₂ _)
  · rename_i hnp hnb
    rcases operator_of_precedence hp with h | h | ⟨op, h⟩
    · exact absurd h hnp
    · exact absurd h hnb
    · rw [h]
      exact same_advance_bind ((he _).bind fun _ _ _ _ hw₁ hi₁ => same_pure hw₁ hi₁ _)

theorem Local.pairs_succ (ih : Local σ m n) (ho : ¬ σ.closed) (hw : Within σ c c')
    (he : c.cur ≠ .eof) (hn : Enough σ (m + 1) (n + 1) c 0) :
    Same σ (Inside σ) (Production.pairs (m + 1)) (Production.pairs (n + 1)) c c' := by
  have past {d : Cursor} (hr : c.advance.Reaches d) : Enough σ m n d 3 :=
    enough_past hw.aligned he hn hr
  have hi {d : Cursor} : Inside σ d := fun hc => absurd hc ho
  unfold Production.pairs
  refine same_peek_bind hw hi (Same.ite (fun _ => same_pure hw hi _) fun _ => ?_)
  have hm := past .refl
  refine same_advance_bind
    ((ih.expression _ _ _ (hw.advance hi) (by omega)).bind fun key c₁ c₁' h₁ hw₁ _ => ?_)
  refine (same_expect hw₁ hi (by simp)).bind fun _ c₂ c₂' h₂ hw₂ _ => ?_
  have hr := ((moves_expression _ _).reaches h₁).trans
    (((moves_expect _).reaches h₂).tail .advance)
  have hm := past hr
  refine same_advance_bind
    ((ih.expression _ _ _ (hw₂.advance hi) (by omega)).bind fun value c₃ c₃' h₃ hw₃ _ => ?_)
  have hr := hr.trans ((moves_expression _ _).reaches h₃)
  refine same_peek_bind hw₃ hi (Same.ite (fun _ => ?_) fun hb => ?_)
  · refine (same_expect hw₃ hi (by simp)).bind fun _ c₄ c₄' h₄ hw₄ _ => ?_
    obtain ⟨hp, rfl⟩ := expect_symbol.mp h₄
    have hm := past (hr.tail .advance)
    have he : c₃.advance.cur ≠ .eof := by simp [show c₃.advance.cur = _ from hp]
    exact (ih.pairs _ _ ho hw₄ he (by omega)).bind fun _ _ _ _ hw₅ _ => same_pure hw₅ hi _
  · have hm := past hr
    have he : c₃.cur ≠ .eof := fun he => by simp [hw₃.aligned.peek he] at hb
    exact (ih.pairs _ _ ho hw₃ he (by omega)).bind fun _ _ _ _ hw₅ _ => same_pure hw₅ hi _

theorem Local.statement_succ (ih : Local σ m n) (hw : Within σ c c')
    (hn : Enough σ (m + 1) (n + 1) c 3) :
    Same σ (fun _ => True) (Production.statement (m + 1)) (Production.statement (n + 1)) c c' := by
  have ended {f : Expr → Stmt} {d d' : Cursor} (hr : c.Reaches d) (hd : Within σ d d') :
      Same σ (fun _ => True) (do
        let value ← Production.expression m .lowest
        skipSemicolon
        return f value) (do
        let value ← Production.expression n .lowest
        skipSemicolon
        return f value) d d' := by
    have hl := hr.length_le hw.aligned
    exact (ih.expression _ _ _ hd (by omega)).bind fun _ _ _ _ hw₁ hi₁ =>
      same_skipSemicolon_bind hw₁ hi₁ fun _ _ hw₂ => same_pure hw₂ trivial _
  unfold Production.statement
  refine same_cur_bind hw ?_
  split
  · rename_i h
    refine (same_expectName hw (inside_of_cur h (by simp))).bind fun x c₁ c₁' h₁ hw₁ hi₁ => ?_
    refine (same_expect hw₁ hi₁ (by simp)).bind fun _ c₂ c₂' h₂ hw₂ hi₂ => same_advance_bind ?_
    refine ended ?_ (hw₂.advance hi₂)
    exact (moves_expectName.reaches h₁).trans (((moves_expect _).reaches h₂).tail .advance)
  · rename_i h
    have hi : Inside σ c := inside_of_cur h (by simp)
    exact same_advance_bind (ended c.reaches_advance (hw.advance hi))
  · exact ended .refl hw

theorem Local.continuation_succ (ih : Local σ m n) (p : Precedence) (left : Expr)
    (hw : Within σ c c') (hi : Inside σ c) (hn : Enough σ (m + 1) (n + 1) c 1) :
    Same σ (Inside σ) (Production.continuation (m + 1) p left)
      (Production.continuation (n + 1) p left) c c' := by
  unfold Production.continuation
  refine same_peek_bind hw hi (Same.ite (fun hp => ?_) fun _ => same_pure hw hi _)
  have ho : .lowest < c.peek.precedence := Nat.lt_of_le_of_lt (Nat.zero_le _) hp
  have he : c.cur ≠ .eof := fun he => by
    rw [hw.aligned.peek he] at ho
    exact Nat.lt_irrefl _ ho
  have past {d : Cursor} (hr : c.advance.Reaches d) : Enough σ m n d 4 :=
    enough_past hw.aligned he hn hr
  refine same_advance_bind ((ih.extension left _ _ (hw.advance hi) ho (past .refl)).bind ?_)
  intro longer c₁ c₁' h₁ hw₁ hi₁
  have hm := past ((moves_extension m left).reaches h₁)
  exact ih.continuation p longer c₁ c₁' hw₁ hi₁ (by omega)

theorem Local.statements_succ (ih : Local σ m n) {ends : Token → Bool} (ho : ¬ σ.closed)
    (he : ends .eof = true) (hw : Within σ c c') (hn : Enough σ (m + 1) (n + 1) c 4) :
    Same σ (Inside σ) (Production.statements (m + 1) ends)
      (Production.statements (n + 1) ends) c c' := by
  have hi {d : Cursor} : Inside σ d := fun hc => absurd hc ho
  unfold Production.statements
  refine same_cur_bind hw (Same.ite (fun _ => same_pure hw hi _) fun hec => ?_)
  have hne : c.cur ≠ .eof := fun h => by simp [h, he] at hec
  have hpos := Cursor.tokens_length_pos hne
  refine (ih.statement c c' hw (by omega)).attempt.bind fun r c₁ c₁' h₁ hw₁ _ => ?_
  have hr : c.Reaches c₁ := (moves_statement m).attempt.reaches h₁
  have hle := hr.length_le hw.aligned
  have hl := hw₁.aligned.length_advance
  cases r with
  | some s =>
    have hs := ih.statements ends _ _ ho he (hw₁.advance hi) (by omega)
    exact same_advance_bind (hs.bind fun b _ _ _ hw₂ _ => same_pure hw₂ hi _)
  | none =>
    have hl' := congrArg List.length (Cursor.tokens_skip_advance c₁)
    exact same_skip_bind (same_advance_bind
      (ih.statements ends _ _ ho he (hw₁.skip.advance hi) (by omega)))

theorem local_succ (ih : Local σ m n) : Local σ (m + 1) (n + 1) where
  statements ends c c' ho he hw hn := ih.statements_succ ho he hw hn
  statement c c' hw hn := ih.statement_succ hw hn
  expression p c c' hw hn := by
    unfold expression
    refine (ih.operand c c' hw (by omega)).bind fun left c₁ c₁' h hw₁ hi₁ => ?_
    have hl := ((moves_operand m).reaches h).length_le hw.aligned
    exact ih.continuation p left c₁ c₁' hw₁ hi₁ (by omega)
  continuation p left c c' hw hi hn := ih.continuation_succ p left hw hi hn
  extension left c c' hw hp hn := ih.extension_succ left hw hp hn
  operand c c' hw hn := ih.operand_succ hw hn
  pairs c c' ho hw he hn := ih.pairs_succ ho hw he hn

theorem productions_local (σ : Surroundings) (m n : Nat) : Local σ m n := by
  induction m generalizing n with
  | zero => exact local_of_shallow (.inl rfl)
  | succ m ih =>
    cases n with
    | zero => exact local_of_shallow (.inr rfl)
    | succ n => exact local_succ (ih n)

end Production

end MonkeyLang
