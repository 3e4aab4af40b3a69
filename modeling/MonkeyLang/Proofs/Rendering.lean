import MonkeyLang.Program.Text
import MonkeyLang.Proofs.Acceptance
import MonkeyLang.Proofs.Lexing
import MonkeyLang.Proofs.WellFormed

namespace MonkeyLang

open Phrase (Spans Parted)
open Text (commas)

namespace Source

/-- What follows cannot be read together with a word, a number or a symbol before it. -/
def Apart (rest : Source) : Prop :=
  ∀ c ∈ rest.head?, isLetter c = false ∧ c.isDigit = false ∧ c ≠ '='

theorem apart_nil : Apart [] := by
  rintro c ⟨⟩

theorem apart_cons {c : Char} (h : isLetter c = false ∧ c.isDigit = false ∧ c ≠ '=')
    (cs : Source) : Apart (c :: cs) := by
  rintro d ⟨⟩
  exact h

variable {rest : Source}

theorem Apart.letter (h : Apart rest) : Off isLetter rest := fun c hc => (h c hc).1

theorem Apart.digit (h : Apart rest) : Off Char.isDigit rest := fun c hc => (h c hc).2.1

theorem tokens_symbol {s : Symbol} (hs : s ≠ .assign ∧ s ≠ .bang) (rest : Source) :
    tokens (s.text.toList ++ rest) = .symbol s :: tokens rest := by
  refine tokens_of_next (next_symbol fun h => ?_) (by simp)
  rcases h with h | h
  · exact absurd h hs.1
  · exact absurd h hs.2

theorem tokens_char (c : Char) {s : Symbol} (h : Symbol.ofChar? c = some s)
    (hs : s ≠ .assign ∧ s ≠ .bang) (rest : Source) :
    tokens (c :: rest) = .symbol s :: tokens rest := by
  have ht := tokens_symbol hs rest
  rwa [text_of_ofChar? h] at ht

theorem apart_char {c : Char} {s : Symbol} (h : Symbol.ofChar? c = some s)
    (hs : s ≠ .assign ∧ s ≠ .bang) (cs : Source) : Apart (c :: cs) := by
  refine apart_cons ?_ cs
  unfold Symbol.ofChar? at h
  split at h <;> cases h <;> first | decide | exact absurd rfl hs.1

theorem apart_blank (cs : Source) : Apart (' ' :: cs) := apart_cons (by decide) cs

theorem tokens_keyword (k : Keyword) (h : Off isLetter rest) :
    tokens (k.text.toList ++ rest) = .keyword k :: tokens rest :=
  tokens_of_next (next_keyword k h) (by simp)

theorem tokens_name {x : String} (hx : IsName x) (h : Off isLetter rest) :
    tokens (x.toList ++ rest) = .ident x :: tokens rest := by
  have hn := next_word hx.nonempty hx.letters h
  rw [String.ofList_toList, Token.ofWord, hx.free] at hn
  exact tokens_of_next hn (by simp)

theorem digits_nonempty (n : Nat) : (toString n).toList ≠ [] := by
  simp

theorem digits_isDigit (n : Nat) : ∀ c ∈ (toString n).toList, c.isDigit = true := by
  intro c hc
  rw [Nat.toString_eq_repr, Nat.toList_repr] at hc
  exact Nat.isDigit_of_mem_toDigits (by decide) (by decide) hc

theorem tokens_nat (n : Nat) (h : Off Char.isDigit rest) :
    tokens ((toString n).toList ++ rest) = .int (toString n) :: tokens rest := by
  have hx := next_digits (digits_nonempty n) (digits_isDigit n) h
  rw [String.ofList_toList] at hx
  exact tokens_of_next hx (by simp)

theorem tokens_string {t : String} (ht : '"' ∉ t.toList) :
    tokens ('"' :: t.toList ++ '"' :: rest) = .string t :: tokens rest := by
  have hn : next ('"' :: t.toList ++ '"' :: rest) = (.string (String.ofList t.toList), rest) :=
    next_string ht
  rw [String.ofList_toList] at hn
  exact tokens_of_next hn (by simp)

theorem tokens_names {params : List String} (h : ∀ x ∈ params, IsName x) (rest : Source) :
    tokens ((commas params).toList ++ ')' :: rest) =
      Phrase.names params ++ .symbol .rparen :: tokens rest := by
  match params with
  | [] => exact tokens_char ')' rfl (by decide) rest
  | [x] =>
    have hr : Apart (')' :: rest) := apart_char rfl (by decide) rest
    rw [Text.commas_singleton, tokens_name (h x (by simp)) hr.letter,
      tokens_char ')' rfl (by decide)]
    rfl
  | x :: y :: xs =>
    have ih := tokens_names (fun z hz => h z (List.mem_cons_of_mem x hz)) rest
    have hr (cs : Source) : Apart (',' :: cs) := apart_char rfl (by decide) cs
    rw [Text.commas_cons_cons, String.toList_append, String.toList_append, List.append_assoc,
      List.append_assoc]
    change tokens (x.toList ++ ',' :: ' ' :: ((commas (y :: xs)).toList ++ ')' :: rest)) = _
    rw [tokens_name (h x (by simp)) (hr _).letter, tokens_char ',' rfl (by decide), tokens_blank,
      ih]
    rfl

end Source

open Source (Off Apart isLetter tokens)

/-- What a statement leaves right after its text: the semicolon of a binding or a return is part of
the text. -/
def Stmt.left (s : Stmt) (rest : List Token) : List Token :=
  match s with
  | .expr _ => rest
  | _ => .symbol .semicolon :: rest

theorem off_run {w : Source} (hn : w ≠ []) (h : ∀ c ∈ w, c ≠ '=') (rest : Source) :
    Off (fun c => decide (c = '=')) (w ++ rest) := by
  obtain ⟨c, cs, rfl⟩ := List.exists_cons_of_ne_nil hn
  rintro d ⟨⟩
  exact decide_eq_false (h c (List.mem_cons_self ..))

/-- No expression starts with an equals sign, so a bang before one stays a bang. -/
theorem Expr.text_off : ∀ (e : Expr) (rest : Source), e.WellFormed →
    Off (fun c => decide (c = '=')) (e.text.toList ++ rest)
  | .ident x, rest, h => by
    refine off_run h.nonempty (fun c hc he => ?_) rest
    have hl := h.letters c hc
    rw [he] at hl
    exact absurd hl (by decide)
  | .int v, rest, h => by
    obtain ⟨n, hn⟩ := Int.eq_ofNat_of_zero_le h
    have ht : (Expr.int v).text.toList = (toString n).toList := by
      rw [Expr.text, hn]
      rfl
    rw [ht]
    refine off_run (Source.digits_nonempty n) (fun c hc he => ?_) rest
    have hd := Source.digits_isDigit n c hc
    rw [he] at hd
    exact absurd hd (by decide)
  | .bool b, rest, _ => by cases b <;> simp [Expr.text, Off]
  | .string t, rest, _ => by simp [Expr.text, Off]
  | .unary op e, rest, _ => by simp [Expr.text, Off]
  | .binary l op r, rest, _ => by simp [Expr.text, Off]
  | .cond c y none, rest, _ => by simp [Expr.text, Off]
  | .cond c y (some n), rest, _ => by simp [Expr.text, Off]
  | .fn ps b, rest, _ => by simp [Expr.text, signature, Off]
  | .call e es, rest, h => by
    simp only [Expr.text, String.toList_append, List.append_assoc]
    exact Expr.text_off e _ h.1
  | .array es, rest, _ => by simp [Expr.text, Off]
  | .hash ps, rest, _ => by simp [Expr.text, Off]
  | .index e i, rest, _ => by simp [Expr.text, Off]

theorem spans_nat {n : Nat} (h : n < 2 ^ 63) {rest : Source} (hr : Apart rest) :
    Spans Parted (.atom (.int (Int64.ofNat n))) (tokens ((toString n).toList ++ rest))
      (tokens rest) := by
  have hd : Production.digitsValue (toString n) = n := by
    rw [Production.digitsValue, Nat.toString_eq_repr, Nat.toList_repr,
      Nat.ofDigitChars_ten_toDigits]
  have hs : Spans Parted (.atom (.int (Int64.ofNat (Production.digitsValue (toString n)))))
      (.int (toString n) :: tokens rest) (tokens rest) := .int (by rwa [hd])
  rwa [hd, ← Source.tokens_nat n hr.digit] at hs

theorem spans_int {v : Int64} (h : 0 ≤ v.toInt) {rest : Source} (hr : Apart rest) :
    Spans Parted (.atom (.int v)) (tokens ((toString v.toInt).toList ++ rest)) (tokens rest) := by
  obtain ⟨n, hn⟩ := Int.eq_ofNat_of_zero_le h
  have hv : Int64.ofNat n = v := by rw [← Int64.ofInt_eq_ofNat, ← hn, Int64.ofInt_toInt]
  have hlt : n < 2 ^ 63 := by
    have hm := v.toInt_lt
    omega
  have ht : toString v.toInt = toString n := by rw [hn]; rfl
  rw [ht, ← hv]
  exact spans_nat hlt hr

theorem tokens_operator (op : Operator) {rest : Source} (h : Off (fun c => decide (c = '=')) rest) :
    tokens (op.symbol.text.toList ++ rest) = .symbol op.symbol :: tokens rest :=
  Source.tokens_of_next (Source.next_symbol fun _ => h) (by simp)

theorem off_blank (rest : Source) : Off (fun c => decide (c = '=')) (' ' :: rest) := by
  rintro c ⟨⟩
  rfl

theorem tokens_operator_blanks (op : Operator) (rest : Source) :
    tokens (' ' :: (op.symbol.text.toList ++ ' ' :: rest)) = .symbol op.symbol :: tokens rest := by
  rw [Source.tokens_blank, tokens_operator op (off_blank rest), Source.tokens_blank]

theorem tokens_assign (rest : Source) :
    tokens (' ' :: '=' :: ' ' :: rest) = .symbol .assign :: tokens rest := by
  have hn : Source.next ('=' :: ' ' :: rest) = (.symbol .assign, ' ' :: rest) :=
    Source.next_symbol (s := .assign) fun _ => off_blank rest
  rw [Source.tokens_blank, Source.tokens_of_next hn (by simp), Source.tokens_blank]

def afterCommas (ss : List String) : Source := ss.flatMap fun s => ',' :: ' ' :: s.toList

theorem commas_cons (s : String) (r : List String) :
    (commas (s :: r)).toList = s.toList ++ afterCommas r := by
  induction r generalizing s with
  | nil => simp [afterCommas]
  | cons t r ih =>
    rw [Text.commas_cons_cons, String.toList_append, String.toList_append, ih]
    simp [afterCommas]

theorem apart_afterCommas (ss : List String) {rest : Source} (h : Apart rest) :
    Apart (afterCommas ss ++ rest) := by
  cases ss with
  | nil => exact h
  | cons s ss => exact Source.apart_char rfl (by decide) _

theorem left_gap (s : Stmt) (rest : Source) :
    s.left (tokens (s.gap.toList ++ rest)) = .symbol .semicolon :: tokens rest := by
  cases s with
  | expr e =>
    have hg : (Stmt.expr e).gap.toList ++ rest = ';' :: ' ' :: rest := by simp [Stmt.gap]
    rw [hg, Stmt.left, Source.tokens_char ';' rfl (by decide), Source.tokens_blank]
  | bind x e | ret e | block b =>
    have hg : " ".toList ++ rest = ' ' :: rest := by simp
    rw [Stmt.gap, hg, Stmt.left, Source.tokens_blank]
    · simp
    · simp

theorem apart_gap (s : Stmt) (rest : Source) : Apart (s.gap.toList ++ rest) := by
  cases s with
  | expr e =>
    have hg : (Stmt.expr e).gap.toList ++ rest = ';' :: ' ' :: rest := by simp [Stmt.gap]
    exact hg ▸ Source.apart_char rfl (by decide) _
  | bind x e | ret e | block b =>
    have hg : " ".toList ++ rest = ' ' :: rest := by simp
    rw [Stmt.gap, hg]
    · exact Source.apart_blank rest
    · simp

namespace Phrase

variable {bare : List Token → Prop} {e : Expr} {ts rest : List Token}

theorem Spans.whole_of_unary (h : Spans bare (.unary e) ts rest) : Spans bare (.expr e) ts rest :=
  Spans.loosen (j := 0) (k := 5) h (by decide)

theorem Spans.whole_of_suffixed (h : Spans bare (.suffixed e) ts rest) :
    Spans bare (.expr e) ts rest :=
  h.suffixed.whole_of_unary

theorem Spans.whole_of_tier {t : Tier} (h : Spans bare (.tier t e) ts rest) :
    Spans bare (.expr e) ts rest :=
  Spans.loosen (j := 0) (level_rank t e ▸ h) (Nat.zero_le _)

theorem Spans.tier_of_suffixed (t : Tier) (h : Spans bare (.suffixed e) ts rest) :
    Spans bare (t.operand e) ts rest := by
  have h₆ : Spans bare (level 6 e) ts rest := h
  have ht : t.rank + 1 ≤ 6 := by cases t <;> decide
  exact level_operand t e ▸ h₆.loosen ht

end Phrase

/-- The text of an expression is read back before anything apart from it. -/
def Expr.ReadsBack (e : Expr) : Prop :=
  ∀ rest, Apart rest → Spans Parted (.suffixed e) (tokens (e.text.toList ++ rest)) (tokens rest)

def Stmt.ReadsBack (s : Stmt) : Prop :=
  ∀ rest, Apart rest →
    Spans Parted (.stmt s) (tokens (s.text.toList ++ rest)) (s.left (tokens rest))

def RestReadsBack (s : Stmt) (b : List Stmt) : Prop :=
  ∀ rest, Apart rest → Parted (tokens rest) →
    Spans Parted (.stmts (s :: b)) (tokens (s.text.toList ++ ((restText s b).toList ++ rest)))
      (tokens rest)

def BlockReadsBack (b : List Stmt) : Prop :=
  ∀ rest, Spans Parted (.block b) (tokens ((blockText b).toList ++ rest)) (tokens rest)

def ListReadsBack (es : List Expr) : Prop :=
  ∀ rest, Apart rest →
    Spans Parted (.list es) (tokens ((commas (exprTexts es)).toList ++ rest)) (tokens rest)

def TailReadsBack (es : List Expr) : Prop :=
  ∀ rest, Apart rest →
    Spans Parted (.tail es) (tokens (afterCommas (exprTexts es) ++ rest)) (tokens rest)

def PairsReadBack (ps : List (Expr × Expr)) : Prop :=
  ∀ rest, Apart rest →
    Spans Parted (.pairs ps) (tokens ((commas (pairTexts ps)).toList ++ rest)) (tokens rest)

section

variable {e l r i test k v : Expr} {op : Operator} {es : List Expr} {ps : List (Expr × Expr)}
  {s t : Stmt} {b yes no body : List Stmt} {sym : Symbol} {rest : Source}

theorem Expr.ReadsBack.before (h : e.ReadsBack) (c : Char) (hc : Symbol.ofChar? c = some sym)
    (hs : sym ≠ .assign ∧ sym ≠ .bang) (rest : Source) :
    Spans Parted (.suffixed e) (tokens (e.text.toList ++ c :: rest))
      (.symbol sym :: tokens rest) := by
  have hb := h (c :: rest) (Source.apart_char hc hs rest)
  rwa [Source.tokens_char c hc hs] at hb

theorem ListReadsBack.before (h : ListReadsBack es) (c : Char) (hc : Symbol.ofChar? c = some sym)
    (hs : sym ≠ .assign ∧ sym ≠ .bang) (rest : Source) :
    Spans Parted (.list es) (tokens ((commas (exprTexts es)).toList ++ c :: rest))
      (.symbol sym :: tokens rest) := by
  have hb := h (c :: rest) (Source.apart_char hc hs rest)
  rwa [Source.tokens_char c hc hs] at hb

theorem readsBack_ident {x : String} (h : IsName x) : (Expr.ident x).ReadsBack := by
  intro rest hr
  change Spans Parted _ (tokens (x.toList ++ rest)) _
  rw [Source.tokens_name h hr.letter]
  exact .atom .ident

theorem readsBack_bool (b : Bool) : (Expr.bool b).ReadsBack := by
  intro rest hr
  cases b with
  | true =>
    have ht : tokens ((Expr.bool true).text.toList ++ rest) = .keyword .trueKey :: tokens rest :=
      Source.tokens_keyword .trueKey hr.letter
    rw [ht]
    exact .atom .yes
  | false =>
    have ht : tokens ((Expr.bool false).text.toList ++ rest) = .keyword .falseKey :: tokens rest :=
      Source.tokens_keyword .falseKey hr.letter
    rw [ht]
    exact .atom .no

theorem readsBack_string {t : String} (h : '"' ∉ t.toList) : (Expr.string t).ReadsBack := by
  intro rest _
  have ht : (Expr.string t).text.toList ++ rest = '"' :: t.toList ++ '"' :: rest := by
    change ("\"" ++ t ++ "\"").toList ++ rest = _
    simp
  rw [ht, Source.tokens_string h]
  exact .atom .string

theorem readsBack_unary (ho : op = .bang ∨ op = .minus) (hw : e.WellFormed) (he : e.ReadsBack) :
    (Expr.unary op e).ReadsBack := by
  intro rest _
  have ht : (Expr.unary op e).text.toList ++ rest =
      '(' :: (op.symbol.text.toList ++ (e.text.toList ++ ')' :: rest)) := by
    change ("(" ++ op.text ++ e.text ++ ")").toList ++ rest = _
    simp [Operator.text]
  have hi := he.before ')' rfl (by decide) rest
  rw [ht, Source.tokens_char '(' rfl (by decide), tokens_operator op (e.text_off _ hw)]
  exact .atom (.group (Spans.unary ho hi.suffixed).whole_of_unary)

theorem readsBack_binary (ho : op ≠ .bang) (hl : l.ReadsBack) (hr : r.ReadsBack) :
    (Expr.binary l op r).ReadsBack := by
  intro rest _
  have ht : (Expr.binary l op r).text.toList ++ rest = '(' :: (l.text.toList ++
      ' ' :: (op.symbol.text.toList ++ ' ' :: (r.text.toList ++ ')' :: rest))) := by
    change ("(" ++ l.text ++ " " ++ op.text ++ " " ++ r.text ++ ")").toList ++ rest = _
    simp [Operator.text]
  have hop : 0 < op.symbol.precedence.rank := by cases op <;> first | decide | contradiction
  obtain ⟨t, -, hm⟩ := Production.tier_of_operator op hop
  have hri := hr.before ')' rfl (by decide) rest
  have hli := hl (' ' :: (op.symbol.text.toList ++ ' ' :: (r.text.toList ++ ')' :: rest)))
    (Source.apart_blank _)
  rw [tokens_operator_blanks] at hli
  rw [ht, Source.tokens_char '(' rfl (by decide)]
  have hb := Spans.binary hm (.operand (hli.tier_of_suffixed t)) (hri.tier_of_suffixed t)
  exact .atom (.group hb.whole_of_tier)

theorem readsBack_cond (ht : test.ReadsBack) (hy : BlockReadsBack yes) :
    (Expr.cond test yes none).ReadsBack := by
  intro rest _
  have hs : (Expr.cond test yes none).text.toList ++ rest = Keyword.ifKey.text.toList ++
      (' ' :: '(' :: (test.text.toList ++ ')' :: ' ' :: ((blockText yes).toList ++ rest))) := by
    change ("if (" ++ test.text ++ ") " ++ blockText yes).toList ++ rest = _
    simp [Keyword.text]
  have hi := ht.before ')' rfl (by decide) (' ' :: ((blockText yes).toList ++ rest))
  rw [Source.tokens_blank] at hi
  rw [hs, Source.tokens_keyword .ifKey (Source.apart_blank _).letter, Source.tokens_blank,
    Source.tokens_char '(' rfl (by decide)]
  exact .atom (.cond hi.whole_of_suffixed (hy rest))

theorem readsBack_condElse (ht : test.ReadsBack) (hy : BlockReadsBack yes)
    (hn : BlockReadsBack no) : (Expr.cond test yes (some no)).ReadsBack := by
  intro rest _
  let other : Source :=
    ' ' :: (Keyword.elseKey.text.toList ++ ' ' :: ((blockText no).toList ++ rest))
  have hs : (Expr.cond test yes (some no)).text.toList ++ rest = Keyword.ifKey.text.toList ++
      (' ' :: '(' :: (test.text.toList ++ ')' :: ' ' :: ((blockText yes).toList ++ other))) := by
    change ("if (" ++ test.text ++ ") " ++ blockText yes ++ " else " ++ blockText no).toList ++ rest = _
    simp [Keyword.text, other]
  have ho : tokens other = .keyword .elseKey :: tokens ((blockText no).toList ++ rest) := by
    rw [Source.tokens_blank, Source.tokens_keyword .elseKey (Source.apart_blank _).letter,
      Source.tokens_blank]
  have hi := ht.before ')' rfl (by decide) (' ' :: ((blockText yes).toList ++ other))
  have hyi := hy other
  rw [Source.tokens_blank] at hi
  rw [ho] at hyi
  rw [hs, Source.tokens_keyword .ifKey (Source.apart_blank _).letter, Source.tokens_blank,
    Source.tokens_char '(' rfl (by decide)]
  exact .atom (.condElse hi.whole_of_suffixed hyi (hn rest))

theorem readsBack_fn {params : List String} (hp : ∀ x ∈ params, IsName x)
    (hb : BlockReadsBack body) : (Expr.fn params body).ReadsBack := by
  intro rest _
  have ht : (Expr.fn params body).text.toList ++ rest = Keyword.fnKey.text.toList ++
      ('(' :: ((commas params).toList ++ ')' :: ' ' :: ((blockText body).toList ++ rest))) := by
    change (signature params ++ blockText body).toList ++ rest = _
    simp [signature, Keyword.text]
  rw [ht, Source.tokens_keyword .fnKey (Source.apart_char rfl (by decide) _).letter,
    Source.tokens_char '(' rfl (by decide), Source.tokens_names hp, Source.tokens_blank]
  exact .atom (.fn (hb rest))

theorem readsBack_call (he : e.ReadsBack) (hes : ListReadsBack es) :
    (Expr.call e es).ReadsBack := by
  intro rest _
  have ht : (Expr.call e es).text.toList ++ rest =
      e.text.toList ++ '(' :: ((commas (exprTexts es)).toList ++ ')' :: rest) := by
    change (e.text ++ "(" ++ commas (exprTexts es) ++ ")").toList ++ rest = _
    simp
  rw [ht]
  exact .call (he.before '(' rfl (by decide) _) (hes.before ')' rfl (by decide) rest)

theorem readsBack_array (hes : ListReadsBack es) : (Expr.array es).ReadsBack := by
  intro rest _
  have ht : (Expr.array es).text.toList ++ rest =
      '[' :: ((commas (exprTexts es)).toList ++ ']' :: rest) := by
    change ("[" ++ commas (exprTexts es) ++ "]").toList ++ rest = _
    simp
  rw [ht, Source.tokens_char '[' rfl (by decide)]
  exact .atom (.array (hes.before ']' rfl (by decide) rest))

theorem readsBack_hash (hps : PairsReadBack ps) : (Expr.hash ps).ReadsBack := by
  intro rest _
  have ht : (Expr.hash ps).text.toList ++ rest =
      '{' :: ((commas (pairTexts ps)).toList ++ '}' :: rest) := by
    change ("\x7b" ++ commas (pairTexts ps) ++ "\x7d").toList ++ rest = _
    simp
  have hi := hps ('}' :: rest) (Source.apart_char rfl (by decide) rest)
  rw [Source.tokens_char '}' rfl (by decide)] at hi
  rw [ht, Source.tokens_char '{' rfl (by decide)]
  exact .atom (.hash hi)

theorem readsBack_index (he : e.ReadsBack) (hi : i.ReadsBack) : (Expr.index e i).ReadsBack := by
  intro rest _
  have ht : (Expr.index e i).text.toList ++ rest =
      '(' :: (e.text.toList ++ '[' :: (i.text.toList ++ ']' :: ')' :: rest)) := by
    change ("(" ++ e.text ++ "[" ++ i.text ++ "])").toList ++ rest = _
    simp
  have hei := he.before '[' rfl (by decide) (i.text.toList ++ ']' :: ')' :: rest)
  have hii := hi.before ']' rfl (by decide) (')' :: rest)
  rw [Source.tokens_char ')' rfl (by decide)] at hii
  rw [ht, Source.tokens_char '(' rfl (by decide)]
  exact .atom (.group (Spans.index hei hii.whole_of_suffixed).whole_of_suffixed)

theorem readsBack_bind {x : String} (hx : IsName x) (he : e.ReadsBack) :
    (Stmt.bind x e).ReadsBack := by
  intro rest _
  have ht : (Stmt.bind x e).text.toList ++ rest = Keyword.letKey.text.toList ++
      ' ' :: (x.toList ++ ' ' :: '=' :: ' ' :: (e.text.toList ++ ';' :: rest)) := by
    change ("let " ++ x ++ " = " ++ e.text ++ ";").toList ++ rest = _
    simp [Keyword.text]
  have hi := he.before ';' rfl (by decide) rest
  rw [ht, Source.tokens_keyword .letKey (Source.apart_blank _).letter, Source.tokens_blank,
    Source.tokens_name hx (Source.apart_blank _).letter, tokens_assign]
  exact .bind hi.whole_of_suffixed

theorem readsBack_ret (he : e.ReadsBack) : (Stmt.ret e).ReadsBack := by
  intro rest _
  have ht : (Stmt.ret e).text.toList ++ rest =
      Keyword.returnKey.text.toList ++ ' ' :: (e.text.toList ++ ';' :: rest) := by
    change ("return " ++ e.text ++ ";").toList ++ rest = _
    simp [Keyword.text]
  have hi := he.before ';' rfl (by decide) rest
  rw [ht, Source.tokens_keyword .returnKey (Source.apart_blank _).letter, Source.tokens_blank]
  exact .ret hi.whole_of_suffixed

theorem readsBack_expr (he : e.ReadsBack) : (Stmt.expr e).ReadsBack := by
  intro rest hr
  exact .expr (he rest hr).whole_of_suffixed

theorem restReadsBack_nil (hs : s.ReadsBack) : RestReadsBack s [] := by
  intro rest hr hp
  have hi := hs rest hr
  change Spans Parted (.stmts [s]) (tokens (s.text.toList ++ rest)) (tokens rest)
  cases s with
  | expr e => exact .stmtsBare hi hp .stmtsNil
  | bind x e | ret e | block b => exact .stmtsClosed hi .stmtsNil

theorem restReadsBack_cons (hs : s.ReadsBack) (hb : RestReadsBack t b) :
    RestReadsBack s (t :: b) := by
  intro rest hr hp
  have ht : (restText s (t :: b)).toList ++ rest =
      s.gap.toList ++ (t.text.toList ++ ((restText t b).toList ++ rest)) := by
    simp [restText]
  have hi := hs _ (apart_gap s (t.text.toList ++ ((restText t b).toList ++ rest)))
  rw [left_gap] at hi
  rw [ht]
  exact .stmtsClosed hi (hb rest hr hp)

theorem blockReadsBack_nil : BlockReadsBack [] := by
  intro rest
  have ht : (blockText []).toList ++ rest = '{' :: ' ' :: '}' :: rest := by simp [blockText]
  rw [ht, Source.tokens_char '{' rfl (by decide), Source.tokens_blank,
    Source.tokens_char '}' rfl (by decide)]
  exact .closed .stmtsNil

theorem blockReadsBack_cons (h : RestReadsBack s b) : BlockReadsBack (s :: b) := by
  intro rest
  have hb : tokens (' ' :: '}' :: rest) = .symbol .rbrace :: tokens rest := by
    rw [Source.tokens_blank, Source.tokens_char '}' rfl (by decide)]
  have hp : Parted (tokens (' ' :: '}' :: rest)) := by
    rw [hb]
    rintro t ⟨⟩
    simp
  have ht : (blockText (s :: b)).toList ++ rest = '{' :: ' ' :: (s.text.toList ++
      ((restText s b).toList ++ ' ' :: '}' :: rest)) := by
    simp [blockText]
  have hi := h (' ' :: '}' :: rest) (Source.apart_blank _) hp
  rw [hb] at hi
  rw [ht, Source.tokens_char '{' rfl (by decide), Source.tokens_blank]
  exact .closed hi

theorem listReadsBack_cons (he : e.ReadsBack) (hes : TailReadsBack es) :
    ListReadsBack (e :: es) := by
  intro rest hr
  have hi := he _ (apart_afterCommas (exprTexts es) hr)
  rw [exprTexts, commas_cons, List.append_assoc]
  exact .listCons hi.whole_of_suffixed (hes rest hr)

theorem tailReadsBack_cons (he : e.ReadsBack) (hes : TailReadsBack es) :
    TailReadsBack (e :: es) := by
  intro rest hr
  have hi := he _ (apart_afterCommas (exprTexts es) hr)
  have ht : afterCommas (exprTexts (e :: es)) ++ rest =
      ',' :: ' ' :: (e.text.toList ++ (afterCommas (exprTexts es) ++ rest)) := by
    simp [afterCommas, exprTexts]
  rw [ht, Source.tokens_char ',' rfl (by decide), Source.tokens_blank]
  exact .tailCons hi.whole_of_suffixed (hes rest hr)

theorem pair_spans_text (hk : k.ReadsBack) (hv : v.ReadsBack) (hr : Apart rest) :
    Spans Parted (.pair k v) (tokens (k.text.toList ++ ':' :: (v.text.toList ++ rest)))
      (tokens rest) := by
  have hi := hk.before ':' rfl (by decide) (v.text.toList ++ rest)
  exact .pair hi.whole_of_suffixed (hv rest hr).whole_of_suffixed

theorem pairsReadBack_cons (hk : k.ReadsBack) (hv : v.ReadsBack) (hps : PairsReadBack ps) :
    PairsReadBack ((k, v) :: ps) := by
  intro rest hr
  cases ps with
  | nil =>
    have ht : (commas (pairTexts [(k, v)])).toList ++ rest =
        k.text.toList ++ ':' :: (v.text.toList ++ rest) := by
      simp [pairTexts]
    rw [ht]
    exact .pairsLast (pair_spans_text hk hv hr)
  | cons p ps =>
    let more : Source := (commas (pairTexts (p :: ps))).toList ++ rest
    have ht : (commas (pairTexts ((k, v) :: p :: ps))).toList ++ rest =
        k.text.toList ++ ':' :: (v.text.toList ++ ',' :: ' ' :: more) := by
      simp [pairTexts, more]
    have hi := pair_spans_text hk hv (Source.apart_char (c := ',') rfl (by decide) (' ' :: more))
    rw [Source.tokens_char ',' rfl (by decide), Source.tokens_blank] at hi
    rw [ht]
    exact .pairsCons hi (hps rest hr)

end

mutual

theorem Expr.readsBack : ∀ e : Expr, e.WellFormed → e.ReadsBack
  | .ident _, h => readsBack_ident h
  | .int _, h => fun _ hr => .atom (spans_int h hr)
  | .bool b, _ => readsBack_bool b
  | .string _, h => readsBack_string h
  | .unary _ e, ⟨ho, he⟩ => readsBack_unary ho he (e.readsBack he)
  | .binary l _ r, ⟨ho, hl, hr⟩ => readsBack_binary ho (l.readsBack hl) (r.readsBack hr)
  | .cond test yes none, ⟨ht, hy⟩ => readsBack_cond (test.readsBack ht) (block_readsBack yes hy)
  | .cond test yes (some no), ⟨ht, hy, hn⟩ =>
    readsBack_condElse (test.readsBack ht) (block_readsBack yes hy) (block_readsBack no hn)
  | .fn _ body, ⟨hp, hb⟩ => readsBack_fn hp (block_readsBack body hb)
  | .call e es, ⟨he, hes⟩ => readsBack_call (e.readsBack he) (list_readsBack es hes)
  | .array es, h => readsBack_array (list_readsBack es h)
  | .hash ps, h => readsBack_hash (pairs_readBack ps h)
  | .index e i, ⟨he, hi⟩ => readsBack_index (e.readsBack he) (i.readsBack hi)

theorem Stmt.readsBack : ∀ s : Stmt, s.WellFormed → s.ReadsBack
  | .bind _ e, ⟨hx, he⟩ => readsBack_bind hx (e.readsBack he)
  | .ret e, he => readsBack_ret (e.readsBack he)
  | .expr e, he => readsBack_expr (e.readsBack he)

theorem rest_readsBack : ∀ (b : List Stmt) (s : Stmt), s.ReadsBack → WellFormedStmts b →
    RestReadsBack s b
  | [], _, hs, _ => restReadsBack_nil hs
  | t :: b, _, hs, ⟨ht, hb⟩ => restReadsBack_cons hs (rest_readsBack b t (t.readsBack ht) hb)

theorem block_readsBack : ∀ b : List Stmt, WellFormedStmts b → BlockReadsBack b
  | [], _ => blockReadsBack_nil
  | s :: b, ⟨hs, hb⟩ => blockReadsBack_cons (rest_readsBack b s (s.readsBack hs) hb)

theorem list_readsBack : ∀ es : List Expr, WellFormedExprs es → ListReadsBack es
  | [], _ => fun _ _ => .listNil
  | e :: es, ⟨he, hes⟩ => listReadsBack_cons (e.readsBack he) (tail_readsBack es hes)

theorem tail_readsBack : ∀ es : List Expr, WellFormedExprs es → TailReadsBack es
  | [], _ => fun _ _ => .tailNil
  | e :: es, ⟨he, hes⟩ => tailReadsBack_cons (e.readsBack he) (tail_readsBack es hes)

theorem pairs_readBack : ∀ ps : List (Expr × Expr), WellFormedPairs ps → PairsReadBack ps
  | [], _ => fun _ _ => .pairsNil
  | (k, v) :: ps, ⟨hk, hv, hps⟩ =>
    pairsReadBack_cons (k.readsBack hk) (v.readsBack hv) (pairs_readBack ps hps)

end

namespace Program

variable {p : Program}

theorem WellFormed.spans_text (h : p.WellFormed) :
    Spans Parted (.stmts p) (tokens p.text.toList) [] := by
  cases p with
  | nil =>
    have ht : tokens (text []).toList = [] := Source.tokens_nil
    rw [ht]
    exact .stmtsNil
  | cons s b =>
    have hp : Parted (tokens []) := by
      rw [Source.tokens_nil]
      rintro t ⟨⟩
    have hs := rest_readsBack b s (s.readsBack h.1) h.2 [] Source.apart_nil hp
    have ht : (text (s :: b)).toList = s.text.toList ++ ((restText s b).toList ++ []) := by
      simp [text]
    rw [Source.tokens_nil] at hs
    rwa [ht]

end Program

end MonkeyLang
