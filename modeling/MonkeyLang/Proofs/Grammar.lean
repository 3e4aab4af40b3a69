import Mathlib.Algebra.Group.Nat.Defs
import MonkeyLang.Program.Parser

namespace MonkeyLang

/-- Binary operators of one strength, loosest first. -/
inductive Tier where
  | equality | comparison | sum | product
  deriving DecidableEq

namespace Tier

def operators : Tier → List Operator
  | .equality => [.eq, .notEq]
  | .comparison => [.lt, .gt]
  | .sum => [.plus, .minus]
  | .product => [.asterisk, .slash]

end Tier

inductive Phrase where
  | tier (t : Tier) (e : Expr)
  | unary (e : Expr)
  | suffixed (e : Expr)
  | atom (e : Expr)
  | list (es : List Expr)
  | tail (es : List Expr)
  | pair (k v : Expr)
  | pairs (ps : List (Expr × Expr))
  | stmt (s : Stmt)
  | stmts (b : List Stmt)
  | block (b : List Stmt)

/-- What stands between the operators of a tier. -/
def Tier.operand : Tier → Expr → Phrase
  | .equality, e => .tier .comparison e
  | .comparison, e => .tier .sum e
  | .sum, e => .tier .product e
  | .product, e => .unary e

namespace Phrase

abbrev expr (e : Expr) : Phrase := .tier .equality e

def names : List String → List Token
  | [] => []
  | [x] => [.ident x]
  | x :: y :: xs => .ident x :: .symbol .comma :: names (y :: xs)

/-- The grammar. A phrase spans the tokens of the first list down to those of the second, which are
left. `bare` says what may be left right after a statement without a semicolon. -/
inductive Spans (bare : List Token → Prop) : Phrase → List Token → List Token → Prop
  | operand {t : Tier} {e ts rest} : Spans bare (t.operand e) ts rest →
      Spans bare (.tier t e) ts rest
  | binary {t : Tier} {op l r ts mid rest} : op ∈ t.operators →
      Spans bare (.tier t l) ts (.symbol op.symbol :: mid) → Spans bare (t.operand r) mid rest →
      Spans bare (.tier t (.binary l op r)) ts rest
  | suffixed {e ts rest} : Spans bare (.suffixed e) ts rest → Spans bare (.unary e) ts rest
  | unary {op e ts rest} : op = .bang ∨ op = .minus → Spans bare (.unary e) ts rest →
      Spans bare (.unary (.unary op e)) (.symbol op.symbol :: ts) rest
  | atom {e ts rest} : Spans bare (.atom e) ts rest → Spans bare (.suffixed e) ts rest
  | call {e es ts mid rest} : Spans bare (.suffixed e) ts (.symbol .lparen :: mid) →
      Spans bare (.list es) mid (.symbol .rparen :: rest) →
      Spans bare (.suffixed (.call e es)) ts rest
  | index {e i ts mid rest} : Spans bare (.suffixed e) ts (.symbol .lbracket :: mid) →
      Spans bare (.expr i) mid (.symbol .rbracket :: rest) →
      Spans bare (.suffixed (.index e i)) ts rest
  | ident {x rest} : Spans bare (.atom (.ident x)) (.ident x :: rest) rest
  | int {d rest} : Production.digitsValue d < 2 ^ 63 →
      Spans bare (.atom (.int (Int64.ofNat (Production.digitsValue d)))) (.int d :: rest) rest
  | string {t rest} : Spans bare (.atom (.string t)) (.string t :: rest) rest
  | yes {rest} : Spans bare (.atom (.bool true)) (.keyword .trueKey :: rest) rest
  | no {rest} : Spans bare (.atom (.bool false)) (.keyword .falseKey :: rest) rest
  | group {e ts rest} : Spans bare (.expr e) ts (.symbol .rparen :: rest) →
      Spans bare (.atom e) (.symbol .lparen :: ts) rest
  | cond {c b ts mid rest} : Spans bare (.expr c) ts (.symbol .rparen :: mid) →
      Spans bare (.block b) mid rest →
      Spans bare (.atom (.cond c b none)) (.keyword .ifKey :: .symbol .lparen :: ts) rest
  | condElse {c b b' ts mid mid' rest} : Spans bare (.expr c) ts (.symbol .rparen :: mid) →
      Spans bare (.block b) mid (.keyword .elseKey :: mid') → Spans bare (.block b') mid' rest →
      Spans bare (.atom (.cond c b (some b'))) (.keyword .ifKey :: .symbol .lparen :: ts) rest
  | fn {xs b mid rest} : Spans bare (.block b) mid rest →
      Spans bare (.atom (.fn xs b))
        (.keyword .fnKey :: .symbol .lparen :: (names xs ++ .symbol .rparen :: mid)) rest
  | array {es ts rest} : Spans bare (.list es) ts (.symbol .rbracket :: rest) →
      Spans bare (.atom (.array es)) (.symbol .lbracket :: ts) rest
  | hash {ps ts rest} : Spans bare (.pairs ps) ts (.symbol .rbrace :: rest) →
      Spans bare (.atom (.hash ps)) (.symbol .lbrace :: ts) rest
  | listNil {ts} : Spans bare (.list []) ts ts
  | listCons {e es ts mid rest} : Spans bare (.expr e) ts mid → Spans bare (.tail es) mid rest →
      Spans bare (.list (e :: es)) ts rest
  | tailNil {ts} : Spans bare (.tail []) ts ts
  | tailCons {e es ts mid rest} : Spans bare (.expr e) ts mid → Spans bare (.tail es) mid rest →
      Spans bare (.tail (e :: es)) (.symbol .comma :: ts) rest
  | pair {k v ts mid rest} : Spans bare (.expr k) ts (.symbol .colon :: mid) →
      Spans bare (.expr v) mid rest → Spans bare (.pair k v) ts rest
  | pairsNil {ts} : Spans bare (.pairs []) ts ts
  | pairsLast {k v ts rest} : Spans bare (.pair k v) ts rest → Spans bare (.pairs [(k, v)]) ts rest
  | pairsCons {k v ps ts mid rest} : Spans bare (.pair k v) ts (.symbol .comma :: mid) →
      Spans bare (.pairs ps) mid rest → Spans bare (.pairs ((k, v) :: ps)) ts rest
  | bind {x e ts rest} : Spans bare (.expr e) ts rest →
      Spans bare (.stmt (.bind x e)) (.keyword .letKey :: .ident x :: .symbol .assign :: ts) rest
  | ret {e ts rest} : Spans bare (.expr e) ts rest →
      Spans bare (.stmt (.ret e)) (.keyword .returnKey :: ts) rest
  | expr {e ts rest} : Spans bare (.expr e) ts rest → Spans bare (.stmt (.expr e)) ts rest
  | stmtsNil {ts} : Spans bare (.stmts []) ts ts
  | stmtsClosed {s b ts mid rest} : Spans bare (.stmt s) ts (.symbol .semicolon :: mid) →
      Spans bare (.stmts b) mid rest → Spans bare (.stmts (s :: b)) ts rest
  | stmtsBare {s b ts mid rest} : Spans bare (.stmt s) ts mid → bare mid →
      Spans bare (.stmts b) mid rest → Spans bare (.stmts (s :: b)) ts rest
  | closed {b ts rest} : Spans bare (.stmts b) ts (.symbol .rbrace :: rest) →
      Spans bare (.block b) (.symbol .lbrace :: ts) rest
  | unclosed {b ts} : Spans bare (.stmts b) ts [] → Spans bare (.block b) (.symbol .lbrace :: ts) []

end Phrase

def Token.Opens : Token → Prop
  | .ident _ | .int _ | .string _ => True
  | .keyword k => k ∈ [.trueKey, .falseKey, .ifKey, .fnKey]
  | .symbol s => s ∈ [.bang, .minus, .lparen, .lbracket, .lbrace]
  | .illegal _ | .eof => False

def Token.Leads (t : Token) : Prop :=
  t.Opens ∨ t = .keyword .letKey ∨ t = .keyword .returnKey

namespace Phrase

def Ends (ts : List Token) : Prop := ∀ t ∈ ts.head?, ¬ t.Leads

/-- No statement follows that could be read as the rest of an expression. -/
def Parted (ts : List Token) : Prop :=
  ∀ t ∈ ts.head?, t ∉ [.symbol .lparen, .symbol .lbracket, .symbol .minus]

/-- Some phrases can span no tokens or begin with a comma, all others begin with a token that tells
an expression or a statement. -/
def Solid : Phrase → Prop
  | .list [] | .tail _ | .pairs [] | .stmts [] => False
  | _ => True

def opener : Phrase → Token → Prop
  | .stmt _ | .stmts _ => Token.Leads
  | _ => Token.Opens

def Begins (first : Token → Prop) (ts rest : List Token) : Prop :=
  ∃ t us, ts = t :: us ∧ first t ∧ rest <:+ us

theorem Begins.trans {first : Token → Prop} {ts mid rest : List Token} (h : Begins first ts mid)
    (hr : rest <:+ mid) : Begins first ts rest := by
  obtain ⟨t, us, rfl, ht, hm⟩ := h
  exact ⟨t, us, rfl, ht, hr.trans hm⟩

theorem Begins.length_lt {first : Token → Prop} {ts rest : List Token} (h : Begins first ts rest) :
    rest.length < ts.length := by
  obtain ⟨t, us, rfl, -, hr⟩ := h
  exact Nat.lt_succ_of_le hr.length_le

theorem Begins.leads {ts rest : List Token} (h : Begins Token.Opens ts rest) :
    Begins Token.Leads ts rest := by
  obtain ⟨t, us, rfl, ht, hr⟩ := h
  exact ⟨t, us, rfl, .inl ht, hr⟩

variable {bare : List Token → Prop} {g : Phrase} {ts rest : List Token}

theorem Spans.suffix (h : Spans bare g ts rest) : rest <:+ ts := by
  induction h <;> grind [List.IsSuffix.trans, List.suffix_cons]

theorem solid_operand (t : Tier) (e : Expr) : (t.operand e).Solid := by
  cases t <;> trivial

theorem Spans.suffix_cons {t : Token} (h : Spans bare g ts (t :: rest)) : rest <:+ ts :=
  (List.suffix_cons _ _).trans h.suffix

theorem opener_operand (t : Tier) (e : Expr) : (t.operand e).opener = Token.Opens := by
  cases t <;> rfl

theorem Spans.begins (h : Spans bare g ts rest) (hg : g.Solid) :
    Begins g.opener ts rest := by
  induction h with
  | operand _ ih =>
    have hb := ih (solid_operand _ _)
    rwa [opener_operand] at hb
  | binary _ _ hr ihl _ => exact (ihl hg).trans (hr.suffix.trans (List.suffix_cons _ _))
  | suffixed _ ih | atom _ ih | pairsLast _ ih => exact ih trivial
  | expr _ ih => exact (ih trivial).leads
  | unary ho h _ =>
    refine ⟨_, _, rfl, ?_, h.suffix⟩
    rcases ho with rfl | rfl <;> simp [opener, Token.Opens, Operator.symbol]
  | call _ hl ihe _ => exact (ihe hg).trans (hl.suffix_cons.trans (List.suffix_cons _ _))
  | index _ hi ihe _ => exact (ihe hg).trans (hi.suffix_cons.trans (List.suffix_cons _ _))
  | ident | int | string | yes | no =>
    exact ⟨_, _, rfl, by simp [opener, Token.Opens], List.suffix_refl _⟩
  | group he _ => exact ⟨_, _, rfl, by simp [opener, Token.Opens], he.suffix_cons⟩
  | array hl _ => exact ⟨_, _, rfl, by simp [opener, Token.Opens], hl.suffix_cons⟩
  | hash hp _ => exact ⟨_, _, rfl, by simp [opener, Token.Opens], hp.suffix_cons⟩
  | cond hc hb _ _ =>
    have hs := hb.suffix.trans hc.suffix_cons
    exact ⟨_, _, rfl, by simp [opener, Token.Opens], hs.trans (List.suffix_cons _ _)⟩
  | condElse hc hb hb' _ _ _ =>
    have hs := (hb'.suffix.trans hb.suffix_cons).trans hc.suffix_cons
    exact ⟨_, _, rfl, by simp [opener, Token.Opens], hs.trans (List.suffix_cons _ _)⟩
  | fn hb _ =>
    refine ⟨_, _, rfl, by simp [opener, Token.Opens], ?_⟩
    have hs := hb.suffix.trans (List.suffix_cons (.symbol .rparen) _)
    exact (hs.trans (List.suffix_append _ _)).trans (List.suffix_cons _ _)
  | listNil | tailNil | tailCons | pairsNil | stmtsNil => exact hg.elim
  | listCons _ ht ih _ => exact (ih trivial).trans ht.suffix
  | pair _ hv ihk _ => exact (ihk trivial).trans (hv.suffix.trans (List.suffix_cons _ _))
  | pairsCons _ hp ih _ => exact (ih trivial).trans (hp.suffix.trans (List.suffix_cons _ _))
  | bind he _ =>
    have hs := he.suffix.trans (List.suffix_cons (.symbol .assign) _)
    exact ⟨_, _, rfl, .inr (.inl rfl), hs.trans (List.suffix_cons _ _)⟩
  | ret he _ => exact ⟨_, _, rfl, .inr (.inr rfl), he.suffix⟩
  | stmtsClosed _ hb ih _ => exact (ih trivial).trans (hb.suffix.trans (List.suffix_cons _ _))
  | stmtsBare _ _ hb ih _ => exact (ih trivial).trans hb.suffix
  | closed hb _ => exact ⟨_, _, rfl, by simp [opener, Token.Opens], hb.suffix_cons⟩
  | unclosed hb _ => exact ⟨_, _, rfl, by simp [opener, Token.Opens], hb.suffix⟩

theorem Spans.mono {bare' : List Token → Prop} (h : Spans bare g ts rest)
    (hb : ∀ ts, bare ts → bare' ts) : Spans bare' g ts rest := by
  induction h with
  | binary ho _ _ ihl ihr => exact .binary ho ihl ihr
  | unary ho _ ih => exact .unary ho ih
  | call _ _ ihe ihl => exact .call ihe ihl
  | index _ _ ihe ihi => exact .index ihe ihi
  | unclosed _ ih => exact .unclosed ih
  | int hd => exact .int hd
  | stmtsBare _ hp _ ih ihb => exact .stmtsBare ih (hb _ hp) ihb
  | _ => constructor <;> assumption

theorem Ends.parted (h : Ends ts) : Parted ts := by
  intro t ht hm
  have ho : t.Opens := by
    simp only [List.mem_cons, List.not_mem_nil, or_false] at hm
    rcases hm with rfl | rfl | rfl <;> simp [Token.Opens]
  exact h t ht (.inl ho)

/-- Expressions whose operators bind at least this tightly. -/
def level : Nat → Expr → Phrase
  | 0, e | 1, e => .tier .equality e
  | 2, e => .tier .comparison e
  | 3, e => .tier .sum e
  | 4, e => .tier .product e
  | 5, e => .unary e
  | _ + 6, e => .suffixed e

theorem Spans.level_pred {k : Nat} {e : Expr} (h : Spans bare (level (k + 1) e) ts rest) :
    Spans bare (level k e) ts rest := by
  rcases k with _ | _ | _ | _ | _ | _ | k
  · exact h
  · exact .operand h
  · exact .operand h
  · exact .operand h
  · exact .operand h
  · exact .suffixed h
  · exact h

theorem Spans.loosen {j k : Nat} {e : Expr} (h : Spans bare (level k e) ts rest) (hjk : j ≤ k) :
    Spans bare (level j e) ts rest := by
  induction hjk with
  | refl => exact h
  | step _ ih => exact ih h.level_pred

theorem names_cons (x : String) (xs : List String) :
    names (x :: xs) = .ident x :: xs.flatMap fun y => [.symbol .comma, .ident y] := by
  induction xs generalizing x with
  | nil => rfl
  | cons y ys ih => rw [names, ih, List.flatMap_cons]; rfl

end Phrase

def Tier.rank : Tier → Nat
  | .equality => 1
  | .comparison => 2
  | .sum => 3
  | .product => 4

theorem Phrase.level_rank (t : Tier) (e : Expr) : level t.rank e = .tier t e := by
  cases t <;> rfl

theorem Phrase.level_operand (t : Tier) (e : Expr) : level (t.rank + 1) e = t.operand e := by
  cases t <;> rfl

end MonkeyLang
