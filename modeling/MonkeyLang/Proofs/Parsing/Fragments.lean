import MonkeyLang.Proofs.Rendering

namespace MonkeyLang

open Phrase (Spans Parted)
open Source (tokens)

namespace Phrase

variable {bare : List Token → Prop} {g : Phrase} {ts rest : List Token}

theorem Spans.ne_nil (h : Spans bare g ts rest) (hr : rest ≠ []) : ts ≠ [] := by
  rintro rfl
  exact hr (List.eq_nil_of_suffix_nil h.suffix)

theorem Parted.append (h : Parted ts) (ht : ts ≠ []) (us : List Token) : Parted (ts ++ us) := by
  obtain ⟨t, ts, rfl⟩ := List.exists_cons_of_ne_nil ht
  exact h

/-- What leaves tokens over is read alike when more tokens stand behind them. -/
theorem Spans.append (h : Spans Parted g ts rest) (hr : rest ≠ []) (us : List Token) :
    Spans Parted g (ts ++ us) (rest ++ us) := by
  have hc (t : Token) (mid : List Token) : t :: mid ≠ [] := List.cons_ne_nil t mid
  induction h with
  | operand _ ih => exact .operand (ih hr)
  | binary ho _ _ ihl ihr => exact .binary ho (ihl (hc _ _)) (ihr hr)
  | suffixed _ ih => exact .suffixed (ih hr)
  | unary ho _ ih => exact .unary ho (ih hr)
  | atom _ ih => exact .atom (ih hr)
  | call _ _ ihe ihl => exact .call (ihe (hc _ _)) (ihl (hc _ _))
  | index _ _ ihe ihi => exact .index (ihe (hc _ _)) (ihi (hc _ _))
  | ident => exact .ident
  | int hd => exact .int hd
  | string => exact .string
  | yes => exact .yes
  | no => exact .no
  | group _ ih => exact .group (ih (hc _ _))
  | cond _ _ ihc ihb => exact .cond (ihc (hc _ _)) (ihb hr)
  | condElse _ _ _ ihc ihb ihb' => exact .condElse (ihc (hc _ _)) (ihb (hc _ _)) (ihb' hr)
  | @fn xs b mid rest _ ih =>
    have hf : Spans Parted (.atom (.fn xs b)) _ (_ ++ us) := .fn (ih hr)
    simpa using hf
  | array _ ih => exact .array (ih (hc _ _))
  | hash _ ih => exact .hash (ih (hc _ _))
  | listNil => exact .listNil
  | listCons _ ht ihe iht => exact .listCons (ihe (ht.ne_nil hr)) (iht hr)
  | tailNil => exact .tailNil
  | tailCons _ ht ihe iht => exact .tailCons (ihe (ht.ne_nil hr)) (iht hr)
  | pair _ _ ihk ihv => exact .pair (ihk (hc _ _)) (ihv hr)
  | pairsNil => exact .pairsNil
  | pairsLast _ ih => exact .pairsLast (ih hr)
  | pairsCons _ _ ih ihp => exact .pairsCons (ih (hc _ _)) (ihp hr)
  | bind _ ih => exact .bind (ih hr)
  | ret _ ih => exact .ret (ih hr)
  | expr _ ih => exact .expr (ih hr)
  | stmtsNil => exact .stmtsNil
  | stmtsClosed _ _ ih ihb => exact .stmtsClosed (ih (hc _ _)) (ihb hr)
  | stmtsBare _ hp hb ih ihb =>
    exact .stmtsBare (ih (hb.ne_nil hr)) (hp.append (hb.ne_nil hr) us) (ihb hr)
  | closed _ ih => exact .closed (ih (hc _ _))
  | unclosed => exact absurd rfl hr

end Phrase

/-- The text spells the expression, and closes it with a semicolon. -/
def Source.Spells (cs : Source) (e : Expr) : Prop :=
  let r := (Production.expression (Cursor.ofSource cs).depth .lowest).outcome (Cursor.ofSource cs)
  r.1 = some e ∧ r.2.skipped = 0 ∧ r.2.advance.cur = .symbol .semicolon ∧ r.2.advance.peek = .eof

instance (cs : Source) (e : Expr) : Decidable (cs.Spells e) := by
  unfold Source.Spells
  infer_instance

theorem Source.Spells.spans {cs : Source} {e : Expr} (h : cs.Spells e) :
    Spans Parted (.expr e) cs.tokens [.symbol .semicolon] := by
  obtain ⟨he, hs, hcur, hpeek⟩ := h
  obtain ⟨hspan, -⟩ := (Production.sound _).expression (Cursor.aligned_ofSource cs)
    (Prod.ext he rfl) (Nat.le_of_eq hs)
  rw [Cursor.tokens_ofSource, Cursor.tokens, hcur, hpeek] at hspan
  exact hspan

/-- A binding is read before any program as it is read alone. -/
theorem Program.ofSource_bind {x : String} {e : Expr} {a b : Source} {q : Program}
    (hx : IsName x) (ha : a.Spells e) (hb : ofSource b = .ok q) :
    ofSource ("let ".toList ++ x.toList ++ " = ".toList ++ a ++ b) = .ok (.bind x e :: q) := by
  have hlast : a.tokens.getLast? = some (.symbol .semicolon) := by
    obtain ⟨before, ht⟩ := ha.spans.suffix
    rw [← ht, List.getLast?_concat]
  have ht : "let ".toList ++ x.toList ++ " = ".toList ++ a ++ b =
      Keyword.letKey.text.toList ++ ' ' :: (x.toList ++ ' ' :: '=' :: ' ' :: (a ++ b)) := by
    simp [Keyword.text]
  refine ofSource_of_spans ?_
  rw [ht, Source.tokens_keyword .letKey (Source.apart_blank _).letter, Source.tokens_blank,
    Source.tokens_name hx (Source.apart_blank _).letter, tokens_assign, Source.tokens_append hlast]
  have hspan := ha.spans.append (List.cons_ne_nil _ _) b.tokens
  exact .stmtsClosed (.bind hspan) (spans_of_ofSource hb)

end MonkeyLang
