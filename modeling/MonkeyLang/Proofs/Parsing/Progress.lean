import Mathlib.Logic.Relation
import MonkeyLang.Proofs.Lexing
import MonkeyLang.Proofs.Parsing.Outcome

namespace MonkeyLang

namespace Cursor

/-- Nothing comes after the end of the text. -/
structure Aligned (c : Cursor) : Prop where
  peek : c.cur = .eof → c.peek = .eof
  unread : c.peek = .eof → c.unread.tokens = []

theorem aligned_ofSource (cs : Source) : (ofSource cs).Aligned where
  peek h := by
    have hr : cs.next.2 = [] := Source.rest_of_next_eof h
    show cs.next.2.next.1 = .eof
    rw [hr, Source.next_nil]
  unread h := by
    have hr : cs.next.2.next.2 = [] := Source.rest_of_next_eof h
    show cs.next.2.next.2.tokens = []
    rw [hr, Source.tokens_nil]

theorem Aligned.advance {c : Cursor} (h : c.Aligned) : c.advance.Aligned where
  peek hc := Source.next_of_tokens_nil (h.unread hc)
  unread hp := by
    have hr : c.unread.next.2 = [] := Source.rest_of_next_eof hp
    show c.unread.next.2.tokens = []
    rw [hr, Source.tokens_nil]

theorem tokens_eq_nil {c : Cursor} : c.tokens = [] ↔ c.cur = .eof := by
  unfold tokens
  split <;> simp [*]

theorem cur_eq (c : Cursor) : c.cur = c.tokens.headD .eof := by
  unfold tokens
  split <;> simp [*]

theorem peek_eq (c : Cursor) : c.peek = c.advance.tokens.headD .eof := c.advance.cur_eq

theorem Aligned.tail {c : Cursor} (h : c.Aligned) : c.advance.tokens = c.tokens.tail := by
  by_cases hc : c.cur = .eof
  · rw [tokens_eq_nil.mpr hc, tokens_eq_nil.mpr (h.peek hc), List.tail_nil]
  · rw [tokens_advance hc, List.tail_cons]

theorem Aligned.length_advance {c : Cursor} (h : c.Aligned) :
    c.advance.tokens.length = c.tokens.length - 1 := by
  rw [h.tail, List.length_tail]

theorem tokens_length_pos {c : Cursor} (h : c.cur ≠ .eof) : 0 < c.tokens.length :=
  List.length_pos_iff.mpr (mt tokens_eq_nil.mp h)

inductive Step (c : Cursor) : Cursor → Prop
  | advance : Step c c.advance
  | report (d : Diagnostic) : Step c (c.report d)
  | skip : Step c c.skip

abbrev Reaches : Cursor → Cursor → Prop := Relation.ReflTransGen Step

theorem reaches_advance (c : Cursor) : c.Reaches c.advance := .single .advance

theorem Reaches.aligned {c c' : Cursor} (h : c.Reaches c') (hc : c.Aligned) : c'.Aligned := by
  induction h with
  | refl => exact hc
  | tail _ hs ih =>
    cases hs with
    | advance => exact ih.advance
    | report d => exact ⟨ih.peek, ih.unread⟩
    | skip => exact ⟨ih.peek, ih.unread⟩

theorem Reaches.suffix {c c' : Cursor} (h : c.Reaches c') (hc : c.Aligned) :
    c'.tokens <:+ c.tokens := by
  induction h with
  | refl => exact List.suffix_refl _
  | tail h hs ih =>
    cases hs with
    | advance => exact (Aligned.tail (Reaches.aligned h hc) ▸ List.tail_suffix _).trans ih
    | report d => exact ih
    | skip => exact ih

theorem Reaches.length_le {c c' : Cursor} (h : c.Reaches c') (hc : c.Aligned) :
    c'.tokens.length ≤ c.tokens.length :=
  (h.suffix hc).length_le

theorem Reaches.skipped_le {c c' : Cursor} (h : c.Reaches c') : c.skipped ≤ c'.skipped := by
  induction h with
  | refl => exact Nat.le_refl _
  | tail _ hs ih =>
    cases hs with
    | advance => exact ih
    | report d => exact ih
    | skip => exact Nat.le_succ_of_le ih

end Cursor

namespace Production

variable {α β : Type}

/-- Wherever a production stops, with a result or without one, the cursor got there step by step. -/
def Moves (p : Production α) : Prop := ∀ c : Cursor, c.Reaches (p.outcome c).2

theorem Moves.reaches {p : Production α} (h : p.Moves) {c c' : Cursor} {r : Option α}
    (hp : p.outcome c = (r, c')) : c.Reaches c' := by
  have := h c
  rwa [hp] at this

theorem moves_pure (a : α) : (pure a : Production α).Moves := fun _ => .refl

theorem moves_failure : (failure : Production α).Moves := fun _ => .refl

theorem moves_cur : cur.Moves := fun _ => .refl

theorem moves_peek : peek.Moves := fun _ => .refl

theorem moves_advance : advance.Moves := fun c => c.reaches_advance

theorem moves_skip : skip.Moves := fun _ => .single .skip

theorem moves_refuse (r : Diagnostic.Reason) : (refuse r : Production α).Moves :=
  fun _ => .single (.report _)

theorem Moves.bind {p : Production α} {f : α → Production β} (hp : p.Moves)
    (hf : ∀ a, (f a).Moves) : (p >>= f).Moves := by
  intro c
  have h := hp c
  rw [outcome_bind]
  revert h
  rcases p.outcome c with ⟨_ | a, c₁⟩
  · exact id
  · exact fun h => h.trans (hf a c₁)

theorem Moves.ite {q : Prop} [Decidable q] {p p' : Production α} (hp : p.Moves)
    (hp' : p'.Moves) : (if q then p else p').Moves := by
  split
  · exact hp
  · exact hp'

theorem Moves.attempt {p : Production α} (h : p.Moves) : (attempt p).Moves := h

theorem moves_skipSemicolon : skipSemicolon.Moves :=
  moves_peek.bind fun _ => moves_advance.ite (moves_pure ())

theorem moves_expect (k : Token.Kind) : (expect k).Moves := by
  intro c
  rw [outcome_expect]
  split
  · exact c.reaches_advance
  · exact .single (.report _)

theorem moves_expectName : expectName.Moves :=
  (moves_expect _).bind fun _ => moves_cur.bind fun _ => moves_pure _

theorem moves_integer (digits : String) : (integer digits).Moves :=
  (moves_pure _).ite (moves_refuse _)

theorem Moves.more {item : Production α} (h : item.Moves) (n : Nat) : (more item n).Moves := by
  induction n with
  | zero => exact moves_failure
  | succ n ih =>
    refine moves_peek.bind fun _ => Moves.ite ?_ (moves_pure _)
    exact moves_advance.bind fun _ => h.bind fun _ => ih.bind fun _ => moves_pure _

theorem Moves.listed {item : Production α} (h : item.Moves) (close : Symbol) (n : Nat) :
    (listed item close n).Moves := by
  refine moves_peek.bind fun _ => Moves.ite (moves_advance.bind fun _ => moves_pure _) ?_
  exact h.bind fun _ => (h.more n).bind fun _ => (moves_expect _).bind fun _ => moves_pure _

structure Moving (n : Nat) : Prop where
  statements : ∀ ends, (statements n ends).Moves
  statement : (statement n).Moves
  expression : ∀ p, (expression n p).Moves
  continuation : ∀ p left, (continuation n p left).Moves
  extension : ∀ left, (extension n left).Moves
  operand : (operand n).Moves
  pairs : (pairs n).Moves

theorem moving_zero : Moving 0 := by
  constructor <;> intros <;> exact moves_failure

theorem Moving.argument {n : Nat} (h : Moving n) :
    (do advance; Production.expression n .lowest : Production Expr).Moves :=
  moves_advance.bind fun _ => h.expression _

theorem Moving.operand_succ {n : Nat} (h : Moving n) : (Production.operand (n + 1)).Moves := by
  unfold Production.operand
  refine moves_cur.bind fun t => ?_
  split
  · exact moves_pure _
  · exact moves_integer _
  · exact moves_pure _
  · exact moves_pure _
  · exact moves_pure _
  · exact moves_advance.bind fun _ => (h.expression _).bind fun _ => moves_pure _
  · exact moves_advance.bind fun _ => (h.expression _).bind fun _ => moves_pure _
  · exact moves_advance.bind fun _ => (h.expression _).bind fun _ =>
      (moves_expect _).bind fun _ => moves_pure _
  · refine (moves_expect _).bind fun _ => moves_advance.bind fun _ => (h.expression _).bind fun _ =>
      (moves_expect _).bind fun _ => (moves_expect _).bind fun _ => moves_advance.bind fun _ =>
      (h.statements _).bind fun _ => moves_peek.bind fun _ => Moves.ite ?_ (moves_pure _)
    exact moves_advance.bind fun _ => (moves_expect _).bind fun _ => moves_advance.bind fun _ =>
      (h.statements _).bind fun _ => moves_pure _
  · exact (moves_expect _).bind fun _ => (moves_expectName.listed _ _).bind fun _ =>
      (moves_expect _).bind fun _ => moves_advance.bind fun _ => (h.statements _).bind fun _ =>
      moves_pure _
  · exact (h.argument.listed _ _).bind fun _ => moves_pure _
  · exact h.pairs.bind fun _ => (moves_expect _).bind fun _ => moves_pure _
  · exact moves_refuse _

theorem moving_succ {n : Nat} (h : Moving n) : Moving (n + 1) where
  statements ends := by
    unfold Production.statements
    refine moves_cur.bind fun t => Moves.ite (moves_pure _) (h.statement.attempt.bind fun r => ?_)
    split
    · exact moves_advance.bind fun _ => (h.statements _).bind fun _ => moves_pure _
    · exact moves_skip.bind fun _ => moves_advance.bind fun _ => h.statements _
  statement := by
    unfold Production.statement
    refine moves_cur.bind fun t => ?_
    split
    · exact moves_expectName.bind fun _ => (moves_expect _).bind fun _ =>
        moves_advance.bind fun _ => (h.expression _).bind fun _ =>
        moves_skipSemicolon.bind fun _ => moves_pure _
    · exact moves_advance.bind fun _ => (h.expression _).bind fun _ =>
        moves_skipSemicolon.bind fun _ => moves_pure _
    · exact (h.expression _).bind fun _ => moves_skipSemicolon.bind fun _ => moves_pure _
  expression p := h.operand.bind fun left => h.continuation p left
  continuation p left := by
    unfold Production.continuation
    refine moves_peek.bind fun _ => Moves.ite ?_ (moves_pure _)
    exact moves_advance.bind fun _ => (h.extension _).bind fun _ => h.continuation _ _
  extension left := by
    unfold Production.extension
    refine moves_cur.bind fun t => ?_
    split
    · exact (h.argument.listed _ _).bind fun _ => moves_pure _
    · exact moves_advance.bind fun _ => (h.expression _).bind fun _ =>
        (moves_expect _).bind fun _ => moves_pure _
    · split
      · exact moves_failure
      · exact moves_advance.bind fun _ => (h.expression _).bind fun _ => moves_pure _
  operand := h.operand_succ
  pairs := by
    unfold Production.pairs
    refine moves_peek.bind fun _ => Moves.ite (moves_pure _) ?_
    refine moves_advance.bind fun _ => (h.expression _).bind fun _ => (moves_expect _).bind fun _ =>
      moves_advance.bind fun _ => (h.expression _).bind fun _ => moves_peek.bind fun _ => ?_
    exact Moves.ite ((moves_expect _).bind fun _ => h.pairs.bind fun _ => moves_pure _)
      (h.pairs.bind fun _ => moves_pure _)

theorem moving (n : Nat) : Moving n := by
  induction n with
  | zero => exact moving_zero
  | succ n ih => exact moving_succ ih

theorem moves_statements (n : Nat) (ends : Token → Bool) : (statements n ends).Moves :=
  (moving n).statements ends

theorem moves_statement (n : Nat) : (statement n).Moves := (moving n).statement

theorem moves_expression (n : Nat) (p : Precedence) : (expression n p).Moves :=
  (moving n).expression p

theorem moves_continuation (n : Nat) (p : Precedence) (left : Expr) :
    (continuation n p left).Moves :=
  (moving n).continuation p left

theorem moves_extension (n : Nat) (left : Expr) : (extension n left).Moves :=
  (moving n).extension left

theorem moves_operand (n : Nat) : (operand n).Moves := (moving n).operand

theorem moves_pairs (n : Nat) : (pairs n).Moves := (moving n).pairs

end Production

end MonkeyLang
