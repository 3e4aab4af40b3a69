import MonkeyLang.Program
import MonkeyLang.Source

namespace MonkeyLang

/-- A word that is not a keyword. -/
structure IsName (x : String) : Prop where
  nonempty : x.toList ≠ []
  letters : ∀ c ∈ x.toList, Source.isLetter c = true
  free : Keyword.ofText? x = none

instance (x : String) : Decidable (IsName x) :=
  decidable_of_iff (x.toList ≠ [] ∧ x.toList.all Source.isLetter = true ∧
      Keyword.ofText? x = none)
    ⟨fun ⟨h, h', h''⟩ => ⟨h, List.all_eq_true.mp h', h''⟩,
      fun ⟨h, h', h''⟩ => ⟨h, List.all_eq_true.mpr h', h''⟩⟩

mutual

/-- An expression that some text spells. -/
def Expr.WellFormed : Expr → Prop
  | .ident x => IsName x
  | .int v => 0 ≤ v.toInt
  | .bool _ => True
  | .string t => '"' ∉ t.toList
  | .unary op e => (op = .bang ∨ op = .minus) ∧ e.WellFormed
  | .binary l op r => op ≠ .bang ∧ l.WellFormed ∧ r.WellFormed
  | .cond test yes none => test.WellFormed ∧ WellFormedStmts yes
  | .cond test yes (some no) => test.WellFormed ∧ WellFormedStmts yes ∧ WellFormedStmts no
  | .fn params body => (∀ x ∈ params, IsName x) ∧ WellFormedStmts body
  | .call e es => e.WellFormed ∧ WellFormedExprs es
  | .array es => WellFormedExprs es
  | .hash ps => WellFormedPairs ps
  | .index e i => e.WellFormed ∧ i.WellFormed

def Stmt.WellFormed : Stmt → Prop
  | .bind x e => IsName x ∧ e.WellFormed
  | .ret e => e.WellFormed
  | .expr e => e.WellFormed
  | .block _ => False

def WellFormedStmts : List Stmt → Prop
  | [] => True
  | s :: b => s.WellFormed ∧ WellFormedStmts b

def WellFormedExprs : List Expr → Prop
  | [] => True
  | e :: es => e.WellFormed ∧ WellFormedExprs es

def WellFormedPairs : List (Expr × Expr) → Prop
  | [] => True
  | (k, v) :: ps => k.WellFormed ∧ v.WellFormed ∧ WellFormedPairs ps

end

mutual

def Expr.decWellFormed : (e : Expr) → Decidable e.WellFormed
  | .ident x => inferInstanceAs (Decidable (IsName x))
  | .int v => inferInstanceAs (Decidable (0 ≤ v.toInt))
  | .bool _ => .isTrue trivial
  | .string t => inferInstanceAs (Decidable ('"' ∉ t.toList))
  | .unary _ e => @instDecidableAnd _ _ inferInstance e.decWellFormed
  | .binary l _ r =>
      @instDecidableAnd _ _ inferInstance (@instDecidableAnd _ _ l.decWellFormed r.decWellFormed)
  | .cond test yes none => @instDecidableAnd _ _ test.decWellFormed (decWellFormedStmts yes)
  | .cond test yes (some no) =>
      @instDecidableAnd _ _ test.decWellFormed
        (@instDecidableAnd _ _ (decWellFormedStmts yes) (decWellFormedStmts no))
  | .fn _ body => @instDecidableAnd _ _ inferInstance (decWellFormedStmts body)
  | .call e es => @instDecidableAnd _ _ e.decWellFormed (decWellFormedExprs es)
  | .array es => decWellFormedExprs es
  | .hash ps => decWellFormedPairs ps
  | .index e i => @instDecidableAnd _ _ e.decWellFormed i.decWellFormed

def Stmt.decWellFormed : (s : Stmt) → Decidable s.WellFormed
  | .bind _ e => @instDecidableAnd _ _ inferInstance e.decWellFormed
  | .ret e => e.decWellFormed
  | .expr e => e.decWellFormed
  | .block _ => .isFalse id

def decWellFormedStmts : (b : List Stmt) → Decidable (WellFormedStmts b)
  | [] => .isTrue trivial
  | s :: b => @instDecidableAnd _ _ s.decWellFormed (decWellFormedStmts b)

def decWellFormedExprs : (es : List Expr) → Decidable (WellFormedExprs es)
  | [] => .isTrue trivial
  | e :: es => @instDecidableAnd _ _ e.decWellFormed (decWellFormedExprs es)

def decWellFormedPairs : (ps : List (Expr × Expr)) → Decidable (WellFormedPairs ps)
  | [] => .isTrue trivial
  | (k, v) :: ps =>
      @instDecidableAnd _ _ k.decWellFormed
        (@instDecidableAnd _ _ v.decWellFormed (decWellFormedPairs ps))

end

instance (e : Expr) : Decidable e.WellFormed := e.decWellFormed

instance (s : Stmt) : Decidable s.WellFormed := s.decWellFormed

instance (b : List Stmt) : Decidable (WellFormedStmts b) := decWellFormedStmts b

abbrev Program.WellFormed (p : Program) : Prop := WellFormedStmts p

example : Program.WellFormed [.bind "f" (.fn ["x"] [.expr (.unary .minus (.ident "x"))])] := by
  decide

end MonkeyLang
