import MonkeyLang.Proofs.Evaluation.Signals

namespace MonkeyLang

namespace Eval

variable {f g : Value → Eval Value}

/-- What follows an operand never sees a value on its way out. -/
theorem operand_congr {x : Eval Value} (h : ∀ v, v.isReturned = false → f v = g v) :
    operand x f = operand x g := by
  refine bind_congr fun v => ?_
  cases v with
  | returned v => rfl
  | _ => exact h _ rfl

theorem operand_pure {v : Value} (hv : v.isReturned = false) (k : Value → Eval Value) :
    operand (pure v) k = k v := by
  rw [operand, pure_bind]
  cases v with
  | returned v => cases hv
  | _ => rfl

theorem operand_assoc (x : Eval Value) (f k : Value → Eval Value) :
    operand (operand x f) k = operand x fun v => operand (f v) k := by
  unfold operand
  rw [bind_assoc]
  refine bind_congr fun v => ?_
  cases v with
  | returned v => exact pure_bind _ _
  | _ => rfl

/-- An error or a value on its way out is how the whole ends. -/
theorem run_operand_stopped {x : Eval Value} {k : Value → Eval Value} {w w₁ : World}
    {r : Except Stop Value} (h : x.run w = (r, w₁)) (hr : ∀ v, r = .ok v → v.isReturned = true) :
    (operand x k).run w = (r, w₁) := by
  cases r with
  | error e => exact run_bind_error h
  | ok v =>
    have hv := hr v rfl
    cases v with
    | returned v => exact run_bind_ok h
    | _ => cases hv

theorem run_operand_inv {x : Eval Value} {k : Value → Eval Value} {w w' : World} {v : Value}
    (h : (operand x k).run w = (.ok v, w')) (hv : v.isReturned = false) :
    ∃ u w₁, x.run w = (.ok u, w₁) ∧ u.isReturned = false ∧ (k u).run w₁ = (.ok v, w') := by
  rcases hx : x.run w with ⟨e | u, w₁⟩
  · rw [operand, run_bind_error hx] at h
    cases h
  · cases hu : u.isReturned with
    | false =>
      rw [run_operand hx hu] at h
      exact ⟨u, w₁, rfl, hu, h⟩
    | true =>
      have hr : ∀ u', (Except.ok u : Except Stop Value) = .ok u' → u'.isReturned = true := by
        rintro u' ⟨⟩
        exact hu
      rw [run_operand_stopped hx hr] at h
      cases h
      exact absurd hu (Bool.eq_false_iff.mp hv)

end Eval

open Eval

variable {app : Application} {s : ScopeId}

theorem evalBlock_seq (p q : Block) {last : Value} (hl : last.isReturned = false) :
    evalBlock app s last (p ++ q) =
      operand (evalBlock app s last p) fun v => evalBlock app s v q := by
  induction p generalizing last with
  | nil => exact (operand_pure hl fun v => evalBlock app s v q).symm
  | cons t p ih =>
    rw [List.cons_append, evalBlock, evalBlock, operand_assoc]
    exact operand_congr fun v hv => ih hv

theorem run_seq {p q : Block} {depth : Nat} {w w₁ : World} {v : Value} (hq : q ≠ [])
    (h : (p.eval depth s).run w = (.ok v, w₁)) (hv : v.isReturned = false) :
    (Block.eval depth s (p ++ q)).run w = (q.eval depth s).run w₁ := by
  obtain ⟨t, q, rfl⟩ := List.exists_cons_of_ne_nil hq
  unfold Block.eval at h ⊢
  rw [evalBlock_seq p (t :: q) rfl, run_operand h hv]
  -- The first statement of `q` takes no notice of the value that `p` has.
  rfl

theorem run_seq_stopped {p : Block} {depth : Nat} {w w₁ : World} {r : Except Stop Value}
    (q : Block) (h : (p.eval depth s).run w = (r, w₁))
    (hr : ∀ v, r = .ok v → v.isReturned = true) :
    (Block.eval depth s (p ++ q)).run w = (r, w₁) := by
  rw [Block.eval, evalBlock_seq p q rfl]
  exact run_operand_stopped h hr

theorem Program.run_eval (depth : Nat) (s : ScopeId) (p : Program) (w : World) :
    (p.eval depth s).run w =
      (((Block.eval depth s p).run w).1.map Value.unwrap, ((Block.eval depth s p).run w).2) := by
  unfold Program.eval
  rcases h : (Block.eval depth s p).run w with ⟨_ | v, w₁⟩
  · exact run_bind_error h
  · exact run_bind_ok h

theorem evalBlock_single (last : Value) (t : Stmt) :
    evalBlock app s last [t] = t.evalWith app s := by
  have hreturn : (fun v => evalBlock app s v []) = fun v => (pure v : Eval Value) := rfl
  rw [evalBlock, hreturn, operand]
  refine Eq.trans (bind_congr fun v => ?_) (bind_pure _)
  cases v with
  | _ => rfl

theorem Program.run_single (depth : Nat) (s : ScopeId) (t : Stmt) (w : World) :
    (Program.eval depth s [t]).run w =
      (((t.eval depth s).run w).1.map Value.unwrap, ((t.eval depth s).run w).2) := by
  rw [Program.run_eval, Block.eval, evalBlock_single, Stmt.eval]

theorem Program.run_single_block {depth : Nat} {t : Stmt} {b : Block} {w w₁ : World}
    (h : (t.eval depth s).run w = (b.eval depth s).run w₁) :
    (Program.eval depth s [t]).run w = (Program.eval depth s b).run w₁ := by
  rw [Program.run_single, h, ← Program.run_eval]

/-- What was done before an error or a return stays done, and what stands behind is not. -/
theorem Program.eval_stopped {depth : Nat} {s : ScopeId} {q r : List Stmt} {t : Stmt} {v : Value}
    {w w₁ w₂ : World} {res : Except Stop Value} (hq : (Block.eval depth s q).run w = (.ok v, w₁))
    (hv : v.isReturned = false) (ht : (t.eval depth s).run w₁ = (res, w₂))
    (hs : ∀ u, res = .ok u → u.isReturned = true) :
    (Program.eval depth s (q ++ t :: r)).run w = (res.map Value.unwrap, w₂) := by
  have hb : (Block.eval depth s (q ++ t :: r)).run w = (res, w₂) := by
    rw [run_seq (List.cons_ne_nil t r) hq hv, Block.eval, evalBlock]
    exact run_operand_stopped ht hs
  rw [Program.run_eval, hb]

mutual

/-- The second of two expressions is the first one with statements put into blocks of their own. A
function literal stays as it is, since its body is part of its value. -/
inductive Expr.Regrouped : Expr → Expr → Prop
  | refl (e : Expr) : Expr.Regrouped e e
  | unary (op : Operator) {e e' : Expr} (h : e.Regrouped e') :
      Expr.Regrouped (.unary op e) (.unary op e')
  | binary (op : Operator) {l l' r r' : Expr} (hl : l.Regrouped l') (hr : r.Regrouped r') :
      Expr.Regrouped (.binary l op r) (.binary l' op r')
  | cond {test test' : Expr} {yes yes' : Block} (ht : test.Regrouped test')
      (hy : BlockRegrouped yes yes') : Expr.Regrouped (.cond test yes none) (.cond test' yes' none)
  | condElse {test test' : Expr} {yes yes' no no' : Block} (ht : test.Regrouped test')
      (hy : BlockRegrouped yes yes') (hn : BlockRegrouped no no') :
      Expr.Regrouped (.cond test yes (some no)) (.cond test' yes' (some no'))
  | call {callee callee' : Expr} {args args' : List Expr} (hc : callee.Regrouped callee')
      (ha : ExprsRegrouped args args') : Expr.Regrouped (.call callee args) (.call callee' args')
  | array {items items' : List Expr} (h : ExprsRegrouped items items') :
      Expr.Regrouped (.array items) (.array items')
  | hash {pairs pairs' : List (Expr × Expr)} (h : PairsRegrouped pairs pairs') :
      Expr.Regrouped (.hash pairs) (.hash pairs')
  | index {l l' i i' : Expr} (hl : l.Regrouped l') (hi : i.Regrouped i') :
      Expr.Regrouped (.index l i) (.index l' i')

inductive Stmt.Regrouped : Stmt → Stmt → Prop
  | bind (x : String) {e e' : Expr} (h : e.Regrouped e') : Stmt.Regrouped (.bind x e) (.bind x e')
  | ret {e e' : Expr} (h : e.Regrouped e') : Stmt.Regrouped (.ret e) (.ret e')
  | expr {e e' : Expr} (h : e.Regrouped e') : Stmt.Regrouped (.expr e) (.expr e')
  | block {b b' : Block} (h : BlockRegrouped b b') : Stmt.Regrouped (.block b) (.block b')

inductive BlockRegrouped : List Stmt → List Stmt → Prop
  | nil : BlockRegrouped [] []
  | cons {t t' : Stmt} {b b' : List Stmt} (ht : t.Regrouped t') (hb : BlockRegrouped b b') :
      BlockRegrouped (t :: b) (t' :: b')
  | block (p q : List Stmt) {b : List Stmt} (hb : b ≠ []) :
      BlockRegrouped (p ++ b ++ q) (p ++ .block b :: q)
  | always (p q : List Stmt) {b : List Stmt} (hb : b ≠ []) :
      BlockRegrouped (p ++ b ++ q) (p ++ .expr (.cond (.bool true) b none) :: q)
  | trans {b₁ b₂ b₃ : List Stmt} (h : BlockRegrouped b₁ b₂) (h' : BlockRegrouped b₂ b₃) :
      BlockRegrouped b₁ b₃

inductive ExprsRegrouped : List Expr → List Expr → Prop
  | nil : ExprsRegrouped [] []
  | cons {e e' : Expr} {es es' : List Expr} (he : e.Regrouped e') (hes : ExprsRegrouped es es') :
      ExprsRegrouped (e :: es) (e' :: es')

inductive PairsRegrouped : List (Expr × Expr) → List (Expr × Expr) → Prop
  | nil : PairsRegrouped [] []
  | cons {k k' e e' : Expr} {ps ps' : List (Expr × Expr)} (hk : k.Regrouped k')
      (he : e.Regrouped e') (hps : PairsRegrouped ps ps') :
      PairsRegrouped ((k, e) :: ps) ((k', e') :: ps')

end

theorem evalBlock_grouped (p q : Block) {t : Stmt} (hb : b ≠ [])
    (ht : t.evalWith app s = evalBlock app s .null b) (last : Value) :
    evalBlock app s last (p ++ t :: q) = evalBlock app s last (p ++ b ++ q) := by
  induction p generalizing last with
  | nil =>
    obtain ⟨u, b, rfl⟩ := List.exists_cons_of_ne_nil hb
    have hlast : evalBlock app s last (u :: b ++ q) = evalBlock app s .null (u :: b ++ q) := rfl
    rw [List.nil_append, List.nil_append, evalBlock, ht, hlast, evalBlock_seq _ _ rfl]
  | cons u p ih =>
    rw [List.cons_append, List.cons_append, List.cons_append, evalBlock, evalBlock]
    exact operand_congr fun v _ => ih v

mutual

theorem Expr.Regrouped.same : ∀ {e e' : Expr}, e.Regrouped e' → e'.evalWith app s = e.evalWith app s
  | _, _, .refl e => rfl
  | _, _, .unary op h => by rw [Expr.evalWith, Expr.evalWith, h.same]
  | _, _, .binary op hl hr => by rw [Expr.evalWith, Expr.evalWith, hl.same, hr.same]
  | _, _, .cond ht hy => by rw [Expr.evalWith, Expr.evalWith, ht.same, hy.same]
  | _, _, .condElse ht hy hn => by
    rw [Expr.evalWith, Expr.evalWith, ht.same, hy.same, hn.same]
  | _, _, .call hc ha => by rw [Expr.evalWith, Expr.evalWith, hc.same, ha.same]
  | _, _, .array h => by rw [Expr.evalWith, Expr.evalWith, h.same]
  | _, _, .hash h => by rw [Expr.evalWith, Expr.evalWith, h.same]
  | _, _, .index hl hi => by rw [Expr.evalWith, Expr.evalWith, hl.same, hi.same]

theorem Stmt.Regrouped.same : ∀ {t t' : Stmt}, t.Regrouped t' → t'.evalWith app s = t.evalWith app s
  | _, _, .bind x h => by rw [Stmt.evalWith, Stmt.evalWith, h.same]
  | _, _, .ret h => by rw [Stmt.evalWith, Stmt.evalWith, h.same]
  | _, _, .expr h => by rw [Stmt.evalWith, Stmt.evalWith, h.same]
  | _, _, .block h => by rw [Stmt.evalWith, Stmt.evalWith, h.same]

theorem BlockRegrouped.same : ∀ {b b' : List Stmt}, BlockRegrouped b b' → ∀ {last : Value},
    evalBlock app s last b' = evalBlock app s last b
  | _, _, .nil, _ => rfl
  | _, _, .cons ht hb, _ => by
    rw [evalBlock, evalBlock, ht.same]
    exact operand_congr fun v _ => hb.same
  | _, _, .block p q hb, last => evalBlock_grouped p q hb rfl last
  | _, _, .always p q hb, last => evalBlock_grouped p q hb rfl last
  | _, _, .trans h h', _ => h'.same.trans h.same

theorem ExprsRegrouped.same : ∀ {es es' : List Expr}, ExprsRegrouped es es' →
    evalExprs app s es' = evalExprs app s es
  | _, _, .nil => rfl
  | _, _, .cons he hes => by rw [evalExprs, evalExprs, he.same, hes.same]

theorem PairsRegrouped.same : ∀ {ps ps' : List (Expr × Expr)}, PairsRegrouped ps ps' →
    ∀ {t : List (HashKey × Value)}, evalPairs app s t ps' = evalPairs app s t ps
  | _, _, .nil, _ => rfl
  | _, _, .cons hk he hps, t => by
    rw [evalPairs, evalPairs, hk.same, he.same]
    refine operand_congr fun u _ => bind_congr fun key => operand_congr fun v _ => hps.same

end

/-- What follows is evaluated where the statements before it left off, unless they ended in a fault
or a return, which is then how all of it ends. Statements may be put into a block of their own, or
under a test that is always true, any number of times and inside one another: that makes no
difference to a block or a program. -/
theorem Block.composes (depth : Nat) (s : ScopeId) :
    (∀ (p q : Block) (r : Except Stop Value) (w w₁ : World), (p.eval depth s).run w = (r, w₁) →
      (∀ v, r = .ok v → v.isReturned = false → q ≠ [] →
        (Block.eval depth s (p ++ q)).run w = (q.eval depth s).run w₁ ∧
        (Program.eval depth s (p ++ q)).run w = (Program.eval depth s q).run w₁) ∧
      ((∀ v, r = .ok v → v.isReturned = true) →
        (Block.eval depth s (p ++ q)).run w = (r, w₁) ∧
        (Program.eval depth s (p ++ q)).run w = (Program.eval depth s p).run w)) ∧
    (∀ p b q : Block, b ≠ [] → ∀ t, t = .block b ∨ t = .expr (.cond (.bool true) b none) →
      Block.eval depth s (p ++ t :: q) = Block.eval depth s (p ++ b ++ q) ∧
      Program.eval depth s (p ++ t :: q) = Program.eval depth s (p ++ b ++ q)) ∧
    (∀ b b' : Block, BlockRegrouped b b' →
      b'.eval depth s = b.eval depth s ∧ Program.eval depth s b' = Program.eval depth s b) := by
  have hregroup : ∀ b b' : Block, BlockRegrouped b b' →
      b'.eval depth s = b.eval depth s ∧ Program.eval depth s b' = Program.eval depth s b := by
    intro b b' h
    have hb : b'.eval depth s = b.eval depth s := h.same
    exact ⟨hb, by rw [Program.eval, Program.eval, hb]⟩
  refine ⟨fun p q r w w₁ h => ⟨fun v hr hv hq => ?_, fun hr => ?_⟩, fun p b q hb t ht => ?_,
    hregroup⟩
  · subst hr
    have hseq := run_seq hq h hv
    exact ⟨hseq, by rw [Program.run_eval, hseq, ← Program.run_eval]⟩
  · have hseq := run_seq_stopped q h hr
    exact ⟨hseq, by rw [Program.run_eval, hseq, Program.run_eval, h]⟩
  · rcases ht with rfl | rfl
    · exact hregroup _ _ (.block p q hb)
    · exact hregroup _ _ (.always p q hb)

end MonkeyLang
