import MonkeyLang.Proofs.Evaluation.Frame
import MonkeyLang.Proofs.Evaluation.Hashes
import MonkeyLang.Proofs.Evaluation.Unmentioned

namespace MonkeyLang

open Eval

namespace Heap

variable {h h' : Heap} {s t : ScopeId} {x : String}

/-- What a name stands for: what it is bound to in the scopes, or else the builtin it names. -/
def resolve (h : Heap) (s : ScopeId) (x : String) : Except Fault Value :=
  match h.get? s x with
  | some v => .ok v
  | none =>
      match Builtin.ofName? x with
      | some b => .ok (.builtin b)
      | none => .error (.unbound x)

theorem resolve_congr (hx : h.get? s x = h'.get? t x) : h.resolve s x = h'.resolve t x := by
  rw [resolve, resolve, hx]

theorem resolve_of_get? {v : Value} (hx : h.get? s x = some v) : h.resolve s x = .ok v := by
  rw [resolve, hx]

theorem Preserves.get? (hp : h.Preserves h') (hs : s < h.size) (x : String) :
    h'.get? s x = h.get? s x := by
  refine get?_congr fun t ht => ?_
  have hlt : t < h.size := Nat.lt_of_le_of_lt ht hs
  have ha : h.scope? t = some h.scopes[t] := Array.getElem?_eq_getElem hlt
  rw [ha, hp t _ ha]

theorem Preserves.trans {h'' : Heap} (hp : h.Preserves h') (hp' : h'.Preserves h'') :
    h.Preserves h'' :=
  fun t a ht => hp' t a (hp t a ht)

theorem Preserves.bind (hp : h.Preserves h') (hs : h.size ≤ s) (x : String) (v : Value) :
    h.Preserves (h'.bind s x v) := by
  intro t a ht
  rw [scope?_bind_of_ne (Nat.ne_of_lt (Nat.lt_of_lt_of_le (lt_size_of_scope? ht) hs))]
  exact hp t a ht

theorem get?_eq_none (hs : h.size ≤ s) (x : String) : h.get? s x = none := by
  rw [Heap.get?, scope?_eq_none hs]

theorem get?_of_own {a : Scope} {v : Value} (hs : h.scope? s = some a)
    (hx : a.names.get? x = some v) : h.get? s x = some v := by
  rw [Heap.get?, hs]
  simp only [hx]

theorem get?_of_outer {a : Scope} (hs : h.scope? s = some a) (hx : a.names.get? x = none)
    (ho : a.outer = some t) : h.get? s x = if t < s then h.get? t x else none := by
  rw [Heap.get?, hs]
  simp only [hx, ho]

theorem get?_bind_self (hs : s < h.size) (x : String) (v : Value) :
    (h.bind s x v).get? s x = some v := by
  have ha : h.scope? s = some h.scopes[s] := Array.getElem?_eq_getElem hs
  have hb := scope?_bind_self h s x v
  rw [ha, Option.map_some] at hb
  exact get?_of_own hb (Table.get?_insert_self x v h.scopes[s].names)

/-- In a scope that is there, a name stands for the value. -/
structure Means (h : Heap) (s : ScopeId) (x : String) (v : Value) : Prop where
  opened : s < h.size
  resolved : h.resolve s x = .ok v

theorem Means.preserved {v : Value} (hx : h.Means s x v) (hp : h.Preserves h') : h'.Means s x v where
  opened := Nat.lt_of_lt_of_le hx.opened hp.size_le
  resolved := (resolve_congr (hp.get? hx.opened x)).trans hx.resolved

theorem means_of_get? {v : Value} (hx : h.get? s x = some v) : h.Means s x v where
  opened := by
    refine Nat.lt_of_not_le fun hs => ?_
    rw [get?_eq_none hs] at hx
    cases hx
  resolved := resolve_of_get? hx

theorem means_builtin {b : Builtin} (hs : s < h.size) (hb : Builtin.ofName? x = some b)
    (hx : h.get? s x = none) : h.Means s x (.builtin b) where
  opened := hs
  resolved := by
    rw [resolve, hx]
    simp only [hb]

theorem means_bind_self (hs : s < h.size) (x : String) (v : Value) : (h.bind s x v).Means s x v :=
  means_of_get? (get?_bind_self hs x v)

theorem Means.bind {v : Value} (hx : h.Means s x v) {y : String} (hy : y ≠ x) (t : ScopeId)
    (u : Value) : (h.bind t y u).Means s x v where
  opened := by
    rw [size_bind]
    exact hx.opened
  resolved := (resolve_congr (h.get?_bind_of_ne hy t u s)).trans hx.resolved

end Heap

variable {app : Application} {s captured : ScopeId} {w w₁ w₂ w₃ : World} {params : List String}
  {body : Block} {callee : Expr} {args : List Expr} {u v : Value} {vs : List Value}

theorem Expr.run_ident (x : String) :
    ((Expr.ident x).evalWith app s).run w = ((w.heap.resolve s x).mapError .fault, w) := by
  rw [Expr.evalWith, name, run_bind_ok (run_lookup s x w), Heap.resolve]
  cases w.heap.get? s x with
  | some v => rfl
  | none =>
    cases Builtin.ofName? x with
    | some b => rfl
    | none => rfl

theorem Heap.Means.gives {x : String} (hx : w.heap.Means s x v) (hv : v.isReturned = false) :
    (Expr.ident x).Gives app s w v w where
  run := by
    rw [Expr.run_ident, hx.resolved]
    rfl
  stays := hv

/-- The expressions have these values, evaluated in turn. -/
inductive ExprsGive (app : Application) (s : ScopeId) :
    List Expr → World → List Value → World → Prop
  | nil (w : World) : ExprsGive app s [] w [] w
  | cons {e : Expr} {es : List Expr} {w w₁ w₂ : World} {v : Value} {vs : List Value}
      (he : e.Gives app s w v w₁) (hes : ExprsGive app s es w₁ vs w₂) :
      ExprsGive app s (e :: es) w (v :: vs) w₂

theorem ExprsGive.run (h : ExprsGive app s args w vs w₁) :
    (evalExprs app s args).run w = (.ok (.values vs), w₁) := by
  induction h with
  | nil w => rfl
  | cons he _ ih =>
    rw [run_evalExprs_cons he.run he.stays, run_bind_ok ih]
    rfl

theorem ExprsGive.length_eq (h : ExprsGive app s args w vs w₁) : vs.length = args.length := by
  induction h with
  | nil => rfl
  | cons _ _ ih => rw [List.length_cons, List.length_cons, ih]

theorem Expr.gives_array (h : ExprsGive app s args w vs w₁) :
    (Expr.array args).Gives app s w (.array vs) w₁ := by
  refine ⟨?_, rfl⟩
  rw [Expr.evalWith, run_operands h.run]
  rfl

theorem Expr.gives_binary {l r : Expr} {op : Operator} (hl : l.Gives app s w u w₁)
    (hr : r.Gives app s w₁ v w₂) {x : Value} (hop : u.binary op v = .ok x)
    (hx : x.isReturned = false) : (Expr.binary l op r).Gives app s w x w₂ where
  run := by
    rw [Expr.evalWith, run_operand hl.run hl.stays, run_operand hr.run hr.stays, hop]
    rfl
  stays := hx

theorem Expr.run_call (hf : callee.Gives app s w (.function params body captured) w₁)
    (hargs : ExprsGive app s args w₁ vs w₂) :
    ((Expr.call callee args).evalWith app s).run w =
      (app params body captured vs).run (w₂.note (.applied args.length)) := by
  rw [Expr.evalWith, run_operand hf.run hf.stays, run_operands hargs.run, run_bind_ok (run_note ..),
    hargs.length_eq]

theorem Expr.gives_call (hf : callee.Gives app s w (.function params body captured) w₁)
    (hargs : ExprsGive app s args w₁ vs w₂)
    (h : (app params body captured vs).run (w₂.note (.applied args.length)) = (.ok v, w₃))
    (hv : v.isReturned = false) : (Expr.call callee args).Gives app s w v w₃ :=
  ⟨(Expr.run_call hf hargs).trans h, hv⟩

theorem Expr.gives_builtin_call {b : Builtin} (hf : callee.Gives app s w (.builtin b) w₁)
    (hargs : ExprsGive app s args w₁ vs w₂) (h : b.result vs = .ok v) (hv : v.isReturned = false) :
    (Expr.call callee args).Gives app s w v
      ((w₂.note (.called b vs.length)).print (b.printed vs)) where
  run := by
    rw [Expr.evalWith, run_operand hf.run hf.stays, run_operands hargs.run, Builtin.call, h]
    rfl
  stays := hv

/-- What binds no name by `let` leaves the scopes that are there as they are. -/
theorem Expr.Gives.preserves {e : Expr} (h : e.Gives app s w v w₁) (happ : app.Preserves)
    (he : e.lets = []) : w.heap.Preserves w₁.heap := by
  have hw := (e.writes happ s (List.Subset.refl _)).extends w
  rw [h.run, he] at hw
  exact hw.preserves

theorem ExprsGive.preserves (h : ExprsGive app s args w vs w₁) (happ : app.Preserves)
    (he : exprsLets args = []) : w.heap.Preserves w₁.heap := by
  have hw := (exprs_write happ s args (List.Subset.refl _)).extends w
  rw [h.run, he] at hw
  exact hw.preserves

theorem Program.run_cond_true {depth : Nat} {test : Expr} {yes : Block} (no : Option Block)
    (h : test.Gives (apply depth) s w v w₁) (hv : v.isTrue = true) :
    (Program.eval depth s [.expr (.cond test yes no)]).run w =
      (Program.eval depth s yes).run w₁ := by
  have ht : ((Stmt.expr (.cond test yes no)).eval depth s).run w =
      (Block.eval depth s yes).run w₁ := by
    rw [Stmt.eval, Stmt.evalWith]
    cases no with
    | none => rw [Expr.evalWith, run_operand h.run h.stays, if_pos hv, Block.eval]
    | some no => rw [Expr.evalWith, run_operand h.run h.stays, if_pos hv, Block.eval]
  exact Program.run_single_block ht

theorem Program.run_cond_false {depth : Nat} {test : Expr} (yes : Block) {no : Block}
    (h : test.Gives (apply depth) s w v w₁) (hv : v.isTrue = false) :
    (Program.eval depth s [.expr (.cond test yes (some no))]).run w =
      (Program.eval depth s no).run w₁ := by
  have ht : ((Stmt.expr (.cond test yes (some no))).eval depth s).run w =
      (Block.eval depth s no).run w₁ := by
    rw [Stmt.eval, Stmt.evalWith, Expr.evalWith, run_operand h.run h.stays, hv]
    rfl
  exact Program.run_single_block ht

theorem Expr.Gives.run_ret {depth : Nat} {e : Expr} (h : e.Gives (apply depth) s w v w₁) :
    (Program.eval depth s [.ret e]).run w = (.ok v, w₁) := by
  have ht : ((Stmt.ret e).eval depth s).run w = (.ok (.returned v), w₁) := by
    rw [Stmt.eval, Stmt.evalWith, run_operand h.run h.stays]
    rfl
  rw [Program.run_single, ht]
  rfl

/-- What stands behind a binding is evaluated with the name bound. -/
theorem Program.run_binding {depth : Nat} {x : String} {e : Expr} {b : List Stmt}
    (h : e.Gives (apply depth) s w v w₁) (hb : b ≠ []) :
    (Program.eval depth s (.bind x e :: b)).run w =
      (Program.eval depth s b).run (w₁.bind s x v) := by
  have ht : (Block.eval depth s [.bind x e]).run w = (.ok v, w₁.bind s x v) := by
    rw [Block.eval, evalBlock_single, Stmt.evalWith, run_operand h.run h.stays]
    rfl
  have hseq : (Block.eval depth s ([.bind x e] ++ b)).run w = _ := run_seq hb ht h.stays
  rw [List.singleton_append] at hseq
  rw [Program.run_eval, hseq, ← Program.run_eval]

end MonkeyLang
