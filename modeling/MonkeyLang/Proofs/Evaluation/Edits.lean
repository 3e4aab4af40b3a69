import MonkeyLang.Proofs.Evaluation.Frame

namespace MonkeyLang

/-- What is done to the scopes. -/
inductive Edit where
  | openScope (outer : Option ScopeId)
  | bind (s : ScopeId) (name : String) (v : Value)

/-- The edits that lead from one heap to another. A name is bound only in a scope that is there. -/
inductive Heap.Edited : Heap → List Edit → Heap → Prop where
  | nil (h : Heap) : Edited h [] h
  | openScope {h h' : Heap} {es : List Edit} (outer : Option ScopeId)
      (he : Edited (h.openScope outer) es h') : Edited h (.openScope outer :: es) h'
  | bind {h h' : Heap} {es : List Edit} {s : ScopeId} (hs : s < h.size) (x : String) (v : Value)
      (he : Edited (h.bind s x v) es h') : Edited h (.bind s x v :: es) h'

namespace Heap.Edited

variable {h h' h'' : Heap} {es fs : List Edit}

theorem trans (he : h.Edited es h') (hf : h'.Edited fs h'') : h.Edited (es ++ fs) h'' := by
  induction he with
  | nil => exact hf
  | openScope outer _ ih => exact .openScope outer (ih hf)
  | bind hs x v _ ih => exact .bind hs x v (ih hf)

theorem size_le (he : h.Edited es h') : h.size ≤ h'.size := by
  induction he with
  | nil => exact Nat.le_refl _
  | openScope outer _ ih =>
    rw [size_openScope] at ih
    exact Nat.le_of_succ_le ih
  | bind _ _ _ _ ih => rwa [size_bind] at ih

end Heap.Edited

/-- What an evaluation does to the scopes, in the world it starts from. -/
abbrev Edits := World → List Edit

namespace Eval

def noEdits : Edits := fun _ => []

/-- First what is done for a value, and then what is done with it, if there is one. -/
def editsThen {α : Type} (x : Eval α) (first : Edits) (k : α → Edits) : Edits := fun w =>
  first w ++ match x.run w with
    | (.ok a, w₁) => k a w₁
    | (.error _, _) => []

def operandEdits (x : Eval Value) (first : Edits) (k : Value → Edits) : Edits :=
  editsThen x first fun
    | .returned _ => noEdits
    | v => k v

def operandsEdits (x : Eval Operands) (first : Edits) (k : List Value → Edits) : Edits :=
  editsThen x first fun
    | .returned _ => noEdits
    | .values vs => k vs

end Eval

open Eval

abbrev ApplicationEdits := List String → Block → ScopeId → List Value → Edits

mutual

def Expr.edits (app : Application) (calls : ApplicationEdits) (s : ScopeId) : Expr → Edits
  | .ident _ | .int _ | .bool _ | .string _ | .fn _ _ => noEdits
  | .unary _ e => e.edits app calls s
  | .binary l _ r => operandEdits (l.evalWith app s) (l.edits app calls s) fun _ =>
      r.edits app calls s
  | .cond test yes none =>
      operandEdits (test.evalWith app s) (test.edits app calls s) fun v =>
        if v.isTrue then blockEdits app calls s yes else noEdits
  | .cond test yes (some no) =>
      operandEdits (test.evalWith app s) (test.edits app calls s) fun v =>
        if v.isTrue then blockEdits app calls s yes else blockEdits app calls s no
  | .call callee args =>
      operandEdits (callee.evalWith app s) (callee.edits app calls s) fun
        | .function params body scope =>
            operandsEdits (evalExprs app s args) (exprsEdits app calls s args) fun vs w =>
              calls params body scope vs (w.note (.applied vs.length))
        | .builtin _ => exprsEdits app calls s args
        | _ => noEdits
  | .array items => exprsEdits app calls s items
  | .hash pairs => pairsEdits app calls s pairs
  | .index l i => operandEdits (l.evalWith app s) (l.edits app calls s) fun _ =>
      i.edits app calls s

def Stmt.edits (app : Application) (calls : ApplicationEdits) (s : ScopeId) : Stmt → Edits
  | .bind x e => operandEdits (e.evalWith app s) (e.edits app calls s) fun v _ => [.bind s x v]
  | .ret e => e.edits app calls s
  | .expr e => e.edits app calls s
  | .block b => blockEdits app calls s b

def blockEdits (app : Application) (calls : ApplicationEdits) (s : ScopeId) : List Stmt → Edits
  | [] => noEdits
  | t :: b => operandEdits (t.evalWith app s) (t.edits app calls s) fun _ =>
      blockEdits app calls s b

def exprsEdits (app : Application) (calls : ApplicationEdits) (s : ScopeId) : List Expr → Edits
  | [] => noEdits
  | e :: es => operandEdits (e.evalWith app s) (e.edits app calls s) fun _ =>
      exprsEdits app calls s es

def pairsEdits (app : Application) (calls : ApplicationEdits) (s : ScopeId) :
    List (Expr × Expr) → Edits
  | [] => noEdits
  | (k, e) :: ps =>
      operandEdits (k.evalWith app s) (k.edits app calls s) fun v =>
        editsThen (ofExcept v.key) noEdits fun _ =>
          operandEdits (e.evalWith app s) (e.edits app calls s) fun _ => pairsEdits app calls s ps

end

/-- A scope is opened, the parameters are bound in it, and the body does the rest. -/
def applyEdits : Nat → ApplicationEdits
  | 0 => fun _ _ _ _ => noEdits
  | depth + 1 => fun params body captured args (w : World) =>
      let ps := params.zip args
      .openScope (some captured) ::
        editsThen (bindAll w.heap.size ps) (fun _ => ps.map fun p => .bind w.heap.size p.1 p.2)
          (fun _ => blockEdits (apply depth) (applyEdits depth) w.heap.size body)
          (w.openScope (some captured))

def Program.edits (depth : Nat) (s : ScopeId) (p : Program) : Edits :=
  blockEdits (apply depth) (applyEdits depth) s p

/-- From a heap of at least `n` scopes the evaluation makes these edits and no others. -/
def Eval.Makes {α : Type} (n : Nat) (x : Eval α) (edits : Edits) : Prop :=
  ∀ w : World, n ≤ w.heap.size → w.heap.Edited (edits w) (x.run w).2.heap

/-- Leaves the scopes alone. -/
def Eval.Idle {α : Type} (x : Eval α) : Prop := ∀ w, (x.run w).2.heap = w.heap

namespace Eval

variable {α β : Type} {n : Nat}

theorem idle_pure (a : α) : Idle (pure a) := fun _ => rfl

theorem idle_ofExcept (r : Except Fault α) : Idle (ofExcept r) := by
  intro w
  cases r <;> rfl

theorem Idle.makes {x : Eval α} (hx : Idle x) : Makes n x noEdits := by
  intro w _
  rw [hx w]
  exact .nil w.heap

theorem Makes.then {x : Eval α} {f : α → Eval β} {first : Edits} {k : α → Edits}
    (hx : Makes n x first) (hf : ∀ a, Makes n (f a) (k a)) :
    Makes n (x >>= f) (editsThen x first k) := by
  intro w hn
  have hw := hx w hn
  unfold editsThen
  rcases h : x.run w with ⟨e | a, w₁⟩
  · rw [h] at hw
    rw [run_bind_error h, List.append_nil]
    exact hw
  · rw [h] at hw
    rw [run_bind_ok h]
    exact hw.trans (hf a w₁ (Nat.le_trans hn hw.size_le))

theorem Makes.last {x : Eval α} {f : α → Eval β} {edits : Edits} (hx : Makes n x edits)
    (hf : ∀ a, Idle (f a)) : Makes n (x >>= f) edits := by
  intro w hn
  have hw := hx w hn
  rcases h : x.run w with ⟨e | a, w₁⟩
  · rw [h] at hw
    rw [run_bind_error h]
    exact hw
  · rw [h] at hw
    rw [run_bind_ok h, hf a w₁]
    exact hw

theorem Makes.operand {x : Eval Value} {k : Value → Eval Value} {first : Edits}
    {ks : Value → Edits} (hx : Makes n x first) (hk : ∀ v, Makes n (k v) (ks v)) :
    Makes n (operand x k) (operandEdits x first ks) := by
  refine hx.then fun v => ?_
  cases v with
  | returned v => exact (idle_pure _).makes
  | _ => exact hk _

theorem Makes.lastOperand {x : Eval Value} {k : Value → Eval Value} {edits : Edits}
    (hx : Makes n x edits) (hk : ∀ v, Idle (k v)) : Makes n (Eval.operand x k) edits := by
  refine hx.last fun v => ?_
  cases v with
  | returned v => exact idle_pure _
  | _ => exact hk _

theorem Makes.operands {x : Eval Operands} {k : List Value → Eval Value} {first : Edits}
    {ks : List Value → Edits} (hx : Makes n x first) (hk : ∀ vs, Makes n (k vs) (ks vs)) :
    Makes n (operands x k) (operandsEdits x first ks) := by
  refine hx.then fun vs => ?_
  cases vs with
  | returned v => exact (idle_pure _).makes
  | values vs => exact hk vs

theorem Makes.lastOperands {x : Eval Operands} {k : List Value → Eval Value} {edits : Edits}
    (hx : Makes n x edits) (hk : ∀ vs, Idle (k vs)) : Makes n (Eval.operands x k) edits := by
  refine hx.last fun vs => ?_
  cases vs with
  | returned v => exact idle_pure _
  | values vs => exact hk vs

theorem idle_name (s : ScopeId) (x : String) : Idle (name s x) := by
  intro w
  unfold name
  rw [run_bind_ok (run_lookup s x w)]
  split
  · rfl
  · split <;> rfl

theorem makes_bindName {s : ScopeId} (hs : s < n) (x : String) (v : Value) :
    Makes n (Eval.bind s x v) fun _ => [.bind s x v] := by
  intro w hn
  exact .bind (Nat.lt_of_lt_of_le hs hn) x v (.nil _)

theorem makes_bindAll {s : ScopeId} (hs : s < n) (ps : List (String × Value)) :
    Makes n (bindAll s ps) fun _ => ps.map fun p => .bind s p.1 p.2 := by
  induction ps with
  | nil => exact (idle_pure ()).makes
  | cons p ps ih =>
    intro w hn
    exact .bind (Nat.lt_of_lt_of_le hs hn) p.1 p.2
      (ih (w.bind s p.1 p.2) (Nat.le_trans hn (Nat.le_of_eq (Heap.size_bind ..).symm)))

end Eval

variable {app : Application} {calls : ApplicationEdits} {n : Nat} {s : ScopeId}

/-- The edits of every application are the ones that are named. -/
def ApplicationEdits.Exact (calls : ApplicationEdits) (app : Application) : Prop :=
  ∀ params body captured args, Makes 0 (app params body captured args)
    (calls params body captured args)

mutual

theorem Expr.makes (hc : calls.Exact app) (hs : s < n) :
    ∀ e : Expr, Makes n (e.evalWith app s) (e.edits app calls s)
  | .ident x => (idle_name s x).makes
  | .int _ | .bool _ | .string _ | .fn _ _ => (idle_pure _).makes
  | .unary _ e => (e.makes hc hs).lastOperand fun _ => idle_ofExcept _
  | .binary l _ r => (l.makes hc hs).operand fun _ =>
      (r.makes hc hs).lastOperand fun _ => idle_ofExcept _
  | .cond test yes none => by
    refine (test.makes hc hs).operand fun v => ?_
    split
    · exact block_makes hc hs yes .null
    · exact (idle_pure _).makes
  | .cond test yes (some no) => by
    refine (test.makes hc hs).operand fun v => ?_
    split
    · exact block_makes hc hs yes .null
    · exact block_makes hc hs no .null
  | .call callee args => by
    refine (callee.makes hc hs).operand fun f => ?_
    cases f with
    | function params body scope =>
      refine (exprs_make hc hs args).operands fun vs w _ => ?_
      exact hc params body scope vs (w.note (.applied vs.length)) (Nat.zero_le _)
    | builtin b => exact (exprs_make hc hs args).lastOperands b.heap_run_call
    | _ => exact Idle.makes fun _ => rfl
  | .array items => (exprs_make hc hs items).lastOperands fun _ => idle_pure _
  | .hash pairs => pairs_make hc hs pairs []
  | .index l i => (l.makes hc hs).operand fun _ =>
      (i.makes hc hs).lastOperand fun _ => idle_ofExcept _

theorem Stmt.makes (hc : calls.Exact app) (hs : s < n) :
    ∀ t : Stmt, Makes n (t.evalWith app s) (t.edits app calls s)
  | .bind x e => (e.makes hc hs).operand fun v => (makes_bindName hs x v).last fun _ => idle_pure _
  | .ret e => (e.makes hc hs).lastOperand fun _ => idle_pure _
  | .expr e => e.makes hc hs
  | .block b => block_makes hc hs b .null

theorem block_makes (hc : calls.Exact app) (hs : s < n) :
    ∀ (b : List Stmt) (last : Value), Makes n (evalBlock app s last b) (blockEdits app calls s b)
  | [], _ => (idle_pure _).makes
  | t :: b, _ => (t.makes hc hs).operand fun v => block_makes hc hs b v

theorem exprs_make (hc : calls.Exact app) (hs : s < n) :
    ∀ es : List Expr, Makes n (evalExprs app s es) (exprsEdits app calls s es)
  | [] => (idle_pure _).makes
  | e :: es => by
    refine (e.makes hc hs).then fun v => ?_
    cases v with
    | returned v => exact (idle_pure _).makes
    | _ =>
      refine (exprs_make hc hs es).last fun vs => ?_
      cases vs <;> exact idle_pure _

theorem pairs_make (hc : calls.Exact app) (hs : s < n) :
    ∀ (ps : List (Expr × Expr)) (t : List (HashKey × Value)),
      Makes n (evalPairs app s t ps) (pairsEdits app calls s ps)
  | [], _ => (idle_pure _).makes
  | (k, e) :: ps, t => by
    refine (k.makes hc hs).operand fun u => (idle_ofExcept _).makes.then fun key => ?_
    exact (e.makes hc hs).operand fun v => pairs_make hc hs ps _

end

theorem applyEdits_exact (depth : Nat) : (applyEdits depth).Exact (apply depth) := by
  induction depth with
  | zero => exact fun _ _ _ _ => Idle.makes fun _ => rfl
  | succ depth ih =>
    intro params body captured args w _
    have hbody : Makes (w.heap.size + 1) (do
        bindAll w.heap.size (params.zip args)
        return (← evalBlock (apply depth) w.heap.size .null body).unwrap : Eval Value) _ :=
      (makes_bindAll (Nat.lt_succ_self _) (params.zip args)).then fun _ =>
        (block_makes ih (Nat.lt_succ_self _) body .null).last fun _ => idle_pure _
    exact .openScope (some captured)
      (hbody (w.openScope (some captured)) (Nat.le_of_eq (Heap.size_openScope ..).symm))

theorem Program.makes (depth : Nat) (hs : s < n) (p : Program) :
    Makes n (Program.eval depth s p) (p.edits depth s) :=
  (block_makes (applyEdits_exact depth) hs p .null).last fun _ => idle_pure _

end MonkeyLang
