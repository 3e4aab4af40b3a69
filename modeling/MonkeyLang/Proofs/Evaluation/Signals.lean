import MonkeyLang.Proofs.Evaluation.Outcome
import MonkeyLang.Proofs.Evaluation.ReturnFree

namespace MonkeyLang

open Value (ReturnFreeItems ReturnFreeEntries Delivered)

def World.ReturnFree (w : World) : Prop := w.heap.ReturnFree

def Operands.Delivered : Operands → Prop
  | .values vs => ReturnFreeItems vs
  | .returned v => v.ReturnFree

namespace Eval

open World (ReturnFree)

theorem keeps_operand {x : Eval Value} {k : Value → Eval Value} (hx : Keeps ReturnFree Delivered x)
    (hk : ∀ v, v.ReturnFree → Keeps ReturnFree Delivered (k v)) :
    Keeps ReturnFree Delivered (operand x k) :=
  hx.operand (fun v hv hr => hk v (hv.returnFree hr)) fun _ => id

theorem keeps_operands {x : Eval Operands} {k : List Value → Eval Value}
    (hx : Keeps ReturnFree Operands.Delivered x)
    (hk : ∀ vs, ReturnFreeItems vs → Keeps ReturnFree Delivered (k vs)) :
    Keeps ReturnFree Delivered (operands x k) := by
  refine hx.bind fun vs hvs => ?_
  cases vs with
  | values vs => exact hk vs hvs
  | returned v => exact keeps_pure (.returned hvs)

theorem keeps_lookup (s : ScopeId) (x : String) :
    Keeps ReturnFree (fun o => ∀ v ∈ o, v.ReturnFree) (lookup s x) := by
  intro w hw
  refine ⟨hw, ?_⟩
  rintro o ⟨⟩ v hv
  exact Heap.ReturnFree.get? hw s x hv

theorem keeps_name (s : ScopeId) (x : String) : Keeps ReturnFree Value.ReturnFree (name s x) := by
  refine (keeps_lookup s x).bind fun o ho => ?_
  split
  · exact keeps_pure (ho _ rfl)
  · split
    · exact keeps_pure trivial
    · exact keeps_fail _

theorem keeps_value {x : Eval Value} (h : Keeps ReturnFree Value.ReturnFree x) :
    Keeps ReturnFree Delivered x :=
  h.mono fun _ => .value

theorem keeps_call (b : Builtin) {args : List Value} (h : ReturnFreeItems args) :
    Keeps ReturnFree Value.ReturnFree (b.call args) := by
  refine (keeps_note _ fun _ => id).bind fun _ _ => (keeps_print _ fun _ => id).bind fun _ _ => ?_
  exact keeps_ofExcept fun _ =>
    Value.hereditary_returnFree.result (Value.returnFreeItems_iff.mp h)

end Eval

open Eval
open World (ReturnFree)

/-- Applying a function to values gives a value that is not on its way out. -/
def Application.Settles (app : Application) : Prop :=
  ∀ params body scope args, ReturnFreeItems args →
    Keeps ReturnFree Value.ReturnFree (app params body scope args)

variable {app : Application} {s : ScopeId}

mutual

theorem Expr.delivers (happ : app.Settles) (s : ScopeId) :
    ∀ e : Expr, Keeps ReturnFree Delivered (e.evalWith app s)
  | .ident x => keeps_value (keeps_name s x)
  | .int _ | .bool _ | .string _ | .fn _ _ => keeps_pure (.value trivial)
  | .unary op e =>
    keeps_operand (e.delivers happ s) fun v _ =>
      keeps_value (keeps_ofExcept fun _ => Value.hereditary_returnFree.unary)
  | .binary l op r =>
    keeps_operand (l.delivers happ s) fun a _ => keeps_operand (r.delivers happ s) fun b _ =>
      keeps_value (keeps_ofExcept fun _ => Value.hereditary_returnFree.binary)
  | .cond test yes none => by
    refine keeps_operand (test.delivers happ s) fun v _ => ?_
    split
    · exact block_delivers happ s yes .null trivial
    · exact keeps_pure (.value trivial)
  | .cond test yes (some no) => by
    refine keeps_operand (test.delivers happ s) fun v _ => ?_
    split
    · exact block_delivers happ s yes .null trivial
    · exact block_delivers happ s no .null trivial
  | .call callee args => by
    refine keeps_operand (callee.delivers happ s) fun f hf => ?_
    cases f with
    | function params body scope =>
      refine keeps_operands (exprs_deliver happ s args) fun vs hvs => ?_
      exact (keeps_note _ fun _ => id).bind fun _ _ =>
        keeps_value (happ params body scope vs hvs)
    | builtin b =>
      exact keeps_operands (exprs_deliver happ s args) fun vs hvs => keeps_value (keeps_call b hvs)
    | _ => exact keeps_fail _
  | .array items => keeps_operands (exprs_deliver happ s items) fun _ hvs => keeps_pure (.value hvs)
  | .hash pairs => pairs_deliver happ s pairs [] trivial
  | .index l i =>
    keeps_operand (l.delivers happ s) fun a ha => keeps_operand (i.delivers happ s) fun b _ =>
      keeps_value (keeps_ofExcept fun _ => Value.hereditary_returnFree.index ha)

theorem Stmt.delivers (happ : app.Settles) (s : ScopeId) :
    ∀ t : Stmt, Keeps ReturnFree Delivered (t.evalWith app s)
  | .bind x e =>
    keeps_operand (e.delivers happ s) fun _ hv =>
      (keeps_bindName fun _ hw => Heap.ReturnFree.bind hw hv s x).bind fun _ _ =>
        keeps_pure (.value hv)
  | .ret e => keeps_operand (e.delivers happ s) fun _ hv => keeps_pure (.returned hv)
  | .expr e => e.delivers happ s
  | .block b => block_delivers happ s b .null trivial

theorem block_delivers (happ : app.Settles) (s : ScopeId) : ∀ (b : List Stmt) (last : Value),
    last.ReturnFree → Keeps ReturnFree Delivered (evalBlock app s last b)
  | [], _, hl => keeps_pure (.value hl)
  | t :: b, _, _ => keeps_operand (t.delivers happ s) fun v hv => block_delivers happ s b v hv

theorem exprs_deliver (happ : app.Settles) (s : ScopeId) :
    ∀ es : List Expr, Keeps ReturnFree Operands.Delivered (evalExprs app s es)
  | [] => keeps_pure trivial
  | e :: es => by
    refine (e.delivers happ s).bind fun v hv => ?_
    cases hv with
    | returned h => exact keeps_pure h
    | value h =>
      have hes : Keeps ReturnFree Operands.Delivered (do
          match ← evalExprs app s es with
          | .returned w => return .returned w
          | .values vs => return .values (v :: vs)) := by
        refine (exprs_deliver happ s es).bind fun vs hvs => ?_
        cases vs with
        | values vs => exact keeps_pure ⟨h, hvs⟩
        | returned w => exact keeps_pure hvs
      cases v with
      | returned v => exact h.elim
      | _ => exact hes

theorem pairs_deliver (happ : app.Settles) (s : ScopeId) :
    ∀ (ps : List (Expr × Expr)) (t : List (HashKey × Value)), ReturnFreeEntries t →
      Keeps ReturnFree Delivered (evalPairs app s t ps)
  | [], _, ht => keeps_pure (.value ht)
  | (k, e) :: ps, t, ht => by
    refine keeps_operand (k.delivers happ s) fun v _ => ?_
    refine Keeps.bind (P := fun _ => True) (keeps_ofExcept fun _ _ => trivial) fun key _ => ?_
    refine keeps_operand (e.delivers happ s) fun u hu => pairs_deliver happ s ps _ ?_
    exact Value.returnFreeEntries_iff.mpr
      (Table.forall_insert hu (Value.returnFreeEntries_iff.mp ht))

end

theorem keeps_bindAll (s : ScopeId) (ps : List (String × Value)) (h : ∀ p ∈ ps, p.2.ReturnFree) :
    Keeps ReturnFree (fun _ => True) (bindAll s ps) := by
  induction ps with
  | nil => exact keeps_pure trivial
  | cons p ps ih =>
    obtain ⟨x, v⟩ := p
    refine (keeps_bindName fun _ hw => Heap.ReturnFree.bind hw (h (x, v) (by simp)) s x).bind ?_
    exact fun _ _ => ih fun p hp => h p (List.mem_cons_of_mem _ hp)

theorem apply_settles (depth : Nat) : (apply depth).Settles := by
  induction depth with
  | zero => exact fun _ _ _ _ _ => keeps_throw _
  | succ depth ih =>
    intro params body scope args hargs
    refine (keeps_openScope fun _ hw => Heap.ReturnFree.openScope hw _).bind fun s _ => ?_
    have hb : ∀ p ∈ params.zip args, p.2.ReturnFree := fun p hp =>
      Value.returnFreeItems_iff.mp hargs _ (List.of_mem_zip hp).2
    refine (keeps_bindAll s _ hb).bind fun _ _ => ?_
    -- Calls inside the body go one depth lower, and `unwrap` takes off the single layer.
    exact (block_delivers ih s body .null trivial).bind fun v hv => keeps_pure hv.unwrap

/-- In this world the expression evaluates to a value on its way out. -/
def Expr.Signals (app : Application) (s : ScopeId) (e : Expr) (w : World) : Prop :=
  ∃ v w', (e.evalWith app s).run w = (.ok (.returned v), w')

/-- One of the expressions, evaluated one after the other from this world on, signals. -/
def AnySignals (app : Application) (s : ScopeId) : List Expr → World → Prop
  | [], _ => False
  | e :: es, w => e.Signals app s w ∨
      ∃ v w', (e.evalWith app s).run w = (.ok v, w') ∧ AnySignals app s es w'

theorem run_operand {x : Eval Value} {k : Value → Eval Value} {w w' : World} {v : Value}
    (h : x.run w = (.ok v, w')) (hv : v.isReturned = false) :
    (operand x k).run w = (k v).run w' := by
  rw [operand, run_bind_ok h]
  cases v with
  | returned v => cases hv
  | _ => rfl

theorem run_operands {x : Eval Operands} {k : List Value → Eval Value} {w w' : World}
    {vs : List Value} (h : x.run w = (.ok (.values vs), w')) :
    (operands x k).run w = (k vs).run w' :=
  run_bind_ok h

theorem run_evalExprs_cons {e : Expr} {es : List Expr} {w w₁ : World} {v : Value}
    (h : (e.evalWith app s).run w = (.ok v, w₁)) (hv : v.isReturned = false) :
    (evalExprs app s (e :: es)).run w = (do
      match ← evalExprs app s es with
      | .returned u => return .returned u
      | .values vs => return .values (v :: vs) : Eval Operands).run w₁ := by
  rw [evalExprs, run_bind_ok h]
  cases v with
  | returned v => cases hv
  | _ => rfl

theorem anySignals_of_returned {es : List Expr} {w w' : World} {v : Value}
    (h : (evalExprs app s es).run w = (.ok (.returned v), w')) : AnySignals app s es w := by
  induction es generalizing w w' v with
  | nil => cases h
  | cons e es ih =>
    rcases he : (e.evalWith app s).run w with ⟨_ | u, w₁⟩
    · rw [evalExprs, run_bind_error he] at h
      cases h
    · rw [evalExprs, run_bind_ok he] at h
      cases u with
      | returned u => exact .inl ⟨u, w₁, he⟩
      | _ =>
        rcases hes : (evalExprs app s es).run w₁ with ⟨_ | vs, w₂⟩
        · rw [run_bind_error hes] at h
          cases h
        · rw [run_bind_ok hes] at h
          cases vs with
          | values vs => cases h
          | returned u => exact .inr ⟨_, w₁, he, ih hes⟩

theorem arguments_deliver (happ : app.Settles) {args : List Expr} {k : List Value → Eval Value}
    {w w' : World} {v : Value} (hw : w.ReturnFree) (ha : ¬ AnySignals app s args w)
    (hk : ∀ vs, ReturnFreeItems vs → Keeps ReturnFree Value.ReturnFree (k vs))
    (h : (operands (evalExprs app s args) k).run w = (.ok v, w')) : v.ReturnFree := by
  have hes := exprs_deliver happ s args
  rcases hr : (evalExprs app s args).run w with ⟨_ | vs, w₁⟩
  · rw [operands, run_bind_error hr] at h
    cases h
  · cases vs with
    | returned u => exact absurd (anySignals_of_returned hr) ha
    | values vs =>
      rw [run_operands hr] at h
      exact (hk vs (hes.value hw hr)).value (hes.world hw hr) h

theorem call_settles (happ : app.Settles) {callee : Expr} {args : List Expr} {w w' : World}
    {v : Value} (hw : w.ReturnFree) (hc : ¬ callee.Signals app s w)
    (ha : ∀ f w₁, (callee.evalWith app s).run w = (.ok f, w₁) → ¬ AnySignals app s args w₁)
    (h : ((Expr.call callee args).evalWith app s).run w = (.ok v, w')) : v.ReturnFree := by
  have hd := callee.delivers happ s
  rw [Expr.evalWith] at h
  rcases hr : (callee.evalWith app s).run w with ⟨_ | f, w₁⟩
  · rw [operand, run_bind_error hr] at h
    cases h
  · have hw₁ := hd.world hw hr
    have ha := ha f w₁ hr
    have hf : f.isReturned = false := by
      cases f with
      | returned u => exact absurd ⟨u, w₁, hr⟩ hc
      | _ => rfl
    rw [run_operand hr hf] at h
    cases f with
    | function params body scope =>
      refine arguments_deliver happ hw₁ ha (fun vs hvs => ?_) h
      exact (keeps_note _ fun _ => id).bind fun _ _ => happ params body scope vs hvs
    | builtin b => exact arguments_deliver happ hw₁ ha (fun vs => keeps_call b) h
    | _ => cases h

end MonkeyLang
