import MonkeyLang.Proofs.Evaluation.Closed
import MonkeyLang.Proofs.Evaluation.Signals
import MonkeyLang.Repl

namespace MonkeyLang

inductive Action where
  | openScope (outer : Option ScopeId)
  | bind (s : ScopeId) (name : String) (v : Value)
  | get (s : ScopeId) (name : String)
  | call (b : Builtin) (args : List Value)
  | expression (depth : Nat) (s : ScopeId) (e : Expr)
  | statement (depth : Nat) (s : ScopeId) (t : Stmt)
  | program (depth : Nat) (s : ScopeId) (p : Program)

namespace Action

def perform (w : World) : Action → World
  | .openScope outer => w.openScope outer
  | .bind s name v => w.bind s name v
  | .get s name => ((Eval.lookup s name).run w).2
  | .call b args => ((b.call args).run w).2
  | .expression depth s e => ((e.eval depth s).run w).2
  | .statement depth s t => ((t.eval depth s).run w).2
  | .program depth s p => ((p.eval depth s).run w).2

/-- Values that come from outside are not on their way out. -/
def Admissible : Action → Prop
  | .bind _ _ v => v.ReturnFree
  | .call _ args => Value.ReturnFreeItems args
  | _ => True

end Action

theorem Program.settles (depth : Nat) (s : ScopeId) (p : Program) :
    Eval.Keeps World.ReturnFree Value.ReturnFree (p.eval depth s) :=
  (block_delivers (apply_settles depth) s p .null trivial).bind fun _ hv =>
    Eval.keeps_pure hv.unwrap

theorem Action.perform_returnFree {w : World} (hw : w.ReturnFree) {a : Action} (ha : a.Admissible) :
    (a.perform w).ReturnFree := by
  cases a with
  | openScope outer => exact Heap.ReturnFree.openScope hw outer
  | bind s name v => exact Heap.ReturnFree.bind hw ha s name
  | get s name => exact hw
  | call b args => exact (Eval.keeps_call b ha w hw).1
  | expression depth s e => exact (e.delivers (apply_settles depth) s w hw).1
  | statement depth s t => exact (t.delivers (apply_settles depth) s w hw).1
  | program depth s p => exact (p.settles depth s w hw).1

theorem World.returnFree_history {w : World} (hw : w.ReturnFree) {as : List Action}
    (ha : ∀ a ∈ as, a.Admissible) : (as.foldl Action.perform w).ReturnFree := by
  induction as generalizing w with
  | nil => exact hw
  | cons a as ih =>
    have hw₁ := Action.perform_returnFree hw (ha a (List.mem_cons_self ..))
    exact ih hw₁ fun b hb => ha b (List.mem_cons_of_mem _ hb)

/-- After any history no scope holds a value on its way out, and every evaluation from there on
delivers: a program, or a call none of whose operands signals, gives a value that is not on its way
out, a statement or an expression at most a single layer of it. -/
theorem World.signals_contained {w : World} (hw : w.ReturnFree) {as : List Action}
    (ha : ∀ a ∈ as, a.Admissible) (depth : Nat) (s : ScopeId) :
    let w₁ := as.foldl Action.perform w
    w₁.ReturnFree ∧
    (∀ (p : Program) v w₂, (p.eval depth s).run w₁ = (.ok v, w₂) → v.ReturnFree) ∧
    (∀ (callee : Expr) (args : List Expr) v w₂, ¬ callee.Signals (apply depth) s w₁ →
      (∀ f w', (callee.eval depth s).run w₁ = (.ok f, w') → ¬ AnySignals (apply depth) s args w') →
      ((Expr.call callee args).eval depth s).run w₁ = (.ok v, w₂) → v.ReturnFree) ∧
    (∀ (t : Stmt) v w₂, (t.eval depth s).run w₁ = (.ok v, w₂) → v.Delivered) ∧
    (∀ (e : Expr) v w₂, (e.eval depth s).run w₁ = (.ok v, w₂) → v.Delivered) := by
  intro w₁
  have hw₁ : w₁.ReturnFree := returnFree_history hw ha
  have happ := apply_settles depth
  refine ⟨hw₁, ?_, ?_, ?_, ?_⟩
  · intro p v w₂ h
    exact (p.settles depth s).value hw₁ h
  · intro callee args v w₂ hc hargs h
    exact call_settles happ hw₁ hc hargs h
  · intro t v w₂ h
    exact (t.delivers happ s).value hw₁ h
  · intro e v w₂ h
    exact (e.delivers happ s).value hw₁ h

theorem returnFree_fresh : World.ReturnFree Repl.fresh.1 :=
  Heap.returnFree_empty.openScope none

theorem World.signals_contained_let :
    let as : List Action := [.openScope (some 0), .bind 1 "a" (.array [.int 1]),
      .call .puts [.string "a"], .program 1 1 [.ret (.ident "a"), .bind "b" (.int 2)]]
    let t : Stmt := .bind "x" (.cond (.bool true) [.ret (.int 5)] none)
    let w := as.foldl Action.perform Repl.fresh.1
    Repl.fresh.1.ReturnFree ∧ (∀ a ∈ as, a.Admissible) ∧ w.ReturnFree ∧
      (t.eval 1 0).run w = (.ok (.returned (.int 5)), w) ∧
      Value.Delivered (.returned (.int 5)) := by
  intro as t w
  have ha : ∀ a ∈ as, a.Admissible := by
    simp [as, Action.Admissible, Value.ReturnFree, Value.ReturnFreeItems]
  have ht : (t.eval 1 0).run w = (.ok (.returned (.int 5)), w) := rfl
  obtain ⟨hw, -, -, hd, -⟩ := signals_contained returnFree_fresh ha 1 0
  exact ⟨returnFree_fresh, ha, hw, ht, hd t _ w ht⟩

/-- What an action uses of the scopes is there. -/
def Action.Within (w : World) : Action → Prop
  | .openScope outer => ∀ t, outer = some t → t < w.heap.size
  | .bind _ _ v => v.Below w.heap.size
  | .expression _ s _ | .statement _ s _ | .program _ s _ => s < w.heap.size
  | .get _ _ | .call _ _ => True

/-- The worlds that a session can come to. -/
inductive World.Reachable : World → Prop
  | fresh : Reachable Repl.fresh.1
  | perform {w : World} {a : Action} (h : Reachable w) (ha : a.Within w) : Reachable (a.perform w)

theorem Action.perform_closed {w : World} (hw : w.heap.Closed) {a : Action} (ha : a.Within w) :
    (a.perform w).heap.Closed := by
  cases a with
  | openScope outer => exact hw.openScope ha
  | bind s name v => exact hw.bind ha s name
  | get s name => exact hw
  | call b args =>
    rw [perform, b.heap_run_call]
    exact hw
  | expression depth s e => exact (e.stays (apply_stays depth) ha w hw (Nat.le_refl _)).1
  | statement depth s t => exact (t.stays (apply_stays depth) ha w hw (Nat.le_refl _)).1
  | program depth s p =>
    have hp : Eval.Stays w.heap.size Value.Below (p.eval depth s) :=
      (block_stays (apply_stays depth) p ha (Value.hereditary_below _).null).bind
        fun _ _ _ hv => Eval.stays_pure fun _ hm => hv.unwrap.mono hm
    exact (hp w hw (Nat.le_refl _)).1

theorem World.Reachable.closed {w : World} (hw : w.Reachable) : w.heap.Closed := by
  induction hw with
  | fresh => exact Heap.closed_empty.openScope fun _ h => nomatch h
  | perform _ ha ih => exact Action.perform_closed ih ha

end MonkeyLang
