import Mathlib
import MonkeyLang.Proofs.Evaluation.Closed
import MonkeyLang.Proofs.Evaluation.Nesting

namespace MonkeyLang

open Eval

theorem Value.functionFree_iff {v : Value} : v.FunctionFree ↔ ∀ s ∈ v.captured, False :=
  List.eq_nil_iff_forall_not_mem

theorem Value.hereditary_functionFree : Hereditary FunctionFree := by
  have h : FunctionFree = fun v => ∀ s ∈ v.captured, False :=
    funext fun v => propext v.functionFree_iff
  rw [h]
  exact hereditary_captured fun _ => False

/-- Where there is no function, none is applied. -/
theorem Application.follows_functionFree (app : Application) (n : Nat) :
    app.Follows False Value.FunctionFree n :=
  fun _ _ _ _ _ _ hf _ => nomatch hf

theorem literals_nil {P : Value → Prop} {s : ScopeId} {ls : List (List String × Block)}
    (h : ls = []) : Literals P s ls := by
  rw [h]
  exact fun _ hl => absurd hl List.not_mem_nil

/-- What is followed without a cut from some limit on completes, and from there on the limit makes
no difference. -/
theorem Eval.completes_of_follows {α : Type} {P : Value → Prop} {Q : α → Prop} {x : Nat → Eval α}
    {y : Eval α} {k : Nat} {w : World} (h : ∀ n, k ≤ n → Follows False P Q (x n) y)
    (hw : w.heap.Holds P) :
    Completes P Q (y.run w) ∧ ∀ n, k ≤ n → (x n).run w = y.run w := by
  have hsame : ∀ n, k ≤ n → (x n).run w = y.run w ∧ Completes P Q (y.run w) := fun n hn =>
    (h n hn w hw).resolve_left fun hc => hc.1
  exact ⟨(hsame k (Nat.le_refl k)).2, fun n hn => (hsame n hn).1⟩

/-- Where no function is bound, what has no function literal evaluates to a value or a fault however
few applications may nest, with no more evaluators inside one another than its tree is high; and
still there is no function. -/
theorem evaluation_without_functions {w : World} (hw : w.heap.Holds Value.FunctionFree)
    (s : ScopeId) (depth : Nat) :
    (∀ p : Program, blockLiterals p = [] →
      Completes Value.FunctionFree Value.FunctionFree ((p.eval depth s).run w) ∧
      ∀ n, Block.height p ≤ n → (p.evalNested n s).run w = (p.eval depth s).run w) ∧
    (∀ t : Stmt, t.literals = [] →
      Completes Value.FunctionFree Value.FunctionFree ((t.eval depth s).run w) ∧
      ∀ n, t.height ≤ n → (t.evalNested n s).run w = (t.eval depth s).run w) ∧
    (∀ e : Expr, e.literals = [] →
      Completes Value.FunctionFree Value.FunctionFree ((e.eval depth s).run w) ∧
      ∀ n, e.height ≤ n → (e.evalNested n s).run w = (e.eval depth s).run w) := by
  have hP := Value.hereditary_functionFree
  have hr : ∀ v : Value, Value.FunctionFree (.returned v) ↔ v.FunctionFree := fun _ => Iff.rfl
  have happ := (apply depth).follows_functionFree
  refine ⟨fun p hl => ?_, fun t hl => ?_, fun e hl => ?_⟩
  · exact completes_of_follows
      (fun n hn => Program.follows hP hr (happ n) s (.inr hn) (literals_nil hl)) hw
  · exact completes_of_follows
      (fun n hn => t.follows hP hr s n (happ n) (.inr hn) (literals_nil hl)) hw
  · exact completes_of_follows
      (fun n hn => e.follows hP hr s n (happ n) (.inr hn) (literals_nil hl)) hw

theorem evaluation_without_functions_builtin :
    let w : World := { heap := (Heap.openScope {} none).bind 0 "fs" (.array [.builtin .len]) }
    let p : Program := [.bind "f" (.call (.ident "first") [.ident "fs"]),
      .ret (.call (.ident "f") [.array [.int 1, .string "a"]])]
    w.heap.Holds Value.FunctionFree ∧ blockLiterals p = [] ∧ Block.height p = 5 ∧
      ((p.eval 0 0).run w).1 = .ok (.int 2) ∧
      ((p.eval 0 0).run w).2.heap.Holds Value.FunctionFree ∧
      (p.evalNested 5 0).run w = (p.eval 0 0).run w := by
  intro w p
  have hv : Value.FunctionFree (.array [.builtin .len]) := rfl
  have hw : w.heap.Holds Value.FunctionFree := (Heap.holds_empty.openScope none).bind hv 0 "fs"
  have hp : blockLiterals p = [] := rfl
  have hh : Block.height p = 5 := by decide
  have hr : ((p.eval 0 0).run w).1 = .ok (.int 2) := by cbv
  obtain ⟨hc, hn⟩ := (evaluation_without_functions hw 0 0).1 p hp
  exact ⟨hw, hp, hh, hr, hc.holds, hn 5 (Nat.le_of_eq hh)⟩

end MonkeyLang
