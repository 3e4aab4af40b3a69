import Mathlib
import MonkeyLang.Proofs.Evaluation.Composition

namespace MonkeyLang

open Eval

/-- Integer literals, and negations, sums, differences and products of such. -/
inductive Arithmetic where
  | int (n : Int64)
  | neg (a : Arithmetic)
  | add (a b : Arithmetic)
  | sub (a b : Arithmetic)
  | mul (a b : Arithmetic)

namespace Arithmetic

def expr : Arithmetic → Expr
  | .int n => .int n
  | .neg a => .unary .minus a.expr
  | .add a b => .binary a.expr .plus b.expr
  | .sub a b => .binary a.expr .minus b.expr
  | .mul a b => .binary a.expr .asterisk b.expr

/-- The value among all integers. -/
def exact : Arithmetic → Int
  | .int n => n.toInt
  | .neg a => -a.exact
  | .add a b => a.exact + b.exact
  | .sub a b => a.exact - b.exact
  | .mul a b => a.exact * b.exact

/-- The exact value, brought into 64 bits once. -/
def wrapped (a : Arithmetic) : Int64 := Int64.ofInt a.exact

theorem toInt_wrapped (a : Arithmetic) : a.wrapped.toInt = a.exact.bmod (2 ^ 64) :=
  Int64.toInt_ofInt

theorem wrapped_int (n : Int64) : (int n).wrapped = n := Int64.ofInt_toInt n

theorem wrapped_neg (a : Arithmetic) : a.neg.wrapped = -a.wrapped := Int64.ofInt_neg a.exact

theorem wrapped_add (a b : Arithmetic) : (a.add b).wrapped = a.wrapped + b.wrapped :=
  Int64.ofInt_add a.exact b.exact

theorem wrapped_sub (a b : Arithmetic) : (a.sub b).wrapped = a.wrapped - b.wrapped :=
  Int64.ofInt_sub a.exact b.exact

theorem wrapped_mul (a b : Arithmetic) : (a.mul b).wrapped = a.wrapped * b.wrapped :=
  Int64.ofInt_mul a.exact b.exact

theorem wrapped_eq_zero (a : Arithmetic) : a.wrapped = 0 ↔ (2 ^ 64 : Int) ∣ a.exact := by
  rw [← Int64.toInt_inj, toInt_wrapped, Int64.toInt_zero]
  exact (Int.dvd_iff_bmod_eq_zero (a := 2 ^ 64)).symm

theorem ofNat_eq_iff {m n : Nat} (hm : m < 2 ^ 64) (hn : n < 2 ^ 64) :
    Int64.ofNat m = Int64.ofNat n ↔ m = n := by
  refine ⟨fun h => ?_, fun h => h ▸ rfl⟩
  have hb : m % 2 ^ 64 = n % 2 ^ 64 := by simpa using congrArg (fun i => i.toBitVec.toNat) h
  rwa [Nat.mod_eq_of_lt hm, Nat.mod_eq_of_lt hn] at hb

/-- There is a single quotient that does not fit. -/
theorem toInt_div_ne_iff {m n : Int64} :
    (m / n).toInt ≠ m.toInt.tdiv n.toInt ↔ m.toInt = -2 ^ 63 ∧ n.toInt = -1 := by
  constructor
  · intro h
    have hm : m = Int64.minValue :=
      Decidable.not_imp_comm.mp (Int64.toInt_div_of_ne_left m n) h
    have hn : n = -1 := Decidable.not_imp_comm.mp (Int64.toInt_div_of_ne_right m n) h
    subst hm hn
    decide
  · rintro ⟨hm, hn⟩
    rw [Int64.toInt_div, hm, hn]
    decide

end Arithmetic

variable {app : Application} {s : ScopeId}

theorem Expr.evalWith_ints {l r : Expr} {m n : Int64} (op : Operator)
    (hl : l.evalWith app s = pure (.int m)) (hr : r.evalWith app s = pure (.int n)) :
    (Expr.binary l op r).evalWith app s = Eval.ofExcept (Value.onInts m op n) := by
  rw [Expr.evalWith, hl, hr, operand_pure rfl, operand_pure rfl, Value.binary]

/-- Wrapping at every step comes to wrapping once. -/
theorem Arithmetic.evalWith_expr (app : Application) (s : ScopeId) (a : Arithmetic) :
    a.expr.evalWith app s = pure (.int a.wrapped) := by
  induction a with
  | int n => rw [wrapped_int, expr, Expr.evalWith]
  | neg a ih =>
    rw [wrapped_neg, expr, Expr.evalWith, ih, operand_pure rfl]
    rfl
  | add a b iha ihb =>
    rw [wrapped_add]
    exact Expr.evalWith_ints .plus iha ihb
  | sub a b iha ihb =>
    rw [wrapped_sub]
    exact Expr.evalWith_ints .minus iha ihb
  | mul a b iha ihb =>
    rw [wrapped_mul]
    exact Expr.evalWith_ints .asterisk iha ihb

theorem Arithmetic.run_binary (a b : Arithmetic) (op : Operator) (depth : Nat) (s : ScopeId)
    (w : World) : ((Expr.binary a.expr op b.expr).eval depth s).run w =
      ((Value.onInts a.wrapped op b.wrapped).mapError .fault, w) := by
  rw [Expr.eval, Expr.evalWith_ints op (a.evalWith_expr _ s) (b.evalWith_expr _ s), run_ofExcept]

/-- Sums, differences, products and negations are exact but for one wrapping at the end, whatever
happens on the way. A quotient goes toward zero and fits, but for one, and comparisons compare what
was wrapped. -/
theorem Arithmetic.exact_but_for_wrapping (a b : Arithmetic) (depth : Nat) (s : ScopeId)
    (w : World) :
    let x := a.exact.bmod (2 ^ 64)
    let y := b.exact.bmod (2 ^ 64)
    let outcome (op : Operator) := ((Expr.binary a.expr op b.expr).eval depth s).run w
    (-2 ^ 63 ≤ x ∧ x < 2 ^ 63 ∧ (2 ^ 64 : Int) ∣ a.exact - x) ∧
    (∃ m : Int64, (a.expr.eval depth s).run w = (.ok (.int m), w) ∧ m.toInt = x) ∧
    (outcome .slash = (.error (.fault .divisionByZero), w) ↔ (2 ^ 64 : Int) ∣ b.exact) ∧
    (¬ (2 ^ 64 : Int) ∣ b.exact → ∃ q : Int64, outcome .slash = (.ok (.int q), w) ∧
      q.toInt = (x.tdiv y).bmod (2 ^ 64) ∧ (q.toInt ≠ x.tdiv y ↔ x = -2 ^ 63 ∧ y = -1)) ∧
    outcome .lt = (.ok (.bool (x < y)), w) ∧ outcome .gt = (.ok (.bool (x > y)), w) ∧
    outcome .eq = (.ok (.bool (x = y)), w) ∧ outcome .notEq = (.ok (.bool (x ≠ y)), w) := by
  intro x y outcome
  have hx : a.wrapped.toInt = x := a.toInt_wrapped
  have hy : b.wrapped.toInt = y := b.toInt_wrapped
  have hrun (op : Operator) :
      outcome op = ((Value.onInts a.wrapped op b.wrapped).mapError .fault, w) :=
    a.run_binary b op depth s w
  refine ⟨⟨?_, ?_, Int.dvd_self_sub_bmod⟩, ⟨a.wrapped, ?_, hx⟩, ?_, fun hb => ?_, ?_, ?_, ?_, ?_⟩
  · exact hx ▸ a.wrapped.le_toInt
  · exact hx ▸ a.wrapped.toInt_lt
  · rw [Expr.eval, a.evalWith_expr, run_pure]
  · rw [hrun, Value.onInts, ← b.wrapped_eq_zero]
    by_cases hb : b.wrapped = 0 <;> simp [hb, Except.mapError]
  · rw [← b.wrapped_eq_zero] at hb
    refine ⟨a.wrapped / b.wrapped, ?_, ?_, ?_⟩
    · rw [hrun, Value.onInts, if_neg hb]
      rfl
    · rw [Int64.toInt_div, hx, hy]
    · rw [← hx, ← hy]
      exact toInt_div_ne_iff
  · rw [hrun, ← hx, ← hy]
    simp only [← Int64.lt_iff_toInt_lt]
    rfl
  · rw [hrun, ← hx, ← hy]
    simp only [gt_iff_lt, ← Int64.lt_iff_toInt_lt]
    rfl
  · rw [hrun, ← hx, ← hy]
    simp only [Int64.toInt_inj]
    rfl
  · rw [hrun, ← hx, ← hy]
    simp only [ne_eq, Int64.toInt_inj]
    rfl

-- The quotient that does not fit.
example : ((Expr.binary (.int Int64.minValue) .slash (.unary .minus (.int 1))).eval 0 0).run {} =
    (.ok (.int Int64.minValue), {}) := rfl

end MonkeyLang
