import Mathlib.Data.Nat.Basic
import Mathlib.Order.Basic
import MonkeyLang.Proofs.Evaluation.Hereditary
import MonkeyLang.Proofs.Evaluation.Outcome

namespace MonkeyLang

open Eval

mutual

/-- How many nodes of the tree lie inside one another. A function body is not looked into. -/
def Expr.height : Expr → Nat
  | .ident _ | .int _ | .bool _ | .string _ | .fn _ _ => 1
  | .unary _ e => e.height + 1
  | .binary l _ r => max l.height r.height + 1
  | .cond test yes none => max test.height (stmtsHeight yes + 1) + 1
  | .cond test yes (some no) =>
      max test.height (max (stmtsHeight yes + 1) (stmtsHeight no + 1)) + 1
  | .call callee args => max callee.height (exprsHeight args) + 1
  | .array items => exprsHeight items + 1
  | .hash pairs => pairsHeight pairs + 1
  | .index l i => max l.height i.height + 1

def Stmt.height : Stmt → Nat
  | .bind _ e => e.height + 1
  | .ret e => e.height + 1
  | .expr e => e.height + 1
  | .block b => stmtsHeight b + 1 + 1

def stmtsHeight : List Stmt → Nat
  | [] => 0
  | t :: b => max t.height (stmtsHeight b)

def exprsHeight : List Expr → Nat
  | [] => 0
  | e :: es => max e.height (exprsHeight es)

def pairsHeight : List (Expr × Expr) → Nat
  | [] => 0
  | (k, e) :: ps => max (max k.height e.height) (pairsHeight ps)

end

/-- A block is a node of its own, and so is a program. -/
def Block.height (b : Block) : Nat := stmtsHeight b + 1

theorem Expr.height_pos (e : Expr) : 0 < e.height := by
  cases e with
  | cond test yes no => cases no <;> exact Nat.succ_pos _
  | _ => exact Nat.succ_pos _

theorem Stmt.height_pos (t : Stmt) : 0 < t.height := by
  cases t <;> exact Nat.succ_pos _

mutual

/-- The function literals in an expression, what is inside function bodies aside. -/
def Expr.literals : Expr → List (List String × Block)
  | .ident _ | .int _ | .bool _ | .string _ => []
  | .fn params body => [(params, body)]
  | .unary _ e => e.literals
  | .binary l _ r => l.literals ++ r.literals
  | .cond test yes none => test.literals ++ blockLiterals yes
  | .cond test yes (some no) => test.literals ++ (blockLiterals yes ++ blockLiterals no)
  | .call callee args => callee.literals ++ exprsLiterals args
  | .array items => exprsLiterals items
  | .hash pairs => pairsLiterals pairs
  | .index l i => l.literals ++ i.literals

def Stmt.literals : Stmt → List (List String × Block)
  | .bind _ e => e.literals
  | .ret e => e.literals
  | .expr e => e.literals
  | .block b => blockLiterals b

def blockLiterals : List Stmt → List (List String × Block)
  | [] => []
  | t :: b => t.literals ++ blockLiterals b

def exprsLiterals : List Expr → List (List String × Block)
  | [] => []
  | e :: es => e.literals ++ exprsLiterals es

def pairsLiterals : List (Expr × Expr) → List (List String × Block)
  | [] => []
  | (k, e) :: ps => k.literals ++ e.literals ++ pairsLiterals ps

end

/-- What evaluates each kind of node. -/
structure Evaluators where
  expr : ScopeId → Expr → Eval Value
  stmt : ScopeId → Stmt → Eval Value
  block : ScopeId → Block → Eval Value
  apply : Application

namespace Evaluators

def stmts (ev : Evaluators) (s : ScopeId) (last : Value) : List Stmt → Eval Value
  | [] => return last
  | t :: b => operand (ev.stmt s t) fun v => ev.stmts s v b

def exprs (ev : Evaluators) (s : ScopeId) : List Expr → Eval Operands
  | [] => return .values []
  | e :: es => do
      match ← ev.expr s e with
      | .returned v => return .returned v
      | v =>
          match ← ev.exprs s es with
          | .returned w => return .returned w
          | .values vs => return .values (v :: vs)

def pairs (ev : Evaluators) (s : ScopeId) (t : Table HashKey Value) :
    List (Expr × Expr) → Eval Value
  | [] => return .hash t
  | (k, e) :: ps =>
      operand (ev.expr s k) fun v => do
        let key ← ofExcept v.key
        operand (ev.expr s e) fun v => ev.pairs s (t.insert key v) ps

/-- These evaluate a node, and leave the nodes right below it to `ev`. -/
def around (ev : Evaluators) : Evaluators where
  expr s
    | .ident x => name s x
    | .int n => return .int n
    | .bool b => return .bool b
    | .string t => return .string t
    | .unary op e => operand (ev.expr s e) fun v => ofExcept (v.unary op)
    | .binary l op r =>
        operand (ev.expr s l) fun a => operand (ev.expr s r) fun b => ofExcept (a.binary op b)
    | .cond test yes none =>
        operand (ev.expr s test) fun v => if v.isTrue then ev.block s yes else return .null
    | .cond test yes (some no) =>
        operand (ev.expr s test) fun v => if v.isTrue then ev.block s yes else ev.block s no
    | .fn params body => return .function params body s
    | .call callee args =>
        operand (ev.expr s callee) fun
          | .function params body scope =>
              operands (ev.exprs s args) fun vs => do
                note (.applied vs.length)
                ev.apply params body scope vs
          | .builtin b => operands (ev.exprs s args) b.call
          | v => fail (.notFunction v.typeName)
    | .array items => operands (ev.exprs s items) fun vs => return .array vs
    | .hash pairs => ev.pairs s [] pairs
    | .index l i =>
        operand (ev.expr s l) fun a => operand (ev.expr s i) fun b => ofExcept (a.index b)
  stmt s
    | .bind x e =>
        operand (ev.expr s e) fun v => do
          Eval.bind s x v
          return v
    | .ret e => operand (ev.expr s e) fun v => return .returned v
    | .expr e => ev.expr s e
    | .block b => ev.block s b
  block s b := ev.stmts s .null b
  apply params body captured args := do
    let s ← openScope captured
    bindAll s (params.zip args)
    return (← ev.block s body).unwrap

/-- These evaluate as long as no more than `n` of them are at work inside one another. -/
def nested : Nat → Evaluators
  | 0 => ⟨fun _ _ => throw .tooDeep, fun _ _ => throw .tooDeep, fun _ _ => throw .tooDeep,
      fun _ _ _ _ => throw .tooDeep⟩
  | n + 1 => (nested n).around

end Evaluators

open Evaluators (nested)

def Expr.evalNested (n : Nat) (s : ScopeId) (e : Expr) : Eval Value := (nested n).expr s e

def Stmt.evalNested (n : Nat) (s : ScopeId) (t : Stmt) : Eval Value := (nested n).stmt s t

def Program.evalNested (n : Nat) (s : ScopeId) (p : Program) : Eval Value :=
  return (← (nested n).block s p).unwrap

/-- An evaluation came to a value with `Q` or to a fault, and left only values with `P` behind. -/
inductive Eval.Completes {α : Type} (P : Value → Prop) (Q : α → Prop) : Except Stop α × World → Prop
  | value {a : α} {w : World} (ha : Q a) (hw : w.heap.Holds P) : Completes P Q (.ok a, w)
  | fault (f : Fault) {w : World} (hw : w.heap.Holds P) : Completes P Q (.error (.fault f), w)

theorem Eval.Completes.holds {α : Type} {P : Value → Prop} {Q : α → Prop}
    {r : Except Stop α × World} (h : Completes P Q r) : r.2.heap.Holds P := by
  cases h with
  | value _ hw => exact hw
  | fault _ hw => exact hw

/-- Where only values with `P` are bound, `x` does what `y` does and completes; if `cut` allows it,
it may also stop because it is too deep. -/
def Eval.Follows {α : Type} (cut : Prop) (P : Value → Prop) (Q : α → Prop) (x y : Eval α) : Prop :=
  ∀ w : World, w.heap.Holds P →
    (cut ∧ (x.run w).1 = .error .tooDeep) ∨ (x.run w = y.run w ∧ Completes P Q (y.run w))

namespace Eval

variable {α β : Type} {cut : Prop} {P : Value → Prop} {Q : α → Prop} {Q' : β → Prop}

theorem follows_cut (h : cut) (y : Eval α) : Follows cut P Q (throw .tooDeep) y :=
  fun _ _ => .inl ⟨h, rfl⟩

theorem follows_pure {a : α} (h : Q a) : Follows cut P Q (pure a) (pure a) :=
  fun _ hw => .inr ⟨rfl, .value h hw⟩

theorem follows_fail (f : Fault) : Follows cut P Q (fail f : Eval α) (fail f) :=
  fun _ hw => .inr ⟨rfl, .fault f hw⟩

theorem follows_ofExcept {r : Except Fault α} (h : ∀ a, r = .ok a → Q a) :
    Follows cut P Q (ofExcept r) (ofExcept r) := by
  cases r with
  | ok a => exact follows_pure (h a rfl)
  | error f => exact follows_fail f

theorem Follows.bind {x y : Eval α} {f g : α → Eval β} (hx : Follows cut P Q x y)
    (hf : ∀ a, Q a → Follows cut P Q' (f a) (g a)) : Follows cut P Q' (x >>= f) (y >>= g) := by
  intro w hw
  rcases hx w hw with ⟨hc, hdeep⟩ | ⟨hxy, hc⟩
  · rcases h : x.run w with ⟨r, w₁⟩
    rw [h] at hdeep
    obtain rfl : r = .error .tooDeep := hdeep
    exact .inl ⟨hc, by rw [run_bind_error h]⟩
  · rcases h : y.run w with ⟨r, w₁⟩
    rw [h] at hxy hc
    cases hc with
    | value ha hw₁ =>
      rw [run_bind_ok hxy, run_bind_ok h]
      exact hf _ ha w₁ hw₁
    | fault e hw₁ =>
      rw [run_bind_error hxy, run_bind_error h]
      exact .inr ⟨rfl, .fault e hw₁⟩

theorem follows_note (e : Log.Event) : Follows cut P (fun _ => True) (note e) (note e) :=
  fun _ hw => .inr ⟨rfl, .value trivial hw⟩

theorem follows_print (text : String) :
    Follows cut P (fun _ => True) (print text) (print text) :=
  fun _ hw => .inr ⟨rfl, .value trivial hw⟩

theorem follows_bindName (s : ScopeId) (x : String) {v : Value} (hv : P v) :
    Follows cut P (fun _ => True) (Eval.bind s x v) (Eval.bind s x v) :=
  fun _ hw => .inr ⟨rfl, .value trivial (hw.bind hv s x)⟩

theorem follows_openScope (outer : ScopeId) :
    Follows cut P (fun _ => True) (Eval.openScope outer) (Eval.openScope outer) :=
  fun _ hw => .inr ⟨rfl, .value trivial (hw.openScope _)⟩

theorem follows_lookup (s : ScopeId) (x : String) :
    Follows cut P (fun o => ∀ v ∈ o, P v) (lookup s x) (lookup s x) :=
  fun _ hw => .inr ⟨rfl, .value (fun _ hv => hw.get? s x hv) hw⟩

theorem Follows.operand {x y : Eval Value} {k l : Value → Eval Value} (hx : Follows cut P P x y)
    (hk : ∀ v, P v → Follows cut P P (k v) (l v)) :
    Follows cut P P (operand x k) (operand y l) := by
  refine hx.bind fun v hv => ?_
  cases v with
  | returned v => exact follows_pure hv
  | _ => exact hk _ hv

end Eval

/-- The values have `P`, and so has one on its way out. -/
def Operands.Hold (P : Value → Prop) : Operands → Prop
  | .values vs => ∀ v ∈ vs, P v
  | .returned v => P (.returned v)

theorem Eval.Follows.operands {cut : Prop} {P : Value → Prop} {x y : Eval Operands}
    {k l : List Value → Eval Value} (hx : Follows cut P (Operands.Hold P) x y)
    (hk : ∀ vs, (∀ v ∈ vs, P v) → Follows cut P P (k vs) (l vs)) :
    Follows cut P P (operands x k) (operands y l) := by
  refine hx.bind fun vs hvs => ?_
  cases vs with
  | values vs => exact hk vs hvs
  | returned v => exact follows_pure hvs

/-- Whatever the limit up to `n`, an application of a function with `P` is followed. -/
def Application.Follows (cut : Prop) (P : Value → Prop) (n : Nat) (app : Application) : Prop :=
  ∀ m ≤ n, ∀ params body scope args, P (.function params body scope) → (∀ v ∈ args, P v) →
    Eval.Follows cut P P ((nested m).apply params body scope args) (app params body scope args)

theorem Application.Follows.of_succ {cut : Prop} {P : Value → Prop} {n : Nat} {app : Application}
    (h : app.Follows cut P (n + 1)) : app.Follows cut P n :=
  fun m hm => h m (Nat.le_succ_of_le hm)

section

variable {cut : Prop} {k l n : Nat}

theorem within_succ (h : cut ∨ k + 1 ≤ n + 1) : cut ∨ k ≤ n :=
  h.imp_right Nat.le_of_succ_le_succ

theorem within_max (h : cut ∨ max k l ≤ n) : (cut ∨ k ≤ n) ∧ (cut ∨ l ≤ n) :=
  ⟨h.imp_right (Nat.le_max_left k l).trans, h.imp_right (Nat.le_max_right k l).trans⟩

theorem cut_of_within_zero (h : cut ∨ k ≤ 0) (hk : 0 < k) : cut :=
  h.resolve_right (Nat.not_le_of_lt hk)

end

variable {cut : Prop} {P : Value → Prop} {app : Application}

/-- What every function literal of a tree evaluates to has `P`. -/
abbrev Literals (P : Value → Prop) (s : ScopeId) (ls : List (List String × Block)) : Prop :=
  ∀ l ∈ ls, P (.function l.1 l.2 s)

namespace Eval

variable (hP : Value.Hereditary P)

include hP

theorem follows_name (s : ScopeId) (x : String) : Follows cut P P (name s x) (name s x) := by
  refine (follows_lookup s x).bind fun o ho => ?_
  split
  · exact follows_pure (ho _ rfl)
  · split
    · exact follows_pure (hP.builtin _)
    · exact follows_fail _

theorem follows_call (b : Builtin) {args : List Value} (ha : ∀ v ∈ args, P v) :
    Follows cut P P (b.call args) (b.call args) :=
  (follows_note _).bind fun _ _ => (follows_print _).bind fun _ _ =>
    follows_ofExcept fun _ => hP.result ha

end Eval

mutual

theorem Expr.follows (hP : Value.Hereditary P) (hr : ∀ v, P (.returned v) ↔ P v) (s : ScopeId) :
    ∀ (e : Expr) (n : Nat), app.Follows cut P n → (cut ∨ e.height ≤ n) →
      Literals P s e.literals → Follows cut P P ((nested n).expr s e) (e.evalWith app s)
  -- The limit goes down by one from node to node, and so does the height of what is left.
  | e, 0, _, hn, _ => follows_cut (cut_of_within_zero hn e.height_pos) _
  | .ident x, _ + 1, _, _, _ => follows_name hP s x
  | .int n, _ + 1, _, _, _ => follows_pure (hP.int n)
  | .bool b, _ + 1, _, _, _ => follows_pure (hP.bool b)
  | .string t, _ + 1, _, _, _ => follows_pure (hP.string t)
  | .unary _ e, n + 1, happ, hn, hl =>
    (e.follows hP hr s n happ.of_succ (within_succ hn) hl).operand fun _ _ =>
      follows_ofExcept fun _ => hP.unary
  | .binary l _ r, n + 1, happ, hn, hl => by
    obtain ⟨hnl, hnr⟩ := within_max (within_succ hn)
    obtain ⟨hll, hlr⟩ := List.forall_mem_append.mp hl
    exact (l.follows hP hr s n happ.of_succ hnl hll).operand fun _ _ =>
      (r.follows hP hr s n happ.of_succ hnr hlr).operand fun _ _ =>
        follows_ofExcept fun _ => hP.binary
  | .cond test yes none, n + 1, happ, hn, hl => by
    obtain ⟨hnt, hny⟩ := within_max (within_succ hn)
    obtain ⟨hlt, hly⟩ := List.forall_mem_append.mp hl
    refine (test.follows hP hr s n happ.of_succ hnt hlt).operand fun v _ => ?_
    split
    · exact block_follows hP hr s yes n happ.of_succ hny hly
    · exact follows_pure hP.null
  | .cond test yes (some no), n + 1, happ, hn, hl => by
    obtain ⟨hnt, hnb⟩ := within_max (within_succ hn)
    obtain ⟨hny, hnn⟩ := within_max hnb
    obtain ⟨hlt, hlb⟩ := List.forall_mem_append.mp hl
    obtain ⟨hly, hln⟩ := List.forall_mem_append.mp hlb
    refine (test.follows hP hr s n happ.of_succ hnt hlt).operand fun v _ => ?_
    split
    · exact block_follows hP hr s yes n happ.of_succ hny hly
    · exact block_follows hP hr s no n happ.of_succ hnn hln
  | .fn params body, _ + 1, _, _, hl => follows_pure (hl (params, body) (List.mem_singleton_self _))
  | .call callee args, n + 1, happ, hn, hl => by
    obtain ⟨hnc, hna⟩ := within_max (within_succ hn)
    obtain ⟨hlc, hla⟩ := List.forall_mem_append.mp hl
    refine (callee.follows hP hr s n happ.of_succ hnc hlc).operand fun f hf => ?_
    have hargs := exprs_follow hP hr s args n happ.of_succ hna hla
    cases f with
    | function params body scope =>
      refine hargs.operands fun vs hvs => (follows_note _).bind fun _ _ => ?_
      exact happ n (Nat.le_succ n) params body scope vs hf hvs
    | builtin b => exact hargs.operands fun _ hvs => follows_call hP b hvs
    | _ => exact follows_fail _
  | .array items, n + 1, happ, hn, hl =>
    (exprs_follow hP hr s items n happ.of_succ (within_succ hn) hl).operands fun _ hvs =>
      follows_pure (hP.array.mpr hvs)
  | .hash pairs, n + 1, happ, hn, hl =>
    pairs_follow hP hr s pairs n happ.of_succ (within_succ hn) hl hP.hashNil
  | .index l i, n + 1, happ, hn, hl => by
    obtain ⟨hnl, hni⟩ := within_max (within_succ hn)
    obtain ⟨hll, hli⟩ := List.forall_mem_append.mp hl
    exact (l.follows hP hr s n happ.of_succ hnl hll).operand fun _ ha =>
      (i.follows hP hr s n happ.of_succ hni hli).operand fun _ _ =>
        follows_ofExcept fun _ => hP.index ha

theorem Stmt.follows (hP : Value.Hereditary P) (hr : ∀ v, P (.returned v) ↔ P v) (s : ScopeId) :
    ∀ (t : Stmt) (n : Nat), app.Follows cut P n → (cut ∨ t.height ≤ n) →
      Literals P s t.literals → Follows cut P P ((nested n).stmt s t) (t.evalWith app s)
  | t, 0, _, hn, _ => follows_cut (cut_of_within_zero hn t.height_pos) _
  | .bind x e, n + 1, happ, hn, hl =>
    (e.follows hP hr s n happ.of_succ (within_succ hn) hl).operand fun _ hv =>
      (follows_bindName s x hv).bind fun _ _ => follows_pure hv
  | .ret e, n + 1, happ, hn, hl =>
    (e.follows hP hr s n happ.of_succ (within_succ hn) hl).operand fun v hv =>
      follows_pure ((hr v).mpr hv)
  | .expr e, n + 1, happ, hn, hl => e.follows hP hr s n happ.of_succ (within_succ hn) hl
  | .block b, n + 1, happ, hn, hl => block_follows hP hr s b n happ.of_succ (within_succ hn) hl

theorem block_follows (hP : Value.Hereditary P) (hr : ∀ v, P (.returned v) ↔ P v) (s : ScopeId) :
    ∀ (b : List Stmt) (n : Nat), app.Follows cut P n → (cut ∨ stmtsHeight b + 1 ≤ n) →
      Literals P s (blockLiterals b) →
        Follows cut P P ((nested n).block s b) (evalBlock app s .null b)
  | b, 0, _, hn, _ => follows_cut (cut_of_within_zero hn (Nat.succ_pos _)) _
  | b, n + 1, happ, hn, hl => stmts_follow hP hr s b n happ.of_succ (within_succ hn) hl hP.null

theorem stmts_follow (hP : Value.Hereditary P) (hr : ∀ v, P (.returned v) ↔ P v) (s : ScopeId) :
    ∀ (b : List Stmt) (n : Nat) {last : Value}, app.Follows cut P n →
      (cut ∨ stmtsHeight b ≤ n) → Literals P s (blockLiterals b) → P last →
        Follows cut P P ((nested n).stmts s last b) (evalBlock app s last b)
  | [], _, _, _, _, _, hv => follows_pure hv
  | t :: b, n, _, happ, hn, hl, _ => by
    obtain ⟨hnt, hnb⟩ := within_max hn
    obtain ⟨hlt, hlb⟩ := List.forall_mem_append.mp hl
    exact (t.follows hP hr s n happ hnt hlt).operand fun _ hv =>
      stmts_follow hP hr s b n happ hnb hlb hv

theorem exprs_follow (hP : Value.Hereditary P) (hr : ∀ v, P (.returned v) ↔ P v) (s : ScopeId) :
    ∀ (es : List Expr) (n : Nat), app.Follows cut P n → (cut ∨ exprsHeight es ≤ n) →
      Literals P s (exprsLiterals es) →
        Follows cut P (Operands.Hold P) ((nested n).exprs s es) (evalExprs app s es)
  | [], _, _, _, _ => follows_pure (Q := Operands.Hold P) (by simp [Operands.Hold])
  | e :: es, n, happ, hn, hl => by
    obtain ⟨hne, hnes⟩ := within_max hn
    obtain ⟨hle, hles⟩ := List.forall_mem_append.mp hl
    refine (e.follows hP hr s n happ hne hle).bind fun v hv => ?_
    have hrest : Follows cut P (Operands.Hold P) (do
        match ← (nested n).exprs s es with
        | .returned w => return .returned w
        | .values vs => return .values (v :: vs) : Eval Operands) (do
        match ← evalExprs app s es with
        | .returned w => return .returned w
        | .values vs => return .values (v :: vs) : Eval Operands) := by
      refine (exprs_follow hP hr s es n happ hnes hles).bind fun vs hvs => ?_
      cases vs with
      | values vs => exact follows_pure (Q := Operands.Hold P) (List.forall_mem_cons.mpr ⟨hv, hvs⟩)
      | returned w => exact follows_pure hvs
    cases v with
    | returned v => exact follows_pure (Q := Operands.Hold P) hv
    | _ => exact hrest

theorem pairs_follow (hP : Value.Hereditary P) (hr : ∀ v, P (.returned v) ↔ P v) (s : ScopeId) :
    ∀ (ps : List (Expr × Expr)) (n : Nat) {t : Table HashKey Value}, app.Follows cut P n →
      (cut ∨ pairsHeight ps ≤ n) → Literals P s (pairsLiterals ps) → P (.hash t) →
        Follows cut P P ((nested n).pairs s t ps) (evalPairs app s t ps)
  | [], _, _, _, _, _, ht => follows_pure ht
  | (k, e) :: ps, n, _, happ, hn, hl, ht => by
    obtain ⟨hnke, hnps⟩ := within_max hn
    obtain ⟨hnk, hne⟩ := within_max hnke
    obtain ⟨hlke, hlps⟩ := List.forall_mem_append.mp hl
    obtain ⟨hlk, hle⟩ := List.forall_mem_append.mp hlke
    refine (k.follows hP hr s n happ hnk hlk).operand fun u _ => ?_
    refine Follows.bind (Q := fun _ => True) (follows_ofExcept fun _ _ => trivial) fun key _ => ?_
    exact (e.follows hP hr s n happ hne hle).operand fun v hv =>
      pairs_follow hP hr s ps n happ hnps hlps (hP.hashInsert ht hv)

end

theorem follows_unwrap {x y : Eval Value} (hr : ∀ v, P (.returned v) ↔ P v)
    (h : Follows cut P P x y) :
    Follows cut P P (do return (← x).unwrap) (do return (← y).unwrap) := by
  refine h.bind fun v hv => follows_pure ?_
  cases v with
  | returned v => exact (hr v).mp hv
  | _ => exact hv

theorem Program.follows (hP : Value.Hereditary P) (hr : ∀ v, P (.returned v) ↔ P v) {n depth : Nat}
    (happ : (apply depth).Follows cut P n) (s : ScopeId) {p : Program}
    (hn : cut ∨ Block.height p ≤ n) (hl : Literals P s (blockLiterals p)) :
    Follows cut P P (p.evalNested n s) (p.eval depth s) :=
  follows_unwrap hr (block_follows hP hr s p n happ hn hl)

theorem follows_bindAll (s : ScopeId) (ps : List (String × Value)) (h : ∀ p ∈ ps, P p.2) :
    Follows cut P (fun _ => True) (bindAll s ps) (bindAll s ps) := by
  induction ps with
  | nil => exact follows_pure trivial
  | cons p ps ih =>
    obtain ⟨hp, hps⟩ := List.forall_mem_cons.mp h
    exact (follows_bindName s p.1 hp).bind fun _ _ => ih hps

/-- Whatever the values, an application that may be cut short follows. -/
theorem apply_follows (depth : Nat) : (apply depth).Follows True (fun _ => True) depth := by
  induction depth with
  | zero =>
    rintro _ ⟨⟩ params body scope args _ _
    exact follows_cut trivial _
  | succ depth ih =>
    intro m hm params body scope args _ _
    cases m with
    | zero => exact follows_cut trivial _
    | succ m =>
      have happ : (apply depth).Follows True (fun _ => True) m := fun k hk =>
        ih k (hk.trans (Nat.le_of_succ_le_succ hm))
      refine (follows_openScope scope).bind fun s _ => ?_
      refine (follows_bindAll s _ fun _ _ => trivial).bind fun _ _ => ?_
      exact follows_unwrap (fun _ => Iff.rfl)
        (block_follows (.of_all fun _ => trivial) (fun _ => Iff.rfl) s body m happ (.inl trivial)
          fun _ _ => trivial)

/-- With a limit on nesting a program does what it does without, or it stops because of the limit. -/
theorem Program.evalNested_or_tooDeep {n depth : Nat} (h : n ≤ depth) (s : ScopeId) (p : Program)
    (w : World) : ((p.evalNested n s).run w).1 = .error .tooDeep ∨
      (p.evalNested n s).run w = (p.eval depth s).run w := by
  have happ : (apply depth).Follows True (fun _ => True) n := fun m hm =>
    apply_follows depth m (hm.trans h)
  have hp := Program.follows (.of_all fun _ => trivial) (fun _ => Iff.rfl) happ s (p := p)
    (.inl trivial) fun _ _ => trivial
  exact (hp w fun _ _ _ _ _ => trivial).imp And.right And.left

end MonkeyLang
