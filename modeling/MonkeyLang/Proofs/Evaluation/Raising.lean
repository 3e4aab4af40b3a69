import MonkeyLang.Proofs.Evaluation.Signals

namespace MonkeyLang

open Value (ReturnFreeItems ReturnFreeEntries)

/-- A value in which no value is on its way out, at any depth. -/
abbrev Plain := { v : Value // v.ReturnFree }

namespace Plain

def null : Plain := ⟨.null, trivial⟩

def int (n : Int64) : Plain := ⟨.int n, trivial⟩

def bool (b : Bool) : Plain := ⟨.bool b, trivial⟩

def string (t : String) : Plain := ⟨.string t, trivial⟩

def builtin (b : Builtin) : Plain := ⟨.builtin b, trivial⟩

def function (params : List String) (body : Block) (scope : ScopeId) : Plain :=
  ⟨.function params body scope, trivial⟩

def values (vs : List Plain) : List Value := vs.map Subtype.val

theorem returnFree_of_mem_values {vs : List Plain} {v : Value} (hv : v ∈ values vs) :
    v.ReturnFree := by
  obtain ⟨u, -, rfl⟩ := List.mem_map.mp hv
  exact u.2

theorem returnFree_values (vs : List Plain) : ReturnFreeItems (values vs) :=
  Value.returnFreeItems_iff.mpr fun _ => returnFree_of_mem_values

def array (vs : List Plain) : Plain := ⟨.array (values vs), returnFree_values vs⟩

theorem returnFree_entries (t : Table HashKey Plain) :
    ReturnFreeEntries (t.mapValues Subtype.val) := by
  refine Value.returnFreeEntries_iff.mpr fun e he => ?_
  obtain ⟨p, -, rfl⟩ := List.mem_map.mp he
  exact p.2.2

def hash (t : Table HashKey Plain) : Plain :=
  ⟨.hash (t.mapValues Subtype.val), returnFree_entries t⟩

/-- The result of an operation that makes no value on its way out. -/
def ofResult : (r : Except Fault Value) → (∀ v, r = .ok v → v.ReturnFree) → Except Fault Plain
  | .ok v, h => .ok ⟨v, h v rfl⟩
  | .error f, _ => .error f

def unary (op : Operator) (v : Plain) : Except Fault Plain :=
  ofResult (v.1.unary op) fun _ => Value.hereditary_returnFree.unary

def binary (a : Plain) (op : Operator) (b : Plain) : Except Fault Plain :=
  ofResult (a.1.binary op b.1) fun _ => Value.hereditary_returnFree.binary

def index (a b : Plain) : Except Fault Plain :=
  ofResult (a.1.index b.1) fun _ => Value.hereditary_returnFree.index a.2

def result (b : Builtin) (args : List Plain) : Except Fault Plain :=
  ofResult (b.result (values args)) fun _ =>
    Value.hereditary_returnFree.result fun _ => returnFree_of_mem_values

end Plain

abbrev PlainWorld := { w : World // w.ReturnFree }

/-- What ends an evaluation early: the return of a value, or a stop. -/
inductive Exit where
  | returned (v : Plain)
  | stop (e : Stop)

/-- An evaluation in which a return is an exception. -/
abbrev Raising (α : Type) := ExceptT Exit (StateM PlainWorld) α

namespace Raising

variable {α : Type}

def run (x : Raising α) (w : PlainWorld) : Except Exit α × PlainWorld :=
  StateT.run (ExceptT.run x) w

def fail (f : Fault) : Raising α := throw (.stop (.fault f))

def ofExcept : Except Fault α → Raising α
  | .ok a => return a
  | .error f => fail f

def raise (v : Plain) : Raising Plain := throw (.returned v)

/-- A return goes no further: what it returns is the value. -/
def catchReturn (x : Raising Plain) : Raising Plain :=
  tryCatch x fun
    | .returned v => return v
    | .stop e => throw (.stop e)

def lookup (s : ScopeId) (x : String) : Raising (Option Plain) := do
  let w ← get
  return (w.1.heap.get? s x).attachWith _ fun _ hv => Heap.ReturnFree.get? w.2 s x hv

def bind (s : ScopeId) (x : String) (v : Plain) : Raising Unit :=
  modify fun w => ⟨w.1.bind s x v.1, Heap.ReturnFree.bind w.2 v.2 s x⟩

def openScope (outer : ScopeId) : Raising ScopeId := do
  let s := (← get).1.heap.size
  modify fun w => ⟨w.1.openScope (some outer), Heap.ReturnFree.openScope w.2 _⟩
  return s

def print (text : String) : Raising Unit := modify fun w => ⟨w.1.print text, w.2⟩

def note (e : Log.Event) : Raising Unit := modify fun w => ⟨w.1.note e, w.2⟩

def name (s : ScopeId) (x : String) : Raising Plain := do
  match ← lookup s x with
  | some v => return v
  | none =>
      match Builtin.ofName? x with
      | some b => return .builtin b
      | none => fail (.unbound x)

def call (b : Builtin) (args : List Plain) : Raising Plain := do
  note (.called b args.length)
  print (b.printed (Plain.values args))
  ofExcept (Plain.result b args)

end Raising

open Raising

abbrev RaisingApplication := List String → Block → ScopeId → List Plain → Raising Plain

mutual

/-- What an expression means when a return is an exception: no operand asks for one. -/
def Expr.meaningWith (app : RaisingApplication) (s : ScopeId) : Expr → Raising Plain
  | .ident x => name s x
  | .int n => return .int n
  | .bool b => return .bool b
  | .string t => return .string t
  | .unary op e => do
      let v ← e.meaningWith app s
      ofExcept (v.unary op)
  | .binary l op r => do
      let a ← l.meaningWith app s
      let b ← r.meaningWith app s
      ofExcept (a.binary op b)
  | .cond test yes none => do
      let v ← test.meaningWith app s
      if v.1.isTrue then blockMeaning app s .null yes else return .null
  | .cond test yes (some no) => do
      let v ← test.meaningWith app s
      if v.1.isTrue then blockMeaning app s .null yes else blockMeaning app s .null no
  | .fn params body => return .function params body s
  | .call callee args => do
      let f ← callee.meaningWith app s
      match f.1 with
      | .function params body scope => do
          let vs ← exprsMeaning app s args
          note (.applied vs.length)
          app params body scope vs
      | .builtin b => do
          let vs ← exprsMeaning app s args
          Raising.call b vs
      | v => fail (.notFunction v.typeName)
  | .array items => do
      let vs ← exprsMeaning app s items
      return .array vs
  | .hash pairs => pairsMeaning app s [] pairs
  | .index l i => do
      let a ← l.meaningWith app s
      let b ← i.meaningWith app s
      ofExcept (a.index b)

def Stmt.meaningWith (app : RaisingApplication) (s : ScopeId) : Stmt → Raising Plain
  | .bind x e => do
      let v ← e.meaningWith app s
      Raising.bind s x v
      return v
  | .ret e => do
      let v ← e.meaningWith app s
      raise v
  | .expr e => e.meaningWith app s
  | .block b => blockMeaning app s .null b

def blockMeaning (app : RaisingApplication) (s : ScopeId) (last : Plain) :
    List Stmt → Raising Plain
  | [] => return last
  | t :: b => do
      let v ← t.meaningWith app s
      blockMeaning app s v b

def exprsMeaning (app : RaisingApplication) (s : ScopeId) : List Expr → Raising (List Plain)
  | [] => return []
  | e :: es => do
      let v ← e.meaningWith app s
      let vs ← exprsMeaning app s es
      return v :: vs

def pairsMeaning (app : RaisingApplication) (s : ScopeId) (t : Table HashKey Plain) :
    List (Expr × Expr) → Raising Plain
  | [] => return .hash t
  | (k, e) :: ps => do
      let u ← k.meaningWith app s
      let key ← ofExcept u.1.key
      let v ← e.meaningWith app s
      pairsMeaning app s (t.insert key v) ps

end

def Raising.bindAll (s : ScopeId) : List (String × Plain) → Raising Unit
  | [] => return ()
  | (x, v) :: ps => do
      Raising.bind s x v
      bindAll s ps

/-- A function catches what its body returns. Calls nest at most `depth` deep. -/
def applyMeaning (depth : Nat) : RaisingApplication := fun params body captured args =>
  match depth with
  | 0 => throw (.stop .tooDeep)
  | depth + 1 => do
      let s ← Raising.openScope captured
      Raising.bindAll s (params.zip args)
      catchReturn (blockMeaning (applyMeaning depth) s .null body)

def Expr.meaning (depth : Nat) (s : ScopeId) (e : Expr) : Raising Plain :=
  e.meaningWith (applyMeaning depth) s

def Stmt.meaning (depth : Nat) (s : ScopeId) (t : Stmt) : Raising Plain :=
  t.meaningWith (applyMeaning depth) s

def Block.meaning (depth : Nat) (s : ScopeId) (b : Block) : Raising Plain :=
  blockMeaning (applyMeaning depth) s .null b

/-- A program catches what its statements return. -/
def Program.meaning (depth : Nat) (s : ScopeId) (p : Program) : Raising Plain :=
  catchReturn (Block.meaning depth s p)

end MonkeyLang
