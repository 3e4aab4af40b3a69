import MonkeyLang.Proofs.Evaluation.Raising

namespace MonkeyLang

namespace Raising

variable {α β : Type}

theorem run_bind (x : Raising α) (f : α → Raising β) (w : PlainWorld) :
    (x >>= f).run w = match x.run w with
      | (.ok a, w₁) => (f a).run w₁
      | (.error e, w₁) => (.error e, w₁) := by
  have h : (x >>= f).run w = (match x.run w with
      | (r, w₁) => (ExceptT.bindCont f r).run w₁) := rfl
  rw [h]
  rcases x.run w with ⟨_ | a, w₁⟩ <;> rfl

theorem run_bind_ok {x : Raising α} {f : α → Raising β} {w w₁ : PlainWorld} {a : α}
    (h : x.run w = (.ok a, w₁)) : (x >>= f).run w = (f a).run w₁ := by
  rw [run_bind, h]

theorem run_bind_error {x : Raising α} {f : α → Raising β} {w w₁ : PlainWorld} {e : Exit}
    (h : x.run w = (.error e, w₁)) : (x >>= f).run w = (.error e, w₁) := by
  rw [run_bind, h]

def caught : Except Exit Plain → Except Exit Plain
  | .error (.returned v) => .ok v
  | r => r

theorem run_catchReturn (x : Raising Plain) (w : PlainWorld) :
    (catchReturn x).run w = (caught (x.run w).1, (x.run w).2) := by
  unfold catchReturn run
  rw [show (tryCatch x _ : Raising Plain) = ExceptT.tryCatch x _ from rfl, ExceptT.tryCatch,
    ExceptT.run_mk, StateT.run_bind, ExceptT.run]
  rcases StateT.run x w with ⟨(_ | _) | _, w₁⟩ <;> rfl

/-- What a run with exceptions looks like where a value on its way out is marked instead: `value`
shows a result, `leave` a return. -/
def marked (value : α → β) (leave : Plain → β) :
    Except Exit α × PlainWorld → Except Stop β × World
  | (.ok a, w) => (.ok (value a), w.1)
  | (.error (.returned v), w) => (.ok (leave v), w.1)
  | (.error (.stop e), w) => (.error e, w.1)

end Raising

open Raising (marked)

namespace Plain

theorem not_returned (v : Plain) : v.1.isReturned = false := by
  obtain ⟨v, hv⟩ := v
  cases v with
  | returned v => exact hv.elim
  | _ => rfl

theorem unwrap_eq (v : Plain) : v.1.unwrap = v.1 := Value.unwrap_eq_self v.not_returned

end Plain

namespace Eval

variable {α β : Type}

/-- In every world without a value on its way out, the evaluation marks what the other one does. -/
def Marks (value : α → β) (leave : Plain → β) (x : Eval β) (y : Raising α) : Prop :=
  ∀ w, x.run w.1 = marked value leave (y.run w)

abbrev MarksValue (x : Eval Value) (y : Raising Plain) : Prop :=
  Marks Subtype.val (fun v => .returned v.1) x y

abbrev MarksOperands (x : Eval Operands) (y : Raising (List Plain)) : Prop :=
  Marks (fun vs => .values (Plain.values vs)) (fun v => .returned v.1) x y

section

variable {value : α → β} {leave : Plain → β} {x : Eval β} {y : Raising α} {w w₁ : PlainWorld}

theorem Marks.ok {a : α} (h : Marks value leave x y) (hy : y.run w = (.ok a, w₁)) :
    x.run w.1 = (.ok (value a), w₁.1) := by
  rw [h, hy, marked]

theorem Marks.returned {v : Plain} (h : Marks value leave x y)
    (hy : y.run w = (.error (.returned v), w₁)) : x.run w.1 = (.ok (leave v), w₁.1) := by
  rw [h, hy, marked]

theorem Marks.stopped {e : Stop} (h : Marks value leave x y)
    (hy : y.run w = (.error (.stop e), w₁)) : x.run w.1 = (.error e, w₁.1) := by
  rw [h, hy, marked]

end

theorem marks_pure (v : Plain) : MarksValue (pure v.1) (pure v) := fun _ => rfl

theorem marks_fail (f : Fault) : MarksValue (fail f) (Raising.fail f) := fun _ => rfl

theorem marks_ofExcept {r : Except Fault Value} {h : ∀ v, r = .ok v → v.ReturnFree} :
    MarksValue (ofExcept r) (Raising.ofExcept (Plain.ofResult r h)) := by
  cases r with
  | ok v => exact fun _ => rfl
  | error f => exact fun _ => rfl

theorem marks_operand {x : Eval Value} {y : Raising Plain} {k : Value → Eval Value}
    {k' : Plain → Raising Plain} (hx : MarksValue x y)
    (hk : ∀ v : Plain, MarksValue (k v.1) (k' v)) : MarksValue (operand x k) (y >>= k') := by
  intro w
  rcases hy : y.run w with ⟨(v | e) | v, w₁⟩
  · rw [Raising.run_bind_error hy, operand, run_bind_ok (hx.returned hy)]
    rfl
  · rw [Raising.run_bind_error hy, operand, run_bind_error (hx.stopped hy), marked]
  · rw [Raising.run_bind_ok hy, run_operand (hx.ok hy) v.not_returned]
    exact hk v w₁

theorem marks_operands {x : Eval Operands} {y : Raising (List Plain)}
    {k : List Value → Eval Value} {k' : List Plain → Raising Plain} (hx : MarksOperands x y)
    (hk : ∀ vs, MarksValue (k (Plain.values vs)) (k' vs)) :
    MarksValue (operands x k) (y >>= k') := by
  intro w
  rcases hy : y.run w with ⟨(v | e) | vs, w₁⟩
  · rw [Raising.run_bind_error hy, operands, run_bind_ok (hx.returned hy)]
    rfl
  · rw [Raising.run_bind_error hy, operands, run_bind_error (hx.stopped hy), marked]
  · rw [Raising.run_bind_ok hy, run_operands (hx.ok hy)]
    exact hk vs w₁

theorem marks_ofExcept_bind {r : Except Fault α} {k : α → Eval Value} {k' : α → Raising Plain}
    (hk : ∀ a, MarksValue (k a) (k' a)) :
    MarksValue (ofExcept r >>= k) (Raising.ofExcept r >>= k') := by
  cases r with
  | ok a => exact hk a
  | error f => exact fun _ => rfl

theorem marks_note_bind {e : Log.Event} {k : Eval Value} {k' : Raising Plain}
    (hk : MarksValue k k') :
    MarksValue (do note e; k) (do Raising.note e; k') :=
  fun w => hk ⟨w.1.note e, w.2⟩

theorem marks_print_bind {text : String} {k : Eval Value} {k' : Raising Plain}
    (hk : MarksValue k k') :
    MarksValue (do print text; k) (do Raising.print text; k') :=
  fun w => hk ⟨w.1.print text, w.2⟩

theorem marks_bindName_bind {s : ScopeId} {x : String} {v : Plain} {k : Eval Value}
    {k' : Raising Plain} (hk : MarksValue k k') :
    MarksValue (do Eval.bind s x v.1; k) (do Raising.bind s x v; k') :=
  fun w => hk ⟨w.1.bind s x v.1, Heap.ReturnFree.bind w.2 v.2 s x⟩

theorem marks_name (s : ScopeId) (x : String) : MarksValue (name s x) (Raising.name s x) := by
  intro w
  have hl : ∀ o ho, w.1.heap.get? s x = o → (Raising.lookup s x).run w =
      (.ok (o.attachWith Value.ReturnFree ho), w) := by
    rintro o ho rfl
    rfl
  rw [name, run_bind_ok (run_lookup s x w.1)]
  cases h : w.1.heap.get? s x with
  | none =>
    rw [Raising.name, Raising.run_bind_ok (hl none (by simp) h)]
    cases Builtin.ofName? x <;> rfl
  | some v =>
    have hv := Heap.ReturnFree.get? w.2 s x h
    rw [Raising.name, Raising.run_bind_ok (hl (some v) (by simpa using hv) h)]
    rfl

theorem marks_call (b : Builtin) (args : List Plain) :
    MarksValue (b.call (Plain.values args)) (Raising.call b args) := by
  have hl : (Plain.values args).length = args.length := List.length_map ..
  rw [Builtin.call, hl]
  exact marks_note_bind (marks_print_bind marks_ofExcept)

end Eval

open Eval

def Application.Marks (app : Application) (app' : RaisingApplication) : Prop :=
  ∀ params body scope args,
    MarksValue (app params body scope (Plain.values args)) (app' params body scope args)

variable {app : Application} {app' : RaisingApplication}

mutual

theorem Expr.marks (happ : app.Marks app') (s : ScopeId) :
    ∀ e : Expr, MarksValue (e.evalWith app s) (e.meaningWith app' s)
  | .ident x => marks_name s x
  | .int n => marks_pure (.int n)
  | .bool b => marks_pure (.bool b)
  | .string t => marks_pure (.string t)
  | .fn params body => marks_pure (.function params body s)
  | .unary _ e => marks_operand (e.marks happ s) fun _ => marks_ofExcept
  | .binary l _ r =>
    marks_operand (l.marks happ s) fun _ => marks_operand (r.marks happ s) fun _ => marks_ofExcept
  | .cond test yes none => by
    refine marks_operand (test.marks happ s) fun v => ?_
    split
    · exact block_marks happ s yes .null
    · exact marks_pure .null
  | .cond test yes (some no) => by
    refine marks_operand (test.marks happ s) fun v => ?_
    split
    · exact block_marks happ s yes .null
    · exact block_marks happ s no .null
  | .call callee args => by
    refine marks_operand (callee.marks happ s) fun f => ?_
    obtain ⟨f, hf⟩ := f
    cases f with
    | function params body scope =>
      refine marks_operands (exprs_mark happ s args) fun vs => ?_
      rw [show (Plain.values vs).length = vs.length from List.length_map ..]
      exact marks_note_bind (happ params body scope vs)
    | builtin b => exact marks_operands (exprs_mark happ s args) (marks_call b)
    | _ => exact marks_fail _
  | .array items => marks_operands (exprs_mark happ s items) fun vs => marks_pure (.array vs)
  | .hash pairs => pairs_mark happ s pairs []
  | .index l i =>
    marks_operand (l.marks happ s) fun _ => marks_operand (i.marks happ s) fun _ => marks_ofExcept

theorem Stmt.marks (happ : app.Marks app') (s : ScopeId) :
    ∀ t : Stmt, MarksValue (t.evalWith app s) (t.meaningWith app' s)
  | .bind _ e => marks_operand (e.marks happ s) fun v => marks_bindName_bind (marks_pure v)
  | .ret e => marks_operand (e.marks happ s) fun _ _ => rfl
  | .expr e => e.marks happ s
  | .block b => block_marks happ s b .null

theorem block_marks (happ : app.Marks app') (s : ScopeId) : ∀ (b : List Stmt) (last : Plain),
    MarksValue (evalBlock app s last.1 b) (blockMeaning app' s last b)
  | [], last => marks_pure last
  | t :: b, _ => marks_operand (t.marks happ s) fun v => block_marks happ s b v

theorem exprs_mark (happ : app.Marks app') (s : ScopeId) :
    ∀ es : List Expr, MarksOperands (evalExprs app s es) (exprsMeaning app' s es)
  | [] => fun _ => rfl
  | e :: es => by
    intro w
    have he := e.marks happ s
    rw [exprsMeaning]
    rcases hy : (e.meaningWith app' s).run w with ⟨(v | stop) | v, w₁⟩
    · rw [Raising.run_bind_error hy, evalExprs, run_bind_ok (he.returned hy)]
      rfl
    · rw [Raising.run_bind_error hy, evalExprs, run_bind_error (he.stopped hy), marked]
    · have hes := exprs_mark happ s es
      rw [Raising.run_bind_ok hy, run_evalExprs_cons (he.ok hy) v.not_returned]
      rcases hys : (exprsMeaning app' s es).run w₁ with ⟨(u | stop) | vs, w₂⟩
      · rw [Raising.run_bind_error hys, run_bind_ok (hes.returned hys)]
        rfl
      · rw [Raising.run_bind_error hys, run_bind_error (hes.stopped hys), marked]
      · rw [Raising.run_bind_ok hys, run_bind_ok (hes.ok hys)]
        rfl

theorem pairs_mark (happ : app.Marks app') (s : ScopeId) :
    ∀ (ps : List (Expr × Expr)) (t : Table HashKey Plain),
      MarksValue (evalPairs app s (t.mapValues Subtype.val) ps) (pairsMeaning app' s t ps)
  | [], t => marks_pure (.hash t)
  | (k, e) :: ps, t => by
    refine marks_operand (k.marks happ s) fun u => marks_ofExcept_bind fun key => ?_
    refine marks_operand (e.marks happ s) fun v => ?_
    rw [Table.insert_mapValues]
    exact pairs_mark happ s ps (t.insert key v)

end

theorem marks_bindAll {s : ScopeId} {k : Eval Value} {k' : Raising Plain} (hk : MarksValue k k')
    (params : List String) (args : List Plain) :
    MarksValue (do bindAll s (params.zip (Plain.values args)); k)
      (do Raising.bindAll s (params.zip args); k') := by
  induction params generalizing args with
  | nil => exact hk
  | cons x params ih =>
    cases args with
    | nil => exact hk
    | cons v args =>
      intro w
      exact ih args ⟨w.1.bind s x v.1, Heap.ReturnFree.bind w.2 v.2 s x⟩

/-- Taking the mark off is catching the return. -/
theorem marks_unwrap {x : Eval Value} {y : Raising Plain} (h : MarksValue x y) :
    MarksValue (do return (← x).unwrap) (Raising.catchReturn y) := by
  intro w
  rw [Raising.run_catchReturn]
  rcases hy : y.run w with ⟨(v | e) | v, w₁⟩
  · rw [run_bind_ok (h.returned hy)]
    rfl
  · rw [run_bind_error (h.stopped hy)]
    rfl
  · rw [run_bind_ok (h.ok hy), run_pure, v.unwrap_eq]
    rfl

theorem apply_marks (depth : Nat) : (apply depth).Marks (applyMeaning depth) := by
  induction depth with
  | zero => exact fun _ _ _ _ _ => rfl
  | succ depth ih =>
    intro params body scope args w
    exact marks_bindAll (marks_unwrap (block_marks ih w.1.heap.size body .null)) params args
      ⟨w.1.openScope (some scope), Heap.ReturnFree.openScope w.2 _⟩

/-- An evaluation gives a value, a marked value or a stop exactly when the one with exceptions
gives that value, returns that value or stops so, and both leave the same world. -/
structure Implements (r : Except Stop Value × World) (r' : Except Exit Plain × PlainWorld) :
    Prop where
  value : ∀ v w, (r = (.ok v, w) ∧ v.isReturned = false) ↔
    ∃ u w', r' = (.ok u, w') ∧ u.1 = v ∧ w'.1 = w
  returned : ∀ v w, r = (.ok (.returned v), w) ↔
    ∃ u w', r' = (.error (.returned u), w') ∧ u.1 = v ∧ w'.1 = w
  stopped : ∀ e w, r = (.error e, w) ↔ ∃ w', r' = (.error (.stop e), w') ∧ w'.1 = w

theorem Eval.Marks.implements {x : Eval Value} {y : Raising Plain} (h : MarksValue x y)
    (w : PlainWorld) : Implements (x.run w.1) (y.run w) := by
  rcases hy : y.run w with ⟨(v | e) | v, w₁⟩
  · rw [h.returned hy]
    refine ⟨fun u w' => ⟨?_, ?_⟩, fun u w' => ⟨?_, ?_⟩, fun e w' => ⟨?_, ?_⟩⟩
    · rintro ⟨⟨⟩, ⟨⟩⟩
    · rintro ⟨_, _, ⟨⟩, _⟩
    · rintro ⟨⟩
      exact ⟨v, w₁, rfl, rfl, rfl⟩
    · rintro ⟨_, _, ⟨⟩, rfl, rfl⟩
      rfl
    · rintro ⟨⟩
    · rintro ⟨_, ⟨⟩, _⟩
  · rw [h.stopped hy]
    refine ⟨fun u w' => ⟨?_, ?_⟩, fun u w' => ⟨?_, ?_⟩, fun e w' => ⟨?_, ?_⟩⟩
    · rintro ⟨⟨⟩, _⟩
    · rintro ⟨_, _, ⟨⟩, _⟩
    · rintro ⟨⟩
    · rintro ⟨_, _, ⟨⟩, _⟩
    · rintro ⟨⟩
      exact ⟨w₁, rfl, rfl⟩
    · rintro ⟨_, ⟨⟩, rfl⟩
      rfl
  · have hv := v.not_returned
    rw [h.ok hy]
    refine ⟨fun u w' => ⟨?_, ?_⟩, fun u w' => ⟨fun hu => ?_, ?_⟩, fun e w' => ⟨?_, ?_⟩⟩
    · rintro ⟨⟨⟩, -⟩
      exact ⟨v, w₁, rfl, rfl, rfl⟩
    · rintro ⟨_, _, ⟨⟩, rfl, rfl⟩
      exact ⟨rfl, hv⟩
    · rw [show v.1 = .returned u by simpa using (Prod.mk.inj hu).1] at hv
      cases hv
    · rintro ⟨_, _, ⟨⟩, _⟩
    · rintro ⟨⟩
    · rintro ⟨_, ⟨⟩, _⟩

theorem Raising.catchReturn_ok {x : Raising Plain} {w w' : PlainWorld} {v : Plain} :
    (catchReturn x).run w = (.ok v, w') ↔
      x.run w = (.ok v, w') ∨ x.run w = (.error (.returned v), w') := by
  rw [run_catchReturn]
  rcases x.run w with ⟨(u | e) | u, w₁⟩ <;> simp [caught]

/-- Evaluating with marked values is evaluating with exceptions: in every scope and every world
without a value on its way out, and however deep calls may nest, both give, return or stop with the
same and leave the same world. A program gives what its statements give or return. -/
theorem evaluation_implements_meaning (depth : Nat) (s : ScopeId) (w : PlainWorld) :
    (∀ e : Expr, Implements ((e.eval depth s).run w.1) ((e.meaning depth s).run w)) ∧
    (∀ t : Stmt, Implements ((t.eval depth s).run w.1) ((t.meaning depth s).run w)) ∧
    (∀ b : Block, Implements ((b.eval depth s).run w.1) ((b.meaning depth s).run w)) ∧
    (∀ p : Program, Implements ((p.eval depth s).run w.1) ((p.meaning depth s).run w) ∧
      ∀ v w', (p.meaning depth s).run w = (.ok v, w') ↔
        (Block.meaning depth s p).run w = (.ok v, w') ∨
        (Block.meaning depth s p).run w = (.error (.returned v), w')) := by
  have happ := apply_marks depth
  refine ⟨fun e => ?_, fun t => ?_, fun b => ?_, fun p => ⟨?_, fun v w' => ?_⟩⟩
  · exact Marks.implements (e.marks happ s) w
  · exact Marks.implements (t.marks happ s) w
  · exact Marks.implements (block_marks happ s b .null) w
  · exact Marks.implements (marks_unwrap (block_marks happ s p .null)) w
  · exact Raising.catchReturn_ok

end MonkeyLang
