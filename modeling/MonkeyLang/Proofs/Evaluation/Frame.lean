import MonkeyLang.Proofs.Evaluation.Outcome

namespace MonkeyLang

mutual

/-- The names that an expression binds by `let`, what is inside function bodies aside. -/
def Expr.lets : Expr → List String
  | .ident _ | .int _ | .bool _ | .string _ | .fn _ _ => []
  | .unary _ e => e.lets
  | .binary l _ r => l.lets ++ r.lets
  | .cond test yes none => test.lets ++ blockLets yes
  | .cond test yes (some no) => test.lets ++ blockLets yes ++ blockLets no
  | .call callee args => callee.lets ++ exprsLets args
  | .array items => exprsLets items
  | .hash pairs => pairsLets pairs
  | .index l i => l.lets ++ i.lets

def Stmt.lets : Stmt → List String
  | .bind x e => x :: e.lets
  | .ret e => e.lets
  | .expr e => e.lets
  | .block b => blockLets b

def blockLets : List Stmt → List String
  | [] => []
  | t :: b => t.lets ++ blockLets b

def exprsLets : List Expr → List String
  | [] => []
  | e :: es => e.lets ++ exprsLets es

def pairsLets : List (Expr × Expr) → List String
  | [] => []
  | (k, e) :: ps => k.lets ++ e.lets ++ pairsLets ps

end

/-- The scope `a` after names among `xs` were bound in it. -/
inductive Scope.Grows (xs : List String) (a : Scope) : Scope → Prop
  | refl : Grows xs a a
  | bind {b : Scope} (h : Grows xs a b) {x : String} (hx : x ∈ xs) (v : Value) :
      Grows xs a { b with names := b.names.insert x v }

namespace Scope.Grows

variable {xs : List String} {a b : Scope}

theorem outer (h : Grows xs a b) : b.outer = a.outer := by
  induction h with
  | refl => rfl
  | bind _ _ _ ih => exact ih

theorem get?_of_notMem (h : Grows xs a b) {y : String} (hy : y ∉ xs) :
    b.names.get? y = a.names.get? y := by
  induction h with
  | refl => rfl
  | @bind b _ x hx v ih =>
    have hne : y ≠ x := fun e => hy (e ▸ hx)
    exact (Table.get?_insert_of_ne hne v b.names).trans ih

theorem isSome_get? (h : Grows xs a b) {y : String} (hy : (a.names.get? y).isSome) :
    (b.names.get? y).isSome := by
  induction h with
  | refl => exact hy
  | @bind b _ x _ v ih =>
    by_cases he : y = x
    · subst he
      simp [Table.get?_insert_self]
    · rwa [show (Table.insert x v b.names).get? y = b.names.get? y from
        Table.get?_insert_of_ne he v b.names]

theorem eq_of_nil (h : Grows [] a b) : b = a := by
  cases h with
  | refl => rfl
  | bind _ hx => cases hx

end Scope.Grows

/-- From `h` to `h'`, all that happened to the scopes of `h` is that names among `xs` were bound in
the scope `s`. -/
structure Heap.Extends (s : ScopeId) (xs : List String) (h h' : Heap) : Prop where
  others : ∀ t scope, t ≠ s → h.scope? t = some scope → h'.scope? t = some scope
  own : ∀ scope, h.scope? s = some scope → ∃ scope', h'.scope? s = some scope' ∧
    scope.Grows xs scope'

/-- Every scope of `h` is in `h'` as it was. -/
def Heap.Preserves (h h' : Heap) : Prop :=
  ∀ t scope, h.scope? t = some scope → h'.scope? t = some scope

namespace Heap

variable {s : ScopeId} {xs : List String} {h h' h'' : Heap}

theorem lt_size_of_scope? {t : ScopeId} {scope : Scope} (ht : h.scope? t = some scope) :
    t < h.size :=
  (Array.getElem?_eq_some_iff.mp ht).1

theorem scope?_eq_none {s : ScopeId} (hs : h.size ≤ s) : h.scope? s = none :=
  Array.getElem?_eq_none hs

theorem Preserves.size_le (hp : h.Preserves h') : h.size ≤ h'.size := by
  refine Nat.le_of_not_lt fun hlt : h'.size < h.scopes.size => ?_
  have hs : h.scope? h'.size = some h.scopes[h'.size] := Array.getElem?_eq_getElem hlt
  exact Nat.lt_irrefl _ (lt_size_of_scope? (hp _ _ hs))

theorem preserves_openScope (h : Heap) (outer : Option ScopeId) :
    h.Preserves (h.openScope outer) := by
  intro t scope ht
  rwa [scope?_openScope_of_lt (lt_size_of_scope? ht)]

theorem Extends.refl (s : ScopeId) (xs : List String) (h : Heap) : h.Extends s xs h where
  others _ _ _ ht := ht
  own scope hs := ⟨scope, hs, .refl⟩

theorem Extends.trans_preserves (hh : h.Extends s xs h') (hp : h'.Preserves h'') :
    h.Extends s xs h'' where
  others t scope hts ht := hp t scope (hh.others t scope hts ht)
  own scope hs := by
    obtain ⟨scope', hs', hg⟩ := hh.own scope hs
    exact ⟨scope', hp s scope' hs', hg⟩

theorem Extends.bind (hh : h.Extends s xs h') {x : String} (hx : x ∈ xs) (v : Value) :
    h.Extends s xs (h'.bind s x v) where
  others t scope hts ht := by
    rw [scope?_bind_of_ne hts]
    exact hh.others t scope hts ht
  own scope hs := by
    obtain ⟨scope', hs', hg⟩ := hh.own scope hs
    refine ⟨_, ?_, hg.bind hx v⟩
    rw [scope?_bind_self, hs', Option.map_some]

theorem Extends.preserves (hh : h.Extends s [] h') : h.Preserves h' := by
  intro t scope ht
  by_cases hts : t = s
  · subst hts
    obtain ⟨scope', hs', hg⟩ := hh.own scope ht
    rw [hs', hg.eq_of_nil]
  · exact hh.others t scope hts ht

end Heap

/-- Whatever an evaluation does in a world, all that happens to the scopes there is that names among
`xs` are bound in the scope `s`. -/
def Eval.Writes {α : Type} (s : ScopeId) (xs : List String) (x : Eval α) : Prop :=
  ∀ h : Heap, Keeps (fun w => h.Extends s xs w.heap) (fun _ => True) x

namespace Eval

variable {α β : Type} {s : ScopeId} {xs : List String}

theorem Writes.extends {x : Eval α} (hx : Writes s xs x) (w : World) :
    w.heap.Extends s xs (x.run w).2.heap :=
  (hx w.heap w (.refl s xs w.heap)).1

theorem writes_pure (a : α) : Writes s xs (pure a) := fun _ => keeps_pure trivial

theorem writes_fail (f : Fault) : Writes s xs (fail f : Eval α) := fun _ => keeps_fail f

theorem writes_ofExcept (r : Except Fault α) : Writes s xs (ofExcept r) :=
  fun _ => keeps_ofExcept fun _ _ => trivial

theorem writes_note (e : Log.Event) : Writes s xs (note e) := fun _ => keeps_note e fun _ => id

theorem writes_print (text : String) : Writes s xs (print text) :=
  fun _ => keeps_print text fun _ => id

theorem writes_bindName {x : String} (hx : x ∈ xs) (v : Value) :
    Writes s xs (Eval.bind s x v) :=
  fun _ => keeps_bindName fun _ hw => hw.bind hx v

theorem Writes.bind {x : Eval α} {f : α → Eval β} (hx : Writes s xs x)
    (hf : ∀ a, Writes s xs (f a)) : Writes s xs (x >>= f) :=
  fun h => (hx h).bind fun a _ => hf a h

theorem Writes.operand {x : Eval Value} {k : Value → Eval Value} (hx : Writes s xs x)
    (hk : ∀ v, Writes s xs (k v)) : Writes s xs (operand x k) :=
  fun h => (hx h).operand (fun v _ _ => hk v h) fun _ _ => trivial

theorem Writes.operands {x : Eval Operands} {k : List Value → Eval Value} (hx : Writes s xs x)
    (hk : ∀ vs, Writes s xs (k vs)) : Writes s xs (operands x k) := by
  refine hx.bind fun vs => ?_
  cases vs with
  | values vs => exact hk vs
  | returned v => exact writes_pure _

theorem writes_name (x : String) : Writes s xs (name s x) := by
  have hl : Writes s xs (lookup s x) := fun _ _ hw => ⟨hw, fun _ _ => trivial⟩
  refine hl.bind fun o => ?_
  split
  · exact writes_pure _
  · split
    · exact writes_pure _
    · exact writes_fail _

theorem writes_call (b : Builtin) (args : List Value) : Writes s xs (b.call args) :=
  (writes_note _).bind fun _ => (writes_print _).bind fun _ => writes_ofExcept _

theorem writes_of_preserves {x : Eval α}
    (hx : ∀ w : World, w.heap.Preserves (x.run w).2.heap) :
    Writes s xs x :=
  fun _ w hw => ⟨hw.trans_preserves (hx w), fun _ _ => trivial⟩

end Eval

open Eval

/-- Applying a function leaves every scope that is there as it is. -/
def Application.Preserves (app : Application) : Prop :=
  ∀ params body scope args (w : World),
    w.heap.Preserves ((app params body scope args).run w).2.heap

variable {app : Application} {xs : List String}

mutual

theorem Expr.writes (happ : app.Preserves) (s : ScopeId) :
    ∀ e : Expr, e.lets ⊆ xs → Writes s xs (e.evalWith app s)
  | .ident x, _ => writes_name x
  | .int _, _ | .bool _, _ | .string _, _ | .fn _ _, _ => writes_pure _
  | .unary _ e, h => (e.writes happ s h).operand fun _ => writes_ofExcept _
  | .binary l _ r, h => by
    obtain ⟨hl, hr⟩ := List.append_subset.mp h
    exact (l.writes happ s hl).operand fun _ => (r.writes happ s hr).operand fun _ =>
      writes_ofExcept _
  | .cond test yes none, h => by
    obtain ⟨ht, hy⟩ := List.append_subset.mp h
    refine (test.writes happ s ht).operand fun v => ?_
    split
    · exact block_writes happ s yes .null hy
    · exact writes_pure _
  | .cond test yes (some no), h => by
    obtain ⟨hty, hn⟩ := List.append_subset.mp h
    obtain ⟨ht, hy⟩ := List.append_subset.mp hty
    refine (test.writes happ s ht).operand fun v => ?_
    split
    · exact block_writes happ s yes .null hy
    · exact block_writes happ s no .null hn
  | .call callee args, h => by
    obtain ⟨hc, ha⟩ := List.append_subset.mp h
    refine (callee.writes happ s hc).operand fun f => ?_
    cases f with
    | function params body scope =>
      refine (exprs_write happ s args ha).operands fun vs => (writes_note _).bind fun _ => ?_
      exact writes_of_preserves (happ params body scope vs)
    | builtin b => exact (exprs_write happ s args ha).operands fun vs => writes_call b vs
    | _ => exact writes_fail _
  | .array items, h => (exprs_write happ s items h).operands fun _ => writes_pure _
  | .hash pairs, h => pairs_write happ s pairs [] h
  | .index l i, h => by
    obtain ⟨hl, hi⟩ := List.append_subset.mp h
    exact (l.writes happ s hl).operand fun _ => (i.writes happ s hi).operand fun _ =>
      writes_ofExcept _

theorem Stmt.writes (happ : app.Preserves) (s : ScopeId) :
    ∀ t : Stmt, t.lets ⊆ xs → Writes s xs (t.evalWith app s)
  | .bind x e, h => by
    obtain ⟨hx, he⟩ := List.cons_subset.mp h
    exact (e.writes happ s he).operand fun v => (writes_bindName hx v).bind fun _ => writes_pure _
  | .ret e, h => (e.writes happ s h).operand fun _ => writes_pure _
  | .expr e, h => e.writes happ s h
  | .block b, h => block_writes happ s b .null h

theorem block_writes (happ : app.Preserves) (s : ScopeId) :
    ∀ (b : List Stmt) (last : Value), blockLets b ⊆ xs → Writes s xs (evalBlock app s last b)
  | [], _, _ => writes_pure _
  | t :: b, _, h => by
    obtain ⟨ht, hb⟩ := List.append_subset.mp h
    exact (t.writes happ s ht).operand fun v => block_writes happ s b v hb

theorem exprs_write (happ : app.Preserves) (s : ScopeId) :
    ∀ es : List Expr, exprsLets es ⊆ xs → Writes s xs (evalExprs app s es)
  | [], _ => writes_pure _
  | e :: es, h => by
    obtain ⟨he, hes⟩ := List.append_subset.mp h
    refine (e.writes happ s he).bind fun v => ?_
    split
    · exact writes_pure _
    · refine (exprs_write happ s es hes).bind fun vs => ?_
      split <;> exact writes_pure _

theorem pairs_write (happ : app.Preserves) (s : ScopeId) :
    ∀ (ps : List (Expr × Expr)) (t : List (HashKey × Value)), pairsLets ps ⊆ xs →
      Writes s xs (evalPairs app s t ps)
  | [], _, _ => writes_pure _
  | (k, e) :: ps, t, h => by
    obtain ⟨hke, hps⟩ := List.append_subset.mp h
    obtain ⟨hk, he⟩ := List.append_subset.mp hke
    refine (k.writes happ s hk).operand fun u => (writes_ofExcept _).bind fun key => ?_
    exact (e.writes happ s he).operand fun v => pairs_write happ s ps _ hps

end

theorem writes_bindAll (s : ScopeId) (params : List String) (args : List Value)
    (h : params ⊆ xs) : Writes s xs (bindAll s (params.zip args)) := by
  induction params generalizing args with
  | nil => exact writes_pure ()
  | cons x params ih =>
    cases args with
    | nil => exact writes_pure ()
    | cons v args =>
      obtain ⟨hx, hp⟩ := List.cons_subset.mp h
      exact (writes_bindName hx v).bind fun _ => ih args hp

theorem apply_preserves (depth : Nat) : (apply depth).Preserves := by
  induction depth with
  | zero => exact fun _ _ _ _ _ _ _ ht => ht
  | succ depth ih =>
    intro params body scope args w t sc ht
    -- The body runs in a scope that is opened here, so all that it binds is bound there.
    have hbody : Writes w.heap.size (params ++ blockLets body) (do
        bindAll w.heap.size (params.zip args)
        return (← evalBlock (apply depth) w.heap.size .null body).unwrap : Eval Value) :=
      (writes_bindAll _ params args (List.subset_append_left ..)).bind fun _ =>
        (block_writes ih _ body .null (List.subset_append_right ..)).bind fun _ => writes_pure _
    have hopen := w.heap.preserves_openScope (some scope) t sc ht
    have hne : t ≠ w.heap.size := Nat.ne_of_lt (Heap.lt_size_of_scope? ht)
    exact (hbody.extends (w.openScope (some scope))).others t sc hne hopen

/-- Of the scopes of `h`, only `s` may differ in `h'`: it lies where it lay, binds all names it
bound, and binds those not among `xs` as before. -/
structure Heap.Framed (s : ScopeId) (xs : List String) (h h' : Heap) : Prop where
  others : ∀ t scope, t ≠ s → h.scope? t = some scope → h'.scope? t = some scope
  own : ∀ scope, h.scope? s = some scope → ∃ scope', h'.scope? s = some scope' ∧
    scope'.outer = scope.outer ∧
    (∀ x, (scope.names.get? x).isSome → (scope'.names.get? x).isSome) ∧
    ∀ x, x ∉ xs → scope'.names.get? x = scope.names.get? x

theorem Heap.Extends.framed {s : ScopeId} {h h' : Heap} (hh : h.Extends s xs h') :
    h.Framed s xs h' where
  others := hh.others
  own scope hs := by
    obtain ⟨scope', hs', hg⟩ := hh.own scope hs
    exact ⟨scope', hs', hg.outer, fun _ => hg.isSome_get?, fun _ => hg.get?_of_notMem⟩

theorem Program.writes (depth : Nat) (s : ScopeId) (p : Program) :
    Writes s (blockLets p) (p.eval depth s) :=
  (block_writes (apply_preserves depth) s p .null (List.Subset.refl _)).bind fun _ =>
    writes_pure _

/-- However it ends, an evaluation in a scope changes no other scope, and in that scope only what
its `let` statements outside function bodies bind. An application changes no scope at all. -/
theorem evaluation_framed (depth : Nat) (s : ScopeId) (w : World) :
    (∀ e : Expr, w.heap.Framed s e.lets ((e.eval depth s).run w).2.heap) ∧
    (∀ t : Stmt, w.heap.Framed s t.lets ((t.eval depth s).run w).2.heap) ∧
    (∀ p : Program, w.heap.Framed s (blockLets p) ((p.eval depth s).run w).2.heap) ∧
    (∀ params body captured args,
      w.heap.Preserves ((apply depth params body captured args).run w).2.heap) := by
  have happ := apply_preserves depth
  refine ⟨fun e => ?_, fun t => ?_, fun p => ?_, fun params body captured args => ?_⟩
  · exact ((e.writes happ s (List.Subset.refl _)).extends w).framed
  · exact ((t.writes happ s (List.Subset.refl _)).extends w).framed
  · exact ((p.writes depth s).extends w).framed
  · exact happ params body captured args w

end MonkeyLang
