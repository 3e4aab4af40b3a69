import MonkeyLang.Proofs.Evaluation.Agreement
import MonkeyLang.Proofs.Evaluation.Names
import MonkeyLang.Proofs.Evaluation.Renaming

namespace MonkeyLang

open Value (rename)
open Eval

/-- `R` relates worlds that differ in where their scopes lie: the scope at `s` in the one is at
`ρ s` in the other, and what an evaluation can do to both keeps them related, as long as it asks
only for names with `N` and binds them to values with `P`. A function has `P` if the names in it
have `N`. -/
structure Correspondence (ρ : ScopeId → ScopeId) (N : String → Prop) (P : Value → Prop)
    (R : World → World → Prop) : Prop where
  injective : ρ.Injective
  hereditary : Value.Hereditary P
  returned {v : Value} : P (.returned v) ↔ P v
  function {params : List String} {body : Block} {s : ScopeId} :
    P (.function params body s) ↔ ∀ x ∈ params ++ blockNames body, N x
  holds {w w' : World} (h : R w w') : w.heap.Holds P
  get? {w w' : World} (h : R w w') (s : ScopeId) {x : String} (hx : N x) :
    w'.heap.get? (ρ s) x = (w.heap.get? s x).map (rename ρ)
  size {w w' : World} (h : R w w') : w'.heap.size = ρ w.heap.size
  openScope {w w' : World} (h : R w w') (s : ScopeId) :
    R (w.openScope (some s)) (w'.openScope (some (ρ s)))
  bind {w w' : World} (h : R w w') (s : ScopeId) {x : String} (hx : N x) {v : Value} (hv : P v) :
    R (w.bind s x v) (w'.bind (ρ s) x (v.rename ρ))
  print {w w' : World} (h : R w w') (text : String) : R (w.print text) (w'.print text)
  note {w w' : World} (h : R w w') (e : Log.Event) : R (w.note e) (w'.note e)

variable {ρ : ScopeId → ScopeId} {N : String → Prop} {P : Value → Prop} {R : World → World → Prop}

def Value.Renamed (ρ : ScopeId → ScopeId) (P : Value → Prop) (v v' : Value) : Prop :=
  P v ∧ v' = v.rename ρ

inductive Operands.Renamed (ρ : ScopeId → ScopeId) (P : Value → Prop) : Operands → Operands → Prop
  | values {vs : List Value} (h : ∀ v ∈ vs, P v) :
      Renamed ρ P (.values vs) (.values (vs.map (rename ρ)))
  | returned {v : Value} (h : P (.returned v)) : Renamed ρ P (.returned v) (.returned (v.rename ρ))

open Value (Renamed)

namespace Eval

theorem agree_renamed {v : Value} (hv : P v) :
    Agree R (Renamed ρ P) (pure v) (pure (v.rename ρ)) :=
  agree_pure ⟨hv, rfl⟩

theorem agree_result {r r' : Except Fault Value} (h : r' = r.map (rename ρ))
    (hp : ∀ v, r = .ok v → P v) : Agree R (Renamed ρ P) (ofExcept r) (ofExcept r') := by
  rw [h]
  exact agree_ofExcept fun v hv => ⟨hp v hv, rfl⟩

theorem agree_operand {x y : Eval Value} {k l : Value → Eval Value}
    (hx : Agree R (Renamed ρ P) x y)
    (hk : ∀ v, P v → Agree R (Renamed ρ P) (k v) (l (v.rename ρ))) :
    Agree R (Renamed ρ P) (operand x k) (operand y l) := by
  refine hx.operand ?_ ?_ ?_
  · rintro v v' ⟨-, rfl⟩
    exact v.isReturned_rename
  · rintro v v' ⟨hv, rfl⟩ _
    exact hk v hv
  · exact fun _ _ h => h

theorem agree_operands {x y : Eval Operands} {k l : List Value → Eval Value}
    (hx : Agree R (Operands.Renamed ρ P) x y)
    (hk : ∀ vs, (∀ v ∈ vs, P v) → Agree R (Renamed ρ P) (k vs) (l (vs.map (rename ρ)))) :
    Agree R (Renamed ρ P) (operands x k) (operands y l) := by
  refine hx.bind fun vs vs' hvs => ?_
  cases hvs with
  | values h => exact hk _ h
  | returned h => exact agree_renamed h

variable (hR : Correspondence ρ N P R)

include hR

theorem agree_note_bind {α : Type} {Q : α → α → Prop} (e : Log.Event) {x y : Eval α}
    (h : Agree R Q x y) : Agree R Q (note e >>= fun _ => x) (note e >>= fun _ => y) :=
  fun _ _ hw => h _ _ (hR.note hw e)

theorem agree_print_bind {α : Type} {Q : α → α → Prop} (text : String) {x y : Eval α}
    (h : Agree R Q x y) : Agree R Q (print text >>= fun _ => x) (print text >>= fun _ => y) :=
  fun _ _ hw => h _ _ (hR.print hw text)

theorem agree_bindName_bind {α : Type} {Q : α → α → Prop} (s : ScopeId) {x : String} (hx : N x)
    {v : Value} (hv : P v) {y z : Eval α} (h : Agree R Q y z) :
    Agree R Q (Eval.bind s x v >>= fun _ => y) (Eval.bind (ρ s) x (v.rename ρ) >>= fun _ => z) :=
  fun _ _ hw => h _ _ (hR.bind hw s hx hv)

theorem agree_openScope_bind {α : Type} {Q : α → α → Prop} (s : ScopeId) {f g : ScopeId → Eval α}
    (h : ∀ t, Agree R Q (f t) (g (ρ t))) :
    Agree R Q (Eval.openScope s >>= f) (Eval.openScope (ρ s) >>= g) := by
  intro w w' hw
  rw [run_bind_ok (run_openScope s w), run_bind_ok (run_openScope (ρ s) w'), hR.size hw]
  exact h _ _ _ (hR.openScope hw s)

theorem agree_name (s : ScopeId) {x : String} (hx : N x) :
    Agree R (Renamed ρ P) (name s x) (name (ρ s) x) := by
  intro w w' hw
  unfold name
  rw [run_bind_ok (run_lookup s x w), run_bind_ok (run_lookup (ρ s) x w'), hR.get? hw s hx]
  cases hv : w.heap.get? s x with
  | some v => exact agree_renamed (Heap.Holds.get? (hR.holds hw) s x hv) w w' hw
  | none =>
    cases Builtin.ofName? x with
    | some b => exact agree_renamed (hR.hereditary.builtin b) w w' hw
    | none => exact agree_fail _ w w' hw

theorem agree_call (b : Builtin) {args : List Value} (ha : ∀ v ∈ args, P v) :
    Agree R (Renamed ρ P) (b.call args) (b.call (args.map (rename ρ))) := by
  unfold Builtin.call
  rw [b.printed_rename, List.length_map]
  exact agree_note_bind hR _ (agree_print_bind hR _
    (agree_result (b.result_rename args) fun _ => hR.hereditary.result ha))

end Eval

def Application.Equivariant (app : Application) (ρ : ScopeId → ScopeId) (P : Value → Prop)
    (R : World → World → Prop) : Prop :=
  ∀ params body scope args, P (.function params body scope) → (∀ v ∈ args, P v) →
    Agree R (Renamed ρ P) (app params body scope args)
      (app params body (ρ scope) (args.map (rename ρ)))

variable {app : Application}

mutual

theorem Expr.equivariant (hR : Correspondence ρ N P R) (happ : app.Equivariant ρ P R)
    (s : ScopeId) : ∀ e : Expr, (∀ x ∈ e.names, N x) →
      Agree R (Renamed ρ P) (e.evalWith app s) (e.evalWith app (ρ s))
  | .ident x, hN => agree_name hR s (hN x (List.mem_singleton_self x))
  | .int n, _ => agree_renamed (hR.hereditary.int n)
  | .bool b, _ => agree_renamed (hR.hereditary.bool b)
  | .string t, _ => agree_renamed (hR.hereditary.string t)
  | .unary op e, hN =>
    agree_operand (e.equivariant hR happ s hN) fun v _ =>
      agree_result (v.unary_rename op) fun _ => hR.hereditary.unary
  | .binary l op r, hN => by
    obtain ⟨hl, hr⟩ := List.forall_mem_append.mp hN
    exact agree_operand (l.equivariant hR happ s hl) fun a _ =>
      agree_operand (r.equivariant hR happ s hr) fun b _ =>
        agree_result (Value.binary_rename hR.injective a op b) fun _ => hR.hereditary.binary
  | .cond test yes none, hN => by
    obtain ⟨ht, hy⟩ := List.forall_mem_append.mp hN
    refine agree_operand (test.equivariant hR happ s ht) fun v _ => ?_
    rw [v.isTrue_rename]
    split
    · exact block_equivariant hR happ s yes hy hR.hereditary.null
    · exact agree_renamed hR.hereditary.null
  | .cond test yes (some no), hN => by
    obtain ⟨hty, hn⟩ := List.forall_mem_append.mp hN
    obtain ⟨ht, hy⟩ := List.forall_mem_append.mp hty
    refine agree_operand (test.equivariant hR happ s ht) fun v _ => ?_
    rw [v.isTrue_rename]
    split
    · exact block_equivariant hR happ s yes hy hR.hereditary.null
    · exact block_equivariant hR happ s no hn hR.hereditary.null
  | .fn _ _, hN => agree_renamed (hR.function.mpr hN)
  | .call callee args, hN => by
    obtain ⟨hc, ha⟩ := List.forall_mem_append.mp hN
    refine agree_operand (callee.equivariant hR happ s hc) fun f hf => ?_
    have hargs := exprs_equivariant hR happ s args ha
    cases f with
    | function params body scope =>
      refine agree_operands hargs fun vs hvs => ?_
      rw [List.length_map]
      exact agree_note_bind hR _ (happ params body scope vs hf hvs)
    | builtin b => exact agree_operands hargs fun vs hvs => agree_call hR b hvs
    | returned v =>
      simp only [rename, Value.typeName, v.typeName_rename]
      exact agree_fail _
    | _ => exact agree_fail _
  | .array items, hN => by
    refine agree_operands (exprs_equivariant hR happ s items hN) fun vs hvs => ?_
    rw [← Value.renameItems_eq_map]
    exact agree_renamed (hR.hereditary.array.mpr hvs)
  | .hash pairs, hN => pairs_equivariant hR happ s pairs hN hR.hereditary.hashNil
  | .index l i, hN => by
    obtain ⟨hl, hi⟩ := List.forall_mem_append.mp hN
    exact agree_operand (l.equivariant hR happ s hl) fun a ha =>
      agree_operand (i.equivariant hR happ s hi) fun b _ =>
        agree_result (a.index_rename b) fun _ => hR.hereditary.index ha

theorem Stmt.equivariant (hR : Correspondence ρ N P R) (happ : app.Equivariant ρ P R)
    (s : ScopeId) : ∀ t : Stmt, (∀ x ∈ t.names, N x) →
      Agree R (Renamed ρ P) (t.evalWith app s) (t.evalWith app (ρ s))
  | .bind _ e, hN => by
    obtain ⟨hx, he⟩ := List.forall_mem_cons.mp hN
    exact agree_operand (e.equivariant hR happ s he) fun v hv =>
      agree_bindName_bind hR s hx hv (agree_renamed hv)
  | .ret e, hN =>
    agree_operand (e.equivariant hR happ s hN) fun _ hv => agree_renamed (hR.returned.mpr hv)
  | .expr e, hN => e.equivariant hR happ s hN
  | .block b, hN => block_equivariant hR happ s b hN hR.hereditary.null

theorem block_equivariant (hR : Correspondence ρ N P R) (happ : app.Equivariant ρ P R)
    (s : ScopeId) : ∀ (b : List Stmt) {last : Value}, (∀ x ∈ blockNames b, N x) → P last →
      Agree R (Renamed ρ P) (evalBlock app s last b) (evalBlock app (ρ s) (last.rename ρ) b)
  | [], _, _, hl => agree_renamed hl
  | t :: b, _, hN, _ => by
    obtain ⟨ht, hb⟩ := List.forall_mem_append.mp hN
    exact agree_operand (t.equivariant hR happ s ht) fun v hv =>
      block_equivariant hR happ s b hb hv

theorem exprs_equivariant (hR : Correspondence ρ N P R) (happ : app.Equivariant ρ P R)
    (s : ScopeId) : ∀ es : List Expr, (∀ x ∈ exprsNames es, N x) →
      Agree R (Operands.Renamed ρ P) (evalExprs app s es) (evalExprs app (ρ s) es)
  | [], _ => agree_pure (.values (by simp))
  | e :: es, hN => by
    obtain ⟨he, hes⟩ := List.forall_mem_append.mp hN
    refine (e.equivariant hR happ s he).bind fun v v' hv => ?_
    obtain ⟨hv, rfl⟩ := hv
    have hrest : Agree R (Operands.Renamed ρ P) (do
        match ← evalExprs app s es with
        | .returned w => return .returned w
        | .values vs => return .values (v :: vs) : Eval Operands) (do
        match ← evalExprs app (ρ s) es with
        | .returned w => return .returned w
        | .values vs => return .values (v.rename ρ :: vs) : Eval Operands) := by
      refine (exprs_equivariant hR happ s es hes).bind fun vs vs' hvs => ?_
      cases hvs with
      | values h => exact agree_pure (.values (List.forall_mem_cons.mpr ⟨hv, h⟩))
      | returned h => exact agree_pure (.returned h)
    cases v with
    | returned v => exact agree_pure (.returned hv)
    | _ => exact hrest

theorem pairs_equivariant (hR : Correspondence ρ N P R) (happ : app.Equivariant ρ P R)
    (s : ScopeId) : ∀ (ps : List (Expr × Expr)) {t : Table HashKey Value},
      (∀ x ∈ pairsNames ps, N x) → P (.hash t) → Agree R (Renamed ρ P)
        (evalPairs app s t ps) (evalPairs app (ρ s) (t.mapValues (rename ρ)) ps)
  | [], t, _, ht => by
    rw [← Value.renameEntries_eq_mapValues]
    exact agree_renamed ht
  | (k, e) :: ps, t, hN, ht => by
    obtain ⟨hke, hps⟩ := List.forall_mem_append.mp hN
    obtain ⟨hk, he⟩ := List.forall_mem_append.mp hke
    refine agree_operand (k.equivariant hR happ s hk) fun u _ => ?_
    rw [u.key_rename]
    have hkey : Agree R Eq (ofExcept u.key) (ofExcept u.key) := by
      cases u.key with
      | ok key => exact agree_pure rfl
      | error f => exact agree_fail f
    refine hkey.bind fun key key' h => ?_
    subst h
    refine agree_operand (e.equivariant hR happ s he) fun v hv => ?_
    rw [Table.insert_mapValues]
    exact pairs_equivariant hR happ s ps hps (hR.hereditary.hashInsert ht hv)

end

theorem bindAll_equivariant {α : Type} {Q : α → α → Prop} (hR : Correspondence ρ N P R)
    (s : ScopeId) {params : List String} (hp : ∀ x ∈ params, N x) {args : List Value}
    (ha : ∀ v ∈ args, P v) {x y : Eval α} (h : Agree R Q x y) :
    Agree R Q (bindAll s (params.zip args) >>= fun _ => x)
      (bindAll (ρ s) (params.zip (args.map (rename ρ))) >>= fun _ => y) := by
  induction params generalizing args with
  | nil => exact h
  | cons x params ih =>
    cases args with
    | nil => exact h
    | cons v args =>
      obtain ⟨hx, hp⟩ := List.forall_mem_cons.mp hp
      obtain ⟨hv, ha⟩ := List.forall_mem_cons.mp ha
      exact agree_bindName_bind hR s hx hv (ih hp ha)

theorem agree_unwrap (hR : Correspondence ρ N P R) {x y : Eval Value}
    (h : Agree R (Renamed ρ P) x y) :
    Agree R (Renamed ρ P) (do return (← x).unwrap) (do return (← y).unwrap) := by
  refine h.bind fun v v' hv => ?_
  obtain ⟨hv, rfl⟩ := hv
  rw [v.unwrap_rename]
  cases v with
  | returned v => exact agree_renamed (hR.returned.mp hv)
  | _ => exact agree_renamed hv

theorem apply_equivariant (hR : Correspondence ρ N P R) (depth : Nat) :
    (apply depth).Equivariant ρ P R := by
  induction depth with
  | zero => exact fun _ _ _ _ _ _ => agree_throw .tooDeep
  | succ depth ih =>
    intro params body scope args hf ha
    obtain ⟨hp, hb⟩ := List.forall_mem_append.mp (hR.function.mp hf)
    refine agree_openScope_bind hR scope fun s => bindAll_equivariant hR s hp ha ?_
    exact agree_unwrap hR (block_equivariant hR ih s body hb hR.hereditary.null)

theorem Program.equivariant (hR : Correspondence ρ N P R) (depth : Nat) (s : ScopeId) {p : Program}
    (hN : ∀ x ∈ blockNames p, N x) :
    Agree R (Renamed ρ P) (p.eval depth s) (p.eval depth (ρ s)) :=
  agree_unwrap hR (block_equivariant hR (apply_equivariant hR depth) s p hN hR.hereditary.null)

end MonkeyLang
