import Mathlib.Data.Nat.Basic
import Mathlib.Order.Basic
import MonkeyLang.Proofs.Evaluation.Hereditary
import MonkeyLang.Proofs.Evaluation.Outcome
import MonkeyLang.Proofs.Evaluation.Renaming

namespace MonkeyLang

/-- Each function in the value captured one of the first `n` scopes. -/
def Value.Below (n : Nat) (v : Value) : Prop := ∀ s ∈ v.captured, s < n

namespace Value

variable {m n : Nat} {v : Value}

theorem Below.mono (h : v.Below m) (hmn : m ≤ n) : v.Below n :=
  fun s hs => Nat.lt_of_lt_of_le (h s hs) hmn

theorem captured_array {Q : ScopeId → Prop} {items : List Value} :
    (∀ s ∈ (array items).captured, Q s) ↔ ∀ v ∈ items, ∀ s ∈ v.captured, Q s := by
  simp only [captured, mem_capturedItems]
  exact ⟨fun h v hv s hs => h s ⟨v, hv, hs⟩, fun h s ⟨v, hv, hs⟩ => h v hv s hs⟩

theorem captured_hash {Q : ScopeId → Prop} {entries : List (HashKey × Value)} :
    (∀ s ∈ (hash entries).captured, Q s) ↔ ∀ e ∈ entries, ∀ s ∈ e.2.captured, Q s := by
  simp only [captured, mem_capturedEntries]
  exact ⟨fun h e he s hs => h s ⟨e, he, hs⟩, fun h s ⟨e, he, hs⟩ => h e he s hs⟩

theorem hereditary_captured (Q : ScopeId → Prop) : Hereditary fun v => ∀ s ∈ v.captured, Q s where
  null := by simp [captured]
  int _ := by simp [captured]
  bool _ := by simp [captured]
  string _ := by simp [captured]
  builtin _ := by simp [captured]
  array := captured_array
  hashNil := by simp [captured, capturedEntries]
  hashInsert ht hv := captured_hash.mpr
    (Table.forall_insert (P := fun v : Value => ∀ s ∈ v.captured, Q s) hv (captured_hash.mp ht))
  hashMem := captured_hash.mp

theorem below_array {items : List Value} : (array items).Below n ↔ ∀ v ∈ items, v.Below n :=
  captured_array

theorem below_hash {entries : List (HashKey × Value)} :
    (hash entries).Below n ↔ ∀ e ∈ entries, e.2.Below n :=
  captured_hash

theorem hereditary_below (n : Nat) : Hereditary (Below n) := hereditary_captured (· < n)

theorem below_function {params : List String} {body : List Stmt} {s : ScopeId} :
    (function params body s).Below n ↔ s < n := by
  simp [Below, captured]

theorem Below.unwrap (h : v.Below n) : v.unwrap.Below n := by
  cases v with
  | returned v => exact h
  | _ => exact h

end Value

open Value (Below)

def Operands.Below (n : Nat) : Operands → Prop
  | .values vs => ∀ v ∈ vs, v.Below n
  | .returned v => v.Below n

theorem Operands.Below.mono {m n : Nat} {vs : Operands} (h : vs.Below m) (hmn : m ≤ n) :
    vs.Below n := by
  cases vs with
  | values vs => exact fun v hv => (h v hv).mono hmn
  | returned v => exact Value.Below.mono h hmn

/-- No reference out of the heap: a scope lies inside an earlier one, and functions captured scopes
that are there. -/
structure Heap.Closed (h : Heap) : Prop where
  outer : ∀ s scope, h.scope? s = some scope → ∀ t, scope.outer = some t → t < s
  values : h.Holds (Below h.size)

theorem Heap.closed_empty : Heap.Closed {} where
  outer s scope hs := by simp [Heap.scope?] at hs
  values := Heap.holds_empty

namespace Heap.Closed

variable {h : Heap}

theorem openScope (hh : h.Closed) {outer : Option ScopeId} (ho : ∀ t, outer = some t → t < h.size) :
    (h.openScope outer).Closed where
  outer s scope hs := by
    by_cases he : s = h.size
    · subst he
      rw [scope?_openScope_self] at hs
      cases hs
      exact ho
    · rw [scope?_openScope_of_ne he] at hs
      exact hh.outer s scope hs
  values := by
    rw [size_openScope]
    refine Heap.Holds.openScope (fun s scope hs p hp => ?_) outer
    exact (hh.values s scope hs p hp).mono (Nat.le_succ _)

theorem bind (hh : h.Closed) {v : Value} (hv : v.Below h.size) (s : ScopeId) (x : String) :
    (h.bind s x v).Closed where
  outer t scope ht := by
    by_cases hts : t = s
    · subst hts
      rw [scope?_bind_self, Option.map_eq_some_iff] at ht
      obtain ⟨old, ho, rfl⟩ := ht
      exact hh.outer t old ho
    · rw [scope?_bind_of_ne hts] at ht
      exact hh.outer t scope ht
  values := by
    rw [size_bind]
    exact Heap.Holds.bind hh.values hv s x

end Heap.Closed

/-- In a closed heap of at least `n` scopes the evaluation leaves a closed heap with no scope less.
`P` holds of a value it gives and of the size of that heap. -/
def Eval.Stays {α : Type} (n : Nat) (P : Nat → α → Prop) (x : Eval α) : Prop :=
  ∀ w, w.heap.Closed → n ≤ w.heap.size →
    (x.run w).2.heap.Closed ∧ w.heap.size ≤ (x.run w).2.heap.size ∧
      ∀ a, (x.run w).1 = .ok a → P (x.run w).2.heap.size a

namespace Eval

variable {α β : Type} {n : Nat} {P : Nat → α → Prop} {Q : Nat → β → Prop}

theorem stays_pure {a : α} (h : ∀ m, n ≤ m → P m a) : Stays n P (pure a) := by
  intro w hw hn
  refine ⟨hw, Nat.le_refl _, ?_⟩
  rintro b ⟨⟩
  exact h _ hn

theorem stays_throw (e : Stop) : Stays n P (throw e : Eval α) := by
  intro w hw _
  refine ⟨hw, Nat.le_refl _, ?_⟩
  rintro a ⟨⟩

theorem stays_fail (f : Fault) : Stays n P (fail f : Eval α) := stays_throw (.fault f)

theorem stays_ofExcept {r : Except Fault α} (h : ∀ m, n ≤ m → ∀ a, r = .ok a → P m a) :
    Stays n P (ofExcept r) := by
  cases r with
  | ok a => exact stays_pure fun m hm => h m hm a rfl
  | error f => exact stays_fail f

theorem Stays.bind {x : Eval α} {f : α → Eval β} (hx : Stays n P x)
    (hf : ∀ m a, n ≤ m → P m a → Stays m Q (f a)) : Stays n Q (x >>= f) := by
  intro w hw hn
  obtain ⟨hc, hle, hv⟩ := hx w hw hn
  rcases h : x.run w with ⟨e | a, w₁⟩
  · rw [run_bind_error h]
    rw [h] at hc hle
    refine ⟨hc, hle, ?_⟩
    rintro b ⟨⟩
  · rw [run_bind_ok h]
    rw [h] at hc hle hv
    obtain ⟨hc', hle', hv'⟩ :=
      hf w₁.heap.size a (Nat.le_trans hn hle) (hv a rfl) w₁ hc (Nat.le_refl _)
    exact ⟨hc', Nat.le_trans hle hle', hv'⟩

theorem stays_note (e : Log.Event) : Stays n (fun _ _ => True) (note e) :=
  fun _ hw _ => ⟨hw, Nat.le_refl _, fun _ _ => trivial⟩

theorem stays_print (text : String) : Stays n (fun _ _ => True) (print text) :=
  fun _ hw _ => ⟨hw, Nat.le_refl _, fun _ _ => trivial⟩

theorem stays_bindName {v : Value} (hv : v.Below n) (s : ScopeId) (x : String) :
    Stays n (fun _ _ => True) (Eval.bind s x v) := by
  intro w hw hn
  refine ⟨hw.bind (hv.mono hn) s x, ?_, fun _ _ => trivial⟩
  exact (Heap.size_bind w.heap s x v).ge

theorem stays_openScope {outer : ScopeId} (ho : outer < n) :
    Stays n (fun m s => s < m) (Eval.openScope outer) := by
  intro w hw hn
  have hs : w.heap.size < (w.heap.openScope (some outer)).size := by
    rw [Heap.size_openScope]
    exact Nat.lt_succ_self _
  refine ⟨hw.openScope fun t ht => ?_, hs.le, ?_⟩
  · cases ht
    exact Nat.lt_of_lt_of_le ho hn
  · rintro s ⟨⟩
    exact hs

theorem Stays.operand {x : Eval Value} {k : Value → Eval Value} (hx : Stays n Below x)
    (hk : ∀ m v, n ≤ m → v.Below m → Stays m Below (k v)) : Stays n Below (operand x k) := by
  refine hx.bind fun m v hm hv => ?_
  cases v with
  | returned v => exact stays_pure fun _ hm' => hv.mono hm'
  | _ => exact hk m _ hm hv

theorem Stays.operands {x : Eval Operands} {k : List Value → Eval Value}
    (hx : Stays n Operands.Below x)
    (hk : ∀ m vs, n ≤ m → (∀ v ∈ vs, v.Below m) → Stays m Below (k vs)) :
    Stays n Below (operands x k) := by
  refine hx.bind fun m vs hm hvs => ?_
  cases vs with
  | values vs => exact hk m vs hm hvs
  | returned v => exact stays_pure fun _ hm' => hvs.mono hm'

theorem stays_lookup (s : ScopeId) (x : String) :
    Stays n (fun m o => ∀ v ∈ o, v.Below m) (lookup s x) := by
  intro w hw _
  refine ⟨hw, Nat.le_refl _, ?_⟩
  rintro o ⟨⟩ v hv
  exact Heap.Holds.get? hw.values s x hv

theorem stays_name (s : ScopeId) (x : String) : Stays n Below (name s x) := by
  refine (stays_lookup s x).bind fun m o _ ho => ?_
  split
  · exact stays_pure fun _ hm' => (ho _ rfl).mono hm'
  · split
    · exact stays_pure fun m _ => (Value.hereditary_below m).builtin _
    · exact stays_fail _

theorem stays_call (b : Builtin) {args : List Value} (h : ∀ v ∈ args, v.Below n) :
    Stays n Below (b.call args) := by
  refine (stays_note _).bind fun m _ hm _ => (stays_print _).bind fun m' _ hm' _ => ?_
  refine stays_ofExcept fun k hk r hr => (Value.hereditary_below k).result (fun v hv => ?_) hr
  exact (h v hv).mono (hm.trans (hm'.trans hk))

end Eval

open Eval

def Application.Stays (app : Application) : Prop :=
  ∀ {n : Nat} params body {scope : ScopeId} {args : List Value}, scope < n →
    (∀ v ∈ args, v.Below n) → Eval.Stays n Below (app params body scope args)

variable {app : Application} {s : ScopeId} {n : Nat}

mutual

theorem Expr.stays (happ : app.Stays) :
    ∀ (e : Expr) {n : Nat}, s < n → Stays n Below (e.evalWith app s)
  | .ident x, _, _ => stays_name s x
  | .int _, _, _ => stays_pure fun m _ => (Value.hereditary_below m).int _
  | .bool _, _, _ => stays_pure fun m _ => (Value.hereditary_below m).bool _
  | .string _, _, _ => stays_pure fun m _ => (Value.hereditary_below m).string _
  | .unary _ e, _, hs =>
    (e.stays happ hs).operand fun _ _ _ _ =>
      stays_ofExcept fun m _ _ hr => (Value.hereditary_below m).unary hr
  | .binary l _ r, _, hs =>
    (l.stays happ hs).operand fun _ _ hm _ =>
      (r.stays happ (hs.trans_le hm)).operand fun _ _ _ _ =>
        stays_ofExcept fun m _ _ hr => (Value.hereditary_below m).binary hr
  | .cond test yes none, _, hs => by
    refine (test.stays happ hs).operand fun m v hm _ => ?_
    split
    · exact block_stays happ yes (hs.trans_le hm) (Value.hereditary_below m).null
    · exact stays_pure fun m _ => (Value.hereditary_below m).null
  | .cond test yes (some no), _, hs => by
    refine (test.stays happ hs).operand fun m v hm _ => ?_
    split
    · exact block_stays happ yes (hs.trans_le hm) (Value.hereditary_below m).null
    · exact block_stays happ no (hs.trans_le hm) (Value.hereditary_below m).null
  | .fn _ _, _, hs => stays_pure fun _ hm => Value.below_function.mpr (hs.trans_le hm)
  | .call callee args, _, hs => by
    refine (callee.stays happ hs).operand fun m f hm hf => ?_
    have hargs := exprs_stay happ args (hs.trans_le hm)
    cases f with
    | function params body scope =>
      refine hargs.operands fun m' vs hm' hvs => (stays_note _).bind fun k _ hk _ => ?_
      have hscope : scope < k := (Value.below_function.mp hf).trans_le (hm'.trans hk)
      exact happ params body hscope fun v hv => (hvs v hv).mono hk
    | builtin b => exact hargs.operands fun _ _ _ hvs => stays_call b hvs
    | _ => exact stays_fail _
  | .array items, _, hs =>
    (exprs_stay happ items hs).operands fun _ _ _ hvs =>
      stays_pure fun _ hm => Value.below_array.mpr fun v hv => (hvs v hv).mono hm
  | .hash pairs, _, hs => pairs_stay happ pairs hs (by simp)
  | .index l i, _, hs =>
    (l.stays happ hs).operand fun _ _ hm ha =>
      (i.stays happ (hs.trans_le hm)).operand fun _ _ hm' _ =>
        stays_ofExcept fun k hk _ hr =>
          (Value.hereditary_below k).index (ha.mono (hm'.trans hk)) hr

theorem Stmt.stays (happ : app.Stays) :
    ∀ (t : Stmt) {n : Nat}, s < n → Stays n Below (t.evalWith app s)
  | .bind x e, _, hs =>
    (e.stays happ hs).operand fun _ _ _ hv =>
      (stays_bindName hv s x).bind fun _ _ hm _ => stays_pure fun _ hk => hv.mono (hm.trans hk)
  | .ret e, _, hs => (e.stays happ hs).operand fun _ _ _ hv => stays_pure fun _ hm => hv.mono hm
  | .expr e, _, hs => e.stays happ hs
  | .block b, n, hs => block_stays happ b hs (Value.hereditary_below n).null

theorem block_stays (happ : app.Stays) :
    ∀ (b : List Stmt) {n : Nat} {last : Value}, s < n → last.Below n →
      Stays n Below (evalBlock app s last b)
  | [], _, _, _, hl => stays_pure fun _ hm => hl.mono hm
  | t :: b, _, _, hs, _ =>
    (t.stays happ hs).operand fun _ _ hm hv => block_stays happ b (hs.trans_le hm) hv

theorem exprs_stay (happ : app.Stays) :
    ∀ (es : List Expr) {n : Nat}, s < n → Stays n Operands.Below (evalExprs app s es)
  | [], _, _ => stays_pure fun _ _ _ h => absurd h List.not_mem_nil
  | e :: es, _, hs => by
    refine (e.stays happ hs).bind fun m v hm hv => ?_
    have hes : Stays m Operands.Below (do
        match ← evalExprs app s es with
        | .returned w => return .returned w
        | .values vs => return .values (v :: vs) : Eval Operands) := by
      refine (exprs_stay happ es (hs.trans_le hm)).bind fun k vs hk hvs => ?_
      cases vs with
      | values vs =>
        refine stays_pure fun k' hk' u hu => ?_
        rcases List.mem_cons.mp hu with rfl | hu
        · exact hv.mono (hk.trans hk')
        · exact (hvs u hu).mono hk'
      | returned w => exact stays_pure fun _ hk' => hvs.mono hk'
    cases v with
    | returned v => exact stays_pure fun _ hk => hv.mono hk
    | _ => exact hes

theorem pairs_stay (happ : app.Stays) :
    ∀ (ps : List (Expr × Expr)) {n : Nat} {t : List (HashKey × Value)}, s < n →
      (∀ e ∈ t, e.2.Below n) → Stays n Below (evalPairs app s t ps)
  | [], _, _, _, ht => stays_pure fun _ hm => Value.below_hash.mpr fun e he => (ht e he).mono hm
  | (k, e) :: ps, _, t, hs, ht => by
    refine (k.stays happ hs).operand fun m u hm _ => ?_
    refine Stays.bind (stays_ofExcept (P := fun _ _ => True) fun _ _ _ _ => trivial) ?_
    intro m' key hm' _
    refine (e.stays happ (hs.trans_le (hm.trans hm'))).operand fun k v hk hv => ?_
    have hn := hm.trans (hm'.trans hk)
    exact pairs_stay happ ps (hs.trans_le hn)
      (Table.forall_insert hv fun p hp => (ht p hp).mono hn)

end

theorem stays_bindAll (s : ScopeId) (ps : List (String × Value)) (h : ∀ p ∈ ps, p.2.Below n) :
    Stays n (fun _ _ => True) (bindAll s ps) := by
  induction ps generalizing n with
  | nil => exact stays_pure fun _ _ => trivial
  | cons p ps ih =>
    refine (stays_bindName (h p (by simp)) s p.1).bind fun m _ hm _ => ih fun q hq => ?_
    exact (h q (by simp [hq])).mono hm

theorem apply_stays (depth : Nat) : (apply depth).Stays := by
  induction depth with
  | zero =>
    intro n params body scope args _ _
    exact stays_throw .tooDeep
  | succ depth ih =>
    intro n params body scope args hscope hargs
    refine (stays_openScope hscope).bind fun m s hm hs => ?_
    have hall : ∀ p ∈ params.zip args, p.2.Below m := fun p hp =>
      (hargs _ (List.of_mem_zip hp).2).mono hm
    refine (stays_bindAll s _ hall).bind fun k _ hk _ => ?_
    refine (block_stays ih body (hs.trans_le hk) (Value.hereditary_below k).null).bind ?_
    exact fun _ v _ hv => stays_pure fun _ hl => hv.unwrap.mono hl

end MonkeyLang
