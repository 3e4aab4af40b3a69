import MonkeyLang.Proofs.Evaluation.Equivariance

namespace MonkeyLang

open Eval

/-- `R` relates worlds with the same scopes at the same places that answer alike for names with
`N`, and what an evaluation can do to both keeps them related, as long as it asks only for names
with `N` and binds them to values with `P`. -/
structure Lockstep (N : String → Prop) (P : Value → Prop) (R : World → World → Prop) : Prop where
  hereditary : Value.Hereditary P
  returned {v : Value} : P (.returned v) ↔ P v
  function {params : List String} {body : Block} {s : ScopeId} :
    P (.function params body s) ↔ ∀ x ∈ params ++ blockNames body, N x
  holds {w w' : World} (h : R w w') : w.heap.Holds P
  get? {w w' : World} (h : R w w') (s : ScopeId) {x : String} (hx : N x) :
    w'.heap.get? s x = w.heap.get? s x
  size {w w' : World} (h : R w w') : w'.heap.size = w.heap.size
  openScope {w w' : World} (h : R w w') (s : ScopeId) :
    R (w.openScope (some s)) (w'.openScope (some s))
  bind {w w' : World} (h : R w w') (s : ScopeId) {x : String} (hx : N x) {v : Value} (hv : P v) :
    R (w.bind s x v) (w'.bind s x v)
  print {w w' : World} (h : R w w') (text : String) : R (w.print text) (w'.print text)
  note {w w' : World} (h : R w w') (e : Log.Event) : R (w.note e) (w'.note e)

namespace Eval.Alike

variable {α : Type} {P : α → Prop} {r r' : Except Stop α}

theorem eq (h : Alike (fun a a' => P a ∧ a' = a) r r') : r' = r := by
  cases h with
  | ok ha => rw [ha.2]
  | error e => rfl

theorem of_ok (h : Alike (fun a a' => P a ∧ a' = a) r r') : ∀ a, r = .ok a → P a := by
  rintro a rfl
  cases h with
  | ok ha => exact ha.1

end Eval.Alike

theorem Value.rename_id (v : Value) : v.rename id = v := rename_eq_self fun _ _ => rfl

namespace Lockstep

variable {N : String → Prop} {P : Value → Prop} {R : World → World → Prop}

theorem correspondence (hR : Lockstep N P R) : Correspondence id N P R where
  injective := Function.injective_id
  hereditary := hR.hereditary
  returned := hR.returned
  function := hR.function
  holds := hR.holds
  get? {w w'} h s x hx := by
    rw [id_eq, hR.get? h s hx, funext Value.rename_id]
    exact Option.map_id'.symm
  size := hR.size
  openScope := hR.openScope
  bind {w w'} h s x hx v hv := by
    rw [Value.rename_id]
    exact hR.bind h s hx hv
  print := hR.print
  note := hR.note

/-- In related worlds a program whose names have `N` does the same. -/
theorem program (hR : Lockstep N P R) (depth : Nat) (s : ScopeId) {p : Program}
    (hN : ∀ x ∈ blockNames p, N x) {w w' : World} (hw : R w w') :
    ((p.eval depth s).run w').1 = ((p.eval depth s).run w).1 ∧
      (∀ v, ((p.eval depth s).run w).1 = .ok v → P v) ∧
      R ((p.eval depth s).run w).2 ((p.eval depth s).run w').2 := by
  obtain ⟨halike, hw'⟩ := p.equivariant hR.correspondence depth s hN w w' hw
  have hsame := halike.imp (Q := fun v v' => P v ∧ v' = v) fun v _ h =>
    ⟨h.1, h.2.trans v.rename_id⟩
  exact ⟨hsame.eq, hsame.of_ok, hw'⟩

end Lockstep

end MonkeyLang
