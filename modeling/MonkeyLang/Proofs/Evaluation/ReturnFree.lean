import MonkeyLang.Proofs.Evaluation.Hereditary

namespace MonkeyLang

namespace Value

mutual

/-- No value on its way out, at any depth. A closure holds no value, only the place of a scope. -/
def ReturnFree : Value → Prop
  | .array items => ReturnFreeItems items
  | .hash entries => ReturnFreeEntries entries
  | .returned _ => False
  | _ => True

def ReturnFreeItems : List Value → Prop
  | [] => True
  | v :: vs => v.ReturnFree ∧ ReturnFreeItems vs

def ReturnFreeEntries : List (HashKey × Value) → Prop
  | [] => True
  | (_, v) :: es => v.ReturnFree ∧ ReturnFreeEntries es

end

theorem returnFreeItems_iff {vs : List Value} : ReturnFreeItems vs ↔ ∀ v ∈ vs, v.ReturnFree := by
  induction vs with
  | nil => simp [ReturnFreeItems]
  | cons v vs ih => simp [ReturnFreeItems, ih]

theorem returnFreeEntries_iff {es : List (HashKey × Value)} :
    ReturnFreeEntries es ↔ ∀ e ∈ es, e.2.ReturnFree := by
  induction es with
  | nil => simp [ReturnFreeEntries]
  | cons e es ih => simp [ReturnFreeEntries, ih]

theorem unwrap_eq_self {v : Value} (h : v.isReturned = false) : v.unwrap = v := by
  cases v with
  | returned v => cases h
  | _ => rfl

/-- A value, or a single layer of `returned` around one. -/
inductive Delivered : Value → Prop
  | value {v : Value} (h : v.ReturnFree) : Delivered v
  | returned {v : Value} (h : v.ReturnFree) : Delivered (.returned v)

theorem Delivered.unwrap {v : Value} (h : v.Delivered) : v.unwrap.ReturnFree := by
  cases h with
  | value h =>
    cases v with
    | returned v => exact h.elim
    | _ => exact h
  | returned h => exact h

theorem Delivered.returnFree {v : Value} (h : v.Delivered) (hv : v.isReturned = false) :
    v.ReturnFree := by
  cases h with
  | value h => exact h
  | returned _ => cases hv

theorem hereditary_returnFree : Hereditary ReturnFree where
  null := trivial
  int _ := trivial
  bool _ := trivial
  string _ := trivial
  builtin _ := trivial
  array := returnFreeItems_iff
  hashNil := trivial
  hashInsert ht hv :=
    returnFreeEntries_iff.mpr (Table.forall_insert hv (returnFreeEntries_iff.mp ht))
  hashMem := returnFreeEntries_iff.mp

end Value

namespace Heap

/-- No scope binds a name to a value with a value on its way out in it. -/
def ReturnFree (h : Heap) : Prop :=
  ∀ s scope, h.scope? s = some scope → ∀ p ∈ scope.names, p.2.ReturnFree

theorem returnFree_empty : ReturnFree {} := holds_empty

theorem ReturnFree.openScope {h : Heap} (hh : h.ReturnFree) (outer : Option ScopeId) :
    (h.openScope outer).ReturnFree :=
  Holds.openScope (P := Value.ReturnFree) hh outer

theorem ReturnFree.bind {h : Heap} {v : Value} (hh : h.ReturnFree) (hv : v.ReturnFree)
    (s : ScopeId) (name : String) : (h.bind s name v).ReturnFree :=
  Holds.bind (P := Value.ReturnFree) hh hv s name

theorem ReturnFree.get? {h : Heap} (hh : h.ReturnFree) (s : ScopeId) (name : String) {v : Value}
    (hg : h.get? s name = some v) : v.ReturnFree :=
  Holds.get? (P := Value.ReturnFree) hh s name hg

end Heap

end MonkeyLang
