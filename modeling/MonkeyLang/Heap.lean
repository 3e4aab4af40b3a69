import MonkeyLang.Text.Commas
import MonkeyLang.Text.Quoted
import MonkeyLang.Value

namespace MonkeyLang

structure Scope where
  names : Table String Value := []
  outer : Option ScopeId := none

/-- All scopes ever opened. Closures share them by their place. -/
structure Heap where
  scopes : Array Scope := #[]

namespace Heap

def size (h : Heap) : Nat := h.scopes.size

def scope? (h : Heap) (s : ScopeId) : Option Scope := h.scopes[s]?

/-- Opens a scope inside `outer`. Its place is the size of the heap before. -/
def openScope (h : Heap) (outer : Option ScopeId) : Heap :=
  ⟨h.scopes.push ⟨[], outer⟩⟩

/-- Binds a name in a scope itself, whatever the scopes around it bind. -/
def bind (h : Heap) (s : ScopeId) (name : String) (v : Value) : Heap :=
  ⟨h.scopes.modify s fun scope => { scope with names := scope.names.insert name v }⟩

/-- What a name is bound to in the innermost scope that binds it. A scope lies only inside scopes
that were opened before it. -/
def get? (h : Heap) (s : ScopeId) (name : String) : Option Value :=
  match h.scope? s with
  | none => none
  | some scope =>
      match scope.names.get? name with
      | some v => some v
      | none =>
          match scope.outer with
          | none => none
          | some outer => if outer < s then get? h outer name else none
termination_by s

/-- The names that a scope itself binds, and whether it lies inside another one. -/
def describe (h : Heap) (s : ScopeId) : String :=
  let scope := (h.scope? s).getD {}
  "Environment \x7b names: [" ++ Text.commas (scope.names.keys.map Text.quoted) ++ "], enclosed: "
    ++ (if scope.outer.isSome then "true" else "false") ++ " \x7d"

@[simp] theorem size_openScope (h : Heap) (outer : Option ScopeId) :
    (h.openScope outer).size = h.size + 1 := by
  simp [openScope, size]

@[simp] theorem size_bind (h : Heap) (s : ScopeId) (name : String) (v : Value) :
    (h.bind s name v).size = h.size := by
  simp [bind, size]

theorem scope?_openScope_self (h : Heap) (outer : Option ScopeId) :
    (h.openScope outer).scope? h.size = some ⟨[], outer⟩ := by
  simp [openScope, scope?, size]

theorem scope?_openScope_of_lt {h : Heap} {s : ScopeId} (hs : s < h.size) (outer : Option ScopeId) :
    (h.openScope outer).scope? s = h.scope? s := by
  simp only [openScope, scope?, size] at hs ⊢
  exact Array.getElem?_push_lt hs ▸ (Array.getElem?_eq_getElem hs).symm

theorem scope?_openScope_of_ne {h : Heap} {s : ScopeId} (hs : s ≠ h.size)
    (outer : Option ScopeId) : (h.openScope outer).scope? s = h.scope? s := by
  simp only [openScope, scope?, size] at hs ⊢
  rw [Array.getElem?_push, if_neg hs]

theorem scope?_bind_self (h : Heap) (s : ScopeId) (name : String) (v : Value) :
    (h.bind s name v).scope? s =
      (h.scope? s).map fun scope => { scope with names := scope.names.insert name v } := by
  simp [bind, scope?, Array.getElem?_modify]

theorem scope?_bind_of_ne {s t : ScopeId} (hs : s ≠ t) (h : Heap) (name : String) (v : Value) :
    (h.bind t name v).scope? s = h.scope? s := by
  simp [bind, scope?, Array.getElem?_modify, hs.symm]

end Heap

end MonkeyLang
