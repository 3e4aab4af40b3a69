import MonkeyLang.Proofs.Evaluation.Closed
import MonkeyLang.Proofs.Evaluation.Edits

namespace MonkeyLang

/-- The scopes in the order they were opened, each by what it lies in. -/
def outers (es : List Edit) : List (Option ScopeId) :=
  es.filterMap fun
    | .openScope outer => some outer
    | .bind .. => none

/-- What an edit binds the name to in the scope. -/
def Edit.sets? (s : ScopeId) (x : String) : Edit → Option Value
  | .openScope _ => none
  | .bind t y v => if t = s ∧ y = x then some v else none

/-- What the name was last bound to in the scope itself. -/
def lastSet (es : List Edit) (s : ScopeId) (x : String) : Option Value :=
  es.reverse.findSome? (Edit.sets? s x)

theorem outers_openScope (es : List Edit) (outer : Option ScopeId) :
    outers (es ++ [.openScope outer]) = outers es ++ [outer] :=
  List.filterMap_append

theorem outers_bind (es : List Edit) (s : ScopeId) (x : String) (v : Value) :
    outers (es ++ [.bind s x v]) = outers es := by
  rw [outers, List.filterMap_append]
  exact List.append_nil _

theorem lastSet_append (es : List Edit) (e : Edit) (s : ScopeId) (x : String) :
    lastSet (es ++ [e]) s x = (e.sets? s x).or (lastSet es s x) := by
  rw [lastSet, List.reverse_append, List.findSome?_append]
  cases h : e.sets? s x <;> simp [h, lastSet]

/-- The heap is what these edits make of the empty one. -/
structure Heap.Recorded (h : Heap) (es : List Edit) : Prop where
  size : (outers es).length = h.size
  outer (s : ScopeId) : (h.scope? s).map (·.outer) = (outers es)[s]?
  names (s : ScopeId) (x : String) :
    ((h.scope? s).bind fun scope => scope.names.get? x) = lastSet es s x
  sorted (s : ScopeId) (scope : Scope) (hs : h.scope? s = some scope) : scope.names.Sorted

namespace Heap.Recorded

variable {h h' : Heap} {es fs : List Edit}

theorem empty : Heap.Recorded {} [] where
  size := rfl
  outer s := by simp [Heap.scope?, outers]
  names s x := by simp [Heap.scope?, lastSet]
  sorted s scope hs := by simp [Heap.scope?] at hs

theorem openScope (hr : h.Recorded es) (outer : Option ScopeId) :
    (h.openScope outer).Recorded (es ++ [.openScope outer]) where
  size := by
    rw [outers_openScope, List.length_append, hr.size, size_openScope]
    rfl
  outer s := by
    rw [outers_openScope]
    by_cases hs : s = h.size
    · subst hs
      rw [scope?_openScope_self, ← hr.size, List.getElem?_concat_length]
      rfl
    · rw [scope?_openScope_of_ne hs, hr.outer]
      rcases Nat.lt_or_gt_of_ne hs with hlt | hgt
      · rw [← hr.size] at hlt
        rw [List.getElem?_append_left hlt]
      · rw [← hr.size] at hgt
        have hl : (outers es ++ [outer]).length ≤ s := by
          rw [List.length_append]
          exact hgt
        rw [List.getElem?_eq_none (Nat.le_of_lt hgt), List.getElem?_eq_none hl]
  names s x := by
    rw [lastSet_append]
    by_cases hs : s = h.size
    · subst hs
      have hn := hr.names h.size x
      rw [scope?_eq_none (Nat.le_refl _)] at hn
      rw [scope?_openScope_self, ← hn]
      rfl
    · rw [scope?_openScope_of_ne hs, hr.names]
      rfl
  sorted s scope hs := by
    by_cases he : s = h.size
    · subst he
      rw [scope?_openScope_self] at hs
      cases hs
      exact .nil
    · rw [scope?_openScope_of_ne he] at hs
      exact hr.sorted s scope hs

theorem bind (hr : h.Recorded es) {t : ScopeId} (ht : t < h.size) (y : String) (v : Value) :
    (h.bind t y v).Recorded (es ++ [.bind t y v]) where
  size := by
    rw [outers_bind, size_bind, hr.size]
  outer s := by
    rw [outers_bind, ← hr.outer]
    by_cases hs : s = t
    · subst hs
      rw [scope?_bind_self, Option.map_map]
      rfl
    · rw [scope?_bind_of_ne hs]
  names s x := by
    rw [lastSet_append, ← hr.names]
    by_cases hs : s = t
    · subst hs
      obtain ⟨scope, hscope⟩ : ∃ scope, h.scope? s = some scope :=
        ⟨_, Array.getElem?_eq_getElem ht⟩
      rw [scope?_bind_self, hscope]
      by_cases hx : x = y
      · subst hx
        simp [Edit.sets?, Table.get?_insert_self]
      · simp [Edit.sets?, Table.get?_insert_of_ne hx, Ne.symm hx]
    · rw [scope?_bind_of_ne hs]
      simp [Edit.sets?, Ne.symm hs]
  sorted s scope hs := by
    by_cases he : s = t
    · subst he
      rw [scope?_bind_self, Option.map_eq_some_iff] at hs
      obtain ⟨old, ho, rfl⟩ := hs
      exact Table.sorted_insert y v (hr.sorted s old ho)
    · rw [scope?_bind_of_ne he] at hs
      exact hr.sorted s scope hs

theorem edited (hr : h.Recorded es) (he : h.Edited fs h') : h'.Recorded (es ++ fs) := by
  induction he generalizing es with
  | nil => rwa [List.append_nil]
  | openScope outer _ ih => simpa using ih (hr.openScope outer)
  | bind hs x v _ ih => simpa using ih (hr.bind hs x v)

end Heap.Recorded

end MonkeyLang
