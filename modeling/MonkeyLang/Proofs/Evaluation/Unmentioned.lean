import Mathlib
import MonkeyLang.Proofs.Evaluation.Lockstep

namespace MonkeyLang

namespace Heap

theorem ext_scope? {h h' : Heap} (hs : ∀ s, h.scope? s = h'.scope? s) : h = h' := by
  cases h
  cases h'
  exact congrArg Heap.mk (Array.ext_getElem? hs)

variable (h : Heap) {s t : ScopeId} {x y : String}

theorem bind_comm (hxy : x ≠ y) (s t : ScopeId) (u v : Value) :
    (h.bind s y u).bind t x v = (h.bind t x v).bind s y u := by
  refine ext_scope? fun r => ?_
  by_cases hs : r = s
  · subst hs
    by_cases ht : r = t
    · subst ht
      simp only [scope?_bind_self, Option.map_map]
      congr 1
      funext a
      exact congrArg (Scope.mk · a.outer) (Table.insert_comm hxy.symm u v a.names)
    · simp only [scope?_bind_self, scope?_bind_of_ne ht]
  · by_cases ht : r = t
    · subst ht
      simp only [scope?_bind_self, scope?_bind_of_ne hs]
    · simp only [scope?_bind_of_ne hs, scope?_bind_of_ne ht]

theorem openScope_bind (ht : t < h.size) (outer : Option ScopeId) (v : Value) :
    (h.openScope outer).bind t x v = (h.bind t x v).openScope outer := by
  refine ext_scope? fun r => ?_
  by_cases hr : r = t
  · subst hr
    have hr' : r < (h.bind r x v).size := by rwa [size_bind]
    rw [scope?_bind_self, scope?_openScope_of_lt ht, scope?_openScope_of_lt hr', scope?_bind_self]
  · rw [scope?_bind_of_ne hr]
    by_cases he : r = h.size
    · have hsize := size_bind h t x v
      rw [he, scope?_openScope_self, ← hsize, scope?_openScope_self]
    · have he' : r ≠ (h.bind t x v).size := by rwa [size_bind]
      rw [scope?_openScope_of_ne he, scope?_openScope_of_ne he', scope?_bind_of_ne hr]

/-- Nothing matters to a look-up but what the scopes lie in and what they bind the name to, and none
that was opened later matters at all. -/
theorem get?_congr {h h' : Heap} (hs : ∀ t, t ≤ s →
    (h.scope? t).map (fun a => (a.outer, a.names.get? x)) =
      (h'.scope? t).map fun a => (a.outer, a.names.get? x)) :
    h.get? s x = h'.get? s x := by
  induction s using Nat.strongRecOn with
  | ind s ih =>
    have he := hs s (Nat.le_refl s)
    rw [Heap.get?, Heap.get?]
    cases ha : h.scope? s with
    | none =>
      rw [ha, Option.map_none] at he
      rw [Option.map_eq_none_iff.mp he.symm]
    | some a =>
      rw [ha, Option.map_some] at he
      obtain ⟨b, hb, hab⟩ := Option.map_eq_some_iff.mp he.symm
      obtain ⟨ho, hn⟩ := Prod.mk.inj hab
      simp only [hb, ho, hn]
      cases a.names.get? x with
      | some u => rfl
      | none =>
        cases a.outer with
        | none => rfl
        | some r =>
          by_cases hr : r < s
          · simp only [if_pos hr, ih r hr fun t ht => hs t (Nat.le_trans ht (Nat.le_of_lt hr))]
          · simp only [if_neg hr]

theorem get?_bind_of_ne (hxy : x ≠ y) (t : ScopeId) (v : Value) (s : ScopeId) :
    (h.bind t x v).get? s y = h.get? s y := by
  refine get?_congr fun r _ => ?_
  by_cases hr : r = t
  · subst hr
    rw [scope?_bind_self, Option.map_map]
    refine Option.map_congr fun a _ => ?_
    exact Prod.ext rfl (Table.get?_insert_of_ne hxy.symm v a.names)
  · rw [scope?_bind_of_ne hr]

end Heap

namespace World

/-- The world `w'` is `w` with the name bound to the value in the scope, and no function that `w`
holds mentions the name. -/
structure Unread (x : String) (t : ScopeId) (v : Value) (w w' : World) : Prop where
  bound : w' = w.bind t x v
  inside : t < w.heap.size
  holds : w.heap.Holds fun u => ∀ y ∈ u.names, y ≠ x

theorem lockstep_unread (x : String) (t : ScopeId) (v : Value) :
    Lockstep (· ≠ x) (fun u => ∀ y ∈ u.names, y ≠ x) (Unread x t v) where
  hereditary := Value.hereditary_names _
  returned := Iff.rfl
  function := Iff.rfl
  holds h := h.holds
  get? {w w'} h s y hy := by
    rw [h.bound]
    exact w.heap.get?_bind_of_ne hy.symm t v s
  size {w w'} h := by
    rw [h.bound]
    exact w.heap.size_bind t x v
  openScope {w w'} h s := by
    refine ⟨?_, ?_, h.holds.openScope _⟩
    · rw [h.bound]
      exact congrArg (World.mk · w.printed w.events) (w.heap.openScope_bind h.inside _ v).symm
    · exact Nat.lt_of_lt_of_eq (Nat.lt_succ_of_lt h.inside) (w.heap.size_openScope _).symm
  bind {w w'} h s y hy u hu := by
    refine ⟨?_, ?_, h.holds.bind hu s y⟩
    · rw [h.bound]
      exact congrArg (World.mk · w.printed w.events) (w.heap.bind_comm hy.symm s t u v).symm
    · exact Nat.lt_of_lt_of_eq h.inside (w.heap.size_bind s y u).symm
  print h text := ⟨by rw [h.bound]; rfl, h.inside, h.holds⟩
  note h e := ⟨by rw [h.bound]; rfl, h.inside, h.holds⟩

end World

/-- A name that neither a program nor any function in the heap mentions may be bound to anything in
any scope: the program does what it would do without that, and whenever that comes to an end. -/
theorem Program.unmentioned {p : Program} {x : String} {w : World} {t : ScopeId}
    (hp : x ∉ blockNames p) (hw : w.heap.Holds fun u => x ∉ u.names) (ht : t < w.heap.size)
    (v : Value) (s : ScopeId) :
    (∀ depth, (p.eval depth s).run (w.bind t x v) =
      (((p.eval depth s).run w).1, ((p.eval depth s).run w).2.bind t x v)) ∧
    ((∃ depth, ((p.eval depth s).run (w.bind t x v)).1 ≠ .error .tooDeep) ↔
      ∃ depth, ((p.eval depth s).run w).1 ≠ .error .tooDeep) := by
  have hnames : ∀ y ∈ blockNames p, y ≠ x := List.forall_mem_ne'.mpr hp
  have hholds : w.heap.Holds fun u => ∀ y ∈ u.names, y ≠ x := fun r a hr q hq =>
    List.forall_mem_ne'.mpr (hw r a hr q hq)
  have hrun : ∀ depth, (p.eval depth s).run (w.bind t x v) =
      (((p.eval depth s).run w).1, ((p.eval depth s).run w).2.bind t x v) := by
    intro depth
    obtain ⟨hr, -, hw'⟩ :=
      (World.lockstep_unread x t v).program depth s hnames ⟨rfl, ht, hholds⟩
    exact Prod.ext hr hw'.bound
  exact ⟨hrun, exists_congr fun depth => by rw [hrun depth]⟩

theorem Program.unmentioned_recursion :
    let body : Block := [.expr (.cond (.binary (.ident "n") .lt (.int 1)) [.ret (.ident "n")]
      (some [.expr (.call (.ident "f") [.binary (.ident "n") .minus (.int 1)])]))]
    let f : Value := .function ["n"] body 0
    let w : World := { heap := (Heap.openScope {} none).bind 0 "f" f }
    let p : Program := [.bind "y" (.call (.ident "f") [.int 2]), .expr (.ident "y")]
    let r := (p.eval 3 0).run w
    "x" ∉ blockNames p ∧ (w.heap.Holds fun u => "x" ∉ u.names) ∧ 0 < w.heap.size ∧
      r.1 = .ok (.int 0) ∧ r.2.heap.size = 4 ∧
      (p.eval 3 0).run (w.bind 0 "x" (.array [f])) =
        (.ok (.int 0), r.2.bind 0 "x" (.array [f])) := by
  intro body f w p r
  have hp : "x" ∉ blockNames p := by decide
  have hw : w.heap.Holds fun u => "x" ∉ u.names :=
    Heap.Holds.bind (P := fun u => "x" ∉ u.names) (Heap.holds_empty.openScope none) (by decide) 0 "f"
  have ht : 0 < w.heap.size := by cbv
  have hr : ((p.eval 3 0).run w).1 = .ok (.int 0) := by cbv
  have hsize : ((p.eval 3 0).run w).2.heap.size = 4 := by cbv
  refine ⟨hp, hw, ht, hr, hsize, ?_⟩
  rw [← hr]
  exact (unmentioned hp hw ht (.array [f]) 0).1 3

end MonkeyLang
