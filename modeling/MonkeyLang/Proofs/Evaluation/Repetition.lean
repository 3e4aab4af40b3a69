import Mathlib
import MonkeyLang.Proofs.Evaluation.Equivariance
import MonkeyLang.Proofs.Evaluation.Frame
import MonkeyLang.Proofs.Evaluation.History

namespace MonkeyLang

open Value (rename Below)

/-- Leaves the first `n` scopes where they are and moves the others `k` places on. -/
def ScopeId.shift (n k s : Nat) : Nat := if s < n then s else s + k

namespace ScopeId

variable {n k s t : Nat}

theorem shift_of_lt (h : s < n) : shift n k s = s := if_pos h

theorem shift_of_le (h : n ≤ s) : shift n k s = s + k := if_neg (Nat.not_lt.mpr h)

theorem shift_lt_shift : shift n k s < shift n k t ↔ s < t := by
  unfold shift
  split <;> split <;> omega

theorem shift_injective (n k : Nat) : (shift n k).Injective := by
  intro s t h
  unfold shift at h
  split at h <;> split at h <;> omega

end ScopeId

open ScopeId (shift shift_of_lt shift_of_le shift_lt_shift shift_injective)

def Scope.rename (ρ : ScopeId → ScopeId) (a : Scope) : Scope :=
  ⟨Table.mapValues (Value.rename ρ) a.names, a.outer.map ρ⟩

theorem Scope.rename_bind (ρ : ScopeId → ScopeId) (a : Scope) (x : String) (v : Value) :
    ({ a with names := a.names.insert x v } : Scope).rename ρ =
      { a.rename ρ with names := Table.insert x (v.rename ρ) (a.rename ρ).names } := by
  simp only [rename, Table.insert_mapValues]

theorem Scope.rename_eq_self {ρ : ScopeId → ScopeId} {a : Scope}
    (ho : ∀ t, a.outer = some t → ρ t = t) (hn : ∀ p ∈ a.names, p.2.rename ρ = p.2) :
    a.rename ρ = a := by
  have hnames : Table.mapValues (Value.rename ρ) a.names = a.names := by
    have hp : ∀ p ∈ a.names, (p.1, p.2.rename ρ) = p := fun p hp => Prod.ext rfl (hn p hp)
    exact (List.map_congr_left hp).trans (List.map_id' _)
  have houter : a.outer.map ρ = a.outer := by
    cases h : a.outer with
    | none => rfl
    | some t => rw [Option.map_some, ho t h]
  rw [rename, hnames, houter]

namespace Heap

/-- `h'` has `k` scopes more than `h`, after the first `n` ones, and is otherwise the same. -/
structure Mirrors (n k : Nat) (h h' : Heap) : Prop where
  base : n ≤ h.size
  size : h'.size = h.size + k
  scopes (t : ScopeId) : h'.scope? (shift n k t) = (h.scope? t).map (Scope.rename (shift n k))

namespace Mirrors

variable {n k : Nat} {h h' : Heap}

theorem size_eq_shift (hm : h.Mirrors n k h') : h'.size = shift n k h.size :=
  hm.size.trans (shift_of_le hm.base).symm

theorem get? (hm : h.Mirrors n k h') (s : ScopeId) (x : String) :
    h'.get? (shift n k s) x = (h.get? s x).map (rename (shift n k)) := by
  induction s using Nat.strong_induction_on with
  | h s ih =>
    unfold Heap.get?
    rw [hm.scopes]
    cases h.scope? s with
    | none => rfl
    | some a =>
      simp only [Option.map_some, Scope.rename, Table.get?_mapValues]
      cases Table.get? x a.names with
      | some v => rfl
      | none =>
        cases a.outer with
        | none => rfl
        | some t =>
          simp only [Option.map_some, Option.map_none, shift_lt_shift]
          by_cases ht : t < s
          · rw [if_pos ht, if_pos ht]
            exact ih t ht
          · rw [if_neg ht, if_neg ht]
            rfl

theorem openScope (hm : h.Mirrors n k h') (outer : Option ScopeId) :
    (h.openScope outer).Mirrors n k (h'.openScope (outer.map (shift n k))) where
  base := by
    rw [size_openScope]
    exact hm.base.trans (Nat.le_succ _)
  size := by
    rw [size_openScope, size_openScope, hm.size]
    omega
  scopes t := by
    by_cases ht : t = h.size
    · subst ht
      rw [← hm.size_eq_shift, scope?_openScope_self, scope?_openScope_self]
      rfl
    · have ht' : shift n k t ≠ h'.size := by
        rw [hm.size_eq_shift]
        exact fun e => ht (shift_injective n k e)
      rw [scope?_openScope_of_ne ht, scope?_openScope_of_ne ht']
      exact hm.scopes t

theorem bind (hm : h.Mirrors n k h') (s : ScopeId) (x : String) (v : Value) :
    (h.bind s x v).Mirrors n k (h'.bind (shift n k s) x (v.rename (shift n k))) where
  base := by
    rw [size_bind]
    exact hm.base
  size := by
    rw [size_bind, size_bind]
    exact hm.size
  scopes t := by
    by_cases ht : t = s
    · subst ht
      rw [scope?_bind_self, scope?_bind_self, hm.scopes, Option.map_map, Option.map_map]
      exact congrArg (Option.map · _) (funext fun a => (a.rename_bind _ x v).symm)
    · have ht' : shift n k t ≠ shift n k s := fun e => ht (shift_injective n k e)
      rw [scope?_bind_of_ne ht, scope?_bind_of_ne ht']
      exact hm.scopes t

end Mirrors

theorem Closed.mirrors {h h' : Heap} (hh : h.Closed) (hp : h.Preserves h') :
    h.Mirrors h.size (h'.size - h.size) h' where
  base := Nat.le_refl _
  size := (Nat.add_sub_cancel' hp.size_le).symm
  scopes t := by
    by_cases ht : t < h.size
    · have ha : h.scope? t = some h.scopes[t] := Array.getElem?_eq_getElem ht
      -- A scope of a closed heap refers to scopes of that heap only, and these stay in place.
      have hfix : h.scopes[t].rename (shift h.size (h'.size - h.size)) = h.scopes[t] :=
        Scope.rename_eq_self (fun u hu => shift_of_lt ((hh.outer t _ ha u hu).trans ht))
          fun p hmem => Value.rename_eq_self fun u hu =>
            shift_of_lt (hh.values t _ ha p hmem u hu)
      rw [shift_of_lt ht, hp t _ ha, ha, Option.map_some, hfix]
    · have ht' : h.size ≤ t := Nat.not_lt.mp ht
      have hle : h'.size ≤ t + (h'.size - h.size) := by omega
      rw [shift_of_le ht', scope?_eq_none ht', scope?_eq_none hle]
      rfl

end Heap

/-- The heaps mirror each other, and since `p` and `p'` the same has been printed. -/
structure World.Mirrors (n k : Nat) (p p' : String) (w w' : World) : Prop where
  heap : w.heap.Mirrors n k w'.heap
  printed : ∃ o, w.printed = p ++ o ∧ w'.printed = p' ++ o

theorem World.correspondence_mirrors (n k : Nat) (p p' : String) :
    Correspondence (shift n k) (fun _ => True) (fun _ => True) (World.Mirrors n k p p') where
  injective := shift_injective n k
  hereditary := .of_all fun _ => trivial
  returned := Iff.rfl
  function := ⟨fun _ _ _ => trivial, fun _ => trivial⟩
  holds _ _ _ _ _ _ := trivial
  get? h s x _ := h.heap.get? s x
  size h := h.heap.size_eq_shift
  openScope h s := ⟨h.heap.openScope (some s), h.printed⟩
  bind h s x _ v _ := ⟨h.heap.bind s x v, h.printed⟩
  print h text := by
    obtain ⟨o, hp, hp'⟩ := h.printed
    refine ⟨h.heap, o ++ text, ?_, ?_⟩
    · rw [← String.append_assoc, ← hp]
      rfl
    · rw [← String.append_assoc, ← hp']
      rfl
  note h e := ⟨h.heap, h.printed⟩

/-- What can be evaluated without an effect: a name or a literal of a scalar. -/
def Expr.IsAtom : Expr → Prop
  | .ident _ | .int _ | .bool _ | .string _ => True
  | _ => False

theorem exprsLets_atoms {es : List Expr} (h : ∀ e ∈ es, e.IsAtom) : exprsLets es = [] := by
  induction es with
  | nil => rfl
  | cons e es ih =>
    have he : e.lets = [] := by
      cases e <;> first | rfl | exact (h _ List.mem_cons_self).elim
    rw [exprsLets, he, List.nil_append]
    exact ih fun e' he' => h e' (List.mem_cons_of_mem _ he')

/-- An expression that binds no name itself, evaluated once more where its first evaluation ended,
does what it did. -/
theorem Expr.repeats {e : Expr} (he : e.lets = []) {depth : Nat} {s : ScopeId} {w w₁ : World}
    {r : Except Stop Value} (hw : w.heap.Closed) (hs : s < w.heap.size)
    (hrun : (e.eval depth s).run w = (r, w₁)) :
    ∃ r' w₂ o, (e.eval depth s).run w₁ = (r', w₂) ∧
      Eval.Alike (fun v v' => v' = v.rename (shift w.heap.size (w₁.heap.size - w.heap.size))) r r' ∧
      w₁.printed = w.printed ++ o ∧ w₂.printed = w₁.printed ++ o := by
  unfold eval at hrun ⊢
  have hwrites : w.heap.Extends s [] w₁.heap := by
    have he' : e.lets ⊆ [] := he ▸ List.Subset.refl _
    have hx := (e.writes (apply_preserves depth) s he').extends w
    rwa [hrun] at hx
  -- For the second run the scopes of the first one are only further places in use.
  have hm : World.Mirrors w.heap.size (w₁.heap.size - w.heap.size) w.printed w₁.printed w w₁ :=
    ⟨hw.mirrors hwrites.preserves, "", String.append_empty.symm, String.append_empty.symm⟩
  have hR := World.correspondence_mirrors w.heap.size (w₁.heap.size - w.heap.size)
    w.printed w₁.printed
  have hagree := e.equivariant hR (apply_equivariant hR depth) s (fun _ _ => trivial) w w₁ hm
  rw [shift_of_lt hs, hrun] at hagree
  obtain ⟨halike, hm₂⟩ := hagree
  obtain ⟨o, hp, hp'⟩ := hm₂.printed
  exact ⟨_, _, o, rfl, halike.imp fun _ _ h => h.2, hp, hp'⟩

/-- In a closed heap, as that of every reachable world is, a call of a named function with atoms as
arguments, made once more where it ended, prints the same and ends in the same way, provided that
what it gives holds no function. -/
theorem Expr.call_repeats {depth : Nat} {s : ScopeId} {f : String} {args : List Expr}
    {w w₁ : World} {r : Except Stop Value} (hw : w.heap.Closed) (hs : s < w.heap.size)
    (ha : ∀ a ∈ args, a.IsAtom)
    (hrun : ((Expr.call (.ident f) args).eval depth s).run w = (r, w₁))
    (hr : ∀ v, r = .ok v → v.FunctionFree) :
    ∃ o w₂, w₁.printed = w.printed ++ o ∧
      ((Expr.call (.ident f) args).eval depth s).run w₁ = (r, w₂) ∧
      w₂.printed = w₁.printed ++ o := by
  have hlets : (Expr.call (.ident f) args).lets = [] := exprsLets_atoms ha
  obtain ⟨r', w₂, o, hrun', halike, hp, hp'⟩ := Expr.repeats hlets hw hs hrun
  have hsame : r' = r := by
    cases halike with
    | ok hv => rw [hv, (hr _ rfl).rename]
    | error e => rfl
  exact ⟨o, w₂, hp, hsame ▸ hrun', hp'⟩

theorem Expr.call_repeats_closure :
    let body : Block := [.bind "g" (.fn ["y"] [.expr (.call (.ident "puts") [.ident "y"]),
      .expr (.binary (.ident "y") .plus (.ident "x"))]), .expr (.call (.ident "g") [.ident "x"])]
    let call : Expr := .call (.ident "f") [.int 2]
    let definition : Action := .program 3 0 [.bind "f" (.fn ["x"] body)]
    let w := definition.perform Repl.fresh.1
    let w₁ := ((call.eval 3 0).run w).2
    w.heap.Closed ∧ (call.eval 3 0).run w = (.ok (.int 4), w₁) ∧ w₁.printed = "2\n" ∧
      ∃ o w₂, w₁.printed = w.printed ++ o ∧ (call.eval 3 0).run w₁ = (.ok (.int 4), w₂) ∧
        w₂.printed = w₁.printed ++ o := by
  intro body call definition w w₁
  have hin : definition.Within Repl.fresh.1 := Nat.zero_lt_one
  have hw : w.heap.Closed := (World.Reachable.fresh.perform hin).closed
  have hs : 0 < w.heap.size := by cbv
  have ha : ∀ a ∈ [Expr.int 2], a.IsAtom := by simp [IsAtom]
  have hrun : (call.eval 3 0).run w = (.ok (.int 4), w₁) := Prod.ext (by cbv) rfl
  have hr : ∀ v, Except.ok (Value.int 4) = (.ok v : Except Stop Value) → v.FunctionFree := by
    rintro v ⟨⟩
    rfl
  have hp : ((call.eval 3 0).run w).2.printed = "2\n" := by cbv
  exact ⟨hw, hrun, hp, Expr.call_repeats hw hs ha hrun hr⟩

end MonkeyLang
