import MonkeyLang.Proofs.Evaluation.Derivation

namespace MonkeyLang

open Eval
open Table (BindsLast keys)

/-- Among the first `m` parameters the name stands last at place `i`. -/
structure LastAt (params : List String) (m : Nat) (x : String) (i : Nat) : Prop where
  lt : i < m
  name : params[i]? = some x
  last : ∀ j, i < j → j < m → params[j]? ≠ some x

namespace World

variable (w : World) (captured : ScopeId) (ps : List (String × Value))

/-- The world in which a body starts: in a scope of its own inside the captured one, names are
bound in turn. -/
def enter : World :=
  ps.foldl (fun w' p => w'.bind w.heap.size p.1 p.2) (w.openScope (some captured))

theorem scope?_foldl_bind_self (s : ScopeId) :
    (ps.foldl (fun w' p => w'.bind s p.1 p.2) w).heap.scope? s =
      (w.heap.scope? s).map fun a =>
        { a with names := ps.foldl (fun t p => Table.insert p.1 p.2 t) a.names } := by
  induction ps generalizing w with
  | nil => exact Option.map_id'.symm
  | cons p ps ih =>
    rw [List.foldl_cons, ih, show (w.bind s p.1 p.2).heap = w.heap.bind s p.1 p.2 from rfl,
      Heap.scope?_bind_self, Option.map_map]
    rfl

theorem scope?_foldl_bind_of_ne {s t : ScopeId} (ht : t ≠ s) :
    (ps.foldl (fun w' p => w'.bind s p.1 p.2) w).heap.scope? t = w.heap.scope? t := by
  induction ps generalizing w with
  | nil => rfl
  | cons p ps ih => exact (ih _).trans (Heap.scope?_bind_of_ne ht ..)

theorem scope?_enter_self :
    (w.enter captured ps).heap.scope? w.heap.size = some ⟨Table.ofList ps, some captured⟩ := by
  rw [enter, scope?_foldl_bind_self, openScope, Heap.scope?_openScope_self]
  rfl

theorem scope?_enter_of_ne {t : ScopeId} (ht : t ≠ w.heap.size) :
    (w.enter captured ps).heap.scope? t = w.heap.scope? t := by
  rw [enter, scope?_foldl_bind_of_ne _ _ ht]
  exact Heap.scope?_openScope_of_ne ht _

theorem preserves_enter : w.heap.Preserves (w.enter captured ps).heap := by
  intro t a ht
  rwa [scope?_enter_of_ne _ _ _ (Nat.ne_of_lt (Heap.lt_size_of_scope? ht))]

variable {captured ps} {x : String}

theorem get?_enter_bound {v : Value} (hx : BindsLast ps x v) :
    (w.enter captured ps).heap.get? w.heap.size x = some v :=
  Heap.get?_of_own (w.scope?_enter_self captured ps) (Table.get?_ofList_eq_some_iff.mpr hx)

theorem get?_enter_free (hx : x ∉ keys ps) :
    (w.enter captured ps).heap.get? w.heap.size x = w.heap.get? captured x := by
  have hn : (Table.ofList ps).get? x = none := by
    rwa [Table.get?_eq_none_iff, Table.mem_keys_ofList]
  rw [Heap.get?_of_outer (w.scope?_enter_self captured ps) hn rfl]
  split
  · next hlt => exact (w.preserves_enter captured ps).get? hlt x
  · next hge => exact (Heap.get?_eq_none (Nat.not_lt.mp hge) x).symm

theorem size_lt_enter (captured : ScopeId) (ps : List (String × Value)) :
    w.heap.size < (w.enter captured ps).heap.size :=
  Heap.lt_size_of_scope? (w.scope?_enter_self captured ps)

theorem means_enter_bound {v : Value} (hx : BindsLast ps x v) :
    (w.enter captured ps).heap.Means w.heap.size x v :=
  Heap.means_of_get? (w.get?_enter_bound hx)

theorem means_enter_free {v : Value} (hx : x ∉ keys ps) (hm : w.heap.Means captured x v) :
    (w.enter captured ps).heap.Means w.heap.size x v where
  opened := w.size_lt_enter captured ps
  resolved := (Heap.resolve_congr (w.get?_enter_free hx)).trans hm.resolved

end World

theorem Eval.run_bindAll (s : ScopeId) (ps : List (String × Value)) (w : World) :
    (bindAll s ps).run w = (.ok (), ps.foldl (fun w' p => w'.bind s p.1 p.2) w) := by
  induction ps generalizing w with
  | nil => rfl
  | cons p ps ih =>
    rw [bindAll, run_bind_ok (run_bindName ..), ih]
    rfl

/-- A body is evaluated as a program of its own. -/
theorem run_apply_succ (depth : Nat) (params : List String) (body : Block) (captured : ScopeId)
    (args : List Value) (w : World) :
    (apply (depth + 1) params body captured args).run w =
      (Program.eval depth w.heap.size body).run (w.enter captured (params.zip args)) := by
  rw [apply, run_bind_ok (run_openScope ..), run_bind_ok (run_bindAll ..)]
  rfl

variable {app : Application} {s captured : ScopeId} {w w₁ w₂ : World} {params : List String}
  {body : Block} {callee : Expr} {args : List Expr} {vs : List Value}

/-- Parameters are paired with arguments as far as both go, and the last pair with a name counts. -/
theorem bindsLast_zip {x : String} {v : Value} : BindsLast (params.zip vs) x v ↔
    ∃ i, LastAt params (min params.length vs.length) x i ∧ vs[i]? = some v := by
  rw [Table.bindsLast_iff_getElem?]
  simp only [List.getElem?_zip_eq_some, ne_eq, not_and]
  constructor
  · rintro ⟨i, ⟨hp, hv⟩, hlast⟩
    have hi := (List.getElem?_eq_some_iff.mp hp).1
    have hi' := (List.getElem?_eq_some_iff.mp hv).1
    refine ⟨i, ⟨by omega, hp, fun j hj hm hx => ?_⟩, hv⟩
    have hlt : j < vs.length := by omega
    exact hlast j vs[j] hj hx (List.getElem?_eq_getElem hlt)
  · rintro ⟨i, hx, hv⟩
    refine ⟨i, ⟨hx.name, hv⟩, fun j u hj hp hu => hx.last j hj ?_ hp⟩
    have hj := (List.getElem?_eq_some_iff.mp hp).1
    have hj' := (List.getElem?_eq_some_iff.mp hu).1
    omega

theorem keys_zip (params : List String) (vs : List Value) :
    keys (params.zip vs) = params.take (min params.length vs.length) := by
  rw [keys, List.zip_eq_zip_take_min, List.map_fst_zip (by simp)]

/-- The arguments, surplus ones too, are evaluated in turn where the call stands. Then the body runs
in a scope that was not there before, inside the captured one: a parameter that has an argument is
bound to the one at its last place, and every other name means what it means in the captured
scope. No other scope changes. -/
theorem Expr.call_binds {depth : Nat}
    (hf : callee.Gives (apply (depth + 1)) s w (.function params body captured) w₁)
    (hargs : ExprsGive (apply (depth + 1)) s args w₁ vs w₂) :
    let t := w₂.heap.size
    let m := min params.length args.length
    let w₃ := (w₂.note (.applied args.length)).enter captured (params.zip vs)
    let outcome := (Program.eval depth t body).run w₃
    ((Expr.call callee args).eval (depth + 1) s).run w = outcome ∧
    (w₂.heap.scope? t = none ∧ ∃ names, w₃.heap.scope? t = some ⟨names, some captured⟩ ∧
      (∀ x, x ∈ keys names ↔ x ∈ params.take m) ∧
      ∀ x v, names.get? x = some v ↔ ∃ i, LastAt params m x i ∧ vs[i]? = some v) ∧
    (∀ x, ((Expr.ident x).eval depth t).run w₃ = ((w₃.heap.resolve t x).mapError .fault, w₃)) ∧
    (∀ x i v, LastAt params m x i → vs[i]? = some v → w₃.heap.resolve t x = .ok v) ∧
    (∀ x, x ∉ params.take m → w₃.heap.resolve t x = w₂.heap.resolve captured x) ∧
    (∀ u, u ≠ t → w₃.heap.scope? u = w₂.heap.scope? u) ∧
    w₂.heap.Preserves outcome.2.heap := by
  intro t m w₃ outcome
  have hm : min params.length vs.length = m := by rw [hargs.length_eq]
  have hrun : ((Expr.call callee args).eval (depth + 1) s).run w = outcome :=
    (Expr.run_call hf hargs).trans (run_apply_succ ..)
  have hbinds (x v) : BindsLast (params.zip vs) x v ↔
      ∃ i, LastAt params m x i ∧ vs[i]? = some v := hm ▸ bindsLast_zip
  have hkeys : keys (params.zip vs) = params.take m := hm ▸ keys_zip params vs
  refine ⟨hrun, ⟨Heap.scope?_eq_none (Nat.le_refl _), Table.ofList (params.zip vs), ?_, ?_, ?_⟩,
    fun x => Expr.run_ident x, fun x i v hi hv => ?_, fun x hx => ?_, fun u hu => ?_, ?_⟩
  · exact World.scope?_enter_self ..
  · exact fun x => hkeys ▸ Table.mem_keys_ofList
  · exact fun x v => Table.get?_ofList_eq_some_iff.trans (hbinds x v)
  · exact Heap.resolve_of_get? (World.get?_enter_bound _ ((hbinds x v).mpr ⟨i, hi, hv⟩))
  · exact Heap.resolve_congr (World.get?_enter_free _ (hkeys ▸ hx))
  · exact World.scope?_enter_of_ne _ _ _ hu
  · have hp := apply_preserves (depth + 1) params body captured vs (w₂.note (.applied args.length))
    rwa [run_apply_succ] at hp

theorem Expr.call_binds_repeated :
    let callee := Expr.fn ["a", "b", "a", "len"]
      [.expr (.array [.ident "a", .ident "b", .ident "x", .ident "len"])]
    let args : List Expr := [.int 1, .int 2, .int 3]
    let w : World := World.bind ⟨Heap.openScope {} none, "", #[]⟩ 0 "x" (.int 5)
    ∃ params body vs, callee.Gives (apply 2) 0 w (.function params body 0) w ∧
      ExprsGive (apply 2) 0 args w vs w ∧ ∃ w', ((Expr.call callee args).eval 2 0).run w =
        (.ok (.array [.int 3, .int 2, .int 5, .builtin .len]), w') := by
  intro callee args w
  have hf : callee.Gives (apply 2) 0 w (.function ["a", "b", "a", "len"]
      [.expr (.array [.ident "a", .ident "b", .ident "x", .ident "len"])] 0) w := ⟨rfl, rfl⟩
  have hargs : ExprsGive (apply 2) 0 args w [.int 1, .int 2, .int 3] w :=
    .cons ⟨rfl, rfl⟩ (.cons ⟨rfl, rfl⟩ (.cons ⟨rfl, rfl⟩ (.nil w)))
  obtain ⟨hrun, -, hident, hbound, hfree, -⟩ := Expr.call_binds hf hargs
  have ha : LastAt ["a", "b", "a", "len"] 3 "a" 2 := ⟨by decide, rfl, by omega⟩
  have hb : LastAt ["a", "b", "a", "len"] 3 "b" 1 := ⟨by decide, rfl, by
    intro j hj hm
    obtain rfl : j = 2 := by omega
    decide⟩
  have hx : w.heap.resolve 0 "x" = .ok (.int 5) := Heap.resolve_of_get? (Heap.get?_of_own rfl rfl)
  have hlen : w.heap.resolve 0 "len" = .ok (.builtin .len) := by
    rw [Heap.resolve, Heap.get?]
    rfl
  have hitem {y : String} {v : Value} (hv : v.isReturned = false) (hy : Heap.resolve _ _ y = .ok v) :
      (Expr.ident y).Gives (apply 1) 1 _ v _ := ⟨(hident y).trans (by rw [hy]; rfl), hv⟩
  have hbody := Expr.gives_array (.cons (hitem rfl (hbound _ _ _ ha rfl))
    (.cons (hitem rfl (hbound _ _ _ hb rfl)) (.cons (hitem rfl ((hfree "x" (by decide)).trans hx))
      (.cons (hitem rfl ((hfree "len" (by decide)).trans hlen)) (.nil _)))))
  exact ⟨_, _, _, hf, hargs, _, hrun.trans hbody.program⟩

end MonkeyLang
