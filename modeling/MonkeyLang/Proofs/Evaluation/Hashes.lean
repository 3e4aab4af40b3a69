import Mathlib
import MonkeyLang.Proofs.Equality
import MonkeyLang.Proofs.Evaluation.Composition

namespace MonkeyLang

open Eval
open Table (BindsLast keys)

theorem HashKey.value_injective : Function.Injective HashKey.value := by
  intro k k' h
  cases k <;> cases k' <;> cases h <;> rfl

namespace Value

theorem key_eq_ok_iff {v : Value} {k : HashKey} : v.key = .ok k ↔ v = k.value := by
  cases k <;> cases v <;> simp [key, HashKey.value]

theorem key_value (k : HashKey) : k.value.key = .ok k := key_eq_ok_iff.mpr rfl

/-- What is no key is refused by its type. -/
theorem key_of_unhashable {v : Value} (h : ∀ k : HashKey, v ≠ k.value) :
    v.key = .error (.notHashable v.typeName) := by
  cases v with
  | string t => exact absurd rfl (h (.string t))
  | int n => exact absurd rfl (h (.int n))
  | bool b => exact absurd rfl (h (.bool b))
  | _ => rfl

theorem index_hash (t : Table HashKey Value) (k : HashKey) :
    (hash t).index k.value = .ok ((t.get? k).getD .null) := by
  rw [index, key_value]
  rfl

end Value

/-- From the first world the expression comes to a value, which is not on its way out, and leaves
the second one. -/
structure Expr.Gives (app : Application) (s : ScopeId) (e : Expr) (w : World) (v : Value)
    (w' : World) : Prop where
  run : (e.evalWith app s).run w = (.ok v, w')
  stays : v.isReturned = false

/-- The keys and values of the pairs, evaluated in turn, each key before its value. -/
inductive PairsGive (app : Application) (s : ScopeId) :
    List (Expr × Expr) → World → List (HashKey × Value) → World → Prop
  | nil (w : World) : PairsGive app s [] w [] w
  | cons {k e : Expr} {ps : List (Expr × Expr)} {w w₁ w₂ w₃ : World} {key : HashKey} {v : Value}
      {kvs : List (HashKey × Value)} (hk : k.Gives app s w key.value w₁)
      (he : e.Gives app s w₁ v w₂) (hps : PairsGive app s ps w₂ kvs w₃) :
      PairsGive app s ((k, e) :: ps) w ((key, v) :: kvs) w₃

variable {app : Application} {s : ScopeId} {ps : List (Expr × Expr)} {w w₁ : World}
  {kvs : List (HashKey × Value)}

theorem Expr.Gives.program {depth : Nat} {e : Expr} {v : Value}
    (h : e.Gives (apply depth) s w v w₁) :
    (Program.eval depth s [.expr e]).run w = (.ok v, w₁) := by
  have ht : ((Stmt.expr e).eval depth s).run w = (.ok v, w₁) := h.run
  rw [Program.run_single, ht, Except.map, Value.unwrap_eq_self h.stays]

theorem Expr.gives_builtin {x : String} {b : Builtin} (hb : Builtin.ofName? x = some b)
    (hx : w.heap.get? s x = none) : (Expr.ident x).Gives app s w (.builtin b) w := by
  refine ⟨?_, rfl⟩
  rw [Expr.evalWith, name, run_bind, run_lookup, hx, hb]
  rfl

theorem run_evalPairs_cons {k e : Expr} {t : Table HashKey Value} {key : HashKey}
    (hk : k.Gives app s w key.value w₁) :
    (evalPairs app s t ((k, e) :: ps)).run w =
      (operand (e.evalWith app s) fun v => evalPairs app s (t.insert key v) ps).run w₁ := by
  rw [evalPairs, run_operand hk.run hk.stays, Value.key_value]
  rfl

theorem PairsGive.run_append (h : PairsGive app s ps w kvs w₁) (t : Table HashKey Value)
    (qs : List (Expr × Expr)) :
    (evalPairs app s t (ps ++ qs)).run w =
      (evalPairs app s (kvs.foldl (fun t p => Table.insert p.1 p.2 t) t) qs).run w₁ := by
  induction h generalizing t with
  | nil => rfl
  | cons hk he _ ih =>
    rw [List.cons_append, run_evalPairs_cons hk, run_operand he.run he.stays, ih]
    rfl

theorem pairsGive_of_run {t : Table HashKey Value} {v : Value}
    (h : (evalPairs app s t ps).run w = (.ok v, w₁)) (hv : v.isReturned = false) :
    ∃ kvs, PairsGive app s ps w kvs w₁ ∧
      v = .hash (kvs.foldl (fun t p => Table.insert p.1 p.2 t) t) := by
  induction ps generalizing t w with
  | nil =>
    cases h
    exact ⟨[], .nil _, rfl⟩
  | cons p ps ih =>
    obtain ⟨k, e⟩ := p
    rw [evalPairs] at h
    obtain ⟨u, w', hk, hu, h⟩ := run_operand_inv h hv
    cases hkey : u.key with
    | error f =>
      rw [hkey] at h
      cases h
    | ok key =>
      rw [hkey] at h
      cases Value.key_eq_ok_iff.mp hkey
      obtain ⟨x, w'', he, hx, h⟩ := run_operand_inv h hv
      obtain ⟨kvs, hps, rfl⟩ := ih h
      exact ⟨(key, x) :: kvs, .cons ⟨hk, hu⟩ ⟨he, hx⟩ hps, rfl⟩

/-- A hash literal has a value exactly if all its pairs have, and then it is the table of these. -/
theorem Expr.hash_gives_iff {v : Value} : (Expr.hash ps).Gives app s w v w₁ ↔
    ∃ kvs, PairsGive app s ps w kvs w₁ ∧ v = .hash (Table.ofList kvs) := by
  constructor
  · rintro ⟨hrun, hv⟩
    exact pairsGive_of_run hrun hv
  · rintro ⟨kvs, h, rfl⟩
    have hrun := h.run_append [] []
    rw [List.append_nil] at hrun
    exact ⟨hrun, rfl⟩

theorem PairsGive.run_unhashable (h : PairsGive app s ps w kvs w₁) {k : Expr} {u : Value}
    {w₂ : World} (hk : k.Gives app s w₁ u w₂) (hu : ∀ key : HashKey, u ≠ key.value) (e : Expr)
    (qs : List (Expr × Expr)) :
    ((Expr.hash (ps ++ (k, e) :: qs)).evalWith app s).run w =
      (.error (.fault (.notHashable u.typeName)), w₂) := by
  rw [Expr.evalWith, h.run_append, evalPairs, run_operand hk.run hk.stays,
    Value.key_of_unhashable hu]
  rfl

theorem Expr.Gives.ordered {depth : Nat} {e : Expr} {v : Value} (h : e.Gives (apply depth) s w v w₁)
    (hw : w.heap.Holds Value.Ordered) : v.Ordered ∧ w₁.heap.Holds Value.Ordered := by
  obtain ⟨hv, hw₁⟩ := Program.ordered depth s [.expr e] hw
  rw [h.program] at hv hw₁
  exact ⟨hv v rfl, hw₁⟩

theorem PairsGive.ordered {depth : Nat} (h : PairsGive (apply depth) s ps w kvs w₁)
    (hw : w.heap.Holds Value.Ordered) : ∀ p ∈ kvs, p.2.Ordered := by
  induction h with
  | nil => simp
  | cons hk he _ ih =>
    obtain ⟨hv, hw₂⟩ := he.ordered (hk.ordered hw).2
    exact List.forall_mem_cons.mpr ⟨hv, ih hw₂⟩

/-- A hash literal whose pairs have values is their table: it has an entry for each different key,
and gives for a key what the last pair with it has. Literals with the same last pairs give the same
and are equal, as no hash among their values binds a key twice. What cannot be a key stops a literal
as soon as it is evaluated. -/
theorem Expr.hash_last_wins {depth : Nat} (h : PairsGive (apply depth) s ps w kvs w₁) :
    let t := Table.ofList kvs
    ((Expr.hash ps).eval depth s).run w = (.ok (.hash t), w₁) ∧
    t.length = ((keys kvs).map HashKey.value).dedup.length ∧
    (w.heap.Holds Value.Ordered → ∀ p ∈ kvs, p.2.Keyed) ∧
    (∀ k : HashKey,
      (∀ v, BindsLast kvs k v → (Value.hash t).index k.value = .ok v) ∧
      (k ∉ keys kvs → (Value.hash t).index k.value = .ok .null)) ∧
    (∀ depth' s' ps' w' kvs' w₁', PairsGive (apply depth') s' ps' w' kvs' w₁' →
      (∀ k v, BindsLast kvs k v ↔ BindsLast kvs' k v) →
        ∃ t', ((Expr.hash ps').eval depth' s').run w' = (.ok (.hash t'), w₁') ∧
          (∀ u, (Value.hash t).index u = (Value.hash t').index u) ∧
          ((∀ p ∈ kvs, p.2.Keyed) →
            (Value.hash t).binary .eq (.hash t') = .ok (.bool true))) ∧
    (∀ (k e : Expr) (qs : List (Expr × Expr)) (u : Value) (w₂ : World),
      k.Gives (apply depth) s w₁ u w₂ → (∀ key : HashKey, u ≠ key.value) →
        ((Expr.hash (ps ++ (k, e) :: qs)).eval depth s).run w =
          (.error (.fault (.notHashable u.typeName)), w₂)) := by
  intro t
  refine ⟨(Expr.hash_gives_iff.mpr ⟨kvs, h, rfl⟩).run, ?_, fun hw p hp => (h.ordered hw p hp).keyed,
    fun k => ⟨fun v hv => ?_, fun hk => ?_⟩,
    fun depth' s' ps' w' kvs' w₁' h' hsame => ?_,
    fun k e qs u w₂ hk hu => h.run_unhashable hk hu e qs⟩
  · rw [List.dedup_map_of_injective HashKey.value_injective, List.length_map]
    exact Table.length_ofList kvs
  · rw [Value.index_hash, Table.get?_ofList_eq_some_iff.mpr hv]
    rfl
  · rw [Value.index_hash, Table.get?_eq_none_iff.mpr fun hm => hk (Table.mem_keys_ofList.mp hm)]
    rfl
  · have ht : t = Table.ofList kvs' := Table.ofList_eq_iff.mpr hsame
    refine ⟨t, ?_, fun u => rfl, fun hkeyed => ?_⟩
    · rw [ht]
      exact (Expr.hash_gives_iff.mpr ⟨kvs', h', rfl⟩).run
    · have hself : (Value.hash t).equals (.hash t) = true := by
        refine Value.equals_self (Value.keyed_hash.mpr ⟨?_, fun p hp => ?_⟩)
        · exact (Table.sorted_ofList kvs).keys_nodup
        · exact hkeyed p (Table.mem_of_mem_ofList hp)
      rw [(Value.binary_equality fun _ _ he => by cases he).1, hself]

theorem Expr.hash_last_wins_effects :
    let ps : List (Expr × Expr) := [(.int 1, .string "a"),
      (.string "1", .call (.ident "puts") [.string "x"]), (.int 1, .ident "len")]
    let w₁ : World := (World.note {} (.called .puts 1)).print "x\n"
    let kvs : List (HashKey × Value) :=
      [(.int 1, .string "a"), (.string "1", .null), (.int 1, .builtin .len)]
    PairsGive (apply 1) 0 ps {} kvs w₁ ∧
      ((Expr.hash ps).eval 1 0).run {} =
        (.ok (.hash [(.string "1", .null), (.int 1, .builtin .len)]), w₁) ∧
      ((Expr.hash (ps ++ [(.array [], .ident "y"), (.ident "z", .int 2)])).eval 1 0).run {} =
        (.error (.fault (.notHashable "ARRAY")), w₁) := by
  intro ps w₁ kvs
  have hfree : ∀ x, Heap.get? {} 0 x = none := by
    intro x
    rw [Heap.get?]
    rfl
  have hputs : (Expr.ident "puts").Gives (apply 1) 0 {} (.builtin .puts) {} :=
    Expr.gives_builtin (Builtin.ofName?_name .puts) (hfree _)
  have hcall : (Expr.call (.ident "puts") [.string "x"]).Gives (apply 1) 0 {} .null w₁ := by
    refine ⟨?_, rfl⟩
    rw [Expr.evalWith, run_operand hputs.run rfl]
    rfl
  have hlen : (Expr.ident "len").Gives (apply 1) 0 w₁ (.builtin .len) w₁ :=
    Expr.gives_builtin (Builtin.ofName?_name .len) (hfree _)
  have h : PairsGive (apply 1) 0 ps {} kvs w₁ :=
    .cons ⟨rfl, rfl⟩ ⟨rfl, rfl⟩ (.cons ⟨rfl, rfl⟩ hcall (.cons ⟨rfl, rfl⟩ hlen (.nil w₁)))
  obtain ⟨hrun, -, -, -, -, hbad⟩ := Expr.hash_last_wins h
  refine ⟨h, hrun, hbad (.array []) _ _ (.array []) w₁ ⟨rfl, rfl⟩ fun key hkey => ?_⟩
  cases key <;> cases hkey

end MonkeyLang
