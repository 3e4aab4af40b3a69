import Mathlib
import MonkeyLang.Proofs.Evaluation.Lockstep
import MonkeyLang.Proofs.Tables

namespace MonkeyLang

namespace Value

mutual

/-- The value with the entries of each hash in it, at any depth, in the order of their keys. -/
def canonical : Value → Value
  | .array items => .array (canonicalItems items)
  | .hash entries => .hash (Table.ofList (canonicalEntries entries))
  | .returned v => .returned v.canonical
  | .null => .null
  | .int n => .int n
  | .bool b => .bool b
  | .string t => .string t
  | .builtin b => .builtin b
  | .function params body scope => .function params body scope

def canonicalItems : List Value → List Value
  | [] => []
  | v :: vs => v.canonical :: canonicalItems vs

def canonicalEntries : List (HashKey × Value) → List (HashKey × Value)
  | [] => []
  | (k, v) :: es => (k, v.canonical) :: canonicalEntries es

end

theorem canonicalEntries_eq_mapValues (es : Table HashKey Value) :
    canonicalEntries es = es.mapValues canonical := by
  induction es with
  | nil => rfl
  | cons e es ih =>
    rw [canonicalEntries, ih]
    rfl

mutual

/-- The table of each hash in the value, at any depth, has a property. -/
def Hashes (T : Table HashKey Value → Prop) : Value → Prop
  | .array items => HashesItems T items
  | .hash entries => T entries ∧ HashesEntries T entries
  | .returned v => v.Hashes T
  | .null | .int _ | .bool _ | .string _ | .builtin _ | .function _ _ _ => True

def HashesItems (T : Table HashKey Value → Prop) : List Value → Prop
  | [] => True
  | v :: vs => v.Hashes T ∧ HashesItems T vs

def HashesEntries (T : Table HashKey Value → Prop) : List (HashKey × Value) → Prop
  | [] => True
  | (_, v) :: es => v.Hashes T ∧ HashesEntries T es

end

/-- No hash in the value binds a key twice. -/
def Keyed (v : Value) : Prop := v.Hashes fun t => t.keys.Nodup

/-- The entries of each hash in the value are in the order of their keys. -/
def Ordered (v : Value) : Prop := v.Hashes Table.Sorted

variable {T : Table HashKey Value → Prop}

theorem hashesItems_iff {vs : List Value} : HashesItems T vs ↔ ∀ v ∈ vs, v.Hashes T := by
  induction vs with
  | nil => simp [HashesItems]
  | cons v vs ih => simp [HashesItems, ih]

theorem hashesEntries_iff {es : List (HashKey × Value)} :
    HashesEntries T es ↔ ∀ e ∈ es, e.2.Hashes T := by
  induction es with
  | nil => simp [HashesEntries]
  | cons e es ih => simp [HashesEntries, ih]

mutual

theorem Hashes.mono {T' : Table HashKey Value → Prop} (h : ∀ t, T t → T' t) :
    ∀ v : Value, v.Hashes T → v.Hashes T'
  | .null, _ | .int _, _ | .bool _, _ | .string _, _ | .builtin _, _ => trivial
  | .function _ _ _, _ => trivial
  | .array items, hv => HashesItems.mono h items hv
  | .hash entries, ⟨ht, hv⟩ => ⟨h entries ht, HashesEntries.mono h entries hv⟩
  | .returned v, hv => Hashes.mono h v hv

theorem HashesItems.mono {T' : Table HashKey Value → Prop} (h : ∀ t, T t → T' t) :
    ∀ vs : List Value, HashesItems T vs → HashesItems T' vs
  | [], _ => trivial
  | v :: vs, ⟨hv, hvs⟩ => ⟨Hashes.mono h v hv, HashesItems.mono h vs hvs⟩

theorem HashesEntries.mono {T' : Table HashKey Value → Prop} (h : ∀ t, T t → T' t) :
    ∀ es : List (HashKey × Value), HashesEntries T es → HashesEntries T' es
  | [], _ => trivial
  | (_, v) :: es, ⟨hv, hes⟩ => ⟨Hashes.mono h v hv, HashesEntries.mono h es hes⟩

end

theorem Ordered.keyed {v : Value} (h : v.Ordered) : v.Keyed :=
  Hashes.mono (fun _ => Table.Sorted.keys_nodup) v h

theorem keyed_array {vs : List Value} : (array vs).Keyed ↔ ∀ v ∈ vs, v.Keyed := hashesItems_iff

theorem keyed_hash {es : Table HashKey Value} :
    (hash es).Keyed ↔ es.keys.Nodup ∧ ∀ e ∈ es, e.2.Keyed :=
  and_congr_right fun _ => hashesEntries_iff

theorem equalEntries_iff {es : List (HashKey × Value)} {t : Table HashKey Value} :
    equalEntries es t = true ↔ ∀ e ∈ es, ∃ w, t.get? e.1 = some w ∧ e.2.equals w = true := by
  induction es with
  | nil => simp [equalEntries]
  | cons e es ih => simp [equalEntries, ih, Option.any_eq_true]

/-- Hashes are equal exactly if they give equal answers for every key. -/
theorem equals_hash_iff {es es' : Table HashKey Value} (h : es.keys.Nodup) (h' : es'.keys.Nodup) :
    (hash es).equals (hash es') = true ↔
      ∀ k, Option.Rel (fun v w => v.equals w = true) (es.get? k) (es'.get? k) := by
  rw [equals, Bool.and_eq_true, equalEntries_iff, decide_eq_true_eq]
  exact Table.covers_iff (R := fun v w : Value => v.equals w = true) h h'

mutual

/-- Equality is sameness once the entries of hashes are in order. -/
theorem equals_iff_canonical :
    ∀ {a b : Value}, a.Keyed → b.Keyed → (a.equals b = true ↔ a.canonical = b.canonical)
  | .null, b, _, _ => by cases b <;> simp [equals, canonical]
  | .int _, b, _, _ => by cases b <;> simp [equals, canonical]
  | .bool _, b, _, _ => by cases b <;> simp [equals, canonical]
  | .string _, b, _, _ => by cases b <;> simp [equals, canonical]
  | .builtin c, b, _, _ => by
    cases b with
    | builtin d => cases c <;> cases d <;> simp [equals, canonical, Builtin.name]
    | _ => simp [equals, canonical]
  | .function _ _ _, b, _, _ => by
    cases b with
    | function _ _ _ => simp [equals, canonical, and_assoc, and_left_comm, and_comm]
    | _ => simp [equals, canonical]
  | .array xs, b, ha, hb => by
    cases b with
    | array ys =>
      rw [equals, equalItems_iff_canonical ha hb]
      simp [canonical]
    | _ => simp [equals, canonical]
  | .hash es, b, ha, hb => by
    cases b with
    | hash es' =>
      obtain ⟨hk, he⟩ := ha
      obtain ⟨hk', he'⟩ := hb
      rw [equals_hash_iff hk hk', canonical, canonical, hash.injEq]
      rw [canonicalEntries_eq_mapValues, canonicalEntries_eq_mapValues,
        Table.ofList_mapValues_eq_iff hk hk']
      refine forall_congr' fun k => Table.rel_congr fun v w hv hw => ?_
      have hw := hashesEntries_iff.mp he' _ (Table.mem_of_get?_eq_some hw)
      exact entries_iff_canonical he _ (Table.mem_of_get?_eq_some hv) hw
    | _ => simp [equals, canonical]
  | .returned v, b, ha, hb => by
    cases b with
    | returned w =>
      have hv : v.equals w = true ↔ v.canonical = w.canonical := equals_iff_canonical ha hb
      simp [equals, canonical, hv]
    | _ => simp [equals, canonical]

theorem equalItems_iff_canonical : ∀ {xs ys : List Value}, HashesItems (·.keys.Nodup) xs →
    HashesItems (·.keys.Nodup) ys →
      (equalItems xs ys = true ↔ canonicalItems xs = canonicalItems ys)
  | [], ys, _, _ => by cases ys <;> simp [equalItems, canonicalItems]
  | x :: xs, [], _, _ => by simp [equalItems, canonicalItems]
  | x :: xs, y :: ys, ⟨hx, hxs⟩, ⟨hy, hys⟩ => by
    rw [equalItems, Bool.and_eq_true, equals_iff_canonical hx hy, equalItems_iff_canonical hxs hys]
    simp [canonicalItems]

theorem entries_iff_canonical : ∀ {es : List (HashKey × Value)}, HashesEntries (·.keys.Nodup) es →
    ∀ e ∈ es, ∀ {w : Value}, w.Keyed → (e.2.equals w = true ↔ e.2.canonical = w.canonical)
  | [], _, _, he, _, _ => absurd he List.not_mem_nil
  | (k, v) :: es, ⟨hv, hes⟩, e, he, w, hw => by
    rcases List.mem_cons.mp he with rfl | he
    · exact equals_iff_canonical hv hw
    · exact entries_iff_canonical hes e he hw

end

theorem equals_self {a : Value} (ha : a.Keyed) : a.equals a = true :=
  (equals_iff_canonical ha ha).mpr rfl

theorem equals_comm {a b : Value} (ha : a.Keyed) (hb : b.Keyed) : a.equals b = b.equals a := by
  rw [Bool.eq_iff_iff, equals_iff_canonical ha hb, equals_iff_canonical hb ha, eq_comm]

theorem equals_trans {a b c : Value} (ha : a.Keyed) (hb : b.Keyed) (hc : c.Keyed)
    (hab : a.equals b = true) (hbc : b.equals c = true) : a.equals c = true := by
  rw [equals_iff_canonical ha hb] at hab
  rw [equals_iff_canonical hb hc] at hbc
  exact (equals_iff_canonical ha hc).mpr (hab.trans hbc)

theorem keyed_perm {es es' : Table HashKey Value} (hp : es.Perm es') (h : (hash es).Keyed) :
    (hash es').Keyed := by
  obtain ⟨hk, he⟩ := keyed_hash.mp h
  exact keyed_hash.mpr ⟨(hp.map Prod.fst).nodup_iff.mp hk, fun e hm => he e (hp.mem_iff.mpr hm)⟩

theorem canonical_perm {es es' : Table HashKey Value} (hp : es.Perm es') (h : es.keys.Nodup) :
    (hash es).canonical = (hash es').canonical := by
  have h' : es'.keys.Nodup := (hp.map Prod.fst).nodup_iff.mp h
  rw [canonical, canonical, canonicalEntries_eq_mapValues, canonicalEntries_eq_mapValues,
    (Table.ofList_mapValues_eq_iff h h').mpr]
  intro k
  rw [← Table.map_eq_map_iff_rel, Table.get?_perm hp h]

/-- No comparison depends on the order in which the entries of a hash stand. -/
theorem equals_perm {es es' : Table HashKey Value} {v : Value} (hp : es.Perm es')
    (h : (hash es).Keyed) (hv : v.Keyed) : (hash es).equals v = (hash es').equals v := by
  rw [Bool.eq_iff_iff, equals_iff_canonical h hv, equals_iff_canonical (keyed_perm hp h) hv,
    canonical_perm hp (keyed_hash.mp h).1]

theorem equalItems_iff {xs ys : List Value} :
    equalItems xs ys = true ↔ List.Forall₂ (fun x y => x.equals y = true) xs ys := by
  induction xs generalizing ys with
  | nil => cases ys <;> simp [equalItems]
  | cons x xs ih => cases ys <;> simp [equalItems, ih]

theorem equals_function_iff {ps ps' : List String} {body body' : Block} {s s' : ScopeId} :
    (function ps body s).equals (function ps' body' s') = true ↔
      ps = ps' ∧ body = body' ∧ s = s' := by
  simp [equals, and_assoc, and_left_comm, and_comm]

theorem equals_builtin_iff {c d : Builtin} : (builtin c).equals (builtin d) = true ↔ c = d := by
  cases c <;> cases d <;> simp [equals, Builtin.name]

/-- Both operators take the same way for all operands but two strings. -/
theorem binary_equality {u v : Value} (h : ∀ s t, u = .string s → v ≠ .string t) :
    u.binary .eq v = .ok (.bool (u.equals v)) ∧ u.binary .notEq v = .ok (.bool (!u.equals v)) := by
  by_cases hi : ∃ m n, u = .int m ∧ v = .int n
  · obtain ⟨m, n, rfl, rfl⟩ := hi
    simp [binary, onInts, equals]
  · have hi' : ∀ m n, u = .int m → v ≠ .int n := fun m n hu hv => hi ⟨m, n, hu, hv⟩
    exact ⟨binary_mixed hi' h .eq, binary_mixed hi' h .notEq⟩

mutual

theorem canonical_eq_self : ∀ {v : Value}, v.Ordered → v.canonical = v
  | .null, _ | .int _, _ | .bool _, _ | .string _, _ | .builtin _, _ => rfl
  | .function _ _ _, _ => rfl
  | .array _, h => congrArg array (canonicalItems_eq_self h)
  | .hash es, ⟨hs, he⟩ => by
    have hof : Table.ofList es = es :=
      (Table.sorted_ofList es).ext hs (Table.get?_ofList hs.keys_nodup)
    rw [canonical, canonicalEntries_eq_self he, hof]
  | .returned _, h => congrArg returned (canonical_eq_self h)

theorem canonicalItems_eq_self :
    ∀ {vs : List Value}, HashesItems Table.Sorted vs → canonicalItems vs = vs
  | [], _ => rfl
  | v :: vs, ⟨hv, hvs⟩ => by
    rw [canonicalItems, canonicalItems_eq_self hvs, canonical_eq_self hv]

theorem canonicalEntries_eq_self :
    ∀ {es : List (HashKey × Value)}, HashesEntries Table.Sorted es → canonicalEntries es = es
  | [], _ => rfl
  | (k, v) :: es, ⟨hv, hes⟩ => by
    rw [canonicalEntries, canonicalEntries_eq_self hes, canonical_eq_self hv]

end

/-- Where the entries of hashes are in order, equality is sameness. -/
theorem equals_iff_eq {a b : Value} (ha : a.Ordered) (hb : b.Ordered) :
    a.equals b = true ↔ a = b := by
  rw [equals_iff_canonical ha.keyed hb.keyed, canonical_eq_self ha, canonical_eq_self hb]

theorem hereditary_ordered : Hereditary Ordered where
  null := trivial
  int _ := trivial
  bool _ := trivial
  string _ := trivial
  builtin _ := trivial
  array := hashesItems_iff
  hashNil := ⟨.nil, trivial⟩
  hashInsert {_ k v} ht hv :=
    ⟨Table.sorted_insert k v ht.1,
      hashesEntries_iff.mpr (Table.forall_insert hv (hashesEntries_iff.mp ht.2))⟩
  hashMem ht := hashesEntries_iff.mp ht.2

end Value

theorem World.lockstep_ordered : Lockstep (fun _ => True) Value.Ordered
    (fun w w' => w' = w ∧ w.heap.Holds Value.Ordered) where
  hereditary := Value.hereditary_ordered
  returned := Iff.rfl
  function := ⟨fun _ _ _ => trivial, fun _ => trivial⟩
  holds h := h.2
  get? h _ _ _ := by rw [h.1]
  size h := by rw [h.1]
  openScope h _ := ⟨by rw [h.1], h.2.openScope _⟩
  bind h s _ _ _ hv := ⟨by rw [h.1], h.2.bind hv s _⟩
  print h _ := ⟨by rw [h.1], h.2⟩
  note h _ := ⟨by rw [h.1], h.2⟩

/-- The hashes that programs build have their entries in order, so no value that a program comes to
has a hash that binds a key twice. -/
theorem Program.ordered (depth : Nat) (s : ScopeId) (p : Program) {w : World}
    (hw : w.heap.Holds Value.Ordered) :
    (∀ v, ((p.eval depth s).run w).1 = .ok v → v.Ordered) ∧
      ((p.eval depth s).run w).2.heap.Holds Value.Ordered := by
  obtain ⟨-, hv, -, hw'⟩ :=
    World.lockstep_ordered.program depth s (fun _ _ => trivial) ⟨rfl, hw⟩ (p := p)
  exact ⟨hv, hw'⟩

/-- Equality of values is an equivalence that goes by content, where a scope counts by its place
alone, and the operators agree with it except between two strings. -/
theorem Value.equality_by_content {a b c : Value} (ha : a.Keyed) (hb : b.Keyed) (hc : c.Keyed) :
    (a.equals a = true ∧ a.equals b = b.equals a ∧
      (a.equals b = true → b.equals c = true → a.equals c = true)) ∧
    (∀ es es' : Table HashKey Value, (hash es).Keyed → es.Perm es' →
      (hash es).equals (hash es') = true ∧ (hash es).equals a = (hash es').equals a) ∧
    (∀ es es' : Table HashKey Value, (hash es).Keyed → (hash es').Keyed →
      ((hash es).equals (hash es') = true ↔
        ∀ k, Option.Rel (fun v w => v.equals w = true) (es.get? k) (es'.get? k))) ∧
    (∀ xs ys, (array xs).equals (array ys) = true ↔
      List.Forall₂ (fun x y => x.equals y = true) xs ys) ∧
    (∀ u v, (returned u).equals (returned v) = u.equals v) ∧
    (∀ s t, (string s).equals (string t) = true ↔ s = t) ∧
    (∀ d e, (builtin d).equals (builtin e) = true ↔ d = e) ∧
    (∀ ps ps' body body' s s', (function ps body s).equals (function ps' body' s') = true ↔
      ps = ps' ∧ body = body' ∧ s = s') ∧
    (∀ ρ : ScopeId → ScopeId, ρ.Injective → (a.rename ρ).equals (b.rename ρ) = a.equals b) ∧
    (∀ u v : Value, (∀ s t, u = string s → v ≠ string t) →
      u.binary .eq v = .ok (bool (u.equals v)) ∧ u.binary .notEq v = .ok (bool (!u.equals v))) ∧
    (∀ s t, (string s).binary .eq (string t) = .error (.unknownBinary "STRING" .eq "STRING") ∧
      (string s).binary .notEq (string t) = .error (.unknownBinary "STRING" .notEq "STRING")) := by
  refine ⟨⟨equals_self ha, equals_comm ha hb, equals_trans ha hb hc⟩, fun es es' h hp => ?_,
    fun es es' h h' => equals_hash_iff (keyed_hash.mp h).1 (keyed_hash.mp h').1,
    fun _ _ => equalItems_iff, fun _ _ => rfl, fun s t => ?_, fun _ _ => equals_builtin_iff,
    fun _ _ _ _ _ _ => equals_function_iff, fun ρ hρ => equals_rename hρ a b,
    fun _ _ => binary_equality, fun _ _ => ⟨rfl, rfl⟩⟩
  · refine ⟨?_, equals_perm hp h ha⟩
    rw [equals_perm hp h (keyed_perm hp h)]
    exact equals_self (keyed_perm hp h)
  · simp [equals]

theorem Value.equality_by_content_closure :
    let f : Value := .function ["x"] [.expr (.ident "f")] 0
    let h : Heap := (Heap.openScope {} none).bind 0 "f" f
    let es : Table HashKey Value := [(.string "f", f), (.int 1, .array [.string "a"])]
    let es' : Table HashKey Value := [(.int 1, .array [.string "a"]), (.string "f", f)]
    h.get? 0 "f" = some f ∧ (hash es).Keyed ∧ (hash es').Keyed ∧ es.Perm es' ∧
      (hash es).equals (hash es') = true ∧ (hash es').equals (hash es) = true ∧
      (hash es').equals f = false ∧
      (hash es).binary .eq (hash es') = .ok (.bool true) ∧
      (string "a").binary .eq (string "a") = .error (.unknownBinary "STRING" .eq "STRING") := by
  intro f h es es'
  have hf : f.Keyed := trivial
  have hget : h.get? 0 "f" = some f := by cbv
  have he : (hash es).Keyed := by simp [es, f, Keyed, Hashes, HashesEntries, HashesItems, Table.keys]
  have he' : (hash es').Keyed := keyed_perm (.swap _ _ _) he
  have hp : es.Perm es' := .swap _ _ _
  obtain ⟨⟨-, hcomm, -⟩, hperm, -, -, -, -, -, -, -, hop, hs⟩ := equality_by_content he he' hf
  obtain ⟨heq, -⟩ := hperm es es' he hp
  have hstring : ∀ s t, hash es = string s → hash es' ≠ string t := by
    rintro s t ⟨⟩
  have hbin := (hop (hash es) (hash es') hstring).1
  exact ⟨hget, he, he', hp, heq, hcomm ▸ heq, rfl, heq ▸ hbin, (hs "a" "a").1⟩

end MonkeyLang
