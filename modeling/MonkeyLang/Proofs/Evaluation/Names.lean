import MonkeyLang.Proofs.Evaluation.Hereditary

namespace MonkeyLang

mutual

/-- The names that occur in an expression, in function bodies too: identifiers, names that `let`
binds, and parameters. -/
def Expr.names : Expr → List String
  | .ident x => [x]
  | .int _ | .bool _ | .string _ => []
  | .unary _ e => e.names
  | .binary l _ r => l.names ++ r.names
  | .cond test yes none => test.names ++ blockNames yes
  | .cond test yes (some no) => test.names ++ blockNames yes ++ blockNames no
  | .fn params body => params ++ blockNames body
  | .call callee args => callee.names ++ exprsNames args
  | .array items => exprsNames items
  | .hash pairs => pairsNames pairs
  | .index l i => l.names ++ i.names

def Stmt.names : Stmt → List String
  | .bind x e => x :: e.names
  | .ret e => e.names
  | .expr e => e.names
  | .block b => blockNames b

def blockNames : List Stmt → List String
  | [] => []
  | t :: b => t.names ++ blockNames b

def exprsNames : List Expr → List String
  | [] => []
  | e :: es => e.names ++ exprsNames es

def pairsNames : List (Expr × Expr) → List String
  | [] => []
  | (k, e) :: ps => k.names ++ e.names ++ pairsNames ps

end

namespace Value

mutual

/-- The names that occur in the parameters and the bodies of the functions in a value. -/
def names : Value → List String
  | .array items => itemsNames items
  | .hash entries => entriesNames entries
  | .function params body _ => params ++ blockNames body
  | .returned v => v.names
  | .null | .int _ | .bool _ | .string _ | .builtin _ => []

def itemsNames : List Value → List String
  | [] => []
  | v :: vs => v.names ++ itemsNames vs

def entriesNames : List (HashKey × Value) → List String
  | [] => []
  | (_, v) :: es => v.names ++ entriesNames es

end

theorem mem_itemsNames {x : String} {vs : List Value} :
    x ∈ itemsNames vs ↔ ∃ v ∈ vs, x ∈ v.names := by
  induction vs with
  | nil => simp [itemsNames]
  | cons v vs ih => simp [itemsNames, ih]

theorem mem_entriesNames {x : String} {es : List (HashKey × Value)} :
    x ∈ entriesNames es ↔ ∃ e ∈ es, x ∈ e.2.names := by
  induction es with
  | nil => simp [entriesNames]
  | cons e es ih => simp [entriesNames, ih]

theorem names_array {N : String → Prop} {items : List Value} :
    (∀ x ∈ (array items).names, N x) ↔ ∀ v ∈ items, ∀ x ∈ v.names, N x := by
  simp only [names, mem_itemsNames]
  exact ⟨fun h v hv x hx => h x ⟨v, hv, hx⟩, fun h x ⟨v, hv, hx⟩ => h v hv x hx⟩

theorem names_hash {N : String → Prop} {entries : List (HashKey × Value)} :
    (∀ x ∈ (hash entries).names, N x) ↔ ∀ e ∈ entries, ∀ x ∈ e.2.names, N x := by
  simp only [names, mem_entriesNames]
  exact ⟨fun h e he x hx => h x ⟨e, he, hx⟩, fun h x ⟨e, he, hx⟩ => h e he x hx⟩

theorem hereditary_names (N : String → Prop) : Hereditary fun v => ∀ x ∈ v.names, N x where
  null := by simp [names]
  int _ := by simp [names]
  bool _ := by simp [names]
  string _ := by simp [names]
  builtin _ := by simp [names]
  array := names_array
  hashNil := by simp [names, entriesNames]
  hashInsert ht hv := names_hash.mpr
    (Table.forall_insert (P := fun v : Value => ∀ x ∈ v.names, N x) hv (names_hash.mp ht))
  hashMem := names_hash.mp

end Value

end MonkeyLang
