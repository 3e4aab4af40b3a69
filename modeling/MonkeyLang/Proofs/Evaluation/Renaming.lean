import Mathlib.Logic.Function.Basic
import MonkeyLang.Builtin.Call
import MonkeyLang.Heap

namespace MonkeyLang

namespace Value

mutual

/-- The value with other scopes in place of those its functions captured. -/
def rename (ρ : ScopeId → ScopeId) : Value → Value
  | .array items => .array (renameItems ρ items)
  | .hash entries => .hash (renameEntries ρ entries)
  | .function params body scope => .function params body (ρ scope)
  | .returned v => .returned (v.rename ρ)
  | .null => .null
  | .int n => .int n
  | .bool b => .bool b
  | .string t => .string t
  | .builtin b => .builtin b

def renameItems (ρ : ScopeId → ScopeId) : List Value → List Value
  | [] => []
  | v :: vs => v.rename ρ :: renameItems ρ vs

def renameEntries (ρ : ScopeId → ScopeId) : List (HashKey × Value) → List (HashKey × Value)
  | [] => []
  | (k, v) :: es => (k, v.rename ρ) :: renameEntries ρ es

end

variable {ρ : ScopeId → ScopeId}

theorem renameItems_eq_map (vs : List Value) : renameItems ρ vs = vs.map (rename ρ) := by
  induction vs with
  | nil => rfl
  | cons v vs ih => rw [renameItems, ih, List.map_cons]

theorem renameEntries_eq_mapValues (es : Table HashKey Value) :
    renameEntries ρ es = es.mapValues (rename ρ) := by
  induction es with
  | nil => rfl
  | cons e es ih =>
    rw [renameEntries, ih]
    rfl

theorem length_renameEntries (es : Table HashKey Value) :
    (renameEntries ρ es).length = es.length := by
  rw [renameEntries_eq_mapValues]
  exact List.length_map _

mutual

/-- The scopes that the functions in a value captured, one for each function. -/
def captured : Value → List ScopeId
  | .array items => capturedItems items
  | .hash entries => capturedEntries entries
  | .function _ _ scope => [scope]
  | .returned v => v.captured
  | .null | .int _ | .bool _ | .string _ | .builtin _ => []

def capturedItems : List Value → List ScopeId
  | [] => []
  | v :: vs => v.captured ++ capturedItems vs

def capturedEntries : List (HashKey × Value) → List ScopeId
  | [] => []
  | (_, v) :: es => v.captured ++ capturedEntries es

end

theorem mem_capturedItems {s : ScopeId} {vs : List Value} :
    s ∈ capturedItems vs ↔ ∃ v ∈ vs, s ∈ v.captured := by
  induction vs with
  | nil => simp [capturedItems]
  | cons v vs ih => simp [capturedItems, ih]

theorem mem_capturedEntries {s : ScopeId} {es : List (HashKey × Value)} :
    s ∈ capturedEntries es ↔ ∃ e ∈ es, s ∈ e.2.captured := by
  induction es with
  | nil => simp [capturedEntries]
  | cons e es ih => simp [capturedEntries, ih]

mutual

theorem rename_eq_self : ∀ {v : Value}, (∀ s ∈ v.captured, ρ s = s) → v.rename ρ = v
  | .null, _ | .int _, _ | .bool _, _ | .string _, _ | .builtin _, _ => rfl
  | .array _, h => congrArg Value.array (renameItems_eq_self h)
  | .hash _, h => congrArg Value.hash (renameEntries_eq_self h)
  | .function _ _ scope, h => congrArg (Value.function _ _) (h scope (by simp [captured]))
  | .returned _, h => congrArg Value.returned (rename_eq_self h)

theorem renameItems_eq_self :
    ∀ {vs : List Value}, (∀ s ∈ capturedItems vs, ρ s = s) → renameItems ρ vs = vs
  | [], _ => rfl
  | v :: vs, h => by
    have hv : v.rename ρ = v := rename_eq_self fun s hs => h s (List.mem_append_left _ hs)
    have hvs : renameItems ρ vs = vs :=
      renameItems_eq_self fun s hs => h s (List.mem_append_right _ hs)
    rw [renameItems, hv, hvs]

theorem renameEntries_eq_self :
    ∀ {es : List (HashKey × Value)}, (∀ s ∈ capturedEntries es, ρ s = s) →
      renameEntries ρ es = es
  | [], _ => rfl
  | (k, v) :: es, h => by
    have hv : v.rename ρ = v := rename_eq_self fun s hs => h s (List.mem_append_left _ hs)
    have hes : renameEntries ρ es = es :=
      renameEntries_eq_self fun s hs => h s (List.mem_append_right _ hs)
    rw [renameEntries, hv, hes]

end

/-- No function in the value, at any depth. -/
def FunctionFree (v : Value) : Prop := v.captured = []

theorem FunctionFree.rename {v : Value} (h : v.FunctionFree) (ρ : ScopeId → ScopeId) :
    v.rename ρ = v :=
  rename_eq_self fun s hs => absurd hs (by rw [h]; exact List.not_mem_nil)

@[simp] theorem isTrue_rename (v : Value) : (v.rename ρ).isTrue = v.isTrue := by
  cases v <;> rfl

@[simp] theorem isReturned_rename (v : Value) : (v.rename ρ).isReturned = v.isReturned := by
  cases v <;> rfl

@[simp] theorem unwrap_rename (v : Value) : (v.rename ρ).unwrap = v.unwrap.rename ρ := by
  cases v <;> rfl

@[simp] theorem typeName_rename : ∀ v : Value, (v.rename ρ).typeName = v.typeName
  | .returned v => typeName_rename v
  | .null | .int _ | .bool _ | .string _ | .builtin _ => rfl
  | .array _ | .hash _ | .function _ _ _ => rfl

@[simp] theorem key_rename (v : Value) : (v.rename ρ).key = v.key := by
  cases v with
  | returned v =>
    show Except.error (Fault.notHashable (v.rename ρ).typeName) = _
    rw [typeName_rename]
    rfl
  | _ => rfl

mutual

theorem text_rename : ∀ v : Value, (v.rename ρ).text = v.text
  | .null | .int _ | .bool _ | .string _ | .builtin _ | .function _ _ _ => rfl
  | .array items => by rw [rename, text, text, itemTexts_rename items]
  | .hash entries => by rw [rename, text, text, entryTexts_rename entries]
  | .returned v => text_rename v

theorem itemTexts_rename : ∀ vs : List Value, itemTexts (renameItems ρ vs) = itemTexts vs
  | [] => rfl
  | v :: vs => by rw [renameItems, itemTexts, itemTexts, text_rename v, itemTexts_rename vs]

theorem entryTexts_rename :
    ∀ es : List (HashKey × Value), entryTexts (renameEntries ρ es) = entryTexts es
  | [] => rfl
  | (k, v) :: es => by
    rw [renameEntries, entryTexts, entryTexts, text_rename v, entryTexts_rename es]

end

theorem unary_rename (op : Operator) (v : Value) :
    (v.rename ρ).unary op = (v.unary op).map (rename ρ) := by
  have hf : Except.error (ε := Fault) (.unknownUnary op (v.rename ρ).typeName) =
      (.error (.unknownUnary op v.typeName) : Except Fault Value).map (rename ρ) := by
    rw [typeName_rename]
    rfl
  cases op with
  | bang =>
    simp only [unary, isTrue_rename]
    rfl
  | minus =>
    cases v with
    | int n => rfl
    | _ => exact hf
  | _ => exact hf

theorem onInts_rename (m : Int64) (op : Operator) (n : Int64) :
    onInts m op n = (onInts m op n).map (rename ρ) := by
  cases op with
  | slash =>
    by_cases hn : n = 0
    · simp [onInts, hn, Except.map]
    · simp [onInts, hn, Except.map, rename]
  | _ => rfl

theorem onStrings_rename (s : String) (op : Operator) (t : String) :
    onStrings s op t = (onStrings s op t).map (rename ρ) := by
  cases op <;> rfl

theorem rename_eq_int {v : Value} {n : Int64} : v.rename ρ = .int n ↔ v = .int n := by
  cases v <;> simp [rename]

theorem rename_eq_string {v : Value} {t : String} : v.rename ρ = .string t ↔ v = .string t := by
  cases v <;> simp [rename]

mutual

theorem equals_rename (hρ : ρ.Injective) :
    ∀ a b : Value, (a.rename ρ).equals (b.rename ρ) = a.equals b
  | .null, b => by cases b <;> rfl
  | .int _, b => by cases b <;> rfl
  | .bool _, b => by cases b <;> rfl
  | .string _, b => by cases b <;> rfl
  | .builtin _, b => by cases b <;> rfl
  | .array xs, b => by
    cases b with
    | array ys => exact equalItems_rename hρ xs ys
    | _ => rfl
  | .hash es, b => by
    cases b with
    | hash es' => simp only [rename, equals, equalEntries_rename hρ es, length_renameEntries]
    | _ => rfl
  | .function _ _ s, b => by
    cases b with
    | function _ _ s' =>
      -- Functions are compared by the scopes they captured, so `ρ` must not merge any.
      simp only [rename, equals, hρ.eq_iff]
    | _ => rfl
  | .returned v, b => by
    cases b with
    | returned v' => exact equals_rename hρ v v'
    | _ => rfl

theorem equalItems_rename (hρ : ρ.Injective) :
    ∀ xs ys : List Value, equalItems (renameItems ρ xs) (renameItems ρ ys) = equalItems xs ys
  | [], ys => by cases ys <;> rfl
  | x :: xs, ys => by
    cases ys with
    | nil => rfl
    | cons y ys =>
      simp only [renameItems, equalItems, equals_rename hρ x, equalItems_rename hρ xs]

theorem equalEntries_rename (hρ : ρ.Injective) :
    ∀ es es' : List (HashKey × Value),
      equalEntries (renameEntries ρ es) (renameEntries ρ es') = equalEntries es es'
  | [], _ => rfl
  | (k, v) :: es, es' => by
    have hk : (Table.get? k (renameEntries ρ es')).any (fun w => (v.rename ρ).equals w) =
        (Table.get? k es').any fun w => v.equals w := by
      rw [renameEntries_eq_mapValues, Table.get?_mapValues]
      cases Table.get? k es' with
      | none => rfl
      | some w => exact equals_rename hρ v w
    simp only [renameEntries, equalEntries, hk, equalEntries_rename hρ es]

end

theorem binary_mixed {a b : Value} (hi : ∀ m n, a = .int m → b ≠ .int n)
    (hs : ∀ s t, a = .string s → b ≠ .string t) (op : Operator) :
    a.binary op b = match op with
      | .eq => .ok (.bool (a.equals b))
      | .notEq => .ok (.bool (!a.equals b))
      | op => .error (.binary a.typeName op b.typeName) := by
  unfold binary
  split
  · exact absurd rfl (hi _ _ rfl)
  · exact absurd rfl (hs _ _ rfl)
  · rfl

theorem binary_rename (hρ : ρ.Injective) (a : Value) (op : Operator) (b : Value) :
    (a.rename ρ).binary op (b.rename ρ) = (a.binary op b).map (rename ρ) := by
  by_cases hi : ∃ m n, a = .int m ∧ b = .int n
  · obtain ⟨m, n, rfl, rfl⟩ := hi
    exact onInts_rename m op n
  · by_cases hs : ∃ s t, a = .string s ∧ b = .string t
    · obtain ⟨s, t, rfl, rfl⟩ := hs
      exact onStrings_rename s op t
    · have hi' : ∀ m n, a = .int m → b ≠ .int n := fun m n ha hb => hi ⟨m, n, ha, hb⟩
      have hs' : ∀ s t, a = .string s → b ≠ .string t := fun s t ha hb => hs ⟨s, t, ha, hb⟩
      rw [binary_mixed hi' hs', binary_mixed]
      · cases op <;> simp [equals_rename hρ, Except.map, rename]
      · exact fun m n ha hb => hi' m n (rename_eq_int.mp ha) (rename_eq_int.mp hb)
      · exact fun s t ha hb => hs' s t (rename_eq_string.mp ha) (rename_eq_string.mp hb)

theorem getD_rename (o : Option Value) :
    (o.map (rename ρ)).getD .null = (o.getD .null).rename ρ := by
  cases o <;> rfl

theorem item_rename (items : List Value) (i : Int64) :
    item (renameItems ρ items) i = (item items i).rename ρ := by
  unfold item
  split
  · rfl
  · rw [renameItems_eq_map, List.getElem?_map, getD_rename]

theorem index_rename (a b : Value) :
    (a.rename ρ).index (b.rename ρ) = (a.index b).map (rename ρ) := by
  cases a with
  | array items =>
    cases b with
    | int i => exact congrArg Except.ok (item_rename items i)
    | _ => rfl
  | hash entries =>
    simp only [rename, index, key_rename, renameEntries_eq_mapValues, Table.get?_mapValues]
    cases b.key with
    | error f => rfl
    | ok key => exact congrArg Except.ok (getD_rename _)
  | returned v =>
    simp only [rename, index, typeName, typeName_rename]
    rfl
  | _ => rfl

end Value

namespace Builtin

open Value

variable {ρ : ScopeId → ScopeId}

theorem one_rename {f : Value → Except Fault Value}
    (hf : ∀ v, f (v.rename ρ) = (f v).map (rename ρ)) (args : List Value) :
    one f (args.map (rename ρ)) = (one f args).map (rename ρ) := by
  match args with
  | [] => rfl
  | [v] => exact hf v
  | v :: w :: vs => simp [one, Except.map]

theorem two_rename {f : Value → Value → Except Fault Value}
    (hf : ∀ v w, f (v.rename ρ) (w.rename ρ) = (f v w).map (rename ρ)) (args : List Value) :
    two f (args.map (rename ρ)) = (two f args).map (rename ρ) := by
  match args with
  | [] => rfl
  | [v] => rfl
  | [v, w] => exact hf v w
  | u :: v :: w :: vs => simp [two, Except.map]

theorem lenOf_rename (v : Value) : lenOf (v.rename ρ) = (lenOf v).map (rename ρ) := by
  cases v <;> simp [lenOf, rename, Except.map, renameItems_eq_map, typeName]

theorem firstOf_rename (v : Value) : firstOf (v.rename ρ) = (firstOf v).map (rename ρ) := by
  cases v <;> simp [firstOf, rename, Except.map, renameItems_eq_map, typeName, getD_rename]

theorem lastOf_rename (v : Value) : lastOf (v.rename ρ) = (lastOf v).map (rename ρ) := by
  cases v <;> simp [lastOf, rename, Except.map, renameItems_eq_map, typeName, getD_rename]

theorem restOf_rename (v : Value) : restOf (v.rename ρ) = (restOf v).map (rename ρ) := by
  cases v <;> simp [restOf, rename, Except.map, renameItems_eq_map, typeName]

theorem pushOnto_rename (v w : Value) :
    pushOnto (v.rename ρ) (w.rename ρ) = (pushOnto v w).map (rename ρ) := by
  cases v <;> simp [pushOnto, rename, Except.map, renameItems_eq_map, typeName]

theorem result_rename (b : Builtin) (args : List Value) :
    b.result (args.map (rename ρ)) = (b.result args).map (rename ρ) := by
  cases b with
  | len => exact one_rename lenOf_rename args
  | first => exact one_rename firstOf_rename args
  | last => exact one_rename lastOf_rename args
  | rest => exact one_rename restOf_rename args
  | push => exact two_rename pushOnto_rename args
  | puts => rfl

theorem printed_rename (b : Builtin) (args : List Value) :
    b.printed (args.map (rename ρ)) = b.printed args := by
  cases b with
  | puts => simp [printed, Function.comp_def, Value.text_rename]
  | _ => rfl

end Builtin

end MonkeyLang
