import MonkeyLang.Builtin
import MonkeyLang.Program
import MonkeyLang.Table

namespace MonkeyLang

/-- What can be the key of a hash. Keys of different kinds are different keys. -/
inductive HashKey where
  | string (text : String)
  | int (value : Int64)
  | bool (value : Bool)
  deriving DecidableEq

/-- Texts by code point, then numbers, then truth values. -/
def HashKey.order : HashKey → HashKey → Ordering
  | .string s, .string t => compare s t
  | .string _, _ => .lt
  | .int _, .string _ => .gt
  | .int m, .int n => compare m n
  | .int _, .bool _ => .lt
  | .bool a, .bool b => compare a b
  | .bool _, _ => .gt

instance : Ord HashKey := ⟨HashKey.order⟩

theorem HashKey.compare_eq_order (k k' : HashKey) : compare k k' = k.order k' := rfl

instance : Std.LawfulEqOrd HashKey where
  compare_self {k} := by
    cases k with
    | string s => exact Std.ReflOrd.compare_self (a := s)
    | int n => exact Std.ReflOrd.compare_self (a := n)
    | bool b => exact Std.ReflOrd.compare_self (a := b)
  eq_of_compare {k k'} h := by
    cases k with
    | string s =>
        cases k' with
        | string t => exact congrArg _ (Std.LawfulEqOrd.eq_of_compare h)
        | int _ => cases h
        | bool _ => cases h
    | int m =>
        cases k' with
        | string _ => cases h
        | int n => exact congrArg _ (Std.LawfulEqOrd.eq_of_compare h)
        | bool _ => cases h
    | bool a =>
        cases k' with
        | string _ => cases h
        | int _ => cases h
        | bool b => exact congrArg _ (Std.LawfulEqOrd.eq_of_compare h)

instance : Std.OrientedOrd HashKey where
  eq_swap {k k'} := by
    cases k with
    | string s =>
        cases k' with
        | string t => exact Std.OrientedOrd.eq_swap (a := s) (b := t)
        | int _ => rfl
        | bool _ => rfl
    | int m =>
        cases k' with
        | string _ => rfl
        | int n => exact Std.OrientedOrd.eq_swap (a := m) (b := n)
        | bool _ => rfl
    | bool a =>
        cases k' with
        | string _ => rfl
        | int _ => rfl
        | bool b => exact Std.OrientedOrd.eq_swap (a := a) (b := b)

instance : Std.TransOrd HashKey where
  isLE_trans {k k' l} h h' := by
    cases k <;> cases k' <;> cases l <;> simp [HashKey.compare_eq_order, HashKey.order] at h h' ⊢
    · exact Std.TransOrd.isLE_trans (α := String) h h'
    · exact Std.TransOrd.isLE_trans (α := Int64) h h'
    · exact Std.TransOrd.isLE_trans (α := Bool) h h'

/-- A scope is known by its place in the heap. -/
abbrev ScopeId := Nat

/-- What an expression can evaluate to. `returned` is a value on its way out of a function. -/
inductive Value where
  | null
  | int (value : Int64)
  | bool (value : Bool)
  | string (text : String)
  | array (items : List Value)
  | hash (entries : List (HashKey × Value))
  | builtin (b : Builtin)
  | function (params : List String) (body : List Stmt) (scope : ScopeId)
  | returned (value : Value)

namespace Value

mutual

def same : Value → Value → Bool
  | .null, .null => true
  | .int m, .int n => m = n
  | .bool a, .bool b => a = b
  | .string s, .string t => s = t
  | .array xs, .array ys => sameItems xs ys
  | .hash es, .hash es' => sameEntries es es'
  | .builtin b, .builtin b' => b = b'
  | .function ps body scope, .function ps' body' scope' =>
      scope = scope' && ps = ps' && body = body'
  | .returned v, .returned v' => same v v'
  | _, _ => false

def sameItems : List Value → List Value → Bool
  | [], [] => true
  | x :: xs, y :: ys => same x y && sameItems xs ys
  | _, _ => false

def sameEntries : List (HashKey × Value) → List (HashKey × Value) → Bool
  | [], [] => true
  | (k, v) :: es, (k', v') :: es' => k = k' && same v v' && sameEntries es es'
  | _, _ => false

end

mutual

theorem same_iff : ∀ a b : Value, same a b = true ↔ a = b
  | .null, b => by cases b <;> simp [same]
  | .int _, b => by cases b <;> simp [same]
  | .bool _, b => by cases b <;> simp [same]
  | .string _, b => by cases b <;> simp [same]
  | .array xs, b => by cases b <;> simp [same, sameItems_iff xs]
  | .hash es, b => by cases b <;> simp [same, sameEntries_iff es]
  | .builtin _, b => by cases b <;> simp [same]
  | .function _ _ _, b => by
      cases b <;> simp [same]
      grind
  | .returned v, b => by cases b <;> simp [same, same_iff v]

theorem sameItems_iff : ∀ a b : List Value, sameItems a b = true ↔ a = b
  | [], b => by cases b <;> simp [sameItems]
  | x :: xs, b => by cases b <;> simp [sameItems, same_iff x, sameItems_iff xs]

theorem sameEntries_iff : ∀ a b : List (HashKey × Value), sameEntries a b = true ↔ a = b
  | [], b => by cases b <;> simp [sameEntries]
  | (_, v) :: es, b => by
      rcases b with _ | ⟨⟨_, _⟩, _⟩ <;> simp [sameEntries, same_iff v, sameEntries_iff es]

end

instance : DecidableEq Value := fun a b => decidable_of_iff _ (same_iff a b)

/-- A value on its way out has the type of what it carries. -/
def typeName : Value → String
  | .null => "NULL"
  | .int _ => "INTEGER"
  | .bool _ => "BOOLEAN"
  | .string _ => "STRING"
  | .array _ => "ARRAY"
  | .hash _ => "HASH"
  | .builtin _ => "BUILTIN"
  | .function _ _ _ => "FUNCTION"
  | .returned v => v.typeName

/-- All values but `false` and `null` are true. -/
def isTrue : Value → Bool
  | .bool false => false
  | .null => false
  | _ => true

def isReturned : Value → Bool
  | .returned _ => true
  | _ => false

/-- Takes one layer of `returned` away. -/
def unwrap : Value → Value
  | .returned v => v
  | v => v

end Value

end MonkeyLang
