import MonkeyLang.Builtin.Call
import MonkeyLang.Heap

namespace MonkeyLang

/-- A property of all scalars, of exactly those arrays that hold only values with it, and of the
hashes that are built from values with it, which hold no others. Functions may have it or not. -/
structure Value.Hereditary (P : Value → Prop) : Prop where
  null : P .null
  int (n : Int64) : P (.int n)
  bool (b : Bool) : P (.bool b)
  string (t : String) : P (.string t)
  builtin (b : Builtin) : P (.builtin b)
  array {items : List Value} : P (.array items) ↔ ∀ v ∈ items, P v
  hashNil : P (.hash [])
  hashInsert {t : Table HashKey Value} {k : HashKey} {v : Value} (ht : P (.hash t)) (hv : P v) :
    P (.hash (t.insert k v))
  hashMem {t : Table HashKey Value} (ht : P (.hash t)) : ∀ e ∈ t, P e.2

namespace Value.Hereditary

theorem of_all {P : Value → Prop} (h : ∀ v, P v) : Hereditary P where
  null := h _
  int _ := h _
  bool _ := h _
  string _ := h _
  builtin _ := h _
  array := ⟨fun _ v _ => h v, fun _ => h _⟩
  hashNil := h _
  hashInsert _ _ := h _
  hashMem _ e _ := h e.2

variable {P : Value → Prop}

theorem one {f : Value → Except Fault Value} {args : List Value} {r : Value}
    (hf : ∀ v r, P v → f v = .ok r → P r) (ha : ∀ v ∈ args, P v)
    (h : Builtin.one f args = .ok r) : P r := by
  unfold Builtin.one at h
  split at h
  · exact hf _ r (ha _ (by simp)) h
  · cases h

theorem two {f : Value → Value → Except Fault Value} {args : List Value} {r : Value}
    (hf : ∀ v w r, P v → P w → f v w = .ok r → P r) (ha : ∀ v ∈ args, P v)
    (h : Builtin.two f args = .ok r) : P r := by
  unfold Builtin.two at h
  split at h
  · exact hf _ _ r (ha _ (by simp)) (ha _ (by simp)) h
  · cases h

variable (hP : Hereditary P)

include hP

theorem onInts {m n : Int64} {op : Operator} {v : Value} (h : onInts m op n = .ok v) : P v := by
  cases op with
  | slash =>
    simp only [Value.onInts] at h
    split at h <;> cases h
    exact hP.int _
  | plus | minus | asterisk =>
    cases h
    exact hP.int _
  | lt | gt | eq | notEq =>
    cases h
    exact hP.bool _
  | bang => cases h

theorem onStrings {s t : String} {op : Operator} {v : Value} (h : onStrings s op t = .ok v) :
    P v := by
  cases op with
  | plus =>
    cases h
    exact hP.string _
  | _ => cases h

theorem unary {op : Operator} {v r : Value} (h : v.unary op = .ok r) : P r := by
  unfold Value.unary at h
  split at h <;> cases h
  · exact hP.bool _
  · exact hP.int _

theorem binary {op : Operator} {a b r : Value} (h : a.binary op b = .ok r) : P r := by
  unfold Value.binary at h
  split at h
  · exact hP.onInts h
  · exact hP.onStrings h
  · split at h <;> cases h <;> exact hP.bool _

theorem getD {o : Option Value} (ho : ∀ v ∈ o, P v) : P (o.getD .null) := by
  cases o with
  | none => exact hP.null
  | some v => exact ho v rfl

theorem item {items : List Value} (h : ∀ v ∈ items, P v) (i : Int64) : P (item items i) := by
  unfold Value.item
  split
  · exact hP.null
  · exact hP.getD fun v hv => h v (List.mem_of_getElem? hv)

theorem index {a b r : Value} (ha : P a) (h : a.index b = .ok r) : P r := by
  unfold Value.index at h
  split at h
  · cases h
    exact hP.item (hP.array.mp ha) _
  · rename_i entries
    cases hk : b.key with
    | error f =>
      rw [hk] at h
      cases h
    | ok key =>
      rw [hk] at h
      cases h
      refine hP.getD fun v hv => ?_
      obtain ⟨k', hm⟩ := Table.mem_of_get? hv
      exact hP.hashMem ha _ hm
  · cases h

theorem lenOf {v r : Value} (h : Builtin.lenOf v = .ok r) : P r := by
  unfold Builtin.lenOf at h
  split at h <;> cases h <;> exact hP.int _

theorem firstOf {v r : Value} (hv : P v) (h : Builtin.firstOf v = .ok r) : P r := by
  unfold Builtin.firstOf at h
  split at h <;> cases h
  exact hP.getD fun w hw => hP.array.mp hv w (List.mem_of_head? hw)

theorem lastOf {v r : Value} (hv : P v) (h : Builtin.lastOf v = .ok r) : P r := by
  unfold Builtin.lastOf at h
  split at h <;> cases h
  exact hP.getD fun w hw => hP.array.mp hv w (List.mem_of_getLast? hw)

theorem restOf {v r : Value} (hv : P v) (h : Builtin.restOf v = .ok r) : P r := by
  unfold Builtin.restOf at h
  split at h <;> cases h
  exact hP.array.mpr fun w hw => hP.array.mp hv w (List.mem_of_mem_tail hw)

theorem pushOnto {v w r : Value} (hv : P v) (hw : P w) (h : Builtin.pushOnto v w = .ok r) :
    P r := by
  unfold Builtin.pushOnto at h
  split at h <;> cases h
  refine hP.array.mpr fun u hu => ?_
  rcases List.mem_append.mp hu with hu | hu
  · exact hP.array.mp hv u hu
  · rwa [List.mem_singleton.mp hu]

theorem result {b : Builtin} {args : List Value} {r : Value} (ha : ∀ v ∈ args, P v)
    (h : b.result args = .ok r) : P r := by
  cases b with
  | len => exact one (fun _ _ _ => hP.lenOf) ha h
  | first => exact one (fun _ _ => hP.firstOf) ha h
  | last => exact one (fun _ _ => hP.lastOf) ha h
  | rest => exact one (fun _ _ => hP.restOf) ha h
  | push => exact two (fun _ _ _ => hP.pushOnto) ha h
  | puts =>
    cases h
    exact hP.null

end Value.Hereditary

namespace Heap

/-- Every scope binds names only to values with a property. -/
def Holds (P : Value → Prop) (h : Heap) : Prop :=
  ∀ s scope, h.scope? s = some scope → ∀ p ∈ scope.names, P p.2

variable {P : Value → Prop} {h : Heap}

theorem holds_empty : Holds P {} := by
  intro s scope hs
  simp [scope?] at hs

theorem Holds.openScope (hh : h.Holds P) (outer : Option ScopeId) :
    (h.openScope outer).Holds P := by
  intro s scope hs
  by_cases he : s = h.size
  · rw [he, scope?_openScope_self] at hs
    cases hs
    simp
  · rw [scope?_openScope_of_ne he] at hs
    exact hh s scope hs

theorem Holds.bind {v : Value} (hh : h.Holds P) (hv : P v) (s : ScopeId) (name : String) :
    (h.bind s name v).Holds P := by
  intro t scope ht p hp
  by_cases hst : t = s
  · rw [hst, scope?_bind_self, Option.map_eq_some_iff] at ht
    obtain ⟨old, ho, rfl⟩ := ht
    exact Table.forall_insert hv (hh s old ho) p hp
  · rw [scope?_bind_of_ne hst] at ht
    exact hh t scope ht p hp

theorem Holds.get? (hh : h.Holds P) (s : ScopeId) (name : String) {v : Value}
    (hg : h.get? s name = some v) : P v := by
  unfold Heap.get? at hg
  split at hg
  · cases hg
  · rename_i scope hs
    split at hg
    · rename_i u hu
      cases hg
      obtain ⟨k, hm⟩ := Table.mem_of_get? hu
      exact hh s scope hs _ hm
    · split at hg
      · cases hg
      · rename_i outer _
        split at hg
        · exact Holds.get? hh outer name hg
        · cases hg
termination_by s

end Heap

end MonkeyLang
