import Mathlib
import MonkeyLang.Builtin.Call

namespace MonkeyLang

namespace Value

variable {xs ys : List Value} {i : Int64}

theorem item_of_neg (h : i.toInt < 0) : item xs i = .null := by
  have hi : i < 0 := Int64.lt_iff_toInt_lt.mpr h
  rw [item, if_pos hi]

theorem item_of_nonneg (h : 0 ≤ i.toInt) : item xs i = xs[i.toInt.toNat]?.getD .null := by
  have hi : ¬ i < 0 := fun hi => Int.not_lt.mpr h (Int64.lt_iff_toInt_lt.mp hi)
  rw [item, if_neg hi]

theorem item_of_lt {k : Nat} (hk : k < xs.length) (hi : i.toInt = k) : item xs i = xs[k] := by
  rw [item_of_nonneg (by omega), hi, Int.toNat_natCast, List.getElem?_eq_getElem hk]
  rfl

theorem item_of_outside (h : i.toInt < 0 ∨ xs.length ≤ i.toInt) : item xs i = .null := by
  rcases h with h | h
  · exact item_of_neg h
  · rw [item_of_nonneg (by omega), List.getElem?_eq_none (by omega)]
    rfl

theorem item_zero (xs : List Value) : item xs 0 = xs.head?.getD .null := by
  have h : 0 ≤ (0 : Int64).toInt := by decide
  rw [item_of_nonneg h, List.head?_eq_getElem?]
  rfl

theorem item_last (h : i.toInt = xs.length - 1) : item xs i = xs.getLast?.getD .null := by
  cases xs with
  | nil => exact item_of_neg (by simp at h; omega)
  | cons x xs =>
    have hi : i.toInt = xs.length := by
      rw [h, List.length_cons]
      omega
    rw [item_of_nonneg (by omega), hi, List.getLast?_eq_getElem?]
    rfl

theorem toInt_succ {j : Int64} (h : j.toInt < 2 ^ 63 - 1) : (j + 1).toInt = j.toInt + 1 := by
  have hj := j.le_toInt
  have h1 : (1 : Int64).toInt = 1 := by decide
  rw [Int64.toInt_add, h1]
  exact Int.bmod_eq_of_le (by norm_num; omega) (by norm_num; omega)

theorem item_tail {j : Int64} (h : 0 ≤ j.toInt) (h' : j.toInt < 2 ^ 63 - 1) :
    item xs.tail j = item xs (j + 1) := by
  have hs := toInt_succ h'
  have hn : (j + 1).toInt.toNat = j.toInt.toNat + 1 := by omega
  rw [item_of_nonneg h, item_of_nonneg (by omega), hn, List.getElem?_tail]

theorem item_concat_of_ne (v : Value) (h : i.toInt ≠ xs.length) :
    item (xs ++ [v]) i = item xs i := by
  rcases lt_or_ge i.toInt 0 with hi | hi
  · rw [item_of_neg hi, item_of_neg hi]
  · rcases Int.lt_or_gt_of_ne h with hlt | hgt
    · rw [item_of_nonneg hi, item_of_nonneg hi, List.getElem?_append_left (by omega)]
    · have hout : ((xs ++ [v]).length : Int) ≤ i.toInt := by
        rw [List.length_append, List.length_singleton]
        omega
      rw [item_of_outside (.inr hout), item_of_outside (.inr (Int.le_of_lt hgt))]

/-- Taking the first item off one array and pushing it onto another, again and again until the
first one is empty, comes to the third. -/
inductive Emptied : Value → Value → Value → Prop
  | done (ys : Value) : Emptied (.array []) ys ys
  | move {xs xs' ys ys' x r : Value} (hxs : xs ≠ .array [])
      (hx : Builtin.first.result [xs] = .ok x) (hrest : Builtin.rest.result [xs] = .ok xs')
      (hys : Builtin.push.result [ys, x] = .ok ys') (h : Emptied xs' ys' r) : Emptied xs ys r

theorem emptied_iff {r : Value} :
    Emptied (.array xs) (.array ys) r ↔ r = .array (ys ++ xs) := by
  -- What was pushed so far and what is left are together the same array after each move.
  induction xs generalizing ys with
  | nil =>
    rw [List.append_nil]
    constructor
    · intro h
      cases h with
      | done => rfl
      | move hxs => exact absurd rfl hxs
    · rintro rfl
      exact .done _
  | cons x xs ih =>
    rw [List.append_cons, ← ih]
    constructor
    · intro h
      cases h with
      | move _ hx hrest hys h =>
        cases hx
        cases hrest
        cases hys
        exact h
    · exact fun h => .move nofun rfl rfl rfl h

end Value

open Value

/-- The builtins on arrays say of an array what its items say one by one, at every index, and an
array is rebuilt from what they take off it. An array that fits in memory has fewer than `2 ^ 63`
items, and the integer that `len` gives is their number. -/
theorem Value.array_by_items (xs : List Value) (v : Value) :
    (∀ i : Int64,
      (∀ (k : Nat) (hk : k < xs.length), i.toInt = k → (array xs).index (.int i) = .ok xs[k]) ∧
      (i.toInt < 0 ∨ xs.length ≤ i.toInt → (array xs).index (.int i) = .ok .null)) ∧
    Builtin.len.result [.array xs] = .ok (.int (Int64.ofNat xs.length)) ∧
    (xs.length < 2 ^ 63 → (Int64.ofNat xs.length).toInt = xs.length) ∧
    Builtin.first.result [.array xs] = (array xs).index (.int 0) ∧
    (∀ i : Int64, i.toInt = xs.length - 1 →
      Builtin.last.result [.array xs] = (array xs).index (.int i)) ∧
    (∃ ys, Builtin.rest.result [.array xs] = .ok (.array ys) ∧ ys.length = max (xs.length - 1) 0 ∧
      ∀ j : Int64, 0 ≤ j.toInt → j.toInt < 2 ^ 63 - 1 →
        (array ys).index (.int j) = (array xs).index (.int (j + 1))) ∧
    (∃ zs, Builtin.push.result [.array xs, v] = .ok (.array zs) ∧ zs.length = xs.length + 1 ∧
      ∀ i : Int64, (i.toInt = xs.length → (array zs).index (.int i) = .ok v) ∧
        (i.toInt ≠ xs.length → (array zs).index (.int i) = (array xs).index (.int i))) ∧
    (∀ r, Emptied (.array xs) (.array []) r ↔ r = .array xs) := by
  refine ⟨fun i => ⟨fun k hk hi => ?_, fun hi => ?_⟩, rfl, fun hn => ?_,
    ?_, fun i hi => ?_, ⟨xs.tail, rfl, ?_, fun j hj hj' => ?_⟩,
    ⟨xs ++ [v], rfl, List.length_append, fun i => ⟨fun hi => ?_, fun hi => ?_⟩⟩,
    fun r => emptied_iff⟩
  · exact congrArg _ (item_of_lt hk hi)
  · exact congrArg _ (item_of_outside hi)
  · exact Int64.toInt_ofNat_of_lt hn
  · exact congrArg _ (item_zero xs).symm
  · exact congrArg _ (item_last hi).symm
  · rw [List.length_tail, Nat.max_zero]
  · exact congrArg _ (item_tail hj hj')
  · have hlt : xs.length < (xs ++ [v]).length := by simp
    refine congrArg _ ((item_of_lt hlt hi).trans ?_)
    exact List.getElem_concat_length rfl hlt
  · exact congrArg _ (item_concat_of_ne v hi)

end MonkeyLang
