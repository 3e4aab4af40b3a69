import Mathlib.Data.List.Dedup
import Mathlib.Data.List.Induction
import Mathlib.Data.List.Nodup
import Mathlib.Data.List.Perm.Subperm
import MonkeyLang.Table

namespace MonkeyLang

namespace Table

variable {κ α : Type}

/-- The last pair with the key has the value. -/
def BindsLast (ps : List (κ × α)) (k : κ) (v : α) : Prop :=
  ∃ before after, ps = before ++ (k, v) :: after ∧ k ∉ keys after

theorem bindsLast_iff_getElem? {ps : List (κ × α)} {k : κ} {v : α} :
    BindsLast ps k v ↔ ∃ i : Nat, ps[i]? = some (k, v) ∧ ∀ j u, i < j → ps[j]? ≠ some (k, u) := by
  constructor
  · rintro ⟨before, after, rfl, ha⟩
    refine ⟨before.length, by simp, fun j u hj hu => ha ?_⟩
    have hr : ((k, v) :: after)[j - before.length]? = some (k, u) := by
      rw [← hu, List.getElem?_append_right (Nat.le_of_lt hj)]
    obtain ⟨i, hi⟩ := Nat.exists_eq_succ_of_ne_zero (Nat.sub_ne_zero_of_lt hj)
    rw [hi, List.getElem?_cons_succ] at hr
    exact List.mem_map_of_mem (List.mem_of_getElem? hr)
  · rintro ⟨i, hi, hlast⟩
    obtain ⟨hlt, hget⟩ := List.getElem?_eq_some_iff.mp hi
    refine ⟨ps.take i, ps.drop (i + 1), ?_, fun hm => ?_⟩
    · rw [← hget, List.getElem_cons_drop, List.take_append_drop]
    · obtain ⟨⟨k', u⟩, hu, rfl⟩ := List.mem_map.mp hm
      obtain ⟨j, hj⟩ := List.mem_iff_getElem?.mp hu
      rw [List.getElem?_drop] at hj
      exact hlast _ u (by omega) hj

theorem keys_mapValues {β : Type} (f : α → β) (t : Table κ α) : (t.mapValues f).keys = t.keys := by
  rw [keys, mapValues, List.map_map]
  rfl

theorem keys_reverse (ps : List (κ × α)) : keys ps.reverse = (keys ps).reverse :=
  List.map_reverse

/-- Inclusion one way and as many entries give inclusion the other way. -/
theorem keys_perm_of_subset {t t' : Table κ α} (ht : t.keys.Nodup)
    (hs : t.keys ⊆ t'.keys) (hlen : t.length = t'.length) : t.keys.Perm t'.keys := by
  refine (List.subperm_of_subset ht hs).perm_of_length_le ?_
  rw [keys, keys, List.length_map, List.length_map]
  exact Nat.le_of_eq hlen.symm

theorem isSome_of_rel {R : α → α → Prop} {o o' : Option α} (h : Option.Rel R o o') :
    o.isSome = o'.isSome := by
  cases h <;> rfl

theorem of_rel_some {R : α → α → Prop} {v : α} {o : Option α} (h : Option.Rel R (some v) o) :
    ∃ w, o = some w ∧ R v w := by
  cases h with
  | some hr => exact ⟨_, rfl, hr⟩

theorem rel_congr {R R' : α → α → Prop} {o o' : Option α}
    (h : ∀ v w, o = some v → o' = some w → (R v w ↔ R' v w)) :
    Option.Rel R o o' ↔ Option.Rel R' o o' := by
  cases o with
  | none => cases o' <;> simp
  | some v =>
    cases o' with
    | none => simp
    | some w => simpa using h v w rfl rfl

theorem map_eq_map_iff_rel {β : Type} {f : α → β} {o o' : Option α} :
    o.map f = o'.map f ↔ Option.Rel (fun v w => f v = f w) o o' := by
  cases o <;> cases o' <;> simp

variable [Ord κ]

theorem ofList_concat (ps : List (κ × α)) (p : κ × α) :
    ofList (ps ++ [p]) = (ofList ps).insert p.1 p.2 := by
  rw [ofList, List.foldl_append]
  rfl

theorem mem_of_mem_ofList {ps : List (κ × α)} {p : κ × α} (h : p ∈ ofList ps) : p ∈ ps := by
  induction ps using List.reverseRecOn with
  | nil => exact h
  | append_singleton ps q ih =>
    rw [ofList_concat] at h
    rcases mem_insert h with rfl | h
    · exact List.mem_append_right _ (List.mem_singleton_self _)
    · exact List.mem_append_left _ (ih h)

theorem Sorted.keys_nodup [Std.ReflOrd κ] {t : Table κ α} (h : t.Sorted) : t.keys.Nodup := by
  refine List.pairwise_map.mpr (h.imp fun {p q} hlt he => ?_)
  rw [he, Std.ReflOrd.compare_self] at hlt
  cases hlt

variable [Std.LawfulEqOrd κ] {t t' : Table κ α} {k : κ} {v : α}

theorem mem_of_get?_eq_some (h : t.get? k = some v) : (k, v) ∈ t := by
  induction t with
  | nil => cases h
  | cons p t ih =>
    obtain ⟨k', v'⟩ := p
    unfold get? at h
    split at h
    · next he =>
      cases h
      rw [Std.LawfulEqOrd.eq_of_compare he]
      exact List.mem_cons_self
    · exact List.mem_cons_of_mem _ (ih h)

theorem get?_eq_none_iff : t.get? k = none ↔ k ∉ t.keys := by
  rw [mem_keys_iff, Option.not_isSome_iff_eq_none]

theorem get?_eq_some_iff (h : t.keys.Nodup) : t.get? k = some v ↔ (k, v) ∈ t := by
  refine ⟨mem_of_get?_eq_some, fun hm => ?_⟩
  induction t with
  | nil => cases hm
  | cons p t ih =>
    obtain ⟨hp, ht⟩ := List.nodup_cons.mp h
    unfold get?
    rcases List.mem_cons.mp hm with rfl | hm
    · rw [if_pos Std.ReflOrd.compare_self]
    · have hk : k ∈ keys t := List.mem_map_of_mem hm
      rw [if_neg, ih ht hm]
      exact fun he => hp (Std.LawfulEqOrd.eq_of_compare he ▸ hk)

theorem exists_of_mem_keys (h : k ∈ t.keys) : ∃ v, t.get? k = some v :=
  Option.isSome_iff_exists.mp (mem_keys_iff.mp h)

theorem get?_perm (hp : t.Perm t') (h : t.keys.Nodup) (k : κ) : t.get? k = t'.get? k := by
  have h' : t'.keys.Nodup := (hp.map Prod.fst).nodup_iff.mp h
  exact Option.ext fun v => by rw [get?_eq_some_iff h, get?_eq_some_iff h', hp.mem_iff]

/-- Tables are determined by their answers. -/
theorem Sorted.ext [Std.TransOrd κ] (ht : t.Sorted) (ht' : t'.Sorted)
    (h : ∀ k, t.get? k = t'.get? k) : t = t' := by
  have hmem : ∀ p, p ∈ t ↔ p ∈ t' := fun p => by
    rw [← get?_eq_some_iff ht.keys_nodup, ← get?_eq_some_iff ht'.keys_nodup, h]
  have hperm : t.Perm t' :=
    (List.perm_ext_iff_of_nodup (.of_map _ ht.keys_nodup) (.of_map _ ht'.keys_nodup)).mpr hmem
  refine hperm.eq_of_pairwise (fun p q _ _ hpq hqp => ?_) ht ht'
  have hpp : compare p.1 p.1 = .lt := Std.TransCmp.lt_trans hpq hqp
  rw [Std.ReflOrd.compare_self] at hpp
  cases hpp

theorem sorted_ofList [Std.TransOrd κ] (ps : List (κ × α)) : (ofList ps).Sorted := by
  induction ps using List.reverseRecOn with
  | nil => exact .nil
  | append_singleton ps p ih =>
    rw [ofList_concat]
    exact sorted_insert p.1 p.2 ih

/-- The last pair with a key decides. -/
theorem get?_ofList_eq_reverse (ps : List (κ × α)) (k : κ) :
    (ofList ps).get? k = get? k ps.reverse := by
  induction ps using List.reverseRecOn with
  | nil => rfl
  | append_singleton ps p ih =>
    rw [ofList_concat, List.reverse_append, List.reverse_singleton, List.singleton_append, get?]
    by_cases hk : k = p.1
    · subst hk
      rw [get?_insert_self, if_pos Std.ReflOrd.compare_self]
    · rw [get?_insert_of_ne hk, ih, if_neg fun he => hk (Std.LawfulEqOrd.eq_of_compare he)]

theorem get?_ofList {ps : List (κ × α)} (h : (keys ps).Nodup) (k : κ) :
    (ofList ps).get? k = get? k ps := by
  rw [get?_ofList_eq_reverse]
  exact (get?_perm (List.reverse_perm ps).symm h k).symm

theorem get?_eq_some_iff_append {ps : List (κ × α)} :
    get? k ps = some v ↔ ∃ before after, ps = before ++ (k, v) :: after ∧ k ∉ keys before := by
  induction ps with
  | nil => simp [get?]
  | cons p ps ih =>
    obtain ⟨k', v'⟩ := p
    unfold get?
    constructor
    · split
      · next he =>
        rintro ⟨⟩
        rw [Std.LawfulEqOrd.eq_of_compare he]
        exact ⟨[], ps, rfl, List.not_mem_nil⟩
      · next hne =>
        intro h
        obtain ⟨before, after, rfl, hb⟩ := ih.mp h
        refine ⟨(k', v') :: before, after, rfl, fun hm => ?_⟩
        rcases List.mem_cons.mp hm with rfl | hm
        · exact hne Std.ReflOrd.compare_self
        · exact hb hm
    · rintro ⟨before, after, h, hb⟩
      cases before with
      | nil =>
        cases h
        rw [if_pos Std.ReflOrd.compare_self]
      | cons q before =>
        cases h
        rw [if_neg, ih]
        · exact ⟨before, after, rfl, fun hm => hb (List.mem_cons_of_mem _ hm)⟩
        · exact fun he => hb (Std.LawfulEqOrd.eq_of_compare he ▸ List.mem_cons_self)

theorem get?_ofList_eq_some_iff {ps : List (κ × α)} :
    (ofList ps).get? k = some v ↔ BindsLast ps k v := by
  rw [get?_ofList_eq_reverse, get?_eq_some_iff_append]
  constructor
  · rintro ⟨before, after, h, hb⟩
    refine ⟨after.reverse, before.reverse, ?_, ?_⟩
    · rw [← List.reverse_reverse ps, h]
      simp
    · rwa [keys_reverse, List.mem_reverse]
  · rintro ⟨before, after, rfl, ha⟩
    refine ⟨after.reverse, before.reverse, by simp, ?_⟩
    rwa [keys_reverse, List.mem_reverse]

theorem mem_keys_ofList {ps : List (κ × α)} : k ∈ (ofList ps).keys ↔ k ∈ keys ps := by
  rw [mem_keys_iff, get?_ofList_eq_reverse, ← mem_keys_iff, keys_reverse, List.mem_reverse]

theorem length_ofList [Std.TransOrd κ] [DecidableEq κ] (ps : List (κ × α)) :
    (ofList ps).length = (keys ps).dedup.length := by
  have hperm : (ofList ps).keys.Perm (keys ps).dedup := by
    rw [List.perm_ext_iff_of_nodup (sorted_ofList ps).keys_nodup (List.nodup_dedup _)]
    intro k
    rw [mem_keys_ofList, List.mem_dedup]
  rw [← hperm.length_eq, keys, List.length_map]

theorem ofList_eq_iff [Std.TransOrd κ] {ps ps' : List (κ × α)} :
    ofList ps = ofList ps' ↔ ∀ k v, BindsLast ps k v ↔ BindsLast ps' k v := by
  constructor
  · intro h k v
    rw [← get?_ofList_eq_some_iff, ← get?_ofList_eq_some_iff, h]
  · intro h
    refine (sorted_ofList ps).ext (sorted_ofList ps') fun k => Option.ext fun v => ?_
    rw [get?_ofList_eq_some_iff, get?_ofList_eq_some_iff]
    exact h k v

/-- Of tables that bind each key once, one covers another of its size exactly if they give related
answers for every key. -/
theorem covers_iff {R : α → α → Prop} (ht : t.keys.Nodup) (ht' : t'.keys.Nodup) :
    (t.length = t'.length ∧ ∀ p ∈ t, ∃ v, t'.get? p.1 = some v ∧ R p.2 v) ↔
      ∀ k, Option.Rel R (t.get? k) (t'.get? k) := by
  constructor
  · rintro ⟨hlen, hcover⟩ k
    have hsub : t.keys ⊆ t'.keys := by
      intro k hk
      obtain ⟨v, hv⟩ := exists_of_mem_keys hk
      obtain ⟨w, hw, -⟩ := hcover _ (mem_of_get?_eq_some hv)
      exact mem_keys_iff.mpr (hw ▸ rfl)
    have hperm := keys_perm_of_subset ht hsub hlen
    cases hv : t.get? k with
    | some v =>
      obtain ⟨w, hw, hr⟩ := hcover _ (mem_of_get?_eq_some hv)
      rw [hw]
      exact .some hr
    | none =>
      rw [get?_eq_none_iff, hperm.mem_iff] at hv
      rw [get?_eq_none_iff.mpr hv]
      exact .none
  · intro h
    have hmem : ∀ k, k ∈ t.keys ↔ k ∈ t'.keys := fun k => by
      rw [mem_keys_iff, mem_keys_iff, isSome_of_rel (h k)]
    refine ⟨?_, fun p hp => ?_⟩
    · have hlen := ((List.perm_ext_iff_of_nodup ht ht').mpr hmem).length_eq
      rwa [keys, keys, List.length_map, List.length_map] at hlen
    · have hk := h p.1
      rw [(get?_eq_some_iff ht).mpr hp] at hk
      exact of_rel_some hk

/-- Sorting makes tables the same list exactly if they give the same answers. -/
theorem ofList_mapValues_eq_iff [Std.TransOrd κ] {β : Type} {f : α → β} (ht : t.keys.Nodup)
    (ht' : t'.keys.Nodup) : ofList (t.mapValues f) = ofList (t'.mapValues f) ↔
      ∀ k, Option.Rel (fun v w => f v = f w) (t.get? k) (t'.get? k) := by
  have hget : ∀ k, (ofList (t.mapValues f)).get? k = (t.get? k).map f := fun k => by
    rw [get?_ofList (by rwa [keys_mapValues]), get?_mapValues]
  have hget' : ∀ k, (ofList (t'.mapValues f)).get? k = (t'.get? k).map f := fun k => by
    rw [get?_ofList (by rwa [keys_mapValues]), get?_mapValues]
  constructor
  · intro h k
    rw [← map_eq_map_iff_rel, ← hget, ← hget', h]
  · intro h
    refine (sorted_ofList _).ext (sorted_ofList _) fun k => ?_
    rw [hget, hget', map_eq_map_iff_rel]
    exact h k

end Table

end MonkeyLang
