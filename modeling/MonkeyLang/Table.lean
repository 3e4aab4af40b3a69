namespace MonkeyLang

/-- Pairs in increasing order of their keys. Two sorted tables that give the same answer for every
key are the same list, so equality of tables is equality of lists. -/
abbrev Table (κ α : Type) := List (κ × α)

namespace Table

variable {κ α : Type} [Ord κ]

def get? (k : κ) : Table κ α → Option α
  | [] => none
  | (k', v) :: t => if compare k k' = .eq then some v else get? k t

/-- Binds the key to the value, in place of what it was bound to. -/
def insert (k : κ) (v : α) : Table κ α → Table κ α
  | [] => [(k, v)]
  | (k', v') :: t =>
      match compare k k' with
      | .lt => (k, v) :: (k', v') :: t
      | .eq => (k, v) :: t
      | .gt => (k', v') :: insert k v t

/-- Of several pairs with one key the last one counts. -/
def ofList (pairs : List (κ × α)) : Table κ α :=
  pairs.foldl (fun t p => t.insert p.1 p.2) []

def keys (t : Table κ α) : List κ := t.map Prod.fst

def Sorted (t : Table κ α) : Prop :=
  t.Pairwise fun p q => compare p.1 q.1 = .lt

def mapValues {β : Type} (f : α → β) (t : Table κ α) : Table κ β := t.map fun p => (p.1, f p.2)

theorem mem_insert {k : κ} {v : α} {t : Table κ α} {p : κ × α} (h : p ∈ t.insert k v) :
    p = (k, v) ∨ p ∈ t := by
  induction t with
  | nil => exact .inl (List.mem_singleton.mp h)
  | cons q t ih =>
      obtain ⟨k', v'⟩ := q
      unfold insert at h
      split at h
      · exact List.mem_cons.mp h
      · exact (List.mem_cons.mp h).imp_right (List.mem_cons_of_mem _)
      · rcases List.mem_cons.mp h with rfl | h
        · exact .inr List.mem_cons_self
        · exact (ih h).imp_right (List.mem_cons_of_mem _)

theorem forall_insert {P : α → Prop} {k : κ} {v : α} {t : Table κ α} (hv : P v)
    (ht : ∀ p ∈ t, P p.2) : ∀ p ∈ t.insert k v, P p.2 := by
  intro p hp
  rcases mem_insert hp with rfl | hp
  · exact hv
  · exact ht p hp

theorem mem_of_get? {k : κ} {v : α} {t : Table κ α} (h : t.get? k = some v) :
    ∃ k', (k', v) ∈ t := by
  induction t with
  | nil => cases h
  | cons p t ih =>
      obtain ⟨k₁, v₁⟩ := p
      unfold get? at h
      split at h
      · cases h
        exact ⟨k₁, List.mem_cons_self⟩
      · obtain ⟨k', hm⟩ := ih h
        exact ⟨k', List.mem_cons_of_mem _ hm⟩

theorem mem_keys_iff [Std.LawfulEqOrd κ] {k : κ} {t : Table κ α} :
    k ∈ t.keys ↔ (t.get? k).isSome := by
  induction t with
  | nil => simp [keys, get?]
  | cons p t ih =>
      obtain ⟨k', v⟩ := p
      rw [keys, List.map_cons, List.mem_cons]
      unfold get?
      split
      · next h => simp [Std.LawfulEqOrd.eq_of_compare h]
      · next h =>
        have hne : k ≠ k' := fun e => h (by rw [e]; exact Std.ReflOrd.compare_self)
        simp only [hne, false_or]
        exact ih

theorem get?_insert_self [Std.ReflOrd κ] (k : κ) (v : α) (t : Table κ α) :
    (t.insert k v).get? k = some v := by
  induction t with
  | nil => simp [insert, get?]
  | cons p t ih =>
      obtain ⟨k', v'⟩ := p
      unfold insert
      split
      · simp [get?]
      · simp [get?]
      · next h => simp [get?, h, ih]

theorem get?_insert_of_ne [Std.LawfulEqOrd κ] {k k' : κ} (h : k ≠ k') (v : α) (t : Table κ α) :
    (t.insert k' v).get? k = t.get? k := by
  have hk : compare k k' ≠ .eq := fun e => h (Std.LawfulEqOrd.eq_of_compare e)
  induction t with
  | nil => simp [insert, get?, hk]
  | cons p t ih =>
      obtain ⟨k₁, v₁⟩ := p
      unfold insert
      split
      · simp [get?, hk]
      · next he =>
        cases Std.LawfulEqOrd.eq_of_compare he
        simp [get?, hk]
      · simp [get?, ih]

theorem get?_mapValues {β : Type} (f : α → β) (k : κ) (t : Table κ α) :
    (t.mapValues f).get? k = (t.get? k).map f := by
  induction t with
  | nil => rfl
  | cons p t ih =>
      simp only [mapValues, List.map_cons, get?] at ih ⊢
      split
      · rfl
      · exact ih

theorem insert_mapValues {β : Type} (f : α → β) (k : κ) (v : α) (t : Table κ α) :
    (t.mapValues f).insert k (f v) = (t.insert k v).mapValues f := by
  induction t with
  | nil => rfl
  | cons p t ih =>
      simp only [mapValues, List.map_cons, insert] at ih ⊢
      split
      · rfl
      · rfl
      · rw [List.map_cons, ih]

theorem insert_comm_of_lt [Std.TransOrd κ] [Std.LawfulEqOrd κ] {k k' : κ} (h : compare k k' = .lt)
    (v v' : α) (t : Table κ α) : (t.insert k v).insert k' v' = (t.insert k' v').insert k v := by
  have hg : compare k' k = .gt := Std.OrientedCmp.gt_of_lt h
  induction t with
  | nil => simp [insert, h, hg]
  | cons p t ih =>
      obtain ⟨l, u⟩ := p
      rcases hl : compare k l with _ | _ | _
      · cases hl' : compare k' l <;> simp [insert, h, hg, hl, hl']
      · cases Std.LawfulEqOrd.eq_of_compare hl
        simp [insert, hg]
      · -- Both keys go behind `l`, since the smaller one does.
        have hl' : compare k' l = .gt :=
          Std.OrientedCmp.gt_of_lt (Std.TransCmp.lt_trans (Std.OrientedCmp.lt_of_gt hl) h)
        simp [insert, hl, hl', ih]

theorem insert_comm [Std.TransOrd κ] [Std.LawfulEqOrd κ] {k k' : κ} (h : k ≠ k') (v v' : α)
    (t : Table κ α) : (t.insert k v).insert k' v' = (t.insert k' v').insert k v := by
  cases hk : compare k k' with
  | lt => exact insert_comm_of_lt hk v v' t
  | eq => exact absurd (Std.LawfulEqOrd.eq_of_compare hk) h
  | gt => exact (insert_comm_of_lt (Std.OrientedCmp.lt_of_gt hk) v' v t).symm

theorem sorted_insert [Std.TransOrd κ] [Std.LawfulEqOrd κ] (k : κ) (v : α) {t : Table κ α}
    (h : t.Sorted) : (t.insert k v).Sorted := by
  induction t with
  | nil => exact List.pairwise_singleton _ _
  | cons p t ih =>
      obtain ⟨k', v'⟩ := p
      obtain ⟨hp, ht⟩ := List.pairwise_cons.mp h
      unfold insert
      split
      · next hk =>
        refine List.pairwise_cons.mpr ⟨fun q hq => ?_, h⟩
        rcases List.mem_cons.mp hq with rfl | hq
        · exact hk
        · exact Std.TransCmp.lt_trans hk (hp q hq)
      · next hk =>
        cases Std.LawfulEqOrd.eq_of_compare hk
        exact List.pairwise_cons.mpr ⟨hp, ht⟩
      · next hk =>
        refine List.pairwise_cons.mpr ⟨fun q hq => ?_, ih ht⟩
        rcases mem_insert hq with rfl | hq
        · exact Std.OrientedCmp.lt_of_gt hk
        · exact hp q hq

end Table

end MonkeyLang
