import Mathlib.Data.List.AList

namespace Vct.Lib.GoMap

/-- The order in which `range` visits a map: any permutation of its entries. -/
structure MapOrder where
  arrange : {α : Type} → List α → List α
  arrange_perm : ∀ {α : Type} (l : List α), (arrange l).Perm l

variable {κ ν : Type}

theorem map_key_values {key : ν → κ} (s : AList fun _ : κ => ν)
    (hkey : ∀ e ∈ s.entries, key e.2 = e.1) : (s.entries.map (·.2)).map key = s.keys := by
  rw [List.map_map]
  exact List.map_congr_left hkey

variable [DecidableEq κ]

/-- The loop `for _, x := range l { m[key(x)] = x }`. -/
def assignAll (key : ν → κ) (l : List ν) (m : AList fun _ : κ => ν) : AList fun _ : κ => ν :=
  l.foldl (fun m x => m.insert (key x) x) m

theorem lookup_assignAll (key : ν → κ) (l : List ν) (m : AList fun _ : κ => ν) (a : κ) :
    (assignAll key l m).lookup a = ((l.filter (key · = a)).getLast?).or (m.lookup a) := by
  induction l generalizing m with
  | nil => simp [assignAll]
  | cons x l ih =>
      have hstep : assignAll key (x :: l) m = assignAll key l (m.insert (key x) x) := rfl
      rw [hstep, ih]
      by_cases hx : key x = a
      · subst hx
        rw [AList.lookup_insert, List.filter_cons_of_pos (by simp), List.getLast?_cons]
        cases (l.filter (key · = key x)).getLast? <;> rfl
      · rw [AList.lookup_insert_ne (Ne.symm hx), List.filter_cons_of_neg (by simpa using hx)]

theorem filter_key_length_le_one {key : ν → κ} {l : List ν} (hnodup : (l.map key).Nodup)
    (a : κ) : (l.filter (key · = a)).length ≤ 1 := by
  induction l with
  | nil => simp
  | cons x l ih =>
      rw [List.map_cons, List.nodup_cons] at hnodup
      by_cases hx : key x = a
      · rw [List.filter_cons_of_pos (by simpa using hx), List.length_cons]
        have hnone : l.filter (key · = a) = [] := by
          rw [List.filter_eq_nil_iff]
          intro y hy hya
          exact hnodup.1 (hx ▸ List.mem_map.mpr ⟨y, hy, by simpa using hya⟩)
        simp [hnone]
      · rw [List.filter_cons_of_neg (by simpa using hx)]
        exact ih hnodup.2

theorem eq_of_perm_of_length_le_one {l l' : List ν} (hperm : l.Perm l') (hlen : l.length ≤ 1) :
    l = l' := by
  match l, hlen with
  | [], _ => exact (List.Perm.nil_eq hperm)
  | [x], _ => exact (List.perm_singleton.mp hperm.symm).symm

theorem lookup_assignAll_of_perm {key : ν → κ} {l l' : List ν} (hperm : l.Perm l')
    (hnodup : (l.map key).Nodup) (m : AList fun _ : κ => ν) (a : κ) :
    (assignAll key l m).lookup a = (assignAll key l' m).lookup a := by
  rw [lookup_assignAll, lookup_assignAll,
    eq_of_perm_of_length_le_one (hperm.filter _) (filter_key_length_le_one hnodup a)]

theorem filter_values_getLast? {key : ν → κ} {es : List (Sigma fun _ : κ => ν)}
    (hnodup : es.NodupKeys) (hkey : ∀ e ∈ es, key e.2 = e.1) (a : κ) :
    ((es.map (·.2)).filter (key · = a)).getLast? = es.dlookup a := by
  induction es with
  | nil => rfl
  | cons e es ih =>
      obtain ⟨k, v⟩ := e
      rw [List.nodupKeys_cons] at hnodup
      have hkv : key v = k := hkey ⟨k, v⟩ List.mem_cons_self
      have hrest : ∀ e ∈ es, key e.2 = e.1 := fun e he => hkey e (List.mem_cons_of_mem _ he)
      by_cases hka : k = a
      · subst hka
        have hnone : (es.map (·.2)).filter (key · = k) = [] := by
          rw [List.filter_eq_nil_iff]
          intro w hw hwk
          obtain ⟨e, he, rfl⟩ := List.mem_map.mp hw
          have hek : e.1 = k := (hrest e he).symm.trans (by simpa using hwk)
          have hmem := List.mem_keys_of_mem he
          rw [hek] at hmem
          exact hnodup.1 hmem
        rw [List.map_cons, List.filter_cons_of_pos (by simpa using hkv), hnone,
          List.dlookup_cons_eq]
        rfl
      · rw [List.map_cons, List.filter_cons_of_neg (by simpa [hkv] using hka),
          List.dlookup_cons_ne _ _ (Ne.symm hka)]
        exact ih hnodup.2 hrest

theorem lookup_assignAll_entries (order : MapOrder) {key : ν → κ}
    (s : AList fun _ : κ => ν) (hkey : ∀ e ∈ s.entries, key e.2 = e.1) (a : κ) :
    (assignAll key (order.arrange (s.entries.map (·.2))) ∅).lookup a = s.lookup a := by
  have hnodup : ((s.entries.map (·.2)).map key).Nodup := by
    rw [map_key_values s hkey]
    exact s.keys_nodup
  rw [← lookup_assignAll_of_perm (order.arrange_perm _).symm hnodup, lookup_assignAll,
    filter_values_getLast? s.nodupKeys hkey, AList.lookup_empty, Option.or_none]
  rfl

theorem assignAll_key (key : ν → κ) (l : List ν) :
    ∀ e ∈ (assignAll key l ∅).entries, key e.2 = e.1 := by
  suffices h : ∀ (m : AList fun _ : κ => ν), (∀ e ∈ m.entries, key e.2 = e.1) →
      ∀ e ∈ (assignAll key l m).entries, key e.2 = e.1 from h ∅ (by simp)
  induction l with
  | nil => exact fun m hm => hm
  | cons x l ih =>
      intro m hm
      apply ih
      intro e he
      rw [AList.entries_insert, List.mem_cons] at he
      rcases he with rfl | he
      · rfl
      · exact hm e ((List.kerase_sublist _ _).subset he)

/-- The loop `for _, x := range l { m[key(x)] = val(x) }`: a key holds the value of the last
element with that key, or what it held before. -/
theorem lookup_foldl_insert {α : Type} (key : α → κ) (val : α → ν) (l : List α)
    (m : AList fun _ : κ => ν) (a : κ) :
    (l.foldl (fun m x => m.insert (key x) (val x)) m).lookup a =
      (((l.filter (key · = a)).getLast?).map val).or (m.lookup a) := by
  induction l generalizing m with
  | nil => simp
  | cons x l ih =>
      rw [List.foldl_cons, ih]
      by_cases hx : key x = a
      · subst hx
        rw [AList.lookup_insert, List.filter_cons_of_pos (by simp), List.getLast?_cons]
        cases (l.filter (key · = key x)).getLast? <;> rfl
      · rw [AList.lookup_insert_ne (Ne.symm hx), List.filter_cons_of_neg (by simpa using hx)]

theorem filter_fst_getLast? {es : List (Sigma fun _ : κ => ν)} (hnodup : es.NodupKeys) (a : κ) :
    ((es.filter (·.1 = a)).getLast?).map (·.2) = es.dlookup a := by
  induction es with
  | nil => rfl
  | cons e es ih =>
      obtain ⟨k, v⟩ := e
      rw [List.nodupKeys_cons] at hnodup
      by_cases hka : k = a
      · subst hka
        have hnone : es.filter (·.1 = k) = [] := by
          rw [List.filter_eq_nil_iff]
          intro e he hek
          have hmem := List.mem_keys_of_mem he
          rw [show e.1 = k by simpa using hek] at hmem
          exact hnodup.1 hmem
        rw [List.filter_cons_of_pos (by simp), hnone, List.dlookup_cons_eq]
        rfl
      · rw [List.filter_cons_of_neg (by simpa using hka), List.dlookup_cons_ne _ _ (Ne.symm hka)]
        exact ih hnodup.2

/-- Whatever order `range` visits a map in, the last entry with a key is its only one. -/
theorem arrange_filter_getLast? (order : MapOrder) (s : AList fun _ : κ => ν) (a : κ) :
    (((order.arrange s.entries).filter (·.1 = a)).getLast?).map (·.2) = s.lookup a := by
  have hlen : (s.entries.filter (·.1 = a)).length ≤ 1 :=
    filter_key_length_le_one (show (s.entries.map Sigma.fst).Nodup from s.keys_nodup) a
  rw [eq_of_perm_of_length_le_one ((order.arrange_perm s.entries).filter _)
    (((order.arrange_perm s.entries).filter _).length_eq ▸ hlen),
    filter_fst_getLast? s.nodupKeys]
  rfl

end Vct.Lib.GoMap
