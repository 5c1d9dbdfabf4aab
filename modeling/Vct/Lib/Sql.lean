import Mathlib

namespace Vct.Lib.Sql

structure Table (K R : Type) (key : R → K) where
  rows : List R
  keys_nodup : (rows.map key).Nodup

namespace Table

variable {K R : Type} {key : R → K}

def empty : Table K R key := ⟨[], List.nodup_nil⟩

@[ext] theorem ext {t t' : Table K R key} (h : t.rows = t'.rows) : t = t' := by
  cases t
  cases t'
  cases h
  rfl

def delete (t : Table K R key) (p : R → Bool) : Table K R key :=
  ⟨t.rows.filter (fun r => !p r), t.keys_nodup.sublist (List.filter_sublist.map key)⟩

theorem delete_congr {t : Table K R key} {p q : R → Bool} (h : ∀ r ∈ t.rows, p r = q r) :
    t.delete p = t.delete q := by
  ext1
  exact List.filter_congr fun r hr => by rw [h r hr]

theorem delete_of_forall {t : Table K R key} {p : R → Bool} (h : ∀ r ∈ t.rows, p r = false) :
    t.delete p = t := by
  ext1
  exact List.filter_eq_self.mpr fun r hr => by simp [h r hr]

theorem delete_delete (t : Table K R key) (p q : R → Bool) :
    (t.delete p).delete q = t.delete (fun r => p r || q r) := by
  ext1
  simp only [delete, List.filter_filter]
  exact List.filter_congr fun r _ => by cases p r <;> cases q r <;> rfl

/-- The number of rows `DELETE FROM t WHERE p` reports as affected. -/
def countWhere (t : Table K R key) (p : R → Bool) : Nat := (t.rows.filter p).length

/-- `UPDATE t SET ... WHERE p`, for a change `f` that leaves the key alone. -/
def update (t : Table K R key) (p : R → Bool) (f : R → R) (hf : ∀ r, key (f r) = key r) :
    Table K R key :=
  ⟨t.rows.map (fun r => if p r then f r else r), by
    rw [List.map_map]
    have hkeys : (key ∘ fun r => if p r then f r else r) = key := by
      funext r
      by_cases hr : p r <;> simp [hr, hf]
    rw [hkeys]
    exact t.keys_nodup⟩

theorem map_key_update (t : Table K R key) (p : R → Bool) (f : R → R) (hf : ∀ r, key (f r) = key r) :
    (t.update p f hf).rows.map key = t.rows.map key := by
  simp only [update, List.map_map]
  apply List.map_congr_left
  intro r _
  by_cases hr : p r <;> simp [hr, hf]

theorem key_mem_of_mem {t : Table K R key} {r : R} (hr : r ∈ t.rows) : key r ∈ t.rows.map key :=
  List.mem_map_of_mem hr

theorem eq_of_key_eq {t : Table K R key} {r r' : R} (hr : r ∈ t.rows) (hr' : r' ∈ t.rows)
    (hkey : key r = key r') : r = r' :=
  List.inj_on_of_nodup_map t.keys_nodup hr hr' hkey

variable [DecidableEq K]

def get (t : Table K R key) (k : K) : Option R := t.rows.find? (fun r => key r = k)

/-- `INSERT INTO t VALUES r`, which fails with a unique violation when the key of `r`
is taken. -/
def insert (t : Table K R key) (r : R) : Option (Table K R key) :=
  if h : key r ∈ t.rows.map key then none
  else some ⟨t.rows ++ [r], by
    rw [List.map_append, List.nodup_append]
    refine ⟨t.keys_nodup, by simp, ?_⟩
    intro a ha b hb hab
    simp only [List.map_cons, List.map_nil, List.mem_singleton] at hb
    exact h (hb ▸ hab ▸ ha)⟩

/-- A multi-row `INSERT`: one statement, so a unique violation anywhere (a key taken by a
row of the table or by an earlier row of the statement) inserts nothing. -/
def insertAll (t : Table K R key) (rs : List R) : Option (Table K R key) := rs.foldlM insert t

theorem get_eq_some_iff {t : Table K R key} {k : K} {r : R} :
    t.get k = some r ↔ r ∈ t.rows ∧ key r = k := by
  constructor
  · intro h
    exact ⟨List.mem_of_find?_eq_some h, by simpa using List.find?_some h⟩
  · rintro ⟨hr, rfl⟩
    have hsome : (t.rows.find? fun x => key x = key r).isSome :=
      List.find?_isSome.mpr ⟨r, hr, by simp⟩
    obtain ⟨r', hr'⟩ := Option.isSome_iff_exists.mp hsome
    have hkey : key r' = key r := by simpa using List.find?_some hr'
    rw [get, hr', eq_of_key_eq (List.mem_of_find?_eq_some hr') hr hkey]

theorem get_eq_none_iff {t : Table K R key} {k : K} : t.get k = none ↔ k ∉ t.rows.map key := by
  simp [get, List.find?_eq_none]

theorem isSome_get_iff {t : Table K R key} {k : K} : (t.get k).isSome ↔ k ∈ t.rows.map key := by
  rw [← Option.ne_none_iff_isSome, Ne, get_eq_none_iff, not_not]

theorem insert_eq_none_iff {t : Table K R key} {r : R} :
    t.insert r = none ↔ key r ∈ t.rows.map key := by
  unfold insert
  split <;> simp_all

theorem rows_insert {t t' : Table K R key} {r : R} (h : t.insert r = some t') :
    t'.rows = t.rows ++ [r] := by
  unfold insert at h
  split at h
  · cases h
  · cases h
    rfl

/-- An insert whose unique violation is ignored either leaves the rows or appends its row. -/
theorem rows_insert_getD (t : Table K R key) (r : R) :
    ((t.insert r).getD t).rows = t.rows ∨ ((t.insert r).getD t).rows = t.rows ++ [r] := by
  cases h : t.insert r with
  | none => exact .inl rfl
  | some t' => exact .inr (rows_insert h)

theorem rows_insertAll {t t' : Table K R key} {rs : List R} (h : t.insertAll rs = some t') :
    t'.rows = t.rows ++ rs := by
  induction rs generalizing t with
  | nil =>
      cases h
      simp
  | cons r rs ih =>
      obtain ⟨t₁, h₁, hrest⟩ := Option.bind_eq_some_iff.mp h
      rw [ih hrest, rows_insert h₁, List.append_assoc, List.singleton_append]

theorem get_insert {t t' : Table K R key} {r : R} (h : t.insert r = some t') (k : K) :
    t'.get k = if key r = k then some r else t.get k := by
  have hfresh : key r ∉ t.rows.map key := by
    intro hk
    rw [← insert_eq_none_iff, h] at hk
    cases hk
  split
  · rename_i hk
    rw [get_eq_some_iff, rows_insert h]
    exact ⟨List.mem_append_right _ (List.mem_singleton_self r), hk⟩
  · rename_i hk
    unfold get
    rw [rows_insert h, List.find?_append]
    cases t.rows.find? (fun x => key x = k) <;> simp [hk]

theorem filter_key_eq (t : Table K R key) (k : K) :
    t.rows.filter (fun r => key r = k) = (t.get k).toList := by
  obtain ⟨rows, hnodup⟩ := t
  unfold get
  induction rows with
  | nil => rfl
  | cons r rows ih =>
      rw [List.map_cons, List.nodup_cons] at hnodup
      by_cases hr : key r = k
      · have hrest : rows.filter (fun r => key r = k) = [] := by
          rw [List.filter_eq_nil_iff]
          intro r' hr' hk
          have hkey : key r = key r' := hr.trans (of_decide_eq_true hk).symm
          exact hnodup.1 (hkey ▸ List.mem_map_of_mem hr')
        simp [hr, hrest]
      · simpa [List.filter_cons, List.find?_cons, hr] using ih hnodup.2

theorem countWhere_key_eq {t : Table K R key} {r : R} (hr : r ∈ t.rows) :
    t.countWhere (fun r' => key r' = key r) = 1 := by
  rw [countWhere, filter_key_eq, get_eq_some_iff.mpr ⟨hr, rfl⟩]
  rfl

theorem get_delete (t : Table K R key) (p : R → Bool) (k : K) :
    (t.delete p).get k = (t.get k).filter (fun r => !p r) := by
  cases hget : t.get k with
  | none =>
      rw [Option.filter_none, get_eq_none_iff]
      rw [get_eq_none_iff] at hget
      exact fun hk => hget ((List.filter_sublist.map key).subset hk)
  | some r =>
      obtain ⟨hr, rfl⟩ := get_eq_some_iff.mp hget
      by_cases hp : p r = true
      · rw [Option.filter_some, if_neg (by simp [hp]), get_eq_none_iff]
        intro hk
        obtain ⟨r', hr', hkey⟩ := List.mem_map.mp hk
        have heq : r' = r := eq_of_key_eq (List.mem_of_mem_filter hr') hr hkey
        have hkeep := (List.mem_filter.mp hr').2
        rw [heq, hp] at hkeep
        cases hkeep
      · rw [Option.filter_some, if_pos (by simpa using hp), get_eq_some_iff]
        exact ⟨List.mem_filter.mpr ⟨hr, by simpa using hp⟩, rfl⟩

theorem get_update (t : Table K R key) (p : R → Bool) (f : R → R) (hf : ∀ r, key (f r) = key r)
    (k : K) : (t.update p f hf).get k = (t.get k).map (fun r => if p r then f r else r) := by
  cases hget : t.get k with
  | none =>
      rw [Option.map_none, get_eq_none_iff]
      rw [get_eq_none_iff] at hget
      intro hk
      obtain ⟨r', hr', hkey⟩ := List.mem_map.mp hk
      obtain ⟨r, hr, rfl⟩ := List.mem_map.mp hr'
      have hkr : key r = k := by
        by_cases hp : p r <;> simp_all
      exact hget (hkr ▸ key_mem_of_mem hr)
  | some r =>
      obtain ⟨hr, rfl⟩ := get_eq_some_iff.mp hget
      rw [Option.map_some, get_eq_some_iff]
      refine ⟨List.mem_map.mpr ⟨r, hr, rfl⟩, ?_⟩
      by_cases hp : p r <;> simp [hp, hf]

end Table

theorem length_filter_le_one_of_nodup_map {R K : Type} [DecidableEq K] {rows : List R}
    {f : R → K} (h : (rows.map f).Nodup) (k : K) :
    (rows.filter fun r => decide (f r = k)).length ≤ 1 := by
  have hsub : ((rows.filter fun r => decide (f r = k)).map f).Sublist (rows.map f) :=
    List.filter_sublist.map f
  have hrep : (rows.filter fun r => decide (f r = k)).map f =
      List.replicate (rows.filter fun r => decide (f r = k)).length k := by
    rw [List.eq_replicate_iff, List.length_map]
    refine ⟨rfl, fun b hb => ?_⟩
    obtain ⟨r, hr, rfl⟩ := List.mem_map.mp hb
    exact of_decide_eq_true (List.mem_filter.mp hr).2
  have hnodup := h.sublist hsub
  rw [hrep, List.nodup_replicate] at hnodup
  exact hnodup

section OrderBy

variable {R σ : Type} [LinearOrder σ]

/-- `SELECT ... ORDER BY rank ASC LIMIT n` over the rows that pass the `WHERE`. -/
def orderByLimit (rank : R → σ) (n : Nat) (rows : List R) : List R :=
  (rows.mergeSort (fun a b => decide (rank a ≤ rank b))).take n

theorem pairwise_mergeSort_rank (rank : R → σ) (rows : List R) :
    (rows.mergeSort (fun a b => decide (rank a ≤ rank b))).Pairwise (fun a b => rank a ≤ rank b) := by
  have h := @List.pairwise_mergeSort _ (fun a b => decide (rank a ≤ rank b))
    (fun a b c hab hbc => by simpa using le_trans (by simpa using hab) (by simpa using hbc))
    (fun a b => by simpa using le_total (rank a) (rank b)) rows
  simpa using h

theorem mem_of_mem_orderByLimit {rank : R → σ} {n : Nat} {rows : List R} {r : R}
    (h : r ∈ orderByLimit rank n rows) : r ∈ rows :=
  (List.mergeSort_perm rows _).subset (List.mem_of_mem_take h)

theorem length_orderByLimit (rank : R → σ) (n : Nat) (rows : List R) :
    (orderByLimit rank n rows).length = min n rows.length := by
  simp [orderByLimit, List.length_take, List.length_mergeSort]

theorem orderByLimit_pairwise (rank : R → σ) (n : Nat) (rows : List R) :
    (orderByLimit rank n rows).Pairwise (fun a b => rank a ≤ rank b) :=
  (pairwise_mergeSort_rank rank rows).sublist (List.take_sublist n _)

theorem orderByLimit_nodup {rank : R → σ} (n : Nat) {rows : List R} (h : rows.Nodup) :
    (orderByLimit rank n rows).Nodup :=
  ((List.mergeSort_perm rows _).nodup_iff.mpr h).sublist (List.take_sublist n _)

theorem rank_le_of_not_mem_orderByLimit {rank : R → σ} {n : Nat} {rows : List R} {r s : R}
    (hr : r ∈ orderByLimit rank n rows) (hs : s ∈ rows) (hns : s ∉ orderByLimit rank n rows) :
    rank r ≤ rank s := by
  have hsorted := pairwise_mergeSort_rank rank rows
  rw [← List.take_append_drop n (rows.mergeSort _), List.pairwise_append] at hsorted
  have hsdrop : s ∈ (rows.mergeSort (fun a b => decide (rank a ≤ rank b))).drop n := by
    have hsm := (List.mergeSort_perm rows (fun a b => decide (rank a ≤ rank b))).symm.subset hs
    rw [← List.take_append_drop n (rows.mergeSort _), List.mem_append] at hsm
    exact hsm.resolve_left hns
  exact hsorted.2.2 r hr s hsdrop

end OrderBy

end Vct.Lib.Sql
