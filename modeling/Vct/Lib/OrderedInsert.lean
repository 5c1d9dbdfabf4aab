import Mathlib.Data.List.Sort

namespace Vct.Lib.OrderedInsert

variable {α : Type*} (r : α → α → Prop)

/-- Two elements the order puts one way or the other. -/
def Comparable (a b : α) : Prop := r a b ∨ r b a

variable [DecidableRel r]

/-- The elements of `l` inserted one by one into `acc`. -/
def insertEach (acc l : List α) : List α := l.foldl (fun acc a => acc.orderedInsert r a) acc

variable {r}

omit [DecidableRel r] in
theorem comparable_comm {a b : α} : Comparable r a b → Comparable r b a := Or.symm

instance : Std.Symm (Comparable r) := ⟨fun _ _ => comparable_comm⟩

@[simp] theorem insertEach_nil (acc : List α) : insertEach r acc [] = acc := rfl

theorem insertEach_cons (acc : List α) (a : α) (l : List α) :
    insertEach r acc (a :: l) = insertEach r (acc.orderedInsert r a) l := rfl

theorem insertEach_append (acc l l' : List α) :
    insertEach r acc (l ++ l') = insertEach r (insertEach r acc l) l' := List.foldl_append

theorem insertEach_perm (acc l : List α) : (insertEach r acc l).Perm (acc ++ l) := by
  induction l generalizing acc with
  | nil => simp
  | cons a l ih =>
    rw [insertEach_cons]
    exact (ih _).trans (((List.perm_orderedInsert r a acc).append_right l).trans
      List.perm_middle.symm)

section Strict

variable (htrans : ∀ a b c, r a b → r b c → r a c) (hasymm : ∀ a b, r a b → ¬ r b a)

include htrans in
theorem pairwise_orderedInsert {a : α} {l : List α} (hl : l.Pairwise r)
    (ha : ∀ b ∈ l, Comparable r a b) : (l.orderedInsert r a).Pairwise r := by
  induction l with
  | nil => simp
  | cons b l ih =>
    obtain ⟨hb, hl⟩ := List.pairwise_cons.mp hl
    by_cases hab : r a b
    · rw [List.orderedInsert_cons_of_le r l hab]
      refine List.Pairwise.cons (fun c hc => ?_) (List.Pairwise.cons hb hl)
      rcases List.mem_cons.mp hc with rfl | hc
      · exact hab
      · exact htrans a b c hab (hb c hc)
    · rw [List.orderedInsert_of_not_le r l hab]
      have hba : r b a := (ha b List.mem_cons_self).resolve_left hab
      refine List.Pairwise.cons (fun c hc => ?_) (ih hl fun c hc => ha c (List.mem_cons_of_mem b hc))
      rcases (List.mem_orderedInsert r).mp hc with rfl | hc
      · exact hba
      · exact hb c hc

include hasymm in
/-- An element every element of the list precedes goes at the back. -/
theorem orderedInsert_eq_append {a : α} {l : List α} (h : ∀ b ∈ l, r b a) :
    l.orderedInsert r a = l ++ [a] := by
  induction l with
  | nil => rfl
  | cons b l ih =>
    rw [List.orderedInsert_of_not_le r l (hasymm b a (h b List.mem_cons_self)),
      ih fun c hc => h c (List.mem_cons_of_mem b hc)]
    rfl

include htrans in
theorem pairwise_insertEach {acc l : List α} (hacc : acc.Pairwise r)
    (hcmp : (acc ++ l).Pairwise (Comparable r)) : (insertEach r acc l).Pairwise r := by
  induction l generalizing acc with
  | nil => exact hacc
  | cons a l ih =>
    rw [insertEach_cons]
    have hsplit := List.pairwise_append.mp hcmp
    have ha : ∀ b ∈ acc, Comparable r a b := fun b hb =>
      comparable_comm (hsplit.2.2 b hb a List.mem_cons_self)
    refine ih (pairwise_orderedInsert htrans hacc ha) ?_
    have hperm : (acc.orderedInsert r a ++ l).Perm (acc ++ a :: l) :=
      ((List.perm_orderedInsert r a acc).append_right l).trans List.perm_middle.symm
    exact (hperm.pairwise_iff comparable_comm).mpr hcmp

include hasymm in
/-- Inserting the elements of a list that continues a sorted one in order appends them. -/
theorem insertEach_of_pairwise {acc l : List α} (h : (acc ++ l).Pairwise r) :
    insertEach r acc l = acc ++ l := by
  induction l generalizing acc with
  | nil => simp
  | cons a l ih =>
    have hsplit := List.pairwise_append.mp h
    rw [insertEach_cons,
      orderedInsert_eq_append hasymm fun b hb => hsplit.2.2 b hb a List.mem_cons_self,
      ih (by simpa using h)]
    simp

include htrans hasymm in
/-- The sorted result is determined by the elements: a permutation of the input gives the
same list. -/
theorem insertEach_eq_of_perm {l₁ l₂ : List α} (hp : l₁.Perm l₂)
    (hcmp : l₁.Pairwise (Comparable r)) : insertEach r [] l₁ = insertEach r [] l₂ := by
  have hcmp₂ : l₂.Pairwise (Comparable r) := (hp.pairwise_iff comparable_comm).mp hcmp
  have hs₁ := pairwise_insertEach htrans List.Pairwise.nil (by simpa using hcmp)
  have hs₂ := pairwise_insertEach htrans List.Pairwise.nil (by simpa using hcmp₂)
  have hperm : (insertEach r [] l₁).Perm (insertEach r [] l₂) := by
    refine (insertEach_perm [] l₁).trans ?_
    simpa using hp.trans (insertEach_perm [] l₂).symm
  exact hperm.eq_of_pairwise (fun a b _ _ hab hba => absurd hba (hasymm a b hab)) hs₁ hs₂

end Strict

/-- Over a permutation, `find?` finds the same element when at most one element matches. -/
theorem find?_eq_of_perm {p : α → Bool} {l₁ l₂ : List α} (hp : l₁.Perm l₂)
    (huniq : ∀ a ∈ l₁, ∀ b ∈ l₁, p a = true → p b = true → a = b) :
    l₁.find? p = l₂.find? p := by
  cases h₁ : l₁.find? p with
  | none =>
    refine (List.find?_eq_none.mpr fun x hx => ?_).symm
    exact List.find?_eq_none.mp h₁ x (hp.symm.subset hx)
  | some a =>
    have ha := List.mem_of_find?_eq_some h₁
    cases h₂ : l₂.find? p with
    | none => exact absurd (List.find?_some h₁) (List.find?_eq_none.mp h₂ a (hp.subset ha))
    | some b =>
      have hb := hp.symm.subset (List.mem_of_find?_eq_some h₂)
      rw [huniq a ha b hb (List.find?_some h₁) (List.find?_some h₂)]

end Vct.Lib.OrderedInsert
