import Mathlib
import Vct.Lib.Except
import Vct.Canonicalizer.Transform

namespace Vct.Canonicalizer.Read

open Vct.Lib.Json
open Vct.Lib.Unicode
open Vct.Lib.Except
open Vct.Lib.OrderedInsert
open Vct.Canonicalizer.Transform

/-- The order of names by their UTF-16 code units, a proper prefix first. -/
def keyPrecedes (a b : List UInt8) : Bool := decide (sortKey a < sortKey b)

theorem isKeyOrder_keyPrecedes : IsKeyOrder keyPrecedes where
  trans a b c hab hbc := by
    simp only [keyPrecedes, decide_eq_true_eq] at hab hbc ⊢
    exact List.lt_trans hab hbc
  asymm a b hab := by
    simp only [keyPrecedes, decide_eq_true_eq] at hab ⊢
    exact List.lt_asymm hab

/-- Two names the order tells apart are names of different sort keys. -/
theorem comparable_keyPrecedes_iff {a b : List UInt8} :
    Comparable (KeyLt keyPrecedes) a b ↔ sortKey a ≠ sortKey b := by
  simp only [Comparable, KeyLt, keyPrecedes, decide_eq_true_eq]
  constructor
  · rintro (h | h) heq
    · exact List.lt_irrefl _ (heq ▸ h)
    · exact List.lt_irrefl _ (heq ▸ h)
  · intro hne
    rcases Std.lt_trichotomy (sortKey a) (sortKey b) with h | h | h
    · exact .inl h
    · exact absurd h hne
    · exact .inr h

section Read

variable (numberToJSON : List UInt8 → Except String (List UInt8))

/-- The value of a token: a literal, or the number `numberToJSON` writes for it. -/
def readSimpleType (s : List UInt8) : Except TransformError (Value × List UInt8) := do
  let (token, s) ← readToken s
  if token = [] then throw .missingArgument
  else if token = ascii ['t', 'r', 'u', 'e'] then pure (.bool true, s)
  else if token = ascii ['f', 'a', 'l', 's', 'e'] then pure (.bool false, s)
  else if token = ascii ['n', 'u', 'l', 'l'] then pure (.null, s)
  else do
    let text ← (numberToJSON token).mapError .number
    pure (.number text, s)

/-- The name read before with the sort key of `name`. -/
def duplicateOf (names : List (List UInt8)) (name : List UInt8) : Option (List UInt8) :=
  names.find? fun k => sortKey k == sortKey name

mutual
def readElement : Nat → List UInt8 → Except TransformError (Value × List UInt8)
  | 0, _ => throw .eof
  | n + 1, s => do
    let (c, s) ← scan s
    if c = '{'.toUInt8 then readObject n false [] s
    else if c = '"'.toUInt8 then do
      let (rawUTF8, s) ← parseQuotedString s
      pure (.string rawUTF8, s)
    else if c = '['.toUInt8 then do
      let (xs, s) ← readArray n false s
      pure (.array xs, s)
    else readSimpleType numberToJSON (c :: s)

def readArray : Nat → Bool → List UInt8 → Except TransformError (List Value × List UInt8)
  | 0, _, _ => throw .eof
  | n + 1, next, s => do
    let c ← testNextNonWhiteSpaceChar s
    if c = ']'.toUInt8 then do
      let (_, s) ← scan s
      pure ([], s)
    else do
      let s ← (if next then scanFor ','.toUInt8 s else pure s)
      let (x, s) ← readElement n s
      let (xs, s) ← readArray n true s
      pure (x :: xs, s)

/-- The members of an object in the order of the text, after `members`. -/
def readObject : Nat → Bool → List (List UInt8 × Value) → List UInt8 →
    Except TransformError (Value × List UInt8)
  | 0, _, _, _ => throw .eof
  | n + 1, next, members, s => do
    let c ← testNextNonWhiteSpaceChar s
    if c = '}'.toUInt8 then do
      let (_, s) ← scan s
      pure (.object members, s)
    else do
      let s ← (if next then scanFor ','.toUInt8 s else pure s)
      let s ← scanFor '"'.toUInt8 s
      let (name, s) ← parseQuotedString s
      let s ← scanFor ':'.toUInt8 s
      let (value, s) ← readElement n s
      match duplicateOf (members.map Prod.fst) name with
      | some k => throw (.duplicateKey k)
      | none => readObject n true (members ++ [(name, value)]) s
end

/-- The value of the input: an array, or else an object, then nothing but white space. -/
def readJSON (jsonData : List UInt8) : Except TransformError Value := do
  let fuel := 2 * jsonData.length + 2
  let c ← testNextNonWhiteSpaceChar jsonData
  let (v, s) ← (if c = '['.toUInt8 then do
      let (_, s) ← scan jsonData
      let (xs, s) ← readArray numberToJSON fuel false s
      pure (Value.array xs, s)
    else do
      let s ← scanFor '{'.toUInt8 jsonData
      readObject numberToJSON fuel false [] s)
  if s.all isWhiteSpace then pure v else throw .improperlyTerminated

end Read

section Text

/-- The element of `parseObject`'s list for a member. -/
def toNameValue (m : List UInt8 × Value) : NameValue :=
  ⟨m.1, sortKey m.1, render decorateString m.2⟩

/-- The list `parseObject` holds after the members read so far. -/
def nameValues (members : List (List UInt8 × Value)) : List NameValue :=
  (insertAll keyPrecedes (canonicalMembers keyPrecedes members)).map toNameValue

/-- What `parseArray` writes from its flag on, for the elements it reads. -/
def arrayText (next : Bool) (xs : List Value) : List UInt8 :=
  if next then renderElems decorateString xs else (render decorateString (.array xs)).tail

/-- What `parseObject` writes from its flag on, for the members it reads. -/
def objectText (next : Bool) (ms : List (List UInt8 × Value)) : List UInt8 :=
  if next then renderMembers decorateString ms else (render decorateString (.object ms)).tail

theorem arrayText_nil (next : Bool) : arrayText next [] = [']'.toUInt8] := by
  cases next <;> rfl

theorem arrayText_cons (next : Bool) (x : Value) (xs : List Value) :
    arrayText next (x :: xs) =
      (if next then [','.toUInt8] else []) ++ render decorateString x ++
        renderElems decorateString xs := by
  cases next <;> rfl

theorem objectText_nil (next : Bool) : objectText next [] = ['}'.toUInt8] := by
  cases next <;> rfl

theorem objectText_cons (next : Bool) (k : List UInt8) (v : Value) (ms : List (List UInt8 × Value)) :
    objectText next ((k, v) :: ms) =
      (if next then [','.toUInt8] else []) ++ decorateString k ++ ':'.toUInt8 ::
        render decorateString v ++ renderMembers decorateString ms := by
  cases next <;> rfl

theorem cons_arrayText_false (xs : List Value) :
    '['.toUInt8 :: arrayText false xs = render decorateString (.array xs) := by
  cases xs <;> rfl

theorem cons_objectText_false (ms : List (List UInt8 × Value)) :
    '{'.toUInt8 :: objectText false ms = render decorateString (.object ms) := by
  cases ms <;> rfl

theorem serializeMembers_map (next : Bool) (ms : List (List UInt8 × Value)) :
    serializeMembers next (ms.map toNameValue) ++ ['}'.toUInt8] = objectText next ms := by
  unfold objectText
  induction ms generalizing next with
  | nil => cases next <;> rfl
  | cons m ms ih =>
    obtain ⟨k, v⟩ := m
    have hrest := ih true
    simp only [if_true] at hrest
    cases next <;>
      simp [serializeMembers, toNameValue, render, renderMembers, ← hrest]

/-- `parseObject` writes the object of its sorted list. -/
theorem serializeObject_map (ms : List (List UInt8 × Value)) :
    serializeObject (ms.map toNameValue) = render decorateString (.object ms) := by
  have h := serializeMembers_map false ms
  simp only [objectText, Bool.false_eq_true, if_false] at h
  rw [serializeObject, List.cons_append, h]
  cases ms <;> rfl

end Text

section Insert

theorem ne_of_comparable {a b : List UInt8} (h : Comparable (KeyLt keyPrecedes) a b) :
    sortKey a ≠ sortKey b :=
  comparable_keyPrecedes_iff.mp h

/-- The insertion loop on a list sorted by sort key: the duplicate if some element has the
sort key, and otherwise the ordered insertion. -/
theorem insertNameValue_eq {ms : List (List UInt8 × Value)}
    (hs : (ms.map Prod.fst).Pairwise (KeyLt keyPrecedes)) (k : List UInt8) (v : Value) :
    insertNameValue (toNameValue (k, v)) (ms.map toNameValue) =
      match duplicateOf (ms.map Prod.fst) k with
      | some k' => throw (.duplicateKey k')
      | none => pure ((ms.orderedInsert (memberLt keyPrecedes) (k, v)).map toNameValue) := by
  induction ms with
  | nil => rfl
  | cons m ms ih =>
    obtain ⟨k', v'⟩ := m
    rw [List.map_cons, List.pairwise_cons] at hs
    obtain ⟨hlt, hs⟩ := hs
    have hcmp : lexicographicallyPrecedes (toNameValue (k, v)).sortKey (toNameValue (k', v')) =
        if sortKey k = sortKey k' then throw (.duplicateKey k')
        else pure (decide (sortKey k < sortKey k')) :=
      lexicographicallyPrecedes_eq _ _
    rw [List.map_cons, insertNameValue, hcmp]
    simp only [duplicateOf, List.map_cons, List.find?_cons]
    by_cases heq : sortKey k = sortKey k'
    · simp [heq]
    · have hb : (sortKey k' == sortKey k) = false := by simpa using Ne.symm heq
      by_cases hkk : sortKey k < sortKey k'
      · -- the new name goes first; every later name is past `k'`, so none is a duplicate
        have hnone : (ms.map Prod.fst).find? (fun j => sortKey j == sortKey k) = none := by
          refine List.find?_eq_none.mpr fun j hj hjk => ?_
          have hj := hlt j hj
          simp only [KeyLt, keyPrecedes, decide_eq_true_eq] at hj
          rw [beq_iff_eq.mp hjk] at hj
          exact List.lt_asymm hkk hj
        have hins : memberLt keyPrecedes (k, v) (k', v') := by
          simpa [memberLt, keyPrecedes] using hkk
        simp [heq, hkk, hb, hnone, List.orderedInsert_cons_of_le _ _ hins]
      · have hins : ¬ memberLt keyPrecedes (k, v) (k', v') := by
          simpa [memberLt, keyPrecedes] using hkk
        have hrest := ih hs
        simp only [duplicateOf] at hrest
        simp only [heq, hkk, hb, if_false, decide_false, Bool.false_eq_true,
          List.orderedInsert_of_not_le _ _ hins, List.map_cons, pure_bind, hrest]
        cases (ms.map Prod.fst).find? (fun j => sortKey j == sortKey k) <;> rfl

/-- The names of a member list whose names the order tells apart: the sorted list finds the
same earlier name as the list in the order of the text. -/
theorem duplicateOf_insertAll {members : List (List UInt8 × Value)}
    (hd : (members.map Prod.fst).Pairwise (Comparable (KeyLt keyPrecedes))) (k : List UInt8) :
    duplicateOf ((insertAll keyPrecedes (canonicalMembers keyPrecedes members)).map Prod.fst) k =
      duplicateOf (members.map Prod.fst) k := by
  have hperm : ((insertAll keyPrecedes (canonicalMembers keyPrecedes members)).map Prod.fst).Perm
      (members.map Prod.fst) := by
    simpa using (insertAll_perm (canonicalMembers keyPrecedes members)).map Prod.fst
  refine find?_eq_of_perm hperm fun a ha b hb hpa hpb => ?_
  have ha' := hperm.subset ha
  have hb' := hperm.subset hb
  by_contra hab
  have hab' := hd.forall ha' hb' hab
  exact ne_of_comparable hab' ((beq_iff_eq.mp hpa).trans (beq_iff_eq.mp hpb).symm)

theorem nameValues_append {members : List (List UInt8 × Value)} (k : List UInt8) (v : Value) :
    ((insertAll keyPrecedes (canonicalMembers keyPrecedes members)).orderedInsert
        (memberLt keyPrecedes) (k, canonical keyPrecedes v)).map toNameValue =
      nameValues (members ++ [(k, v)]) := by
  simp only [nameValues, canonicalMembers_eq_map, List.map_append, List.map_cons, List.map_nil,
    insertAll_eq_insertEach, insertEach_append]
  rfl

/-- A name with no earlier duplicate keeps the names told apart. -/
theorem comparable_append {members : List (List UInt8 × Value)}
    (hd : (members.map Prod.fst).Pairwise (Comparable (KeyLt keyPrecedes))) {k : List UInt8}
    (hk : duplicateOf (members.map Prod.fst) k = none) (v : Value) :
    ((members ++ [(k, v)]).map Prod.fst).Pairwise (Comparable (KeyLt keyPrecedes)) := by
  rw [List.map_append, List.pairwise_append]
  refine ⟨hd, by simp, ?_⟩
  intro a ha b hb
  simp only [List.map_cons, List.map_nil, List.mem_singleton] at hb
  subst hb
  have hne := (List.find?_eq_none.mp hk) a ha
  exact comparable_keyPrecedes_iff.mpr fun h => hne (by simp [h])

/-- A name the order tells apart from every earlier name has no earlier duplicate. -/
theorem duplicateOf_eq_none {names : List (List UInt8)} {k : List UInt8}
    (h : ∀ a ∈ names, Comparable (KeyLt keyPrecedes) a k) : duplicateOf names k = none :=
  List.find?_eq_none.mpr fun a ha heq => ne_of_comparable (h a ha) (beq_iff_eq.mp heq)

end Insert

section Refinement

variable (numberToJSON : List UInt8 → Except String (List UInt8))

/-- The text `Transform` writes for a value it reads. -/
def canonicalText (v : Value) : List UInt8 := render decorateString (canonical keyPrecedes v)

theorem parseSimpleType_eq (s : List UInt8) :
    parseSimpleType numberToJSON s =
      (readSimpleType numberToJSON s).map fun p => (canonicalText p.1, p.2) := by
  unfold parseSimpleType readSimpleType
  refine bind_eq_map_bind fun p => ?_
  obtain ⟨token, s⟩ := p
  dsimp only
  by_cases h0 : token = []
  · simp only [h0, if_true]
    rfl
  simp only [h0, if_false]
  by_cases ht : token = ascii ['t', 'r', 'u', 'e']
  · subst ht
    rfl
  by_cases hf : token = ascii ['f', 'a', 'l', 's', 'e']
  · subst hf
    rfl
  by_cases hn : token = ascii ['n', 'u', 'l', 'l']
  · subst hn
    rfl
  have hlit : literals.contains token = false := by
    simp [literals, ht, hf, hn]
  simp only [hlit, ht, hf, hn, if_false, Bool.false_eq_true]
  refine bind_eq_map_bind fun value => ?_
  rfl

/-- The loops of `Transform` at fuel `n` write the text of the canonical form of what the
reader reads at the same fuel; `parseObject`'s list is that of the members read so far. -/
def Refines (n : Nat) : Prop :=
  (∀ s, parseElement numberToJSON n s =
    (readElement numberToJSON n s).map fun p => (canonicalText p.1, p.2)) ∧
  (∀ next s, parseArray numberToJSON n next s =
    (readArray numberToJSON n next s).map fun p =>
      (arrayText next (canonicalElems keyPrecedes p.1), p.2)) ∧
  (∀ next members s, (members.map Prod.fst).Pairwise (Comparable (KeyLt keyPrecedes)) →
    parseObject numberToJSON n next (nameValues members) s =
      (readObject numberToJSON n next members s).map fun p => (canonicalText p.1, p.2))

variable {numberToJSON}

theorem parseElement_succ {n : Nat} (ih : Refines numberToJSON n) (s : List UInt8) :
    parseElement numberToJSON (n + 1) s =
      (readElement numberToJSON (n + 1) s).map fun p => (canonicalText p.1, p.2) := by
  rw [parseElement, readElement]
  refine bind_eq_map_bind fun p => ?_
  obtain ⟨c, s⟩ := p
  dsimp only
  split_ifs
  · exact ih.2.2 false [] s List.Pairwise.nil
  · refine bind_eq_map_bind fun p => ?_
    rfl
  · rw [ih.2.1 false s]
    refine map_bind_eq_map_bind fun p => ?_
    obtain ⟨xs, s⟩ := p
    change pure ('['.toUInt8 :: arrayText false (canonicalElems keyPrecedes xs), s) = _
    rw [cons_arrayText_false]
    rfl
  · exact parseSimpleType_eq numberToJSON (c :: s)

theorem parseArray_succ {n : Nat} (ih : Refines numberToJSON n) (next : Bool) (s : List UInt8) :
    parseArray numberToJSON (n + 1) next s =
      (readArray numberToJSON (n + 1) next s).map fun p =>
        (arrayText next (canonicalElems keyPrecedes p.1), p.2) := by
  rw [parseArray, readArray]
  refine bind_eq_map_bind fun c => ?_
  by_cases hc : c = ']'.toUInt8
  · rw [if_pos hc, if_pos hc]
    refine bind_eq_map_bind fun p => ?_
    change pure _ = pure (arrayText next [], p.2)
    rw [arrayText_nil]
  · rw [if_neg hc, if_neg hc]
    refine bind_eq_map_bind fun s => ?_
    dsimp only
    rw [ih.1 s]
    refine map_bind_eq_map_bind fun p => ?_
    obtain ⟨x, s⟩ := p
    dsimp only
    rw [ih.2.1 true s]
    refine map_bind_eq_map_bind fun p => ?_
    obtain ⟨xs, s⟩ := p
    change pure _ = pure (arrayText next (canonicalElems keyPrecedes (x :: xs)), s)
    rw [canonicalElems, arrayText_cons]
    rfl

theorem parseObject_succ {n : Nat} (ih : Refines numberToJSON n) (next : Bool)
    (members : List (List UInt8 × Value))
    (hd : (members.map Prod.fst).Pairwise (Comparable (KeyLt keyPrecedes))) (s : List UInt8) :
    parseObject numberToJSON (n + 1) next (nameValues members) s =
      (readObject numberToJSON (n + 1) next members s).map fun p => (canonicalText p.1, p.2) := by
  rw [parseObject, readObject]
  refine bind_eq_map_bind fun c => ?_
  by_cases hc : c = '}'.toUInt8
  · rw [if_pos hc, if_pos hc]
    refine bind_eq_map_bind fun p => ?_
    change pure (serializeObject (nameValues members), p.2) = pure _
    rw [nameValues, serializeObject_map]
    rfl
  · rw [if_neg hc, if_neg hc]
    refine bind_eq_map_bind fun s => ?_
    dsimp only
    refine bind_eq_map_bind fun s => ?_
    refine bind_eq_map_bind fun p => ?_
    obtain ⟨name, s⟩ := p
    dsimp only
    refine bind_eq_map_bind fun s => ?_
    rw [ih.1 s]
    refine map_bind_eq_map_bind fun p => ?_
    obtain ⟨v, s⟩ := p
    dsimp only
    have hkeys : ((canonicalMembers keyPrecedes members).map Prod.fst).Pairwise
        (Comparable (KeyLt keyPrecedes)) := by simpa using hd
    have hsorted := pairwise_insertAll isKeyOrder_keyPrecedes hkeys
    have hins := insertNameValue_eq hsorted name (canonical keyPrecedes v)
    rw [duplicateOf_insertAll hd] at hins
    change insertNameValue (toNameValue (name, canonical keyPrecedes v))
      ((insertAll keyPrecedes (canonicalMembers keyPrecedes members)).map toNameValue) >>= _ = _
    rw [hins]
    cases hdup : duplicateOf (members.map Prod.fst) name with
    | some k => rfl
    | none =>
      change parseObject numberToJSON n true _ s = _
      rw [nameValues_append]
      exact ih.2.2 true _ s (comparable_append hd hdup v)

theorem refines (n : Nat) : Refines numberToJSON n := by
  induction n with
  | zero => exact ⟨fun _ => rfl, fun _ _ => rfl, fun _ _ _ _ => rfl⟩
  | succ n ih =>
    exact ⟨parseElement_succ ih, parseArray_succ ih, fun next members s hd =>
      parseObject_succ ih next members hd s⟩

theorem transform_eq_map_canonicalText (jsonData : List UInt8) :
    transform numberToJSON jsonData = (readJSON numberToJSON jsonData).map canonicalText := by
  have h : Refines numberToJSON (2 * jsonData.length + 2) := refines _
  unfold transform readJSON
  dsimp only
  refine bind_eq_map_bind fun c => ?_
  have hbody : (if c = '['.toUInt8 then do
        let (_, s) ← scan jsonData
        let (text, s) ← parseArray numberToJSON (2 * jsonData.length + 2) false s
        pure ('['.toUInt8 :: text, s)
      else do
        let s ← scanFor '{'.toUInt8 jsonData
        parseObject numberToJSON (2 * jsonData.length + 2) false [] s) =
      (if c = '['.toUInt8 then do
        let (_, s) ← scan jsonData
        let (xs, s) ← readArray numberToJSON (2 * jsonData.length + 2) false s
        pure (Value.array xs, s)
      else do
        let s ← scanFor '{'.toUInt8 jsonData
        readObject numberToJSON (2 * jsonData.length + 2) false [] s).map
        fun (p : Value × List UInt8) => (canonicalText p.1, p.2) := by
    split_ifs
    · refine bind_eq_map_bind fun p => ?_
      obtain ⟨_, s⟩ := p
      dsimp only
      rw [h.2.1 false s]
      refine map_bind_eq_map_bind fun q => ?_
      obtain ⟨xs, s⟩ := q
      change pure ('['.toUInt8 :: arrayText false (canonicalElems keyPrecedes xs), s) = _
      rw [cons_arrayText_false]
      rfl
    · exact bind_eq_map_bind fun s => h.2.2 false [] s List.Pairwise.nil
  rw [hbody]
  refine map_bind_eq_map_bind fun p => ?_
  obtain ⟨v, s⟩ := p
  dsimp only
  split_ifs <;> rfl

/-- `Transform` computes, in one pass, the canonical text of the value `readJSON` reads: read,
order the members of every object by the UTF-16 code units of their names, write. The two
agree on every input, the first error included. -/
theorem transform_eq_render_canonical (jsonData : List UInt8) :
    transform numberToJSON jsonData =
      (readJSON numberToJSON jsonData).map fun v => render decorateString (canonical keyPrecedes v) :=
  transform_eq_map_canonicalText jsonData

end Refinement

end Vct.Canonicalizer.Read
