import Mathlib
import Vct.Canonicalizer.Read

/-!
The output of `Transform` is in canonical form. Every value `readJSON` reads names each
object's members with distinct sort keys and holds only numbers the number step writes
(`readInv`). Its canonical form, written out, reads back as itself (`readJSON_render`), with
every object sorted; so the output of `Transform` is the text of a sorted value
(`transform_output_canonical`) and `Transform` leaves its own output unchanged
(`transform_idempotent`).

Reading a number back depends on the number step: what `NumberToJSON` writes is made of
digits, signs, the point and an `e`, and `ParseFloat` then `NumberToJSON` give it back, the
round trip the ES6 format is chosen for (`NumberFormat`).
-/

namespace Vct.Canonicalizer.Canonical

open Vct.Lib.Json
open Vct.Lib.Except
open Vct.Lib.OrderedInsert
open Vct.Canonicalizer.Transform
open Vct.Canonicalizer.Read

/-- A byte of the text `NumberToJSON` writes: a digit, a sign, the point or the `e` of an
exponent. -/
def isNumberByte (b : UInt8) : Bool :=
  isDigitByte b || b == '-'.toUInt8 || b == '+'.toUInt8 || b == '.'.toUInt8 || b == 'e'.toUInt8

/-- A number byte is part of a token and starts no other element. -/
theorem numberByte_facts : ∀ b : UInt8, isNumberByte b = true →
    b < 0x80 ∧ isWhiteSpace b = false ∧ isDelimiter b = false ∧ b ≠ '{'.toUInt8 ∧
      b ≠ '"'.toUInt8 ∧ b ≠ '['.toUInt8 ∧ b ≠ 't'.toUInt8 ∧ b ≠ 'f'.toUInt8 ∧ b ≠ 'n'.toUInt8 := by
  set_option maxRecDepth 4000 in decide

/-- What the number step guarantees: the text `NumberToJSON` writes is made of number bytes,
and `ParseFloat` then `NumberToJSON` give that text back. -/
structure NumberFormat (numberToJSON : List UInt8 → Except String (List UInt8)) : Prop where
  text : ∀ t t', numberToJSON t = .ok t' → t' ≠ [] ∧ ∀ b ∈ t', isNumberByte b = true
  fixed : ∀ t t', numberToJSON t = .ok t' → numberToJSON t' = .ok t'

/-- A number step that writes a plain decimal natural as it is and rejects every other token. -/
def decimalNumber (t : List UInt8) : Except String (List UInt8) :=
  if isDecimal t then .ok t else .error "invalid number"

theorem isDecimal_numberBytes {t : List UInt8} (h : isDecimal t = true) :
    t ≠ [] ∧ ∀ b ∈ t, isNumberByte b = true := by
  have hdigits : ∀ b ∈ t, isDigitByte b = true := by
    match t, h with
    | [d], h => simpa [isDecimal] using h
    | d :: d' :: ds, h =>
      simp only [isDecimal, Bool.and_eq_true, List.all_eq_true] at h
      intro b hb
      rcases List.mem_cons.mp hb with rfl | hb
      · exact h.1.2
      · exact h.2 b hb
  refine ⟨fun hnil => ?_, fun b hb => ?_⟩
  · subst hnil
    exact Bool.false_ne_true h
  · simp [isNumberByte, hdigits b hb]

theorem numberFormat_decimalNumber : NumberFormat decimalNumber where
  text t t' h := by
    unfold decimalNumber at h
    split_ifs at h with hdec
    cases h
    exact isDecimal_numberBytes hdec
  fixed t t' h := by
    unfold decimalNumber at h ⊢
    split_ifs at h with hdec
    cases h
    rw [if_pos hdec]

section Invariant

variable (numberToJSON : List UInt8 → Except String (List UInt8))

/-- A number text the number step writes. -/
def Written (t : List UInt8) : Prop := ∃ token, numberToJSON token = .ok t

/-- What the reader's values hold: distinct sort keys in every object, and written numbers. -/
def WellRead (v : Value) : Prop :=
  DistinctKeys keyPrecedes v ∧ AllNumbers (Written numberToJSON) v

/-- The invariant of the three reading loops at fuel `n`. -/
def ReadInv (n : Nat) : Prop :=
  (∀ s v r, readElement numberToJSON n s = .ok (v, r) → WellRead numberToJSON v) ∧
  (∀ next s xs r, readArray numberToJSON n next s = .ok (xs, r) →
    DistinctKeysElems keyPrecedes xs ∧ AllNumbersElems (Written numberToJSON) xs) ∧
  (∀ next members s v r, (members.map Prod.fst).Pairwise (Comparable (KeyLt keyPrecedes)) →
    (∀ m ∈ members, WellRead numberToJSON m.2) →
    readObject numberToJSON n next members s = .ok (v, r) → WellRead numberToJSON v)

variable {numberToJSON}

theorem readSimpleType_wellRead {s r : List UInt8} {v : Value}
    (h : readSimpleType numberToJSON s = .ok (v, r)) : WellRead numberToJSON v := by
  unfold readSimpleType at h
  obtain ⟨⟨token, s'⟩, -, h⟩ := bind_eq_ok_iff.mp h
  dsimp only at h
  split_ifs at h
  · obtain ⟨rfl, -⟩ := Prod.mk.inj (pure_eq_ok_iff.mp h)
    exact ⟨trivial, trivial⟩
  · obtain ⟨rfl, -⟩ := Prod.mk.inj (pure_eq_ok_iff.mp h)
    exact ⟨trivial, trivial⟩
  · obtain ⟨rfl, -⟩ := Prod.mk.inj (pure_eq_ok_iff.mp h)
    exact ⟨trivial, trivial⟩
  · obtain ⟨text, htext, h⟩ := bind_eq_ok_iff.mp h
    obtain ⟨rfl, -⟩ := Prod.mk.inj (pure_eq_ok_iff.mp h)
    exact ⟨trivial, token, mapError_eq_ok_iff.mp htext⟩

theorem readElement_succ_wellRead {n : Nat} (ih : ReadInv numberToJSON n) {s r : List UInt8}
    {v : Value} (h : readElement numberToJSON (n + 1) s = .ok (v, r)) : WellRead numberToJSON v := by
  rw [readElement] at h
  obtain ⟨⟨c, s⟩, -, h⟩ := bind_eq_ok_iff.mp h
  dsimp only at h
  split_ifs at h
  · exact ih.2.2 false [] s v r List.Pairwise.nil (by simp) h
  · obtain ⟨⟨raw, s⟩, -, h⟩ := bind_eq_ok_iff.mp h
    obtain ⟨rfl, -⟩ := Prod.mk.inj (pure_eq_ok_iff.mp h)
    exact ⟨trivial, trivial⟩
  · obtain ⟨⟨xs, s⟩, hxs, h⟩ := bind_eq_ok_iff.mp h
    obtain ⟨rfl, -⟩ := Prod.mk.inj (pure_eq_ok_iff.mp h)
    exact ih.2.1 false _ xs _ hxs
  · exact readSimpleType_wellRead h

theorem readArray_succ_wellRead {n : Nat} (ih : ReadInv numberToJSON n) {next : Bool}
    {s r : List UInt8} {xs : List Value} (h : readArray numberToJSON (n + 1) next s = .ok (xs, r)) :
    DistinctKeysElems keyPrecedes xs ∧ AllNumbersElems (Written numberToJSON) xs := by
  rw [readArray] at h
  obtain ⟨c, -, h⟩ := bind_eq_ok_iff.mp h
  by_cases hc : c = ']'.toUInt8
  · rw [if_pos hc] at h
    obtain ⟨⟨_, s⟩, -, h⟩ := bind_eq_ok_iff.mp h
    obtain ⟨rfl, -⟩ := Prod.mk.inj (pure_eq_ok_iff.mp h)
    exact ⟨trivial, trivial⟩
  · rw [if_neg hc] at h
    obtain ⟨s, -, h⟩ := bind_eq_ok_iff.mp h
    obtain ⟨⟨x, s⟩, hx, h⟩ := bind_eq_ok_iff.mp h
    obtain ⟨⟨xs', s⟩, hxs, h⟩ := bind_eq_ok_iff.mp h
    obtain ⟨rfl, -⟩ := Prod.mk.inj (pure_eq_ok_iff.mp h)
    obtain ⟨hdx, hnx⟩ := ih.1 _ x _ hx
    obtain ⟨hdxs, hnxs⟩ := ih.2.1 true _ xs' _ hxs
    exact ⟨⟨hdx, hdxs⟩, ⟨hnx, hnxs⟩⟩

theorem readObject_succ_wellRead {n : Nat} (ih : ReadInv numberToJSON n) {next : Bool}
    {members : List (List UInt8 × Value)}
    (hd : (members.map Prod.fst).Pairwise (Comparable (KeyLt keyPrecedes)))
    (hm : ∀ m ∈ members, WellRead numberToJSON m.2) {s r : List UInt8} {v : Value}
    (h : readObject numberToJSON (n + 1) next members s = .ok (v, r)) : WellRead numberToJSON v := by
  rw [readObject] at h
  obtain ⟨c, -, h⟩ := bind_eq_ok_iff.mp h
  by_cases hc : c = '}'.toUInt8
  · rw [if_pos hc] at h
    obtain ⟨⟨_, s⟩, -, h⟩ := bind_eq_ok_iff.mp h
    obtain ⟨rfl, -⟩ := Prod.mk.inj (pure_eq_ok_iff.mp h)
    refine ⟨⟨hd, distinctKeysMembers_iff.mpr fun m hm' => (hm m hm').1⟩, ?_⟩
    exact allNumbersMembers_iff.mpr fun m hm' => (hm m hm').2
  · rw [if_neg hc] at h
    obtain ⟨s, -, h⟩ := bind_eq_ok_iff.mp h
    obtain ⟨s, -, h⟩ := bind_eq_ok_iff.mp h
    obtain ⟨⟨name, s⟩, -, h⟩ := bind_eq_ok_iff.mp h
    obtain ⟨s, -, h⟩ := bind_eq_ok_iff.mp h
    obtain ⟨⟨value, s⟩, hvalue, h⟩ := bind_eq_ok_iff.mp h
    dsimp only at h
    cases hdup : duplicateOf (members.map Prod.fst) name with
    | some k => rw [hdup] at h; exact absurd h throw_ne_ok
    | none =>
      rw [hdup] at h
      refine ih.2.2 true _ s v r (comparable_append hd hdup value) (fun m hm' => ?_) h
      rcases List.mem_append.mp hm' with hm' | hm'
      · exact hm m hm'
      · rw [List.mem_singleton] at hm'
        subst hm'
        exact ih.1 _ value _ hvalue

theorem readInv (n : Nat) : ReadInv numberToJSON n := by
  induction n with
  | zero =>
    refine ⟨fun _ _ _ h => absurd h throw_ne_ok, fun _ _ _ _ h => absurd h throw_ne_ok,
      fun _ _ _ _ _ _ _ h => absurd h throw_ne_ok⟩
  | succ n ih =>
    exact ⟨fun _ _ _ h => readElement_succ_wellRead ih h,
      fun _ _ _ _ h => readArray_succ_wellRead ih h,
      fun _ _ _ _ _ hd hm h => readObject_succ_wellRead ih hd hm h⟩

theorem readObject_object {n : Nat} {next : Bool} {members : List (List UInt8 × Value)}
    {s r : List UInt8} {v : Value} (h : readObject numberToJSON n next members s = .ok (v, r)) :
    ∃ ms, v = .object ms := by
  induction n generalizing next members s with
  | zero => exact absurd h throw_ne_ok
  | succ n ih =>
    rw [readObject] at h
    obtain ⟨c, -, h⟩ := bind_eq_ok_iff.mp h
    by_cases hc : c = '}'.toUInt8
    · rw [if_pos hc] at h
      obtain ⟨⟨_, s⟩, -, h⟩ := bind_eq_ok_iff.mp h
      obtain ⟨rfl, -⟩ := Prod.mk.inj (pure_eq_ok_iff.mp h)
      exact ⟨members, rfl⟩
    · rw [if_neg hc] at h
      obtain ⟨s, -, h⟩ := bind_eq_ok_iff.mp h
      obtain ⟨s, -, h⟩ := bind_eq_ok_iff.mp h
      obtain ⟨⟨name, s⟩, -, h⟩ := bind_eq_ok_iff.mp h
      obtain ⟨s, -, h⟩ := bind_eq_ok_iff.mp h
      obtain ⟨⟨value, s⟩, -, h⟩ := bind_eq_ok_iff.mp h
      dsimp only at h
      cases hdup : duplicateOf (members.map Prod.fst) name with
      | some k => rw [hdup] at h; exact absurd h throw_ne_ok
      | none => rw [hdup] at h; exact ih h

/-- A value `readJSON` reads is an array or an object, names no two members of an object
with one sort key, and holds only numbers the number step writes. -/
theorem readJSON_wellRead {jsonData : List UInt8} {v : Value}
    (h : readJSON numberToJSON jsonData = .ok v) :
    ((∃ xs, v = .array xs) ∨ (∃ ms, v = .object ms)) ∧ WellRead numberToJSON v := by
  unfold readJSON at h
  obtain ⟨c, -, h⟩ := bind_eq_ok_iff.mp h
  obtain ⟨⟨v', s⟩, hv, h⟩ := bind_eq_ok_iff.mp h
  dsimp only at h
  split_ifs at h
  · obtain rfl := pure_eq_ok_iff.mp h
    split_ifs at hv
    · obtain ⟨⟨_, s'⟩, -, hv⟩ := bind_eq_ok_iff.mp hv
      obtain ⟨⟨xs, s''⟩, hxs, hv⟩ := bind_eq_ok_iff.mp hv
      obtain ⟨rfl, -⟩ := Prod.mk.inj (pure_eq_ok_iff.mp hv)
      exact ⟨.inl ⟨xs, rfl⟩, (readInv _).2.1 false s' xs s'' hxs⟩
    · obtain ⟨s', -, hv⟩ := bind_eq_ok_iff.mp hv
      refine ⟨?_, (readInv _).2.2 false [] s' v' s List.Pairwise.nil (by simp) hv⟩
      exact .inr (readObject_object hv)

end Invariant

section RoundTrip

variable {numberToJSON : List UInt8 → Except String (List UInt8)}

variable (numberToJSON) in
/-- A number text the number step gives back unchanged, made of number bytes. -/
def FixedNumber (t : List UInt8) : Prop :=
  numberToJSON t = .ok t ∧ t ≠ [] ∧ ∀ b ∈ t, isNumberByte b = true

theorem fixedNumber_of_written (hnf : NumberFormat numberToJSON) {t : List UInt8}
    (h : Written numberToJSON t) : FixedNumber numberToJSON t := by
  obtain ⟨token, ht⟩ := h
  exact ⟨hnf.fixed token t ht, hnf.text token t ht⟩

theorem ne_of_not_delimiter {b : UInt8} (h : isDelimiter b = false) :
    b ≠ ']'.toUInt8 ∧ b ≠ '}'.toUInt8 := by
  simp only [isDelimiter, Bool.or_eq_false_iff, beq_eq_false_iff_ne] at h
  exact ⟨h.1.2, h.2⟩

/-- The text of a value starts with an ASCII byte that is no white space and closes nothing. -/
theorem render_cons (w : Value) (hw : AllNumbers (FixedNumber numberToJSON) w) :
    ∃ b t, render decorateString w = b :: t ∧ b < 0x80 ∧ isWhiteSpace b = false ∧
      b ≠ ']'.toUInt8 ∧ b ≠ '}'.toUInt8 := by
  cases w with
  | null => exact ⟨_, _, rfl, by decide⟩
  | bool b => cases b <;> exact ⟨_, _, rfl, by decide⟩
  | number t =>
    obtain ⟨-, hne, hbytes⟩ := hw
    obtain ⟨b, t', rfl⟩ := List.exists_cons_of_ne_nil hne
    obtain ⟨ha, hws, hdelim, -⟩ := numberByte_facts b (hbytes b List.mem_cons_self)
    exact ⟨b, t', rfl, ha, hws, ne_of_not_delimiter hdelim⟩
  | string s => exact ⟨_, _, rfl, by decide⟩
  | array xs => exact ⟨_, _, (cons_arrayText_false xs).symm, by decide⟩
  | object ms => exact ⟨_, _, (cons_objectText_false ms).symm, by decide⟩

theorem renderElems_delimited (xs : List Value) (rest : List UInt8) :
    ∃ d t, renderElems decorateString xs ++ rest = d :: t ∧ isDelimiter d = true := by
  cases xs <;> exact ⟨_, _, rfl, by decide⟩

theorem renderMembers_delimited (ms : List (List UInt8 × Value)) (rest : List UInt8) :
    ∃ d t, renderMembers decorateString ms ++ rest = d :: t ∧ isDelimiter d = true := by
  cases ms with
  | nil => exact ⟨_, _, rfl, by decide⟩
  | cons m ms => exact ⟨_, _, rfl, by decide⟩

/-- A token, with the delimiter after it, goes to `readSimpleType` whole. -/
theorem readElement_token {t : List UInt8} {b : UInt8} {t' : List UInt8} (hbt : t = b :: t')
    (hb : b < 0x80 ∧ isWhiteSpace b = false)
    (hhead : b ≠ '{'.toUInt8 ∧ b ≠ '"'.toUInt8 ∧ b ≠ '['.toUInt8) (m : Nat) (s : List UInt8) :
    readElement numberToJSON (m + 1) (t ++ s) = readSimpleType numberToJSON (t ++ s) := by
  subst hbt
  rw [readElement, List.cons_append, scan_cons hb.2 hb.1]
  simp only [pure_bind, if_neg hhead.1, if_neg hhead.2.1, if_neg hhead.2.2]

theorem readSimpleType_append {t : List UInt8}
    (ht : ∀ b ∈ t, b < 0x80 ∧ isWhiteSpace b = false ∧ isDelimiter b = false) {d : UInt8}
    (hd : isDelimiter d = true) (rest : List UInt8) :
    readSimpleType numberToJSON (t ++ d :: rest) =
      if t = [] then throw .missingArgument
      else if t = ascii ['t', 'r', 'u', 'e'] then pure (.bool true, d :: rest)
      else if t = ascii ['f', 'a', 'l', 's', 'e'] then pure (.bool false, d :: rest)
      else if t = ascii ['n', 'u', 'l', 'l'] then pure (.null, d :: rest)
      else ((numberToJSON t).mapError .number >>= fun text => pure (.number text, d :: rest)) := by
  rw [readSimpleType, readToken_append rest ht hd]
  rfl

theorem literal_token (lit : List UInt8) (h : lit ∈ literals) :
    ∀ b ∈ lit, b < 0x80 ∧ isWhiteSpace b = false ∧ isDelimiter b = false := by
  simp only [literals, List.mem_cons, List.not_mem_nil, or_false] at h
  rcases h with rfl | rfl | rfl <;> set_option maxRecDepth 4000 in decide

theorem readElement_literal (w : Value) (hw : w = .null ∨ w = .bool true ∨ w = .bool false)
    (m : Nat) {d : UInt8} (hd : isDelimiter d = true) (rest : List UInt8) :
    readElement numberToJSON (m + 1) (render decorateString w ++ d :: rest) = .ok (w, d :: rest) := by
  rcases hw with rfl | rfl | rfl
  · rw [readElement_token (t := render decorateString .null) (b := 'n'.toUInt8) rfl (by decide)
      (by decide), readSimpleType_append (literal_token _ (by decide)) hd]
    rfl
  · rw [readElement_token (t := render decorateString (.bool true)) (b := 't'.toUInt8) rfl
      (by decide) (by decide), readSimpleType_append (literal_token _ (by decide)) hd]
    rfl
  · rw [readElement_token (t := render decorateString (.bool false)) (b := 'f'.toUInt8) rfl
      (by decide) (by decide), readSimpleType_append (literal_token _ (by decide)) hd]
    rfl

theorem readElement_number {t : List UInt8} (ht : FixedNumber numberToJSON t) (m : Nat)
    {d : UInt8} (hd : isDelimiter d = true) (rest : List UInt8) :
    readElement numberToJSON (m + 1) (render decorateString (.number t) ++ d :: rest) =
      .ok (.number t, d :: rest) := by
  obtain ⟨hfix, hne, hbytes⟩ := ht
  obtain ⟨b, t', hbt⟩ := List.exists_cons_of_ne_nil hne
  have hfacts := fun c hc => numberByte_facts c (hbytes c hc)
  obtain ⟨ha, hws, -, hb₁, hb₂, hb₃, -⟩ := hfacts b (hbt ▸ List.mem_cons_self)
  have htok : ∀ c ∈ t, c < 0x80 ∧ isWhiteSpace c = false ∧ isDelimiter c = false :=
    fun c hc => ⟨(hfacts c hc).1, (hfacts c hc).2.1, (hfacts c hc).2.2.1⟩
  have hlit : ∀ lit ∈ literals, t ≠ lit := by
    intro lit hl heq
    subst heq
    simp only [literals, List.mem_cons, List.not_mem_nil, or_false] at hl
    rcases hl with rfl | rfl | rfl
    · exact (hfacts _ (by decide)).2.2.2.2.2.2.1 rfl
    · exact (hfacts _ (by decide)).2.2.2.2.2.2.2.1 rfl
    · exact (hfacts _ (by decide)).2.2.2.2.2.2.2.2 rfl
  rw [render, readElement_token hbt ⟨ha, hws⟩ ⟨hb₁, hb₂, hb₃⟩, readSimpleType_append htok hd,
    if_neg hne, if_neg (hlit _ (by simp [literals])), if_neg (hlit _ (by simp [literals])),
    if_neg (hlit _ (by simp [literals])), hfix]
  rfl

theorem readElement_string (raw : List UInt8) (m : Nat) (s : List UInt8) :
    readElement numberToJSON (m + 1) (render decorateString (.string raw) ++ s) =
      .ok (.string raw, s) := by
  have hq : '"'.toUInt8 < 0x80 ∧ isWhiteSpace '"'.toUInt8 = false := by decide
  simp only [render, decorateString, List.cons_append, List.append_assoc]
  rw [readElement, scan_cons hq.2 hq.1]
  simp only [pure_bind, show '"'.toUInt8 ≠ '{'.toUInt8 by decide, if_false, if_true,
    parseQuotedString_decorate]
  rfl

/-- Past the separator the flag asks for, the loops see the separator or the element. -/
theorem testNextNonWhiteSpaceChar_sep (next : Bool) {b : UInt8}
    (hb : b < 0x80 ∧ isWhiteSpace b = false) (t : List UInt8) :
    testNextNonWhiteSpaceChar ((if next then [','.toUInt8] else []) ++ b :: t) =
      pure (if next then ','.toUInt8 else b) := by
  cases next
  · exact testNextNonWhiteSpaceChar_cons hb.2 hb.1 t
  · exact testNextNonWhiteSpaceChar_cons (by decide) (by decide) _

theorem scanFor_sep (next : Bool) (s : List UInt8) :
    (if next then scanFor ','.toUInt8 ((if next then [','.toUInt8] else []) ++ s)
      else pure ((if next then [','.toUInt8] else []) ++ s)) = pure s := by
  cases next
  · rfl
  · exact scanFor_cons (by decide) (by decide) s

variable (numberToJSON) in
/-- What the three reading loops at fuel `n` read from the text of a value they can read
back: the value itself, with the rest of the text after it. -/
def ReadsBack (n : Nat) : Prop :=
  (∀ w, size w ≤ n → DistinctKeys keyPrecedes w → AllNumbers (FixedNumber numberToJSON) w →
    ∀ d rest, isDelimiter d = true →
      readElement numberToJSON n (render decorateString w ++ d :: rest) = .ok (w, d :: rest)) ∧
  (∀ xs next, sizeElems xs ≤ n → DistinctKeysElems keyPrecedes xs →
    AllNumbersElems (FixedNumber numberToJSON) xs → ∀ rest,
      readArray numberToJSON n next (arrayText next xs ++ rest) = .ok (xs, rest)) ∧
  (∀ ms next members, sizeMembers ms ≤ n → DistinctKeysMembers keyPrecedes ms →
    AllNumbersMembers (FixedNumber numberToJSON) ms →
    ((members ++ ms).map Prod.fst).Pairwise (Comparable (KeyLt keyPrecedes)) → ∀ rest,
      readObject numberToJSON n next members (objectText next ms ++ rest) =
        .ok (.object (members ++ ms), rest))

theorem readElement_succ_render {n : Nat} (ih : ReadsBack numberToJSON n)
    {w : Value} (hsize : size w ≤ n + 1) (hdist : DistinctKeys keyPrecedes w)
    (hnum : AllNumbers (FixedNumber numberToJSON) w) {d : UInt8} (hd : isDelimiter d = true)
    (rest : List UInt8) :
    readElement numberToJSON (n + 1) (render decorateString w ++ d :: rest) = .ok (w, d :: rest) := by
  cases w with
  | null => exact readElement_literal _ (.inl rfl) n hd rest
  | bool b =>
    cases b
    · exact readElement_literal _ (.inr (.inr rfl)) n hd rest
    · exact readElement_literal _ (.inr (.inl rfl)) n hd rest
  | number t => exact readElement_number hnum n hd rest
  | string raw => exact readElement_string raw n _
  | array xs =>
    have hxs : sizeElems xs ≤ n := by simp only [size] at hsize; omega
    rw [← cons_arrayText_false, List.cons_append, readElement, scan_cons (by decide) (by decide)]
    simp only [pure_bind, show '['.toUInt8 ≠ '{'.toUInt8 by decide,
      show '['.toUInt8 ≠ '"'.toUInt8 by decide, if_false, if_true]
    rw [ih.2.1 xs false hxs hdist hnum (d :: rest)]
    rfl
  | object ms =>
    have hms : sizeMembers ms ≤ n := by simp only [size] at hsize; omega
    rw [← cons_objectText_false, List.cons_append, readElement, scan_cons (by decide) (by decide)]
    simp only [pure_bind, if_true]
    exact ih.2.2 ms false [] hms hdist.2 hnum hdist.1 (d :: rest)

theorem readArray_succ_render {n : Nat} (ih : ReadsBack numberToJSON n)
    {xs : List Value} (next : Bool) (hsize : sizeElems xs ≤ n + 1)
    (hdist : DistinctKeysElems keyPrecedes xs) (hnum : AllNumbersElems (FixedNumber numberToJSON) xs)
    (rest : List UInt8) :
    readArray numberToJSON (n + 1) next (arrayText next xs ++ rest) = .ok (xs, rest) := by
  cases xs with
  | nil =>
    rw [arrayText_nil, List.singleton_append, readArray,
      testNextNonWhiteSpaceChar_cons (by decide) (by decide)]
    simp only [pure_bind, if_true, scan_cons (show isWhiteSpace ']'.toUInt8 = false by decide)
      (show ']'.toUInt8 < 0x80 by decide)]
    rfl
  | cons x xs =>
    obtain ⟨hdx, hdxs⟩ := hdist
    obtain ⟨hnx, hnxs⟩ := hnum
    have hx : size x ≤ n ∧ sizeElems xs ≤ n := by simp only [sizeElems] at hsize; omega
    obtain ⟨b, t, hbt, hb, hbws, hbclose, -⟩ := render_cons x hnx
    obtain ⟨d, t', hdt, hd⟩ := renderElems_delimited xs rest
    have hc : (if next then ','.toUInt8 else b) ≠ ']'.toUInt8 := by
      cases next
      · exact hbclose
      · exact (by decide : ','.toUInt8 ≠ ']'.toUInt8)
    rw [arrayText_cons, List.append_assoc, List.append_assoc, readArray, hbt, List.cons_append,
      testNextNonWhiteSpaceChar_sep next ⟨hb, hbws⟩, pure_bind, if_neg hc, ← List.cons_append,
      ← hbt, scanFor_sep, pure_bind, hdt, ih.1 x hx.1 hdx hnx d t' hd, ok_bind, ← hdt]
    dsimp only
    have hxs := ih.2.1 xs true hx.2 hdxs hnxs rest
    rw [arrayText, if_pos rfl] at hxs
    rw [hxs]
    rfl

theorem readObject_succ_render {n : Nat} (ih : ReadsBack numberToJSON n)
    {ms : List (List UInt8 × Value)} (next : Bool) (members : List (List UInt8 × Value))
    (hsize : sizeMembers ms ≤ n + 1) (hdist : DistinctKeysMembers keyPrecedes ms)
    (hnum : AllNumbersMembers (FixedNumber numberToJSON) ms)
    (hkeys : ((members ++ ms).map Prod.fst).Pairwise (Comparable (KeyLt keyPrecedes)))
    (rest : List UInt8) :
    readObject numberToJSON (n + 1) next members (objectText next ms ++ rest) =
      .ok (.object (members ++ ms), rest) := by
  cases ms with
  | nil =>
    rw [objectText_nil, List.singleton_append, readObject,
      testNextNonWhiteSpaceChar_cons (by decide) (by decide)]
    simp only [pure_bind, if_true, scan_cons (show isWhiteSpace '}'.toUInt8 = false by decide)
      (show '}'.toUInt8 < 0x80 by decide), List.append_nil]
    rfl
  | cons m ms =>
    obtain ⟨k, v⟩ := m
    obtain ⟨hdv, hdms⟩ := hdist
    obtain ⟨hnv, hnms⟩ := hnum
    have hv : size v ≤ n ∧ sizeMembers ms ≤ n := by simp only [sizeMembers] at hsize; omega
    obtain ⟨d, t', hdt, hd⟩ := renderMembers_delimited ms rest
    have hc : (if next then ','.toUInt8 else '"'.toUInt8) ≠ '}'.toUInt8 := by
      cases next <;> decide
    -- the name is told apart from every earlier one, so the reader takes the member
    have hnew : duplicateOf (members.map Prod.fst) k = none := by
      refine duplicateOf_eq_none fun a ha => ?_
      rw [List.map_append, List.pairwise_append] at hkeys
      exact hkeys.2.2 a ha k List.mem_cons_self
    have hkeys' : (((members ++ [(k, v)]) ++ ms).map Prod.fst).Pairwise
        (Comparable (KeyLt keyPrecedes)) := by
      simpa using hkeys
    rw [objectText_cons, decorateString]
    simp only [List.cons_append, List.nil_append, List.append_assoc]
    rw [readObject, testNextNonWhiteSpaceChar_sep next (by decide), pure_bind, if_neg hc,
      scanFor_sep, pure_bind, scanFor_cons (by decide) (by decide), pure_bind,
      parseQuotedString_decorate, pure_bind]
    dsimp only
    rw [scanFor_cons (by decide) (by decide), pure_bind, hdt, ih.1 v hv.1 hdv hnv d t' hd,
      ok_bind, ← hdt]
    dsimp only
    rw [hnew]
    have hms := ih.2.2 ms true (members ++ [(k, v)]) hv.2 hdms hnms hkeys' rest
    rw [objectText, if_pos rfl, List.append_assoc, List.singleton_append] at hms
    exact hms

theorem readsBack (n : Nat) : ReadsBack numberToJSON n := by
  induction n with
  | zero =>
    refine ⟨fun w hsize => ?_, fun xs _ hsize => ?_, fun ms _ _ hsize => ?_⟩
    · exact absurd hsize (Nat.not_le_of_lt (size_pos w))
    · exact absurd hsize (Nat.not_le_of_lt (sizeElems_pos xs))
    · exact absurd hsize (Nat.not_le_of_lt (sizeMembers_pos ms))
  | succ n ih =>
    exact ⟨fun _ hsize hdist hnum _ rest hd => readElement_succ_render ih hsize hdist hnum hd rest,
      fun _ next hsize hdist hnum rest => readArray_succ_render ih next hsize hdist hnum rest,
      fun _ next members hsize hdist hnum hkeys rest =>
        readObject_succ_render ih next members hsize hdist hnum hkeys rest⟩

/-- The fuel `readJSON` gives for the text of a value is more than the value's size. -/
theorem size_le_fuel {w : Value} (hnum : AllNumbers (FixedNumber numberToJSON) w) :
    size w ≤ 2 * (render decorateString w).length + 2 := by
  have hq : ∀ s, decorateString s ≠ [] := fun s => by simp [decorateString]
  have hlt := size_lt_length_render hq w (allNumbers_mono (fun t ht => ht.2.1) w hnum)
  omega

/-- The text of an array or an object the reader can read back reads as that value. -/
theorem readJSON_render {w : Value} (hw : (∃ xs, w = .array xs) ∨ (∃ ms, w = .object ms))
    (hdist : DistinctKeys keyPrecedes w) (hnum : AllNumbers (FixedNumber numberToJSON) w) :
    readJSON numberToJSON (render decorateString w) = .ok w := by
  have hfuel := size_le_fuel hnum
  unfold readJSON
  generalize 2 * (render decorateString w).length + 2 = N at hfuel ⊢
  rcases hw with ⟨xs, rfl⟩ | ⟨ms, rfl⟩
  · have hxs : sizeElems xs ≤ N := by simp only [size] at hfuel; omega
    rw [← cons_arrayText_false, testNextNonWhiteSpaceChar_cons (by decide) (by decide), pure_bind,
      if_pos rfl, scan_cons (by decide) (by decide), pure_bind]
    dsimp only
    rw [← List.append_nil (arrayText false xs), (readsBack N).2.1 xs false hxs hdist hnum []]
    rfl
  · have hms : sizeMembers ms ≤ N := by simp only [size] at hfuel; omega
    rw [← cons_objectText_false, testNextNonWhiteSpaceChar_cons (by decide) (by decide), pure_bind,
      if_neg (by decide), scanFor_cons (by decide) (by decide), pure_bind,
      ← List.append_nil (objectText false ms), (readsBack N).2.2 ms false [] hms hdist.2 hnum hdist.1 []]
    rfl

end RoundTrip

section Output

variable {numberToJSON : List UInt8 → Except String (List UInt8)}

theorem canonical_array_or_object {v : Value}
    (hv : (∃ xs, v = .array xs) ∨ (∃ ms, v = .object ms)) :
    (∃ xs, canonical keyPrecedes v = .array xs) ∨ (∃ ms, canonical keyPrecedes v = .object ms) := by
  rcases hv with ⟨xs, rfl⟩ | ⟨ms, rfl⟩
  · exact .inl ⟨_, rfl⟩
  · exact .inr ⟨_, rfl⟩

/-- The canonical text of a value the reader reads reads back as its canonical form. -/
theorem readJSON_canonicalText (hnf : NumberFormat numberToJSON) {jsonData : List UInt8}
    {v : Value} (h : readJSON numberToJSON jsonData = .ok v) :
    readJSON numberToJSON (canonicalText v) = .ok (canonical keyPrecedes v) := by
  obtain ⟨hshape, hdist, hnum⟩ := readJSON_wellRead h
  have hsorted := sortedKeys_canonical isKeyOrder_keyPrecedes v hdist
  have hfixed : AllNumbers (FixedNumber numberToJSON) v :=
    allNumbers_mono (fun _ ht => fixedNumber_of_written hnf ht) v hnum
  exact readJSON_render (canonical_array_or_object hshape) (distinctKeys_of_sortedKeys _ hsorted)
    (allNumbers_canonical _ hfixed)

/-- What `Transform` writes is the compact text of a value in which the members of every object
stand in increasing order of the UTF-16 code units of their names, and reading that text gives
the value back. -/
theorem transform_output_canonical (hnf : NumberFormat numberToJSON) {jsonData out : List UInt8}
    (h : transform numberToJSON jsonData = .ok out) :
    ∃ v, SortedKeys keyPrecedes v ∧ out = render decorateString v ∧
      readJSON numberToJSON out = .ok v := by
  rw [transform_eq_map_canonicalText, map_eq_ok_iff] at h
  obtain ⟨v, hread, rfl⟩ := h
  have hsorted := sortedKeys_canonical isKeyOrder_keyPrecedes v (readJSON_wellRead hread).2.1
  exact ⟨canonical keyPrecedes v, hsorted, rfl, readJSON_canonicalText hnf hread⟩

theorem transform_output_canonical_sorts :
    NumberFormat decimalNumber ∧
    transform decimalNumber (ascii ['{', '"', 'b', '"', ':', '1', ',', '"', 'a', '"', ':', '2', '}']) =
      .ok (ascii ['{', '"', 'a', '"', ':', '2', ',', '"', 'b', '"', ':', '1', '}']) ∧
    ∃ v, SortedKeys keyPrecedes v ∧
      ascii ['{', '"', 'a', '"', ':', '2', ',', '"', 'b', '"', ':', '1', '}'] = render decorateString v ∧
      readJSON decimalNumber (ascii ['{', '"', 'a', '"', ':', '2', ',', '"', 'b', '"', ':', '1', '}']) =
        .ok v :=
  have h : transform decimalNumber
      (ascii ['{', '"', 'b', '"', ':', '1', ',', '"', 'a', '"', ':', '2', '}']) =
      .ok (ascii ['{', '"', 'a', '"', ':', '2', ',', '"', 'b', '"', ':', '1', '}']) := rfl
  ⟨numberFormat_decimalNumber, h, transform_output_canonical numberFormat_decimalNumber h⟩

/-- `Transform` leaves its own output as it is. -/
theorem transform_idempotent (hnf : NumberFormat numberToJSON) {jsonData out : List UInt8}
    (h : transform numberToJSON jsonData = .ok out) : transform numberToJSON out = .ok out := by
  rw [transform_eq_map_canonicalText, map_eq_ok_iff] at h
  obtain ⟨v, hread, rfl⟩ := h
  rw [transform_eq_map_canonicalText, readJSON_canonicalText hnf hread]
  change Except.ok (canonicalText (canonical keyPrecedes v)) = _
  rw [canonicalText, canonical_canonical isKeyOrder_keyPrecedes (readJSON_wellRead hread).2.1]
  rfl

theorem transform_idempotent_sorted :
    NumberFormat decimalNumber ∧
    transform decimalNumber (ascii ['[', '{', '"', 'b', '"', ':', '1', ',', '"', 'a', '"', ':', '2', '}', ']']) =
      .ok (ascii ['[', '{', '"', 'a', '"', ':', '2', ',', '"', 'b', '"', ':', '1', '}', ']']) ∧
    transform decimalNumber (ascii ['[', '{', '"', 'a', '"', ':', '2', ',', '"', 'b', '"', ':', '1', '}', ']']) =
      .ok (ascii ['[', '{', '"', 'a', '"', ':', '2', ',', '"', 'b', '"', ':', '1', '}', ']']) :=
  have h : transform decimalNumber
      (ascii ['[', '{', '"', 'b', '"', ':', '1', ',', '"', 'a', '"', ':', '2', '}', ']']) =
      .ok (ascii ['[', '{', '"', 'a', '"', ':', '2', ',', '"', 'b', '"', ':', '1', '}', ']']) := rfl
  ⟨numberFormat_decimalNumber, h, transform_idempotent numberFormat_decimalNumber h⟩

/-- Inputs that hold the same data up to the order of the members of their objects give the
same output. -/
theorem transform_eq_of_reordered {jsonData₁ jsonData₂ : List UInt8} {v₁ v₂ : Value}
    (h₁ : readJSON numberToJSON jsonData₁ = .ok v₁) (h₂ : readJSON numberToJSON jsonData₂ = .ok v₂)
    (hr : Reordered v₁ v₂) :
    transform numberToJSON jsonData₁ = transform numberToJSON jsonData₂ := by
  rw [transform_eq_map_canonicalText, transform_eq_map_canonicalText, h₁, h₂]
  change Except.ok (canonicalText v₁) = Except.ok (canonicalText v₂)
  rw [canonicalText, canonicalText,
    canonical_eq_of_reordered isKeyOrder_keyPrecedes hr (readJSON_wellRead h₁).2.1]

theorem transform_eq_of_reordered_swap :
    readJSON decimalNumber (ascii ['{', '"', 'b', '"', ':', '1', ',', '"', 'a', '"', ':', '2', '}']) =
      .ok (.object [(ascii ['b'], .number (ascii ['1'])), (ascii ['a'], .number (ascii ['2']))]) ∧
    readJSON decimalNumber (ascii ['{', '"', 'a', '"', ':', '2', ',', '"', 'b', '"', ':', '1', '}']) =
      .ok (.object [(ascii ['a'], .number (ascii ['2'])), (ascii ['b'], .number (ascii ['1']))]) ∧
    Reordered (.object [(ascii ['b'], .number (ascii ['1'])), (ascii ['a'], .number (ascii ['2']))])
      (.object [(ascii ['a'], .number (ascii ['2'])), (ascii ['b'], .number (ascii ['1']))]) ∧
    transform decimalNumber (ascii ['{', '"', 'b', '"', ':', '1', ',', '"', 'a', '"', ':', '2', '}']) =
      transform decimalNumber (ascii ['{', '"', 'a', '"', ':', '2', ',', '"', 'b', '"', ':', '1', '}']) :=
  have h₁ : readJSON decimalNumber
      (ascii ['{', '"', 'b', '"', ':', '1', ',', '"', 'a', '"', ':', '2', '}']) =
      .ok (.object [(ascii ['b'], .number (ascii ['1'])), (ascii ['a'], .number (ascii ['2']))]) := rfl
  have h₂ : readJSON decimalNumber
      (ascii ['{', '"', 'a', '"', ':', '2', ',', '"', 'b', '"', ':', '1', '}']) =
      .ok (.object [(ascii ['a'], .number (ascii ['2'])), (ascii ['b'], .number (ascii ['1']))]) := rfl
  have hr : Reordered
      (.object [(ascii ['b'], .number (ascii ['1'])), (ascii ['a'], .number (ascii ['2']))])
      (.object [(ascii ['a'], .number (ascii ['2'])), (ascii ['b'], .number (ascii ['1']))]) :=
    .object (.cons (.refl _) (.cons (.refl _) .nil)) (List.Perm.swap _ _ _)
  ⟨h₁, h₂, hr, transform_eq_of_reordered h₁ h₂ hr⟩

/-- Two inputs with one output hold the same data up to the order of members: their values
have one canonical form. -/
theorem canonical_eq_of_transform_eq (hnf : NumberFormat numberToJSON)
    {jsonData₁ jsonData₂ out : List UInt8} (h₁ : transform numberToJSON jsonData₁ = .ok out)
    (h₂ : transform numberToJSON jsonData₂ = .ok out) :
    ∃ v₁ v₂, readJSON numberToJSON jsonData₁ = .ok v₁ ∧ readJSON numberToJSON jsonData₂ = .ok v₂ ∧
      canonical keyPrecedes v₁ = canonical keyPrecedes v₂ := by
  rw [transform_eq_map_canonicalText, map_eq_ok_iff] at h₁ h₂
  obtain ⟨v₁, hread₁, hout₁⟩ := h₁
  obtain ⟨v₂, hread₂, hout₂⟩ := h₂
  have hback₁ := readJSON_canonicalText hnf hread₁
  have hback₂ := readJSON_canonicalText hnf hread₂
  rw [hout₁] at hback₁
  rw [hout₂, hback₁] at hback₂
  exact ⟨v₁, v₂, hread₁, hread₂, Except.ok.inj hback₂⟩

theorem canonical_eq_of_transform_eq_spaced :
    NumberFormat decimalNumber ∧
    transform decimalNumber (ascii ['{', '"', 'b', '"', ':', '1', ',', '"', 'a', '"', ':', '2', '}']) =
      .ok (ascii ['{', '"', 'a', '"', ':', '2', ',', '"', 'b', '"', ':', '1', '}']) ∧
    transform decimalNumber (ascii [' ', '{', '"', 'a', '"', ' ', ':', '2', ',', '"', 'b', '"', ':', '1', '}']) =
      .ok (ascii ['{', '"', 'a', '"', ':', '2', ',', '"', 'b', '"', ':', '1', '}']) ∧
    ∃ v₁ v₂,
      readJSON decimalNumber (ascii ['{', '"', 'b', '"', ':', '1', ',', '"', 'a', '"', ':', '2', '}']) =
        .ok v₁ ∧
      readJSON decimalNumber
        (ascii [' ', '{', '"', 'a', '"', ' ', ':', '2', ',', '"', 'b', '"', ':', '1', '}']) = .ok v₂ ∧
      canonical keyPrecedes v₁ = canonical keyPrecedes v₂ :=
  have h₁ : transform decimalNumber
      (ascii ['{', '"', 'b', '"', ':', '1', ',', '"', 'a', '"', ':', '2', '}']) =
      .ok (ascii ['{', '"', 'a', '"', ':', '2', ',', '"', 'b', '"', ':', '1', '}']) := rfl
  have h₂ : transform decimalNumber
      (ascii [' ', '{', '"', 'a', '"', ' ', ':', '2', ',', '"', 'b', '"', ':', '1', '}']) =
      .ok (ascii ['{', '"', 'a', '"', ':', '2', ',', '"', 'b', '"', ':', '1', '}']) := rfl
  ⟨numberFormat_decimalNumber, h₁, h₂, canonical_eq_of_transform_eq numberFormat_decimalNumber h₁ h₂⟩

end Output

end Vct.Canonicalizer.Canonical
