import Mathlib.Data.List.Sort
import Vct.Lib.OrderedInsert

namespace Vct.Lib.Json

inductive Value
  | null
  | bool (b : Bool)
  | number (text : List UInt8)
  | string (s : List UInt8)
  | array (xs : List Value)
  | object (members : List (List UInt8 × Value))
  deriving Repr

def ascii (cs : List Char) : List UInt8 := cs.map Char.toUInt8

section Render

variable (quote : List UInt8 → List UInt8)

mutual
/-- The compact text, with no white space; a member list is written from its first member
on, and the text of the rest starts with the separator or the closing bracket. -/
def render : Value → List UInt8
  | .null => ascii ['n', 'u', 'l', 'l']
  | .bool true => ascii ['t', 'r', 'u', 'e']
  | .bool false => ascii ['f', 'a', 'l', 's', 'e']
  | .number t => t
  | .string s => quote s
  | .array [] => ascii ['[', ']']
  | .array (x :: xs) => '['.toUInt8 :: render x ++ renderElems xs
  | .object [] => ascii ['{', '}']
  | .object ((k, v) :: ms) => '{'.toUInt8 :: quote k ++ ':'.toUInt8 :: render v ++ renderMembers ms

def renderElems : List Value → List UInt8
  | [] => [']'.toUInt8]
  | x :: xs => ','.toUInt8 :: render x ++ renderElems xs

def renderMembers : List (List UInt8 × Value) → List UInt8
  | [] => ['}'.toUInt8]
  | (k, v) :: ms => ','.toUInt8 :: quote k ++ ':'.toUInt8 :: render v ++ renderMembers ms
end

end Render

/-- A byte a string holds without escape. -/
def isPlainByte (b : UInt8) : Bool :=
  0x20 ≤ b && b ≤ 0x7e && b != '"'.toUInt8 && b != '\\'.toUInt8

def isDigitByte (b : UInt8) : Bool := '0'.toUInt8 ≤ b && b ≤ '9'.toUInt8

/-- The text of a natural number in decimal, without leading zeros. -/
def isDecimal : List UInt8 → Bool
  | [] => false
  | [d] => isDigitByte d
  | d :: ds => d != '0'.toUInt8 && isDigitByte d && ds.all isDigitByte

def plainQuote (s : List UInt8) : List UInt8 := '"'.toUInt8 :: s ++ ['"'.toUInt8]

mutual
/-- Every string and name is plain, every number is a decimal natural number, and no object
has a name twice. -/
def isPlain : Value → Bool
  | .null => true
  | .bool _ => true
  | .number t => isDecimal t
  | .string s => s.all isPlainByte
  | .array xs => isPlainElems xs
  | .object ms => decide (ms.map Prod.fst).Nodup && isPlainMembers ms

def isPlainElems : List Value → Bool
  | [] => true
  | x :: xs => isPlain x && isPlainElems xs

def isPlainMembers : List (List UInt8 × Value) → Bool
  | [] => true
  | (k, v) :: ms => k.all isPlainByte && isPlain v && isPlainMembers ms
end

mutual
/-- The nesting and the number of members a parser walks through; it bounds the calls a
recursive descent makes. -/
def size : Value → Nat
  | .array xs => 1 + sizeElems xs
  | .object ms => 1 + sizeMembers ms
  | _ => 1

def sizeElems : List Value → Nat
  | [] => 1
  | x :: xs => 1 + size x + sizeElems xs

def sizeMembers : List (List UInt8 × Value) → Nat
  | [] => 1
  | (_, v) :: ms => 1 + size v + sizeMembers ms
end

section Canonical

variable (lt : List UInt8 → List UInt8 → Bool)

def memberLt (a b : List UInt8 × Value) : Prop := lt a.1 b.1 = true

instance : DecidableRel (memberLt lt) := fun a b => inferInstanceAs (Decidable (lt a.1 b.1 = true))

/-- The members inserted one by one, in their order, each before the first member its
name precedes. -/
def insertAll (ms : List (List UInt8 × Value)) : List (List UInt8 × Value) :=
  ms.foldl (fun acc m => acc.orderedInsert (memberLt lt) m) []

mutual
def canonical : Value → Value
  | .array xs => .array (canonicalElems xs)
  | .object ms => .object (insertAll lt (canonicalMembers ms))
  | v => v

def canonicalElems : List Value → List Value
  | [] => []
  | x :: xs => canonical x :: canonicalElems xs

def canonicalMembers : List (List UInt8 × Value) → List (List UInt8 × Value)
  | [] => []
  | (k, v) :: ms => (k, canonical v) :: canonicalMembers ms
end

end Canonical

section Keys

open Vct.Lib.OrderedInsert

variable (lt : List UInt8 → List UInt8 → Bool)

/-- The order on names as a relation. -/
def KeyLt (a b : List UInt8) : Prop := lt a b = true

mutual
/-- In every object, the order tells any two names apart: no name is there twice up to the
order. -/
def DistinctKeys : Value → Prop
  | .array xs => DistinctKeysElems xs
  | .object ms => (ms.map Prod.fst).Pairwise (Comparable (KeyLt lt)) ∧ DistinctKeysMembers ms
  | _ => True

def DistinctKeysElems : List Value → Prop
  | [] => True
  | x :: xs => DistinctKeys x ∧ DistinctKeysElems xs

def DistinctKeysMembers : List (List UInt8 × Value) → Prop
  | [] => True
  | (_, v) :: ms => DistinctKeys v ∧ DistinctKeysMembers ms
end

mutual
/-- In every object, the names strictly increase in the order. -/
def SortedKeys : Value → Prop
  | .array xs => SortedKeysElems xs
  | .object ms => (ms.map Prod.fst).Pairwise (KeyLt lt) ∧ SortedKeysMembers ms
  | _ => True

def SortedKeysElems : List Value → Prop
  | [] => True
  | x :: xs => SortedKeys x ∧ SortedKeysElems xs

def SortedKeysMembers : List (List UInt8 × Value) → Prop
  | [] => True
  | (_, v) :: ms => SortedKeys v ∧ SortedKeysMembers ms
end

end Keys

section Numbers

variable (p : List UInt8 → Prop)

mutual
/-- Every number in the value has a text `p` holds of. -/
def AllNumbers : Value → Prop
  | .number t => p t
  | .array xs => AllNumbersElems xs
  | .object ms => AllNumbersMembers ms
  | _ => True

def AllNumbersElems : List Value → Prop
  | [] => True
  | x :: xs => AllNumbers x ∧ AllNumbersElems xs

def AllNumbersMembers : List (List UInt8 × Value) → Prop
  | [] => True
  | (_, v) :: ms => AllNumbers v ∧ AllNumbersMembers ms
end

end Numbers

section CanonicalOrder

open Vct.Lib.OrderedInsert

variable {lt : List UInt8 → List UInt8 → Bool}

theorem canonicalElems_eq_map (xs : List Value) : canonicalElems lt xs = xs.map (canonical lt) := by
  induction xs with
  | nil => rfl
  | cons x xs ih => rw [canonicalElems, ih, List.map_cons]

theorem canonicalMembers_eq_map (ms : List (List UInt8 × Value)) :
    canonicalMembers lt ms = ms.map fun m => (m.1, canonical lt m.2) := by
  induction ms with
  | nil => rfl
  | cons m ms ih =>
    obtain ⟨k, v⟩ := m
    rw [canonicalMembers, ih, List.map_cons]

@[simp] theorem map_fst_canonicalMembers (ms : List (List UInt8 × Value)) :
    (canonicalMembers lt ms).map Prod.fst = ms.map Prod.fst := by
  simp [canonicalMembers_eq_map]

theorem insertAll_eq_insertEach (ms : List (List UInt8 × Value)) :
    insertAll lt ms = insertEach (memberLt lt) [] ms := rfl

theorem insertAll_perm (ms : List (List UInt8 × Value)) : (insertAll lt ms).Perm ms := by
  have h := insertEach_perm (r := memberLt lt) [] ms
  rwa [List.nil_append] at h

theorem distinctKeysMembers_iff {ms : List (List UInt8 × Value)} :
    DistinctKeysMembers lt ms ↔ ∀ m ∈ ms, DistinctKeys lt m.2 := by
  induction ms with
  | nil => simp [DistinctKeysMembers]
  | cons m ms ih =>
    obtain ⟨k, v⟩ := m
    simp [DistinctKeysMembers, ih]

theorem sortedKeysMembers_iff {ms : List (List UInt8 × Value)} :
    SortedKeysMembers lt ms ↔ ∀ m ∈ ms, SortedKeys lt m.2 := by
  induction ms with
  | nil => simp [SortedKeysMembers]
  | cons m ms ih =>
    obtain ⟨k, v⟩ := m
    simp [SortedKeysMembers, ih]

theorem allNumbersMembers_iff {p : List UInt8 → Prop} {ms : List (List UInt8 × Value)} :
    AllNumbersMembers p ms ↔ ∀ m ∈ ms, AllNumbers p m.2 := by
  induction ms with
  | nil => simp [AllNumbersMembers]
  | cons m ms ih =>
    obtain ⟨k, v⟩ := m
    simp [AllNumbersMembers, ih]

mutual
theorem allNumbers_canonical {p : List UInt8 → Prop} :
    ∀ v : Value, AllNumbers p v → AllNumbers p (canonical lt v)
  | .null, h | .bool _, h | .number _, h | .string _, h => h
  | .array xs, h => allNumbersElems_canonicalElems xs h
  | .object ms, h => by
    have hms := allNumbersMembers_canonicalMembers ms h
    rw [allNumbersMembers_iff] at hms
    exact allNumbersMembers_iff.mpr fun m hm => hms m ((insertAll_perm _).subset hm)

theorem allNumbersElems_canonicalElems {p : List UInt8 → Prop} :
    ∀ xs : List Value, AllNumbersElems p xs → AllNumbersElems p (canonicalElems lt xs)
  | [], h => h
  | x :: xs, h => ⟨allNumbers_canonical x h.1, allNumbersElems_canonicalElems xs h.2⟩

theorem allNumbersMembers_canonicalMembers {p : List UInt8 → Prop} :
    ∀ ms : List (List UInt8 × Value), AllNumbersMembers p ms →
      AllNumbersMembers p (canonicalMembers lt ms)
  | [], h => h
  | (_, v) :: ms, h => ⟨allNumbers_canonical v h.1, allNumbersMembers_canonicalMembers ms h.2⟩
end

/-- A strict order on names, as a Boolean test. -/
structure IsKeyOrder (lt : List UInt8 → List UInt8 → Bool) : Prop where
  trans : ∀ a b c, lt a b = true → lt b c = true → lt a c = true
  asymm : ∀ a b, lt a b = true → ¬ lt b a = true

section Strict

variable (hlt : IsKeyOrder lt)

include hlt in
theorem pairwise_insertAll {ms : List (List UInt8 × Value)}
    (h : (ms.map Prod.fst).Pairwise (Comparable (KeyLt lt))) :
    ((insertAll lt ms).map Prod.fst).Pairwise (KeyLt lt) := by
  have hcmp := List.pairwise_map.mp h
  exact List.pairwise_map.mpr (pairwise_insertEach (r := memberLt lt)
    (fun a b c => hlt.trans a.1 b.1 c.1) List.Pairwise.nil hcmp)

include hlt in
/-- Members already in increasing order stay as they are. -/
theorem insertAll_of_pairwise {ms : List (List UInt8 × Value)}
    (h : (ms.map Prod.fst).Pairwise (KeyLt lt)) : insertAll lt ms = ms := by
  have h' := List.pairwise_map.mp h
  exact insertEach_of_pairwise (r := memberLt lt) (fun a b => hlt.asymm a.1 b.1) h'

mutual
theorem sortedKeys_canonical (hlt : IsKeyOrder lt) :
    ∀ v : Value, DistinctKeys lt v → SortedKeys lt (canonical lt v)
  | .null, _ | .bool _, _ | .number _, _ | .string _, _ => trivial
  | .array xs, h => sortedKeysElems_canonicalElems hlt xs h
  | .object ms, h => by
    obtain ⟨hk, hms⟩ := h
    have hsorted := sortedKeysMembers_canonicalMembers hlt ms hms
    rw [sortedKeysMembers_iff] at hsorted
    refine ⟨pairwise_insertAll hlt (by simpa using hk), ?_⟩
    exact sortedKeysMembers_iff.mpr fun m hm => hsorted m ((insertAll_perm _).subset hm)

theorem sortedKeysElems_canonicalElems (hlt : IsKeyOrder lt) :
    ∀ xs : List Value, DistinctKeysElems lt xs → SortedKeysElems lt (canonicalElems lt xs)
  | [], _ => trivial
  | x :: xs, h => ⟨sortedKeys_canonical hlt x h.1, sortedKeysElems_canonicalElems hlt xs h.2⟩

theorem sortedKeysMembers_canonicalMembers (hlt : IsKeyOrder lt) :
    ∀ ms : List (List UInt8 × Value), DistinctKeysMembers lt ms →
      SortedKeysMembers lt (canonicalMembers lt ms)
  | [], _ => trivial
  | (_, v) :: ms, h =>
    ⟨sortedKeys_canonical hlt v h.1, sortedKeysMembers_canonicalMembers hlt ms h.2⟩
end

mutual
/-- A value whose objects are sorted is its own canonical form. -/
theorem canonical_of_sortedKeys (hlt : IsKeyOrder lt) :
    ∀ v : Value, SortedKeys lt v → canonical lt v = v
  | .null, _ | .bool _, _ | .number _, _ | .string _, _ => rfl
  | .array xs, h => congrArg Value.array (canonicalElems_of_sortedKeys hlt xs h)
  | .object ms, h => by
    obtain ⟨hk, hms⟩ := h
    change Value.object (insertAll lt (canonicalMembers lt ms)) = _
    rw [canonicalMembers_of_sortedKeys hlt ms hms, insertAll_of_pairwise hlt hk]

theorem canonicalElems_of_sortedKeys (hlt : IsKeyOrder lt) :
    ∀ xs : List Value, SortedKeysElems lt xs → canonicalElems lt xs = xs
  | [], _ => rfl
  | x :: xs, h => by
    change canonical lt x :: canonicalElems lt xs = _
    rw [canonical_of_sortedKeys hlt x h.1, canonicalElems_of_sortedKeys hlt xs h.2]

theorem canonicalMembers_of_sortedKeys (hlt : IsKeyOrder lt) :
    ∀ ms : List (List UInt8 × Value), SortedKeysMembers lt ms → canonicalMembers lt ms = ms
  | [], _ => rfl
  | (k, v) :: ms, h => by
    change (k, canonical lt v) :: canonicalMembers lt ms = _
    rw [canonical_of_sortedKeys hlt v h.1, canonicalMembers_of_sortedKeys hlt ms h.2]
end

include hlt in
/-- Sorting members whose names the order tells apart does not depend on their order. -/
theorem insertAll_eq_of_perm {ms ns : List (List UInt8 × Value)} (hp : ms.Perm ns)
    (h : (ms.map Prod.fst).Pairwise (Comparable (KeyLt lt))) : insertAll lt ms = insertAll lt ns :=
  insertEach_eq_of_perm (r := memberLt lt) (fun a b c => hlt.trans a.1 b.1 c.1)
    (fun a b => hlt.asymm a.1 b.1) hp (List.pairwise_map.mp h :)

include hlt in
/-- The canonical form is canonical: canonicalizing twice is canonicalizing once. -/
theorem canonical_canonical {v : Value} (h : DistinctKeys lt v) :
    canonical lt (canonical lt v) = canonical lt v :=
  canonical_of_sortedKeys hlt _ (sortedKeys_canonical hlt v h)

end Strict

end CanonicalOrder

section Facts

variable {lt : List UInt8 → List UInt8 → Bool}

mutual
theorem allNumbers_mono {p q : List UInt8 → Prop} (hpq : ∀ t, p t → q t) :
    ∀ v : Value, AllNumbers p v → AllNumbers q v
  | .null, h | .bool _, h | .string _, h => h
  | .number t, h => hpq t h
  | .array xs, h => allNumbersElems_mono hpq xs h
  | .object ms, h => allNumbersMembers_mono hpq ms h

theorem allNumbersElems_mono {p q : List UInt8 → Prop} (hpq : ∀ t, p t → q t) :
    ∀ xs : List Value, AllNumbersElems p xs → AllNumbersElems q xs
  | [], h => h
  | x :: xs, h => ⟨allNumbers_mono hpq x h.1, allNumbersElems_mono hpq xs h.2⟩

theorem allNumbersMembers_mono {p q : List UInt8 → Prop} (hpq : ∀ t, p t → q t) :
    ∀ ms : List (List UInt8 × Value), AllNumbersMembers p ms → AllNumbersMembers q ms
  | [], h => h
  | (_, v) :: ms, h => ⟨allNumbers_mono hpq v h.1, allNumbersMembers_mono hpq ms h.2⟩
end

mutual
/-- Strictly increasing names are names the order tells apart. -/
theorem distinctKeys_of_sortedKeys : ∀ v : Value, SortedKeys lt v → DistinctKeys lt v
  | .null, h | .bool _, h | .number _, h | .string _, h => h
  | .array xs, h => distinctKeysElems_of_sortedKeys xs h
  | .object ms, h => ⟨h.1.imp Or.inl, distinctKeysMembers_of_sortedKeys ms h.2⟩

theorem distinctKeysElems_of_sortedKeys :
    ∀ xs : List Value, SortedKeysElems lt xs → DistinctKeysElems lt xs
  | [], h => h
  | x :: xs, h => ⟨distinctKeys_of_sortedKeys x h.1, distinctKeysElems_of_sortedKeys xs h.2⟩

theorem distinctKeysMembers_of_sortedKeys :
    ∀ ms : List (List UInt8 × Value), SortedKeysMembers lt ms → DistinctKeysMembers lt ms
  | [], h => h
  | (_, v) :: ms, h => ⟨distinctKeys_of_sortedKeys v h.1, distinctKeysMembers_of_sortedKeys ms h.2⟩
end

variable {quote : List UInt8 → List UInt8}

mutual
/-- The nesting a recursive descent walks through is at most twice the length of the text. -/
theorem size_lt_length_render (hq : ∀ s, quote s ≠ []) :
    ∀ v : Value, AllNumbers (· ≠ []) v → size v < 2 * (render quote v).length
  | .null, _ | .bool true, _ | .bool false, _ => by simp [size, render, ascii]
  | .number t, h => by
    have : 0 < t.length := List.length_pos_of_ne_nil h
    simp only [size, render]
    omega
  | .string s, _ => by
    have : 0 < (quote s).length := List.length_pos_of_ne_nil (hq s)
    simp only [size, render]
    omega
  | .array [], _ => by simp [size, sizeElems, render, ascii]
  | .array (x :: xs), h => by
    have hx := size_lt_length_render hq x h.1
    have hxs := sizeElems_lt_length_renderElems hq xs h.2
    simp only [size, sizeElems, render, List.length_cons, List.length_append]
    omega
  | .object [], _ => by simp [size, sizeMembers, render, ascii]
  | .object ((k, v) :: ms), h => by
    have hv := size_lt_length_render hq v h.1
    have hms := sizeMembers_lt_length_renderMembers hq ms h.2
    simp only [size, sizeMembers, render, List.length_cons, List.length_append]
    omega

theorem sizeElems_lt_length_renderElems (hq : ∀ s, quote s ≠ []) :
    ∀ xs : List Value, AllNumbersElems (· ≠ []) xs → sizeElems xs < 2 * (renderElems quote xs).length
  | [], _ => by simp [sizeElems, renderElems]
  | x :: xs, h => by
    have hx := size_lt_length_render hq x h.1
    have hxs := sizeElems_lt_length_renderElems hq xs h.2
    simp only [sizeElems, renderElems, List.length_cons, List.length_append]
    omega

theorem sizeMembers_lt_length_renderMembers (hq : ∀ s, quote s ≠ []) :
    ∀ ms : List (List UInt8 × Value), AllNumbersMembers (· ≠ []) ms →
      sizeMembers ms < 2 * (renderMembers quote ms).length
  | [], _ => by simp [sizeMembers, renderMembers]
  | (k, v) :: ms, h => by
    have hv := size_lt_length_render hq v h.1
    have hms := sizeMembers_lt_length_renderMembers hq ms h.2
    simp only [sizeMembers, renderMembers, List.length_cons, List.length_append]
    omega
end

theorem size_pos (v : Value) : 0 < size v := by
  cases v <;> (unfold size; omega)

theorem sizeElems_pos (xs : List Value) : 0 < sizeElems xs := by
  cases xs with
  | nil => simp [sizeElems]
  | cons x xs => simp only [sizeElems]; omega

theorem sizeMembers_pos (ms : List (List UInt8 × Value)) : 0 < sizeMembers ms := by
  cases ms with
  | nil => simp [sizeMembers]
  | cons m ms => simp only [sizeMembers]; omega

end Facts

section Reorder

open Vct.Lib.OrderedInsert

mutual
/-- The same value up to the order of the members of its objects: the values of an object's
members are reordered in turn, and the members then permuted. -/
inductive Reordered : Value → Value → Prop
  | refl (v : Value) : Reordered v v
  | array {xs ys : List Value} : ReorderedElems xs ys → Reordered (.array xs) (.array ys)
  | object {ms ms' ns : List (List UInt8 × Value)} :
      ReorderedMembers ms ms' → ms'.Perm ns → Reordered (.object ms) (.object ns)

inductive ReorderedElems : List Value → List Value → Prop
  | nil : ReorderedElems [] []
  | cons {x y : Value} {xs ys : List Value} :
      Reordered x y → ReorderedElems xs ys → ReorderedElems (x :: xs) (y :: ys)

inductive ReorderedMembers : List (List UInt8 × Value) → List (List UInt8 × Value) → Prop
  | nil : ReorderedMembers [] []
  | cons {k : List UInt8} {v w : Value} {ms ns : List (List UInt8 × Value)} :
      Reordered v w → ReorderedMembers ms ns → ReorderedMembers ((k, v) :: ms) ((k, w) :: ns)
end

theorem map_fst_of_reorderedMembers :
    ∀ {ms ns : List (List UInt8 × Value)}, ReorderedMembers ms ns → ms.map Prod.fst = ns.map Prod.fst
  | _, _, .nil => rfl
  | _, _, .cons _ h => by rw [List.map_cons, List.map_cons, map_fst_of_reorderedMembers h]

variable {lt : List UInt8 → List UInt8 → Bool}

mutual
/-- Values that differ only in the order of their members have one canonical form. -/
theorem canonical_eq_of_reordered (hlt : IsKeyOrder lt) :
    ∀ {v w : Value}, Reordered v w → DistinctKeys lt v → canonical lt v = canonical lt w
  | _, _, .refl _, _ => rfl
  | _, _, .array h, hd => congrArg Value.array (canonicalElems_eq_of_reordered hlt h hd)
  | _, _, .object hms hp, hd => by
    obtain ⟨hk, hdms⟩ := hd
    have hkeys := map_fst_of_reorderedMembers hms
    change Value.object (insertAll lt (canonicalMembers lt _)) =
      Value.object (insertAll lt (canonicalMembers lt _))
    rw [canonicalMembers_eq_of_reordered hlt hms hdms]
    refine congrArg Value.object (insertAll_eq_of_perm hlt ?_ ?_)
    · rw [canonicalMembers_eq_map, canonicalMembers_eq_map]
      exact hp.map _
    · rw [map_fst_canonicalMembers, ← hkeys]
      exact hk

theorem canonicalElems_eq_of_reordered (hlt : IsKeyOrder lt) :
    ∀ {xs ys : List Value}, ReorderedElems xs ys → DistinctKeysElems lt xs →
      canonicalElems lt xs = canonicalElems lt ys
  | _, _, .nil, _ => rfl
  | _, _, .cons h hs, hd => by
    rw [canonicalElems, canonicalElems, canonical_eq_of_reordered hlt h hd.1,
      canonicalElems_eq_of_reordered hlt hs hd.2]

theorem canonicalMembers_eq_of_reordered (hlt : IsKeyOrder lt) :
    ∀ {ms ns : List (List UInt8 × Value)}, ReorderedMembers ms ns → DistinctKeysMembers lt ms →
      canonicalMembers lt ms = canonicalMembers lt ns
  | _, _, .nil, _ => rfl
  | _, _, .cons h hs, hd => by
    rw [canonicalMembers, canonicalMembers, canonical_eq_of_reordered hlt h hd.1,
      canonicalMembers_eq_of_reordered hlt hs hd.2]
end

end Reorder

section Plain

variable {lt : List UInt8 → List UInt8 → Bool}

theorem isPlainMembers_iff {ms : List (List UInt8 × Value)} :
    isPlainMembers ms = true ↔ ∀ m ∈ ms, m.1.all isPlainByte = true ∧ isPlain m.2 = true := by
  induction ms with
  | nil => simp [isPlainMembers]
  | cons m ms ih =>
    obtain ⟨k, v⟩ := m
    simp [isPlainMembers, ih, and_assoc]

mutual
theorem isPlain_canonical : ∀ v : Value, isPlain v = true → isPlain (canonical lt v) = true
  | .null, h | .bool _, h | .number _, h | .string _, h => h
  | .array xs, h => isPlainElems_canonicalElems xs h
  | .object ms, h => by
    simp only [isPlain, Bool.and_eq_true, decide_eq_true_eq] at h
    obtain ⟨hnodup, hms⟩ := h
    have hperm : (insertAll lt (canonicalMembers lt ms)).Perm (canonicalMembers lt ms) :=
      insertAll_perm _
    have hplain := isPlainMembers_canonicalMembers ms hms
    change isPlain (.object (insertAll lt (canonicalMembers lt ms))) = true
    simp only [isPlain, Bool.and_eq_true, decide_eq_true_eq]
    refine ⟨(hperm.map Prod.fst).nodup_iff.mpr (by simpa using hnodup), ?_⟩
    rw [isPlainMembers_iff] at hplain ⊢
    exact fun m hm => hplain m (hperm.subset hm)

theorem isPlainElems_canonicalElems :
    ∀ xs : List Value, isPlainElems xs = true → isPlainElems (canonicalElems lt xs) = true
  | [], h => h
  | x :: xs, h => by
    simp only [isPlainElems, Bool.and_eq_true] at h
    change (isPlain (canonical lt x) && isPlainElems (canonicalElems lt xs)) = true
    rw [isPlain_canonical x h.1, isPlainElems_canonicalElems xs h.2]
    rfl

theorem isPlainMembers_canonicalMembers :
    ∀ ms : List (List UInt8 × Value), isPlainMembers ms = true →
      isPlainMembers (canonicalMembers lt ms) = true
  | [], h => h
  | (k, v) :: ms, h => by
    simp only [isPlainMembers, Bool.and_eq_true] at h
    change (k.all isPlainByte && isPlain (canonical lt v) &&
      isPlainMembers (canonicalMembers lt ms)) = true
    rw [h.1.1, isPlain_canonical v h.1.2, isPlainMembers_canonicalMembers ms h.2]
    rfl
end

mutual
theorem allNumbers_of_isPlain : ∀ v : Value, isPlain v = true → AllNumbers (isDecimal · = true) v
  | .null, _ | .bool _, _ | .string _, _ => trivial
  | .number _, h => h
  | .array xs, h => allNumbersElems_of_isPlainElems xs h
  | .object ms, h => by
    simp only [isPlain, Bool.and_eq_true] at h
    exact allNumbersMembers_of_isPlainMembers ms h.2

theorem allNumbersElems_of_isPlainElems :
    ∀ xs : List Value, isPlainElems xs = true → AllNumbersElems (isDecimal · = true) xs
  | [], _ => trivial
  | x :: xs, h => by
    simp only [isPlainElems, Bool.and_eq_true] at h
    exact ⟨allNumbers_of_isPlain x h.1, allNumbersElems_of_isPlainElems xs h.2⟩

theorem allNumbersMembers_of_isPlainMembers :
    ∀ ms : List (List UInt8 × Value), isPlainMembers ms = true →
      AllNumbersMembers (isDecimal · = true) ms
  | [], _ => trivial
  | (_, v) :: ms, h => by
    simp only [isPlainMembers, Bool.and_eq_true] at h
    exact ⟨allNumbers_of_isPlain v h.1.2, allNumbersMembers_of_isPlainMembers ms h.2⟩
end

mutual
theorem allNumbers_and {p q : List UInt8 → Prop} :
    ∀ v : Value, AllNumbers p v → AllNumbers q v → AllNumbers (fun t => p t ∧ q t) v
  | .null, _, _ | .bool _, _, _ | .string _, _, _ => trivial
  | .number _, hp, hq => ⟨hp, hq⟩
  | .array xs, hp, hq => allNumbersElems_and xs hp hq
  | .object ms, hp, hq => allNumbersMembers_and ms hp hq

theorem allNumbersElems_and {p q : List UInt8 → Prop} :
    ∀ xs : List Value, AllNumbersElems p xs → AllNumbersElems q xs →
      AllNumbersElems (fun t => p t ∧ q t) xs
  | [], _, _ => trivial
  | x :: xs, hp, hq => ⟨allNumbers_and x hp.1 hq.1, allNumbersElems_and xs hp.2 hq.2⟩

theorem allNumbersMembers_and {p q : List UInt8 → Prop} :
    ∀ ms : List (List UInt8 × Value), AllNumbersMembers p ms → AllNumbersMembers q ms →
      AllNumbersMembers (fun t => p t ∧ q t) ms
  | [], _, _ => trivial
  | (_, v) :: ms, hp, hq => ⟨allNumbers_and v hp.1 hq.1, allNumbersMembers_and ms hp.2 hq.2⟩
end

end Plain

end Vct.Lib.Json
