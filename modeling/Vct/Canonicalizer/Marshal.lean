import Mathlib
import Vct.Lib.Base64
import Vct.Lib.Decimal
import Vct.Command.AddVC
import Vct.Canonicalizer.Canonical

namespace Vct.Canonicalizer.Marshal

open Vct.Lib
open Vct.Lib.Json
open Vct.Lib.Unicode
open Vct.Lib.OrderedInsert
open Vct.Controller.Errors
open Vct.Trillian.Types
open Vct.Command.Models
open Vct.Command.AddVC
open Vct.Canonicalizer.Transform
open Vct.Canonicalizer.Read
open Vct.Canonicalizer.Canonical

section Encoding

/-- What `encoding/json` writes for a `[]byte`: its base64 text, or `null` for a nil slice. -/
def bytesValue : Option (List UInt8) → Value
  | none => .null
  | some b => .string (ascii (Base64.encode b))

/-- What `encoding/json` writes for an unsigned integer. -/
def uintValue (n : Nat) : Value := .number (decimal n)

def timestampedEntryValue (e : TimestampedEntry) : Value :=
  .object [(ascii ['t', 'i', 'm', 'e', 's', 't', 'a', 'm', 'p'], uintValue e.timestamp.toNat),
    (ascii ['e', 'n', 't', 'r', 'y', '_', 't', 'y', 'p', 'e'], uintValue e.entryType.toNat),
    (ascii ['v', 'c', '_', 'e', 'n', 't', 'r', 'y'], bytesValue e.vcEntry),
    (ascii ['e', 'x', 't', 'e', 'n', 's', 'i', 'o', 'n', 's'], bytesValue e.extensions)]

/-- The entry of a leaf is a pointer, written `null` when nil. -/
def merkleTreeLeafValue (leaf : MerkleTreeLeaf) : Value :=
  .object [(ascii ['v', 'e', 'r', 's', 'i', 'o', 'n'], uintValue leaf.version.toNat),
    (ascii ['l', 'e', 'a', 'f', '_', 't', 'y', 'p', 'e'], uintValue leaf.leafType.toNat),
    (ascii ['t', 'i', 'm', 'e', 's', 't', 'a', 'm', 'p', 'e', 'd', '_', 'e', 'n', 't', 'r', 'y'],
      (leaf.timestampedEntry.map timestampedEntryValue).getD .null)]

def vcTimestampSignatureValue (s : VCTimestampSignature) : Value :=
  .object [(ascii ['s', 'v', 'c', 't', '_', 'v', 'e', 'r', 's', 'i', 'o', 'n'],
      uintValue s.svctVersion.toNat),
    (ascii ['s', 'i', 'g', 'n', 'a', 't', 'u', 'r', 'e', '_', 't', 'y', 'p', 'e'],
      uintValue s.signatureType.toNat),
    (ascii ['t', 'i', 'm', 'e', 's', 't', 'a', 'm', 'p'], uintValue s.timestamp.toNat),
    (ascii ['e', 'n', 't', 'r', 'y', '_', 't', 'y', 'p', 'e'], uintValue s.entryType.toNat),
    (ascii ['v', 'c', '_', 'e', 'n', 't', 'r', 'y'], bytesValue s.vcEntry),
    (ascii ['e', 'x', 't', 'e', 'n', 's', 'i', 'o', 'n', 's'], bytesValue s.extensions)]

/-- `TreeHeadSignature`: the data the signature of a tree head is over. -/
structure TreeHeadSignature where
  version : UInt8
  signatureType : UInt64
  timestamp : UInt64
  treeSize : UInt64
  sha256RootHash : Option (List UInt8)
  deriving DecidableEq, Repr

def treeHeadSignatureType : UInt64 := 101

def treeHeadSignatureValue (t : TreeHeadSignature) : Value :=
  .object [(ascii ['v', 'e', 'r', 's', 'i', 'o', 'n'], uintValue t.version.toNat),
    (ascii ['s', 'i', 'g', 'n', 'a', 't', 'u', 'r', 'e', '_', 't', 'y', 'p', 'e'],
      uintValue t.signatureType.toNat),
    (ascii ['t', 'i', 'm', 'e', 's', 't', 'a', 'm', 'p'], uintValue t.timestamp.toNat),
    (ascii ['t', 'r', 'e', 'e', '_', 's', 'i', 'z', 'e'], uintValue t.treeSize.toNat),
    (ascii ['s', 'h', 'a', '_', '2', '5', '6', '_', 'r', 'o', 'o', 't', '_', 'h', 'a', 's', 'h'],
      bytesValue t.sha256RootHash)]

/-- The payload `signV1TreeHead` builds for a log root, with the time in milliseconds. -/
def treeHeadSignatureOf (root : LogRootV1) : TreeHeadSignature where
  version := v1
  signatureType := treeHeadSignatureType
  timestamp := root.timestampNanos / 1000000
  treeSize := root.treeSize
  sha256RootHash := some root.rootHash

variable (numberToJSON : List UInt8 → Except String (List UInt8))

/-- `canonicalizer.MarshalCanonical` of a structure `json.Marshal` writes as `v`. The strings
of these structures are base64 texts and their names are plain ASCII, which `encoding/json`
writes between quotes as they are. -/
def marshalCanonical (v : Value) : Except TransformError (List UInt8) :=
  transform numberToJSON (render plainQuote v)

end Encoding

section Plain

variable {numberToJSON : List UInt8 → Except String (List UInt8)}

theorem decorateByte_of_plain : ∀ c : UInt8, isPlainByte c = true → decorateByte c = [c] := by
  set_option maxRecDepth 8000 in decide

theorem flatMap_decorateByte_of_plain :
    ∀ {s : List UInt8}, (∀ b ∈ s, isPlainByte b = true) → s.flatMap decorateByte = s
  | [], _ => rfl
  | c :: s, h => by
    rw [List.flatMap_cons, decorateByte_of_plain c (h c List.mem_cons_self),
      flatMap_decorateByte_of_plain fun b hb => h b (List.mem_cons_of_mem c hb)]
    rfl

/-- A string that needs no escape is written the same by both writers. -/
theorem decorateString_of_plain {s : List UInt8} (h : s.all isPlainByte = true) :
    decorateString s = plainQuote s := by
  rw [decorateString, plainQuote, flatMap_decorateByte_of_plain (List.all_eq_true.mp h)]

mutual
theorem render_plain : ∀ v : Value, isPlain v = true →
    render plainQuote v = render decorateString v
  | .null, _ | .bool true, _ | .bool false, _ | .number _, _ | .array [], _ | .object [], _ => rfl
  | .string _, h => (decorateString_of_plain h).symm
  | .array (x :: xs), h => by
    simp only [isPlain, isPlainElems, Bool.and_eq_true] at h
    rw [render, render, render_plain x h.1, renderElems_plain xs h.2]
  | .object ((k, v) :: ms), h => by
    simp only [isPlain, isPlainMembers, Bool.and_eq_true] at h
    rw [render, render, decorateString_of_plain h.2.1.1, render_plain v h.2.1.2,
      renderMembers_plain ms h.2.2]

theorem renderElems_plain : ∀ xs : List Value, isPlainElems xs = true →
    renderElems plainQuote xs = renderElems decorateString xs
  | [], _ => rfl
  | x :: xs, h => by
    simp only [isPlainElems, Bool.and_eq_true] at h
    rw [renderElems, renderElems, render_plain x h.1, renderElems_plain xs h.2]

theorem renderMembers_plain : ∀ ms : List (List UInt8 × Value), isPlainMembers ms = true →
    renderMembers plainQuote ms = renderMembers decorateString ms
  | [], _ => rfl
  | (k, v) :: ms, h => by
    simp only [isPlainMembers, Bool.and_eq_true] at h
    rw [renderMembers, renderMembers, decorateString_of_plain h.1.1, render_plain v h.1.2,
      renderMembers_plain ms h.2]
end

theorem lt_of_isPlainByte {b : UInt8} (h : isPlainByte b = true) : b < 0x80 := by
  simp only [isPlainByte, Bool.and_eq_true, decide_eq_true_eq] at h
  rw [UInt8.lt_iff_toNat_lt]
  have hle := UInt8.le_iff_toNat_le.mp h.1.1.2
  simp only [UInt8.reduceToNat] at hle ⊢
  omega

/-- The sort key of an ASCII name is its bytes. -/
theorem sortKey_of_plain {k : List UInt8} (h : k.all isPlainByte = true) :
    sortKey k = k.map UInt8.toNat := by
  have hascii : ∀ b ∈ k, b < 0x80 := fun b hb => lt_of_isPlainByte (List.all_eq_true.mp h b hb)
  rw [sortKey, runes_of_ascii hascii, utf16Encode_of_lt]
  intro v hv
  obtain ⟨b, hb, rfl⟩ := List.mem_map.mp hv
  have hlt := UInt8.lt_iff_toNat_lt.mp (hascii b hb)
  simp only [UInt8.reduceToNat] at hlt
  omega

theorem comparable_of_plain {a b : List UInt8} (ha : a.all isPlainByte = true)
    (hb : b.all isPlainByte = true) (hne : a ≠ b) : Comparable (KeyLt keyPrecedes) a b := by
  refine comparable_keyPrecedes_iff.mpr fun heq => hne ?_
  rw [sortKey_of_plain ha, sortKey_of_plain hb] at heq
  exact List.map_injective_iff.mpr (fun _ _ h => UInt8.toNat_inj.mp h) heq

mutual
theorem distinctKeys_of_isPlain : ∀ v : Value, isPlain v = true → DistinctKeys keyPrecedes v
  | .null, _ | .bool _, _ | .number _, _ | .string _, _ => trivial
  | .array xs, h => distinctKeysElems_of_isPlainElems xs h
  | .object ms, h => by
    simp only [isPlain, Bool.and_eq_true, decide_eq_true_eq] at h
    obtain ⟨hnodup, hms⟩ := h
    have hnames : ∀ k ∈ ms.map Prod.fst, k.all isPlainByte = true := by
      intro k hk
      obtain ⟨m, hm, rfl⟩ := List.mem_map.mp hk
      exact ((isPlainMembers_iff.mp hms) m hm).1
    exact ⟨hnodup.imp_of_mem fun ha hb hne => comparable_of_plain (hnames _ ha) (hnames _ hb) hne,
      distinctKeysMembers_of_isPlainMembers ms hms⟩

theorem distinctKeysElems_of_isPlainElems :
    ∀ xs : List Value, isPlainElems xs = true → DistinctKeysElems keyPrecedes xs
  | [], _ => trivial
  | x :: xs, h => by
    simp only [isPlainElems, Bool.and_eq_true] at h
    exact ⟨distinctKeys_of_isPlain x h.1, distinctKeysElems_of_isPlainElems xs h.2⟩

theorem distinctKeysMembers_of_isPlainMembers :
    ∀ ms : List (List UInt8 × Value), isPlainMembers ms = true → DistinctKeysMembers keyPrecedes ms
  | [], _ => trivial
  | (_, v) :: ms, h => by
    simp only [isPlainMembers, Bool.and_eq_true] at h
    exact ⟨distinctKeys_of_isPlain v h.1.2, distinctKeysMembers_of_isPlainMembers ms h.2⟩
end

theorem fixedNumbers_of_isPlain {v : Value} (hplain : isPlain v = true)
    (hnum : AllNumbers (fun t => numberToJSON t = .ok t) v) :
    AllNumbers (FixedNumber numberToJSON) v := by
  refine allNumbers_mono (fun t ht => ?_) v (allNumbers_and v (allNumbers_of_isPlain v hplain) hnum)
  exact ⟨ht.2, isDecimal_numberBytes ht.1⟩

/-- For a value whose strings and names need no escape and whose numbers the number step
keeps, `MarshalCanonical` writes the value's own compact text with the members of every
object in the order of their names. -/
theorem marshalCanonical_of_isPlain {v : Value}
    (hv : (∃ xs, v = .array xs) ∨ (∃ ms, v = .object ms)) (hplain : isPlain v = true)
    (hnum : AllNumbers (fun t => numberToJSON t = .ok t) v) :
    marshalCanonical numberToJSON v = .ok (render plainQuote (canonical keyPrecedes v)) := by
  have hread := readJSON_render hv (distinctKeys_of_isPlain v hplain)
    (fixedNumbers_of_isPlain hplain hnum)
  rw [marshalCanonical, render_plain v hplain, transform_eq_map_canonicalText, hread]
  change Except.ok (canonicalText v) = _
  rw [canonicalText, render_plain _ (isPlain_canonical v hplain)]

theorem decimalNumber_of_isDecimal {t : List UInt8} (h : isDecimal t = true) :
    decimalNumber t = .ok t := by
  rw [decimalNumber, if_pos h]

/-- Two array or object values with plain strings and decimal numbers and one text are
equal: the reader reads each back from the text. -/
theorem render_injective_of_plain {w₁ w₂ : Value}
    (hw₁ : (∃ xs, w₁ = .array xs) ∨ (∃ ms, w₁ = .object ms))
    (hw₂ : (∃ xs, w₂ = .array xs) ∨ (∃ ms, w₂ = .object ms))
    (hp₁ : isPlain w₁ = true) (hp₂ : isPlain w₂ = true)
    (h : render plainQuote w₁ = render plainQuote w₂) : w₁ = w₂ := by
  have hfixed : ∀ {w : Value}, isPlain w = true → AllNumbers (FixedNumber decimalNumber) w :=
    fun hp => fixedNumbers_of_isPlain hp
      (allNumbers_mono (fun _ ht => decimalNumber_of_isDecimal ht) _ (allNumbers_of_isPlain _ hp))
  have hr₁ := readJSON_render hw₁ (distinctKeys_of_isPlain w₁ hp₁) (hfixed hp₁)
  have hr₂ := readJSON_render hw₂ (distinctKeys_of_isPlain w₂ hp₂) (hfixed hp₂)
  rw [← render_plain w₁ hp₁, h, render_plain w₂ hp₂, hr₂] at hr₁
  exact (Except.ok.inj hr₁).symm

end Plain

section Structures

variable {numberToJSON : List UInt8 → Except String (List UInt8)}

/-- The text of a natural number a float64 holds exactly, which `ParseFloat` and
`NumberToJSON` give back unchanged. -/
def SafeInteger (t : List UInt8) : Prop := ∃ n, n < 2 ^ 53 ∧ t = decimal n

theorem fixedNumbers_of_safe
    (hsafe : ∀ n, n < 2 ^ 53 → numberToJSON (decimal n) = .ok (decimal n)) {v : Value}
    (h : AllNumbers SafeInteger v) : AllNumbers (fun t => numberToJSON t = .ok t) v := by
  refine allNumbers_mono (fun t ht => ?_) v h
  obtain ⟨n, hn, rfl⟩ := ht
  exact hsafe n hn

theorem safeInteger_decimal {n : Nat} (h : n < 2 ^ 53) : SafeInteger (decimal n) := ⟨n, h, rfl⟩

theorem decimalNumber_safe : ∀ n, n < 2 ^ 53 → decimalNumber (decimal n) = .ok (decimal n) :=
  fun n _ => decimalNumber_of_isDecimal (isDecimal_decimal n)

/-- Two objects with plain names and strings and safe numbers that `MarshalCanonical` writes
to one text have one canonical form. -/
theorem canonical_eq_of_marshalCanonical_eq
    (hsafe : ∀ n, n < 2 ^ 53 → numberToJSON (decimal n) = .ok (decimal n))
    {ms₁ ms₂ : List (List UInt8 × Value)}
    (hp₁ : isPlain (.object ms₁) = true) (hp₂ : isPlain (.object ms₂) = true)
    (h₁ : AllNumbers SafeInteger (.object ms₁)) (h₂ : AllNumbers SafeInteger (.object ms₂))
    (h : marshalCanonical numberToJSON (.object ms₁) = marshalCanonical numberToJSON (.object ms₂)) :
    canonical keyPrecedes (.object ms₁) = canonical keyPrecedes (.object ms₂) := by
  rw [marshalCanonical_of_isPlain (.inr ⟨_, rfl⟩) hp₁ (fixedNumbers_of_safe hsafe h₁),
    marshalCanonical_of_isPlain (.inr ⟨_, rfl⟩) hp₂ (fixedNumbers_of_safe hsafe h₂)] at h
  exact render_injective_of_plain (.inr ⟨_, rfl⟩) (.inr ⟨_, rfl⟩) (isPlain_canonical _ hp₁)
    (isPlain_canonical _ hp₂) (Except.ok.inj h)

/-- An object is plain when its names are distinct plain texts and its values are plain. The
names of a structure are fixed, so the first hypothesis is decided on them alone. -/
theorem isPlain_object {ms : List (List UInt8 × Value)}
    (hnames : (ms.map Prod.fst).Nodup ∧ ∀ k ∈ ms.map Prod.fst, k.all isPlainByte = true)
    (hvalues : ∀ m ∈ ms, isPlain m.2 = true) : isPlain (.object ms) = true := by
  simp only [isPlain, Bool.and_eq_true, decide_eq_true_eq]
  exact ⟨hnames.1, isPlainMembers_iff.mpr fun m hm =>
    ⟨hnames.2 m.1 (List.mem_map_of_mem hm), hvalues m hm⟩⟩

theorem isPlain_uintValue (n : Nat) : isPlain (uintValue n) = true := isDecimal_decimal n

theorem isPlainByte_of_mem_encode {c : Char} {b : List UInt8} (h : c ∈ Base64.encode b) :
    isPlainByte c.toUInt8 = true := by
  have hsextet : ∀ k : Fin 64, isPlainByte (Base64.sextet k).toUInt8 = true := by decide +kernel
  rcases Base64.mem_encode h with ⟨m, rfl⟩ | rfl
  · simpa [Base64.sextet] using hsextet ⟨m % 64, Nat.mod_lt _ (by omega)⟩
  · decide

theorem isPlain_bytesValue (x : Option (List UInt8)) : isPlain (bytesValue x) = true := by
  cases x with
  | none => rfl
  | some b =>
    refine List.all_eq_true.mpr fun c hc => ?_
    obtain ⟨c', hc', rfl⟩ := List.mem_map.mp hc
    exact isPlainByte_of_mem_encode hc'

theorem uintValue_injective {m n : Nat} (h : uintValue m = uintValue n) : m = n :=
  decimal_injective (Value.number.inj h)

/-- Base64 reads back, so a `[]byte` is determined by what `encoding/json` writes for it. -/
theorem bytesValue_injective {x y : Option (List UInt8)} (h : bytesValue x = bytesValue y) :
    x = y := by
  cases x with
  | none => cases y with
    | none => rfl
    | some b => exact absurd h (by simp [bytesValue])
  | some a => cases y with
    | none => exact absurd h (by simp [bytesValue])
    | some b =>
      have hab := congrArg Base64.decode (Value.string.inj h)
      rwa [ascii, ascii, Base64.decode_encode, Base64.decode_encode] at hab

theorem canonical_uintValue (n : Nat) : canonical keyPrecedes (uintValue n) = uintValue n := rfl

theorem canonical_bytesValue (x : Option (List UInt8)) :
    canonical keyPrecedes (bytesValue x) = bytesValue x := by
  cases x <;> rfl

theorem uint64_eq_of_uintValue {a b : UInt64} (h : uintValue a.toNat = uintValue b.toNat) : a = b :=
  UInt64.toNat_inj.mp (uintValue_injective h)

theorem uint8_eq_of_uintValue {a b : UInt8} (h : uintValue a.toNat = uintValue b.toNat) : a = b :=
  UInt8.toNat_inj.mp (uintValue_injective h)

section TimestampedEntry

theorem insertAll_timestampedEntry (a b c d : Value) :
    insertAll keyPrecedes [(ascii ['t', 'i', 'm', 'e', 's', 't', 'a', 'm', 'p'], a),
      (ascii ['e', 'n', 't', 'r', 'y', '_', 't', 'y', 'p', 'e'], b),
      (ascii ['v', 'c', '_', 'e', 'n', 't', 'r', 'y'], c),
      (ascii ['e', 'x', 't', 'e', 'n', 's', 'i', 'o', 'n', 's'], d)] =
    [(ascii ['e', 'n', 't', 'r', 'y', '_', 't', 'y', 'p', 'e'], b),
      (ascii ['e', 'x', 't', 'e', 'n', 's', 'i', 'o', 'n', 's'], d),
      (ascii ['t', 'i', 'm', 'e', 's', 't', 'a', 'm', 'p'], a),
      (ascii ['v', 'c', '_', 'e', 'n', 't', 'r', 'y'], c)] := rfl

theorem canonical_timestampedEntryValue (e : TimestampedEntry) :
    canonical keyPrecedes (timestampedEntryValue e) =
      .object [(ascii ['e', 'n', 't', 'r', 'y', '_', 't', 'y', 'p', 'e'], uintValue e.entryType.toNat),
        (ascii ['e', 'x', 't', 'e', 'n', 's', 'i', 'o', 'n', 's'], bytesValue e.extensions),
        (ascii ['t', 'i', 'm', 'e', 's', 't', 'a', 'm', 'p'], uintValue e.timestamp.toNat),
        (ascii ['v', 'c', '_', 'e', 'n', 't', 'r', 'y'], bytesValue e.vcEntry)] := by
  change Value.object (insertAll keyPrecedes (canonicalMembers keyPrecedes _)) = _
  simp only [canonicalMembers, canonical_uintValue, canonical_bytesValue]
  rw [insertAll_timestampedEntry]

theorem isPlain_timestampedEntryValue (e : TimestampedEntry) :
    isPlain (timestampedEntryValue e) = true := by
  refine isPlain_object (by simp only [List.map_cons, List.map_nil]; decide) ?_
  simp [isPlain_uintValue, isPlain_bytesValue]

theorem timestampedEntry_eq_of_canonical {e₁ e₂ : TimestampedEntry}
    (h : canonical keyPrecedes (timestampedEntryValue e₁) =
      canonical keyPrecedes (timestampedEntryValue e₂)) : e₁ = e₂ := by
  obtain ⟨timestamp₁, entryType₁, vcEntry₁, extensions₁⟩ := e₁
  obtain ⟨timestamp₂, entryType₂, vcEntry₂, extensions₂⟩ := e₂
  rw [canonical_timestampedEntryValue, canonical_timestampedEntryValue] at h
  simp only [Value.object.injEq, List.cons.injEq, Prod.mk.injEq, true_and, and_true] at h
  obtain ⟨hentryType, hextensions, htimestamp, hvcEntry⟩ := h
  rw [uint64_eq_of_uintValue htimestamp, uint64_eq_of_uintValue hentryType,
    bytesValue_injective hvcEntry, bytesValue_injective hextensions]

end TimestampedEntry

section Leaf

theorem insertAll_merkleTreeLeaf (a b c : Value) :
    insertAll keyPrecedes [(ascii ['v', 'e', 'r', 's', 'i', 'o', 'n'], a),
      (ascii ['l', 'e', 'a', 'f', '_', 't', 'y', 'p', 'e'], b),
      (ascii ['t', 'i', 'm', 'e', 's', 't', 'a', 'm', 'p', 'e', 'd', '_', 'e', 'n', 't', 'r', 'y'], c)] =
    [(ascii ['l', 'e', 'a', 'f', '_', 't', 'y', 'p', 'e'], b),
      (ascii ['t', 'i', 'm', 'e', 's', 't', 'a', 'm', 'p', 'e', 'd', '_', 'e', 'n', 't', 'r', 'y'], c),
      (ascii ['v', 'e', 'r', 's', 'i', 'o', 'n'], a)] := rfl

theorem canonical_entryValue (entry : Option TimestampedEntry) :
    canonical keyPrecedes ((entry.map timestampedEntryValue).getD .null) =
      (entry.map fun e => canonical keyPrecedes (timestampedEntryValue e)).getD .null := by
  cases entry <;> rfl

theorem canonical_merkleTreeLeafValue (leaf : MerkleTreeLeaf) :
    canonical keyPrecedes (merkleTreeLeafValue leaf) =
      .object [(ascii ['l', 'e', 'a', 'f', '_', 't', 'y', 'p', 'e'], uintValue leaf.leafType.toNat),
        (ascii ['t', 'i', 'm', 'e', 's', 't', 'a', 'm', 'p', 'e', 'd', '_', 'e', 'n', 't', 'r', 'y'],
          (leaf.timestampedEntry.map fun e => canonical keyPrecedes (timestampedEntryValue e)).getD .null),
        (ascii ['v', 'e', 'r', 's', 'i', 'o', 'n'], uintValue leaf.version.toNat)] := by
  change Value.object (insertAll keyPrecedes (canonicalMembers keyPrecedes _)) = _
  simp only [canonicalMembers, canonical_uintValue, canonical_entryValue]
  rw [insertAll_merkleTreeLeaf]

theorem isPlain_merkleTreeLeafValue (leaf : MerkleTreeLeaf) :
    isPlain (merkleTreeLeafValue leaf) = true := by
  refine isPlain_object (by simp only [List.map_cons, List.map_nil]; decide) ?_
  cases leaf.timestampedEntry with
  | none => simp [isPlain_uintValue, isPlain]
  | some e => simp [isPlain_uintValue, isPlain_timestampedEntryValue]

theorem merkleTreeLeaf_eq_of_canonical {leaf₁ leaf₂ : MerkleTreeLeaf}
    (h : canonical keyPrecedes (merkleTreeLeafValue leaf₁) =
      canonical keyPrecedes (merkleTreeLeafValue leaf₂)) : leaf₁ = leaf₂ := by
  obtain ⟨version₁, leafType₁, entry₁⟩ := leaf₁
  obtain ⟨version₂, leafType₂, entry₂⟩ := leaf₂
  rw [canonical_merkleTreeLeafValue, canonical_merkleTreeLeafValue] at h
  simp only [Value.object.injEq, List.cons.injEq, Prod.mk.injEq, true_and, and_true] at h
  obtain ⟨hleafType, hentry, hversion⟩ := h
  rw [uint8_eq_of_uintValue hversion, uint64_eq_of_uintValue hleafType]
  -- a nil entry is written `null`, which no entry's object is
  cases entry₁ <;> cases entry₂
  · rfl
  · exact absurd hentry (by simp [canonical_timestampedEntryValue])
  · exact absurd hentry (by simp [canonical_timestampedEntryValue])
  · rw [timestampedEntry_eq_of_canonical hentry]

/-- The leaf data `MarshalCanonical` writes for a leaf determines the leaf: two leaves whose
numbers are below 2^53 and whose canonical bytes agree are the same leaf, so they have the
same leaf hash input only when they are the same leaf. -/
theorem marshalCanonical_merkleTreeLeaf_injective
    (hsafe : ∀ n, n < 2 ^ 53 → numberToJSON (decimal n) = .ok (decimal n))
    {leaf₁ leaf₂ : MerkleTreeLeaf} (h₁ : AllNumbers SafeInteger (merkleTreeLeafValue leaf₁))
    (h₂ : AllNumbers SafeInteger (merkleTreeLeafValue leaf₂))
    (h : marshalCanonical numberToJSON (merkleTreeLeafValue leaf₁) =
      marshalCanonical numberToJSON (merkleTreeLeafValue leaf₂)) :
    leaf₁ = leaf₂ :=
  merkleTreeLeaf_eq_of_canonical (canonical_eq_of_marshalCanonical_eq hsafe
    (isPlain_merkleTreeLeafValue leaf₁) (isPlain_merkleTreeLeafValue leaf₂) h₁ h₂ h)

theorem marshalCanonical_merkleTreeLeaf_injective_sameLeaf :
    (∀ n, n < 2 ^ 53 → decimalNumber (decimal n) = .ok (decimal n)) ∧
    AllNumbers SafeInteger (merkleTreeLeafValue ⟨v1, timestampedEntryLeafType,
      some ⟨5, vcLogEntryType, some [1, 2, 3], none⟩⟩) ∧
    (⟨v1, timestampedEntryLeafType, some ⟨5, vcLogEntryType, some [1, 2, 3], none⟩⟩ :
      MerkleTreeLeaf) = ⟨v1, timestampedEntryLeafType, some ⟨5, vcLogEntryType, some [1, 2, 3], none⟩⟩ :=
  have hsafe : AllNumbers SafeInteger (merkleTreeLeafValue ⟨v1, timestampedEntryLeafType,
      some ⟨5, vcLogEntryType, some [1, 2, 3], none⟩⟩) :=
    ⟨safeInteger_decimal (by decide), safeInteger_decimal (by decide),
      ⟨safeInteger_decimal (by decide), safeInteger_decimal (by decide), trivial, trivial, trivial⟩,
      trivial⟩
  ⟨decimalNumber_safe, hsafe, marshalCanonical_merkleTreeLeaf_injective decimalNumber_safe hsafe hsafe rfl⟩

end Leaf

section Signature

theorem insertAll_vcTimestampSignature (a b c d e f : Value) :
    insertAll keyPrecedes [(ascii ['s', 'v', 'c', 't', '_', 'v', 'e', 'r', 's', 'i', 'o', 'n'], a),
      (ascii ['s', 'i', 'g', 'n', 'a', 't', 'u', 'r', 'e', '_', 't', 'y', 'p', 'e'], b),
      (ascii ['t', 'i', 'm', 'e', 's', 't', 'a', 'm', 'p'], c),
      (ascii ['e', 'n', 't', 'r', 'y', '_', 't', 'y', 'p', 'e'], d),
      (ascii ['v', 'c', '_', 'e', 'n', 't', 'r', 'y'], e),
      (ascii ['e', 'x', 't', 'e', 'n', 's', 'i', 'o', 'n', 's'], f)] =
    [(ascii ['e', 'n', 't', 'r', 'y', '_', 't', 'y', 'p', 'e'], d),
      (ascii ['e', 'x', 't', 'e', 'n', 's', 'i', 'o', 'n', 's'], f),
      (ascii ['s', 'i', 'g', 'n', 'a', 't', 'u', 'r', 'e', '_', 't', 'y', 'p', 'e'], b),
      (ascii ['s', 'v', 'c', 't', '_', 'v', 'e', 'r', 's', 'i', 'o', 'n'], a),
      (ascii ['t', 'i', 'm', 'e', 's', 't', 'a', 'm', 'p'], c),
      (ascii ['v', 'c', '_', 'e', 'n', 't', 'r', 'y'], e)] := rfl

theorem canonical_vcTimestampSignatureValue (s : VCTimestampSignature) :
    canonical keyPrecedes (vcTimestampSignatureValue s) =
      .object [(ascii ['e', 'n', 't', 'r', 'y', '_', 't', 'y', 'p', 'e'], uintValue s.entryType.toNat),
        (ascii ['e', 'x', 't', 'e', 'n', 's', 'i', 'o', 'n', 's'], bytesValue s.extensions),
        (ascii ['s', 'i', 'g', 'n', 'a', 't', 'u', 'r', 'e', '_', 't', 'y', 'p', 'e'],
          uintValue s.signatureType.toNat),
        (ascii ['s', 'v', 'c', 't', '_', 'v', 'e', 'r', 's', 'i', 'o', 'n'],
          uintValue s.svctVersion.toNat),
        (ascii ['t', 'i', 'm', 'e', 's', 't', 'a', 'm', 'p'], uintValue s.timestamp.toNat),
        (ascii ['v', 'c', '_', 'e', 'n', 't', 'r', 'y'], bytesValue s.vcEntry)] := by
  change Value.object (insertAll keyPrecedes (canonicalMembers keyPrecedes _)) = _
  simp only [canonicalMembers, canonical_uintValue, canonical_bytesValue]
  rw [insertAll_vcTimestampSignature]

theorem isPlain_vcTimestampSignatureValue (s : VCTimestampSignature) :
    isPlain (vcTimestampSignatureValue s) = true := by
  refine isPlain_object (by simp only [List.map_cons, List.map_nil]; decide) ?_
  simp [isPlain_uintValue, isPlain_bytesValue]

theorem vcTimestampSignature_eq_of_canonical {s₁ s₂ : VCTimestampSignature}
    (h : canonical keyPrecedes (vcTimestampSignatureValue s₁) =
      canonical keyPrecedes (vcTimestampSignatureValue s₂)) : s₁ = s₂ := by
  obtain ⟨version₁, signatureType₁, timestamp₁, entryType₁, vcEntry₁, extensions₁⟩ := s₁
  obtain ⟨version₂, signatureType₂, timestamp₂, entryType₂, vcEntry₂, extensions₂⟩ := s₂
  rw [canonical_vcTimestampSignatureValue, canonical_vcTimestampSignatureValue] at h
  simp only [Value.object.injEq, List.cons.injEq, Prod.mk.injEq, true_and, and_true] at h
  obtain ⟨hentryType, hextensions, hsignatureType, hversion, htimestamp, hvcEntry⟩ := h
  rw [uint8_eq_of_uintValue hversion, uint64_eq_of_uintValue hsignatureType,
    uint64_eq_of_uintValue htimestamp, uint64_eq_of_uintValue hentryType,
    bytesValue_injective hvcEntry, bytesValue_injective hextensions]

theorem createVCTimestampSignature_eq_ok {leaf : MerkleTreeLeaf} {s : VCTimestampSignature}
    (h : createVCTimestampSignature leaf = .ok s) :
    ∃ e, leaf.timestampedEntry = some e ∧
      s = ⟨v1, vcTimestampSignatureType, e.timestamp, e.entryType, e.vcEntry, e.extensions⟩ := by
  unfold createVCTimestampSignature MerkleTreeLeaf.entry at h
  cases hentry : leaf.timestampedEntry with
  | none => simp [hentry] at h
  | some e =>
    simp only [hentry, Except.ok_bind, Except.pure_eq_ok_iff] at h
    exact ⟨e, rfl, h.symm⟩

/-- The payload `signV1VCTS` signs fixes the entry of the leaf: two leaves whose VC timestamp
signatures, with numbers below 2^53, have one canonical text have one timestamped entry, so
a signature vouches for one timestamp and one VC. -/
theorem marshalCanonical_vcTimestampSignature_entry
    (hsafe : ∀ n, n < 2 ^ 53 → numberToJSON (decimal n) = .ok (decimal n))
    {leaf₁ leaf₂ : MerkleTreeLeaf} {s₁ s₂ : VCTimestampSignature}
    (hs₁ : createVCTimestampSignature leaf₁ = .ok s₁) (hs₂ : createVCTimestampSignature leaf₂ = .ok s₂)
    (h₁ : AllNumbers SafeInteger (vcTimestampSignatureValue s₁))
    (h₂ : AllNumbers SafeInteger (vcTimestampSignatureValue s₂))
    (h : marshalCanonical numberToJSON (vcTimestampSignatureValue s₁) =
      marshalCanonical numberToJSON (vcTimestampSignatureValue s₂)) :
    leaf₁.timestampedEntry = leaf₂.timestampedEntry := by
  have hs := vcTimestampSignature_eq_of_canonical (canonical_eq_of_marshalCanonical_eq hsafe
    (isPlain_vcTimestampSignatureValue s₁) (isPlain_vcTimestampSignatureValue s₂) h₁ h₂ h)
  obtain ⟨e₁, he₁, rfl⟩ := createVCTimestampSignature_eq_ok hs₁
  obtain ⟨e₂, he₂, rfl⟩ := createVCTimestampSignature_eq_ok hs₂
  simp only [VCTimestampSignature.mk.injEq, true_and] at hs
  obtain ⟨htimestamp, hentryType, hvcEntry, hextensions⟩ := hs
  rw [he₁, he₂]
  obtain ⟨timestamp₁, entryType₁, vcEntry₁, extensions₁⟩ := e₁
  obtain ⟨timestamp₂, entryType₂, vcEntry₂, extensions₂⟩ := e₂
  simp only at htimestamp hentryType hvcEntry hextensions
  rw [htimestamp, hentryType, hvcEntry, hextensions]

theorem marshalCanonical_vcTimestampSignature_entry_sameLeaf :
    (∀ n, n < 2 ^ 53 → decimalNumber (decimal n) = .ok (decimal n)) ∧
    createVCTimestampSignature ⟨v1, timestampedEntryLeafType,
      some ⟨5, vcLogEntryType, some [1, 2, 3], none⟩⟩ =
      .ok ⟨v1, vcTimestampSignatureType, 5, vcLogEntryType, some [1, 2, 3], none⟩ ∧
    AllNumbers SafeInteger (vcTimestampSignatureValue
      ⟨v1, vcTimestampSignatureType, 5, vcLogEntryType, some [1, 2, 3], none⟩) ∧
    (⟨v1, timestampedEntryLeafType, some ⟨5, vcLogEntryType, some [1, 2, 3], none⟩⟩ :
      MerkleTreeLeaf).timestampedEntry = some ⟨5, vcLogEntryType, some [1, 2, 3], none⟩ :=
  have hs : createVCTimestampSignature ⟨v1, timestampedEntryLeafType,
      some ⟨5, vcLogEntryType, some [1, 2, 3], none⟩⟩ =
      .ok ⟨v1, vcTimestampSignatureType, 5, vcLogEntryType, some [1, 2, 3], none⟩ := rfl
  have hsafe : AllNumbers SafeInteger (vcTimestampSignatureValue
      ⟨v1, vcTimestampSignatureType, 5, vcLogEntryType, some [1, 2, 3], none⟩) :=
    ⟨safeInteger_decimal (by decide), safeInteger_decimal (by decide),
      safeInteger_decimal (by decide), safeInteger_decimal (by decide), trivial, trivial, trivial⟩
  ⟨decimalNumber_safe, hs, hsafe,
    marshalCanonical_vcTimestampSignature_entry decimalNumber_safe hs hs hsafe hsafe rfl⟩

end Signature

section TreeHead

theorem insertAll_treeHeadSignature (a b c d e : Value) :
    insertAll keyPrecedes [(ascii ['v', 'e', 'r', 's', 'i', 'o', 'n'], a),
      (ascii ['s', 'i', 'g', 'n', 'a', 't', 'u', 'r', 'e', '_', 't', 'y', 'p', 'e'], b),
      (ascii ['t', 'i', 'm', 'e', 's', 't', 'a', 'm', 'p'], c),
      (ascii ['t', 'r', 'e', 'e', '_', 's', 'i', 'z', 'e'], d),
      (ascii ['s', 'h', 'a', '_', '2', '5', '6', '_', 'r', 'o', 'o', 't', '_', 'h', 'a', 's', 'h'], e)] =
    [(ascii ['s', 'h', 'a', '_', '2', '5', '6', '_', 'r', 'o', 'o', 't', '_', 'h', 'a', 's', 'h'], e),
      (ascii ['s', 'i', 'g', 'n', 'a', 't', 'u', 'r', 'e', '_', 't', 'y', 'p', 'e'], b),
      (ascii ['t', 'i', 'm', 'e', 's', 't', 'a', 'm', 'p'], c),
      (ascii ['t', 'r', 'e', 'e', '_', 's', 'i', 'z', 'e'], d),
      (ascii ['v', 'e', 'r', 's', 'i', 'o', 'n'], a)] := rfl

theorem canonical_treeHeadSignatureValue (t : TreeHeadSignature) :
    canonical keyPrecedes (treeHeadSignatureValue t) =
      .object [(ascii ['s', 'h', 'a', '_', '2', '5', '6', '_', 'r', 'o', 'o', 't', '_', 'h', 'a', 's',
          'h'], bytesValue t.sha256RootHash),
        (ascii ['s', 'i', 'g', 'n', 'a', 't', 'u', 'r', 'e', '_', 't', 'y', 'p', 'e'],
          uintValue t.signatureType.toNat),
        (ascii ['t', 'i', 'm', 'e', 's', 't', 'a', 'm', 'p'], uintValue t.timestamp.toNat),
        (ascii ['t', 'r', 'e', 'e', '_', 's', 'i', 'z', 'e'], uintValue t.treeSize.toNat),
        (ascii ['v', 'e', 'r', 's', 'i', 'o', 'n'], uintValue t.version.toNat)] := by
  change Value.object (insertAll keyPrecedes (canonicalMembers keyPrecedes _)) = _
  simp only [canonicalMembers, canonical_uintValue, canonical_bytesValue]
  rw [insertAll_treeHeadSignature]

theorem isPlain_treeHeadSignatureValue (t : TreeHeadSignature) :
    isPlain (treeHeadSignatureValue t) = true := by
  refine isPlain_object (by simp only [List.map_cons, List.map_nil]; decide) ?_
  simp [isPlain_uintValue, isPlain_bytesValue]

theorem treeHeadSignature_eq_of_canonical {t₁ t₂ : TreeHeadSignature}
    (h : canonical keyPrecedes (treeHeadSignatureValue t₁) =
      canonical keyPrecedes (treeHeadSignatureValue t₂)) : t₁ = t₂ := by
  obtain ⟨version₁, signatureType₁, timestamp₁, treeSize₁, rootHash₁⟩ := t₁
  obtain ⟨version₂, signatureType₂, timestamp₂, treeSize₂, rootHash₂⟩ := t₂
  rw [canonical_treeHeadSignatureValue, canonical_treeHeadSignatureValue] at h
  simp only [Value.object.injEq, List.cons.injEq, Prod.mk.injEq, true_and, and_true] at h
  obtain ⟨hrootHash, hsignatureType, htimestamp, htreeSize, hversion⟩ := h
  rw [uint8_eq_of_uintValue hversion, uint64_eq_of_uintValue hsignatureType,
    uint64_eq_of_uintValue htimestamp, uint64_eq_of_uintValue htreeSize,
    bytesValue_injective hrootHash]

/-- Of the numbers of a tree head's payload only the tree size can reach 2^53: the version
is 1, the type 101, and a uint64 count of nanoseconds is below 2^45 milliseconds. -/
theorem safe_treeHeadSignatureOf {root : LogRootV1} (hsize : root.treeSize.toNat < 2 ^ 53) :
    AllNumbers SafeInteger (treeHeadSignatureValue (treeHeadSignatureOf root)) := by
  have htime : (root.timestampNanos / 1000000).toNat < 2 ^ 53 := by
    have hlt := root.timestampNanos.toNat_lt
    rw [UInt64.toNat_div]
    change root.timestampNanos.toNat / 1000000 < 2 ^ 53
    omega
  exact ⟨safeInteger_decimal (by dsimp only [treeHeadSignatureOf]; decide),
    safeInteger_decimal (by dsimp only [treeHeadSignatureOf]; decide),
    safeInteger_decimal htime, safeInteger_decimal hsize, trivial, trivial⟩

theorem treeHeadSignatureOf_eq_iff {root₁ root₂ : LogRootV1} :
    treeHeadSignatureOf root₁ = treeHeadSignatureOf root₂ ↔
      root₁.treeSize = root₂.treeSize ∧ root₁.rootHash = root₂.rootHash ∧
        root₁.timestampNanos / 1000000 = root₂.timestampNanos / 1000000 := by
  simp only [treeHeadSignatureOf, TreeHeadSignature.mk.injEq, Option.some.injEq, true_and]
  tauto

/-- The payload `signV1TreeHead` signs holds the tree size, the root hash and the time in
milliseconds of the log root, and nothing else of it: two roots with tree sizes below 2^53
give one payload exactly when they agree on these three, whatever their revisions and
metadata and the nanoseconds within the millisecond. -/
theorem marshalCanonical_treeHeadSignatureOf_eq_iff
    (hsafe : ∀ n, n < 2 ^ 53 → numberToJSON (decimal n) = .ok (decimal n)) {root₁ root₂ : LogRootV1}
    (hsize₁ : root₁.treeSize.toNat < 2 ^ 53) (hsize₂ : root₂.treeSize.toNat < 2 ^ 53) :
    marshalCanonical numberToJSON (treeHeadSignatureValue (treeHeadSignatureOf root₁)) =
        marshalCanonical numberToJSON (treeHeadSignatureValue (treeHeadSignatureOf root₂)) ↔
      root₁.treeSize = root₂.treeSize ∧ root₁.rootHash = root₂.rootHash ∧
        root₁.timestampNanos / 1000000 = root₂.timestampNanos / 1000000 := by
  rw [← treeHeadSignatureOf_eq_iff]
  constructor
  · intro h
    exact treeHeadSignature_eq_of_canonical (canonical_eq_of_marshalCanonical_eq hsafe
      (isPlain_treeHeadSignatureValue _) (isPlain_treeHeadSignatureValue _)
      (safe_treeHeadSignatureOf hsize₁) (safe_treeHeadSignatureOf hsize₂) h)
  · intro h
    rw [h]

theorem marshalCanonical_treeHeadSignatureOf_eq_iff_revision :
    (∀ n, n < 2 ^ 53 → decimalNumber (decimal n) = .ok (decimal n)) ∧
    (⟨4, [7, 7], 1700000000123456789, 2, []⟩ : LogRootV1).treeSize.toNat < 2 ^ 53 ∧
    (⟨4, [7, 7], 1700000000123999999, 3, [1]⟩ : LogRootV1).treeSize.toNat < 2 ^ 53 ∧
    marshalCanonical decimalNumber
        (treeHeadSignatureValue (treeHeadSignatureOf ⟨4, [7, 7], 1700000000123456789, 2, []⟩)) =
      marshalCanonical decimalNumber
        (treeHeadSignatureValue (treeHeadSignatureOf ⟨4, [7, 7], 1700000000123999999, 3, [1]⟩)) :=
  ⟨decimalNumber_safe, by decide, by decide,
    (marshalCanonical_treeHeadSignatureOf_eq_iff decimalNumber_safe (by decide) (by decide)).mpr
      ⟨rfl, rfl, by decide⟩⟩

end TreeHead

theorem marshalCanonical_object_of_safe
    (hsafe : ∀ n, n < 2 ^ 53 → numberToJSON (decimal n) = .ok (decimal n))
    {ms : List (List UInt8 × Value)} (hplain : isPlain (.object ms) = true)
    (h : AllNumbers SafeInteger (.object ms)) :
    marshalCanonical numberToJSON (.object ms) =
      .ok (render plainQuote (canonical keyPrecedes (.object ms))) :=
  marshalCanonical_of_isPlain (.inr ⟨ms, rfl⟩) hplain (fixedNumbers_of_safe hsafe h)

/-- `MarshalCanonical` of each structure the log hashes or signs, a Merkle tree leaf, the VC
timestamp signature and the tree head signature, with numbers below 2^53: the structure's
compact text with the members of every object in the order of their names. -/
theorem marshalCanonical_logStructures
    (hsafe : ∀ n, n < 2 ^ 53 → numberToJSON (decimal n) = .ok (decimal n)) :
    (∀ leaf, AllNumbers SafeInteger (merkleTreeLeafValue leaf) →
      marshalCanonical numberToJSON (merkleTreeLeafValue leaf) =
        .ok (render plainQuote (canonical keyPrecedes (merkleTreeLeafValue leaf)))) ∧
    (∀ s, AllNumbers SafeInteger (vcTimestampSignatureValue s) →
      marshalCanonical numberToJSON (vcTimestampSignatureValue s) =
        .ok (render plainQuote (canonical keyPrecedes (vcTimestampSignatureValue s)))) ∧
    (∀ t, AllNumbers SafeInteger (treeHeadSignatureValue t) →
      marshalCanonical numberToJSON (treeHeadSignatureValue t) =
        .ok (render plainQuote (canonical keyPrecedes (treeHeadSignatureValue t)))) :=
  ⟨fun leaf => marshalCanonical_object_of_safe hsafe (isPlain_merkleTreeLeafValue leaf),
    fun s => marshalCanonical_object_of_safe hsafe (isPlain_vcTimestampSignatureValue s),
    fun t => marshalCanonical_object_of_safe hsafe (isPlain_treeHeadSignatureValue t)⟩

theorem marshalCanonical_logStructures_treeHead :
    (∀ n, n < 2 ^ 53 → decimalNumber (decimal n) = .ok (decimal n)) ∧
    marshalCanonical decimalNumber
        (treeHeadSignatureValue (treeHeadSignatureOf ⟨4, [7, 7], 1700000000123456789, 2, []⟩)) =
      .ok (render plainQuote (canonical keyPrecedes
        (treeHeadSignatureValue (treeHeadSignatureOf ⟨4, [7, 7], 1700000000123456789, 2, []⟩)))) :=
  ⟨decimalNumber_safe,
    (marshalCanonical_logStructures decimalNumber_safe).2.2 _ (safe_treeHeadSignatureOf (by decide))⟩

end Structures

end Vct.Canonicalizer.Marshal
