import Mathlib
import Vct.Lib.JsonParse
import Vct.Lib.Quote

/-!
`jsoncanonicalizer.Transform`, the JSON Canonicalization Scheme behind
`canonicalizer.MarshalCanonical`. One pass over the bytes parses the text and writes its
canonical form: white space goes, strings are written with the escapes of
`decorateString`, literals stay, every number token goes through `strconv.ParseFloat` and
`NumberToJSON`, and the members of each object are kept in a list ordered by the UTF-16
code units of their names, each inserted when it has been read.

The Go code runs on after an error and returns the first one it recorded; the model stops
at that error, which is the same one. The state is the input from the index on, so
`testNextNonWhiteSpaceChar` looks without taking, and the `index--` of `parseSimpleType`
puts back the byte `scan` took. The float conversion is a parameter, `numberToJSON`: the
bytes of the token to the text `NumberToJSON(ParseFloat(token))` writes, or the first error
of the two.
-/

namespace Vct.Canonicalizer.Transform

open Vct.Lib.Json
open Vct.Lib.Unicode
open Vct.Lib.Quote

/-- The first error `Transform` records, with what its message shows. -/
inductive TransformError
  | nonAscii
  | eof
  | expected (expected got : UInt8)
  | parseUint (digits : List UInt8)
  | unterminated
  | missingSurrogate
  | unexpectedEscape (c : UInt8)
  | missingArgument
  | number (msg : String)
  | duplicateKey (name : List UInt8)
  | improperlyTerminated
  deriving DecidableEq, Repr

def asciiText (s : String) : List UInt8 := ascii s.toList

/-- The text of the error. `string(c)` of a byte is the UTF-8 of the rune `c`; the four
bytes of a `\u` escape are ASCII, where `strconv.Quote` looks at no table. -/
def TransformError.message : TransformError → List UInt8
  | .nonAscii => asciiText "Unexpected non-ASCII character"
  | .eof => asciiText "Unexpected EOF reached"
  | .expected e c =>
    asciiText "Expected '" ++ encodeRune e.toNat ++ asciiText "' but got '" ++ encodeRune c.toNat ++ asciiText "'"
  | .parseUint s => asciiText "strconv.ParseUint: parsing " ++ quote (fun _ => false) s ++ asciiText ": invalid syntax"
  | .unterminated => asciiText "Unterminated string literal"
  | .missingSurrogate => asciiText "Missing surrogate"
  | .unexpectedEscape c => asciiText "Unexpected escape: \\" ++ encodeRune c.toNat
  | .missingArgument => asciiText "Missing argument"
  | .number msg => msg.toUTF8.toList
  | .duplicateKey name => asciiText "Duplicate key: " ++ name
  | .improperlyTerminated => asciiText "Improperly terminated JSON object"

def isWhiteSpace (c : UInt8) : Bool := c == 0x20 || c == 0x0a || c == 0x0d || c == 0x09

def nextChar : List UInt8 → Except TransformError (UInt8 × List UInt8)
  | [] => throw .eof
  | c :: s => if 0x7f < c then throw .nonAscii else pure (c, s)

/-- `scan`: white space is ASCII, so the loop's `nextChar` fails on none of what it skips. -/
def scan (s : List UInt8) : Except TransformError (UInt8 × List UInt8) :=
  nextChar (s.dropWhile isWhiteSpace)

def scanFor (expected : UInt8) (s : List UInt8) : Except TransformError (List UInt8) := do
  let (c, s) ← scan s
  if c ≠ expected then throw (.expected expected c)
  pure s

def testNextNonWhiteSpaceChar (s : List UInt8) : Except TransformError UInt8 := do
  let (c, _) ← scan s
  pure c

/-- `getUEscape`: four bytes through `nextChar`, then `strconv.ParseUint(.., 16, 64)`, which
takes hex digits of either case and nothing else. -/
def getUEscape (s : List UInt8) : Except TransformError (Nat × List UInt8) := do
  let (c₁, s) ← nextChar s
  let (c₂, s) ← nextChar s
  let (c₃, s) ← nextChar s
  let (c₄, s) ← nextChar s
  match hex4 c₁ c₂ c₃ c₄ with
  | some u => pure (u, s)
  | none => throw (.parseUint [c₁, c₂, c₃, c₄])

def asciiEscapes : List UInt8 := ascii ['\\', '"', 'b', 'f', 'n', 'r', 't']

def binaryEscapes : List UInt8 := ['\\'.toUInt8, '"'.toUInt8, 8, 12, 10, 13, 9]

/-- The byte at the index of the first `c` in `escapes`, in `replacements`: the loops
`for i, esc := range escapes`. -/
def escapeLookup (escapes replacements : List UInt8) (c : UInt8) : Option UInt8 :=
  (List.zip escapes replacements).lookup c

/-- One byte of `decorateString`: a standard escape, `\u%04x` for another control byte, or the
byte itself, also past ASCII. -/
def decorateByte (c : UInt8) : List UInt8 :=
  match escapeLookup binaryEscapes asciiEscapes c with
  | some e => ['\\'.toUInt8, e]
  | none => if c < 0x20 then ascii ['\\', 'u'] ++ hexDigits 4 c.toNat else [c]

def decorateString (rawUTF8 : List UInt8) : List UInt8 :=
  '"'.toUInt8 :: rawUTF8.flatMap decorateByte ++ ['"'.toUInt8]

/-- The escape after a backslash in `parseQuotedString`, with the bytes it writes. A first
code unit that is a surrogate needs a second `\u` escape (`nextChar() != '\\' ||
nextChar() != 'u'`), and the pair goes through `utf16.DecodeRune` and `WriteRune`. -/
def parseEscape (s : List UInt8) : Except TransformError (List UInt8 × List UInt8) := do
  let (c, s) ← nextChar s
  if c = 'u'.toUInt8 then
    let (firstUTF16, s) ← getUEscape s
    if isSurrogate firstUTF16 then
      let (c₁, s) ← nextChar s
      if c₁ ≠ '\\'.toUInt8 then throw .missingSurrogate
      let (c₂, s) ← nextChar s
      if c₂ ≠ 'u'.toUInt8 then throw .missingSurrogate
      let (secondUTF16, s) ← getUEscape s
      pure (encodeRune (decodeRune16 firstUTF16 secondUTF16), s)
    else pure (encodeRune firstUTF16, s)
  else if c = '/'.toUInt8 then pure (['/'.toUInt8], s)
  else
    match escapeLookup asciiEscapes binaryEscapes c with
    | some b => pure ([b], s)
    | none => throw (.unexpectedEscape c)

/-- The loop of `parseQuotedString` after the opening quote, with the bytes it writes. Bytes
are taken without `nextChar`, so bytes past ASCII pass; each turn takes a byte, so the
length of the input is fuel enough. -/
def parseQuotedStringLoop : Nat → List UInt8 → Except TransformError (List UInt8 × List UInt8)
  | 0, _ => throw .eof
  | _ + 1, [] => throw .eof
  | n + 1, c :: s =>
    if c = '"'.toUInt8 then pure ([], s)
    else if c < 0x20 then throw .unterminated
    else if c = '\\'.toUInt8 then do
      let (bytes, s) ← parseEscape s
      let (more, s) ← parseQuotedStringLoop n s
      pure (bytes ++ more, s)
    else do
      let (more, s) ← parseQuotedStringLoop n s
      pure (c :: more, s)

def parseQuotedString (s : List UInt8) : Except TransformError (List UInt8 × List UInt8) :=
  parseQuotedStringLoop s.length s

/-- A byte that ends a token without being taken. -/
def isDelimiter (d : UInt8) : Bool := d == ','.toUInt8 || d == ']'.toUInt8 || d == '}'.toUInt8

/-- The loop of `parseSimpleType`: up to a `,`, `]` or `}` ahead (not taken) or a white space
byte (taken). Where the lookahead passes, the byte `nextChar` takes is ASCII, since the
lookahead has failed on a first byte past ASCII. -/
def readToken : List UInt8 → Except TransformError (List UInt8 × List UInt8)
  | [] => throw .eof
  | c :: s => do
    let d ← testNextNonWhiteSpaceChar (c :: s)
    if isDelimiter d then pure ([], c :: s)
    else if isWhiteSpace c then pure ([], s)
    else do
      let (token, s) ← readToken s
      pure (c :: token, s)

def literals : List (List UInt8) :=
  [ascii ['t', 'r', 'u', 'e'], ascii ['f', 'a', 'l', 's', 'e'], ascii ['n', 'u', 'l', 'l']]

structure NameValue where
  name : List UInt8
  sortKey : List Nat
  value : List UInt8
  deriving DecidableEq, Repr

/-- `utf16.Encode([]rune(rawUTF8))`. -/
def sortKey (rawUTF8 : List UInt8) : List Nat := utf16Encode (runes rawUTF8)

/-- `lexicographicallyPrecedes`, with its loop over the common length as recursion on both
keys: a smaller code unit or a proper prefix precedes, and an equal key records the
duplicate of the name already in the list. -/
def lexicographicallyPrecedes (sortKey : List Nat) (e : NameValue) : Except TransformError Bool :=
  go sortKey e.sortKey
where
  go : List Nat → List Nat → Except TransformError Bool
    | q :: qs, o :: os => if q < o then pure true else if o < q then pure false else go qs os
    | [], [] => throw (.duplicateKey e.name)
    | [], _ :: _ => pure true
    | _ :: _, [] => pure false

/-- The sorting loop of `parseObject`: `InsertBefore` the first element the new sort key
precedes, or `PushBack`. -/
def insertNameValue (nameValue : NameValue) : List NameValue → Except TransformError (List NameValue)
  | [] => pure [nameValue]
  | e :: es => do
    if ← lexicographicallyPrecedes nameValue.sortKey e then pure (nameValue :: e :: es)
    else do
      let es ← insertNameValue nameValue es
      pure (e :: es)

def serializeMembers : Bool → List NameValue → List UInt8
  | _, [] => []
  | next, e :: es =>
    (if next then [','.toUInt8] else []) ++ decorateString e.name ++ ':'.toUInt8 :: e.value ++
      serializeMembers true es

def serializeObject (nameValueList : List NameValue) : List UInt8 :=
  '{'.toUInt8 :: serializeMembers false nameValueList ++ ['}'.toUInt8]

section Parse

variable (numberToJSON : List UInt8 → Except String (List UInt8))

def parseSimpleType (s : List UInt8) : Except TransformError (List UInt8 × List UInt8) := do
  let (token, s) ← readToken s
  if token = [] then throw .missingArgument
  else if literals.contains token then pure (token, s)
  else do
    let value ← (numberToJSON token).mapError .number
    pure (value, s)

mutual
/-- `parseElement`, after the white space before the element. The fuel goes down at each
call: an element takes a byte before its array or object calls back, so fuel above twice
the length of the input is enough. -/
def parseElement : Nat → List UInt8 → Except TransformError (List UInt8 × List UInt8)
  | 0, _ => throw .eof
  | n + 1, s => do
    let (c, s) ← scan s
    if c = '{'.toUInt8 then parseObject n false [] s
    else if c = '"'.toUInt8 then do
      let (rawUTF8, s) ← parseQuotedString s
      pure (decorateString rawUTF8, s)
    else if c = '['.toUInt8 then do
      let (text, s) ← parseArray n false s
      pure ('['.toUInt8 :: text, s)
    else parseSimpleType numberToJSON (c :: s)

/-- The loop of `parseArray` from its flag `next` on, and the closing bracket: what it
writes after the `[`. -/
def parseArray : Nat → Bool → List UInt8 → Except TransformError (List UInt8 × List UInt8)
  | 0, _, _ => throw .eof
  | n + 1, next, s => do
    let c ← testNextNonWhiteSpaceChar s
    if c = ']'.toUInt8 then do
      let (_, s) ← scan s
      pure ([']'.toUInt8], s)
    else do
      let s ← (if next then scanFor ','.toUInt8 s else pure s)
      let (element, s) ← parseElement n s
      let (text, s) ← parseArray n true s
      pure ((if next then [','.toUInt8] else []) ++ element ++ text, s)

/-- The loop of `parseObject` from its flag `next` and its sorted `nameValueList` on, then
the text of the object. -/
def parseObject : Nat → Bool → List NameValue → List UInt8 →
    Except TransformError (List UInt8 × List UInt8)
  | 0, _, _, _ => throw .eof
  | n + 1, next, nameValueList, s => do
    let c ← testNextNonWhiteSpaceChar s
    if c = '}'.toUInt8 then do
      let (_, s) ← scan s
      pure (serializeObject nameValueList, s)
    else do
      let s ← (if next then scanFor ','.toUInt8 s else pure s)
      let s ← scanFor '"'.toUInt8 s
      let (rawUTF8, s) ← parseQuotedString s
      let s ← scanFor ':'.toUInt8 s
      let (value, s) ← parseElement n s
      let nameValueList ← insertNameValue ⟨rawUTF8, sortKey rawUTF8, value⟩ nameValueList
      parseObject n true nameValueList s
end

/-- `Transform`: an array, or else an object, then nothing but white space. -/
def transform (jsonData : List UInt8) : Except TransformError (List UInt8) := do
  let fuel := 2 * jsonData.length + 2
  let c ← testNextNonWhiteSpaceChar jsonData
  let (transformed, s) ← (if c = '['.toUInt8 then do
      let (_, s) ← scan jsonData
      let (text, s) ← parseArray numberToJSON fuel false s
      pure ('['.toUInt8 :: text, s)
    else do
      let s ← scanFor '{'.toUInt8 jsonData
      parseObject numberToJSON fuel false [] s)
  if s.all isWhiteSpace then pure transformed else throw .improperlyTerminated

end Parse

section Scanner

theorem not_lt_of_ascii {c : UInt8} (h : c < 0x80) : ¬ 0x7f < c := by
  rw [UInt8.lt_iff_toNat_lt] at h ⊢
  simp only [UInt8.reduceToNat] at h ⊢
  omega

theorem nextChar_cons_of_ascii {c : UInt8} (h : c < 0x80) (s : List UInt8) :
    nextChar (c :: s) = pure (c, s) := by
  simp [nextChar, not_lt_of_ascii h]

theorem scan_cons_of_whiteSpace {c : UInt8} (h : isWhiteSpace c = true) (s : List UInt8) :
    scan (c :: s) = scan s := by
  simp [scan, h]

theorem scan_cons {c : UInt8} (hw : isWhiteSpace c = false) (h : c < 0x80) (s : List UInt8) :
    scan (c :: s) = pure (c, s) := by
  rw [scan, List.dropWhile_cons_of_neg (by simp [hw]), nextChar_cons_of_ascii h]

theorem testNextNonWhiteSpaceChar_eq (s : List UInt8) :
    testNextNonWhiteSpaceChar s = (scan s).map Prod.fst := by
  unfold testNextNonWhiteSpaceChar
  cases scan s <;> rfl

theorem scanFor_cons {c : UInt8} (hw : isWhiteSpace c = false) (h : c < 0x80) (s : List UInt8) :
    scanFor c (c :: s) = pure s := by
  simp [scanFor, scan_cons hw h]

end Scanner

section Strings

/-- The escape tables invert each other, and no escape letter is `u`, `/` or past ASCII; a
byte with no escape is neither the quote nor the backslash. -/
theorem escapeLookup_tables : ∀ c : UInt8,
    (match escapeLookup binaryEscapes asciiEscapes c with
      | some e => escapeLookup asciiEscapes binaryEscapes e == some c && e != 'u'.toUInt8 &&
          e != '/'.toUInt8 && decide (e < 0x80)
      | none => c != '"'.toUInt8 && c != '\\'.toUInt8) = true := by
  set_option maxRecDepth 4000 in decide

theorem hexDigit_lt (d : Nat) (h : d < 16) : hexDigit d < 0x80 := by
  interval_cases d <;> decide

theorem hexValue_hexDigit (d : Nat) (h : d < 16) : hexValue (hexDigit d) = some d := by
  interval_cases d <;> decide

theorem hexDigits_four (r : Nat) :
    hexDigits 4 r = [hexDigit (r / 4096 % 16), hexDigit (r / 256 % 16), hexDigit (r / 16 % 16),
      hexDigit (r % 16)] := by
  simp [hexDigits, List.range_succ]

theorem hex4_hexDigits {r : Nat} (h : r < 0x10000) :
    hex4 (hexDigit (r / 4096 % 16)) (hexDigit (r / 256 % 16)) (hexDigit (r / 16 % 16))
      (hexDigit (r % 16)) = some r := by
  simp only [hex4, hexValue_hexDigit _ (Nat.mod_lt _ (by norm_num))]
  simp only [Option.bind_eq_bind, Option.bind_some, Option.pure_def, Option.some.injEq]
  omega

theorem parseEscape_of_lookup {e b : UInt8} (h : escapeLookup asciiEscapes binaryEscapes e = some b)
    (hu : e ≠ 'u'.toUInt8) (hs : e ≠ '/'.toUInt8) (ha : e < 0x80) (s : List UInt8) :
    parseEscape (e :: s) = pure ([b], s) := by
  simp [parseEscape, nextChar_cons_of_ascii ha, hu, hs, h]

/-- A `\u` escape of a code unit that is no surrogate writes the UTF-8 of that code unit. -/
theorem parseEscape_u {h₁ h₂ h₃ h₄ : UInt8} {v : Nat} (ha : ∀ c ∈ [h₁, h₂, h₃, h₄], c < 0x80)
    (hv : hex4 h₁ h₂ h₃ h₄ = some v) (hsur : isSurrogate v = false) (s : List UInt8) :
    parseEscape ('u'.toUInt8 :: h₁ :: h₂ :: h₃ :: h₄ :: s) = pure (encodeRune v, s) := by
  simp only [List.mem_cons, List.not_mem_nil, or_false, forall_eq_or_imp, forall_eq] at ha
  obtain ⟨a₁, a₂, a₃, a₄⟩ := ha
  have hu : 'u'.toUInt8 < 0x80 := by decide
  simp [parseEscape, getUEscape, nextChar_cons_of_ascii hu, nextChar_cons_of_ascii a₁,
    nextChar_cons_of_ascii a₂, nextChar_cons_of_ascii a₃, nextChar_cons_of_ascii a₄, hv, hsur]

theorem decorateByte_ne_nil (c : UInt8) : decorateByte c ≠ [] := by
  unfold decorateByte
  split
  · simp
  · split <;> simp [ascii]

theorem length_le_length_flatMap_decorateByte (raw : List UInt8) :
    raw.length ≤ (raw.flatMap decorateByte).length := by
  induction raw with
  | nil => simp
  | cons c raw ih =>
    have := List.length_pos_of_ne_nil (decorateByte_ne_nil c)
    simp only [List.flatMap_cons, List.length_append, List.length_cons]
    omega

/-- `parseQuotedString` reads each byte `decorateString` writes back as the byte. -/
theorem parseQuotedStringLoop_decorateByte (c : UInt8) (n : Nat) (s : List UInt8) :
    parseQuotedStringLoop (n + 1) (decorateByte c ++ s) = (do
      let (more, s) ← parseQuotedStringLoop n s
      pure (c :: more, s)) := by
  have htab := escapeLookup_tables c
  have hq : '\\'.toUInt8 ≠ '"'.toUInt8 := by decide
  have hctl : ¬ '\\'.toUInt8 < 32 := by decide
  unfold decorateByte
  split
  · rename_i e he
    simp only [he, Bool.and_eq_true, beq_iff_eq, bne_iff_ne, ne_eq, decide_eq_true_eq] at htab
    obtain ⟨⟨⟨hlook, hu⟩, hs⟩, ha⟩ := htab
    simp [parseQuotedStringLoop, parseEscape_of_lookup hlook hu hs ha, hq, hctl]
  · rename_i he
    simp only [he, Bool.and_eq_true, bne_iff_ne, ne_eq] at htab
    split
    · -- a control byte: `\u00` and two hex digits
      rename_i hc
      have hc' : c.toNat < 0x20 := by
        rw [UInt8.lt_iff_toNat_lt] at hc
        simpa using hc
      have hr : c.toNat < 0x10000 := by omega
      have hsur : isSurrogate c.toNat = false := by
        simp [isSurrogate]
        omega
      have hdig : ∀ d ∈ hexDigits 4 c.toNat, d < 0x80 := by
        simp only [hexDigits_four, List.mem_cons, List.not_mem_nil, or_false]
        rintro d (rfl | rfl | rfl | rfl) <;> exact hexDigit_lt _ (Nat.mod_lt _ (by norm_num))
      rw [hexDigits_four] at hdig ⊢
      have hesc := parseEscape_u hdig (hex4_hexDigits hr) hsur
      have henc : encodeRune c.toNat = [c] := by
        rw [encodeRune_of_lt (by omega)]
        exact congrArg (fun b => [b]) UInt8.ofNat_toNat
      simp [parseQuotedStringLoop, ascii, hesc, henc, hq, hctl]
    · rename_i hc
      simp [parseQuotedStringLoop, htab.1, htab.2, hc]

theorem parseQuotedStringLoop_decorate (raw rest : List UInt8) :
    ∀ {n}, raw.length < n →
      parseQuotedStringLoop n (raw.flatMap decorateByte ++ '"'.toUInt8 :: rest) = pure (raw, rest) := by
  induction raw with
  | nil =>
    intro n hn
    obtain ⟨n, rfl⟩ : ∃ m, n = m + 1 := ⟨n - 1, by simp at hn; omega⟩
    simp [parseQuotedStringLoop]
  | cons c raw ih =>
    intro n hn
    obtain ⟨n, rfl⟩ : ∃ m, n = m + 1 := ⟨n - 1, by simp at hn; omega⟩
    rw [List.flatMap_cons, List.append_assoc, parseQuotedStringLoop_decorateByte,
      ih (by simpa using hn)]
    rfl

/-- What follows the opening quote of a decorated string reads back as the raw bytes. -/
theorem parseQuotedString_decorate (raw rest : List UInt8) :
    parseQuotedString (raw.flatMap decorateByte ++ '"'.toUInt8 :: rest) = pure (raw, rest) := by
  apply parseQuotedStringLoop_decorate
  have := length_le_length_flatMap_decorateByte raw
  simp only [List.length_append, List.length_cons]
  omega

end Strings

section Tokens

theorem testNextNonWhiteSpaceChar_cons {c : UInt8} (hw : isWhiteSpace c = false) (h : c < 0x80)
    (s : List UInt8) : testNextNonWhiteSpaceChar (c :: s) = pure c := by
  rw [testNextNonWhiteSpaceChar_eq, scan_cons hw h]
  rfl

theorem delimiter_ascii {d : UInt8} (hd : isDelimiter d = true) :
    isWhiteSpace d = false ∧ d < 0x80 := by
  simp only [isDelimiter, Bool.or_eq_true, beq_iff_eq] at hd
  rcases hd with (rfl | rfl) | rfl <;> decide

/-- The token loop reads up to the delimiter, over bytes that are ASCII and neither white
space nor a delimiter. -/
theorem readToken_append {t : List UInt8} {d : UInt8} (rest : List UInt8)
    (ht : ∀ b ∈ t, b < 0x80 ∧ isWhiteSpace b = false ∧ isDelimiter b = false)
    (hd : isDelimiter d = true) : readToken (t ++ d :: rest) = pure (t, d :: rest) := by
  induction t with
  | nil =>
    obtain ⟨hw, ha⟩ := delimiter_ascii hd
    simp [readToken, testNextNonWhiteSpaceChar_cons hw ha, hd]
  | cons b t ih =>
    obtain ⟨ha, hw, hb⟩ := ht b List.mem_cons_self
    simp [readToken, testNextNonWhiteSpaceChar_cons hw ha, hb, hw,
      ih fun c hc => ht c (List.mem_cons_of_mem b hc)]

end Tokens

section Keys

/-- The comparison of `lexicographicallyPrecedes` is the lexicographic order of the keys, with
a proper prefix first; only equal keys fail. -/
theorem lexicographicallyPrecedes_go (e : NameValue) : ∀ a b : List Nat,
    lexicographicallyPrecedes.go e a b =
      if a = b then throw (.duplicateKey e.name) else pure (decide (a < b))
  | q :: qs, o :: os => by
    rw [lexicographicallyPrecedes.go]
    by_cases hlt : q < o
    · simp [hlt, Nat.ne_of_lt hlt, List.cons_lt_cons_iff]
    · by_cases hgt : o < q
      · simp [hlt, hgt, Nat.ne_of_gt hgt, List.cons_lt_cons_iff]
      · obtain rfl : q = o := by omega
        simp [lexicographicallyPrecedes_go e qs os]
  | [], [] => rfl
  | [], _ :: _ => by simp [lexicographicallyPrecedes.go]
  | _ :: _, [] => by simp [lexicographicallyPrecedes.go]

theorem lexicographicallyPrecedes_eq (k : List Nat) (e : NameValue) :
    lexicographicallyPrecedes k e =
      if k = e.sortKey then throw (.duplicateKey e.name) else pure (decide (k < e.sortKey)) :=
  lexicographicallyPrecedes_go e k e.sortKey

end Keys

end Vct.Canonicalizer.Transform
