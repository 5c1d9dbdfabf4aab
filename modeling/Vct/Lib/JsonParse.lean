import Vct.Lib.Json
import Vct.Lib.Unicode

namespace Vct.Lib.Json

open Vct.Lib.Unicode

def maxNestingDepth : Nat := 10000

def isSpace (c : UInt8) : Bool :=
  c == ' '.toUInt8 || c == '\t'.toUInt8 || c == '\n'.toUInt8 || c == '\r'.toUInt8

def skipSpace (s : List UInt8) : List UInt8 := s.dropWhile isSpace

def errEnd : String := "unexpected end of JSON input"

def quoteChar (c : UInt8) : String := "'" ++ String.singleton (Char.ofNat c.toNat) ++ "'"

def invalidChar (c : UInt8) (context : String) : String :=
  "invalid character " ++ quoteChar c ++ " " ++ context

def hexValue (c : UInt8) : Option Nat :=
  if '0'.toUInt8 ≤ c ∧ c ≤ '9'.toUInt8 then some (c.toNat - 48)
  else if 'a'.toUInt8 ≤ c ∧ c ≤ 'f'.toUInt8 then some (c.toNat - 87)
  else if 'A'.toUInt8 ≤ c ∧ c ≤ 'F'.toUInt8 then some (c.toNat - 55)
  else none

def hex4 (h₁ h₂ h₃ h₄ : UInt8) : Option Nat := do
  let v₁ ← hexValue h₁
  let v₂ ← hexValue h₂
  let v₃ ← hexValue h₃
  let v₄ ← hexValue h₄
  return v₁ * 4096 + v₂ * 256 + v₃ * 16 + v₄

/-- The error at a `\u` escape whose four bytes are not all hex digits. -/
def uEscapeError : List UInt8 → String
  | [] => errEnd
  | c :: rest =>
    if (hexValue c).isSome then uEscapeError rest
    else invalidChar c "in \\u hexadecimal character escape"

def escapeByte (e : UInt8) : Option UInt8 :=
  if e = '"'.toUInt8 then some '"'.toUInt8
  else if e = '\\'.toUInt8 then some '\\'.toUInt8
  else if e = '/'.toUInt8 then some '/'.toUInt8
  else if e = 'b'.toUInt8 then some 8
  else if e = 'f'.toUInt8 then some 12
  else if e = 'n'.toUInt8 then some 10
  else if e = 'r'.toUInt8 then some 13
  else if e = 't'.toUInt8 then some 9
  else none

def replacement : List UInt8 := encodeRune runeError

/-- The body of a string literal up to its closing quote, with its escapes read. After a
high surrogate `unquote` looks for a second `\u` escape: a valid pair is one rune, and
anything else leaves the first as U+FFFD and the bytes after it to be read on. -/
def stringBody : List UInt8 → Except String (List UInt8 × List UInt8)
  | [] => .error errEnd
  | c :: rest =>
    if c = '"'.toUInt8 then .ok ([], rest)
    else if c < 0x20 then .error (invalidChar c "in string literal")
    else if c = '\\'.toUInt8 then
      match rest with
      | [] => .error errEnd
      | e :: rest₁ =>
        if e = 'u'.toUInt8 then
          match rest₁ with
          | h₁ :: h₂ :: h₃ :: h₄ :: rest₂ =>
            match hex4 h₁ h₂ h₃ h₄ with
            | none => .error (uEscapeError [h₁, h₂, h₃, h₄])
            | some r =>
              if isSurrogate r then
                match rest₂ with
                | b :: u :: k₁ :: k₂ :: k₃ :: k₄ :: rest₃ =>
                  match (if b = '\\'.toUInt8 ∧ u = 'u'.toUInt8 then hex4 k₁ k₂ k₃ k₄ else none) with
                  | some r₂ =>
                    if decodeRune16 r r₂ = runeError then
                      (stringBody (b :: u :: k₁ :: k₂ :: k₃ :: k₄ :: rest₃)).map
                        fun p => (replacement ++ p.1, p.2)
                    else (stringBody rest₃).map fun p => (encodeRune (decodeRune16 r r₂) ++ p.1, p.2)
                  | none =>
                    (stringBody (b :: u :: k₁ :: k₂ :: k₃ :: k₄ :: rest₃)).map
                      fun p => (replacement ++ p.1, p.2)
                | rest₂' => (stringBody rest₂').map fun p => (replacement ++ p.1, p.2)
              else (stringBody rest₂).map fun p => (encodeRune r ++ p.1, p.2)
          | short => .error (uEscapeError short)
        else
          match escapeByte e with
          | some b => (stringBody rest₁).map fun p => (b :: p.1, p.2)
          | none => .error (invalidChar e "in string escape code")
    else (stringBody rest).map fun p => (c :: p.1, p.2)

/-- The bytes of a string made valid UTF-8, each byte that starts no well-formed sequence
replaced by U+FFFD. `unquote` does this to the bytes between escapes; an escape writes
well-formed UTF-8 that starts with a byte no sequence continues with, so doing it to the
whole string gives the same bytes. -/
def sanitize (s : List UInt8) : List UInt8 := (runes s).flatMap encodeRune

def scanInt : List UInt8 → Except String (List UInt8 × List UInt8)
  | [] => .error errEnd
  | c :: rest =>
    if c = '0'.toUInt8 then .ok ([c], rest)
    else if isDigitByte c then .ok (c :: rest.takeWhile isDigitByte, rest.dropWhile isDigitByte)
    else .error (invalidChar c "in numeric literal")

def scanFrac : List UInt8 → Except String (List UInt8 × List UInt8)
  | [] => .ok ([], [])
  | c :: rest =>
    if c = '.'.toUInt8 then
      match rest with
      | [] => .error errEnd
      | d :: rest' =>
        if isDigitByte d then .ok (c :: d :: rest'.takeWhile isDigitByte, rest'.dropWhile isDigitByte)
        else .error (invalidChar d "after decimal point in numeric literal")
    else .ok ([], c :: rest)

def scanExpDigits (e : List UInt8) : List UInt8 → Except String (List UInt8 × List UInt8)
  | [] => .error errEnd
  | d :: rest =>
    if isDigitByte d then .ok (e ++ d :: rest.takeWhile isDigitByte, rest.dropWhile isDigitByte)
    else .error (invalidChar d "in exponent of numeric literal")

def scanExp : List UInt8 → Except String (List UInt8 × List UInt8)
  | [] => .ok ([], [])
  | c :: rest =>
    if c = 'e'.toUInt8 ∨ c = 'E'.toUInt8 then
      match rest with
      | s :: rest' =>
        if s = '+'.toUInt8 ∨ s = '-'.toUInt8 then scanExpDigits [c, s] rest'
        else scanExpDigits [c] (s :: rest')
      | [] => .error errEnd
    else .ok ([], c :: rest)

/-- A number literal: an optional `-`, `0` or a run of digits that does not start with `0`,
then an optional fraction and an optional exponent. It ends before the first byte that
cannot continue it. -/
def scanNumber (s : List UInt8) : Except String (List UInt8 × List UInt8) := do
  let (sign, s) := if s.head? = some '-'.toUInt8 then (['-'.toUInt8], s.tail) else ([], s)
  let (int, s) ← scanInt s
  let (frac, s) ← scanFrac s
  let (exp, s) ← scanExp s
  return (sign ++ int ++ frac ++ exp, s)

def scanLiteral (name : String) : List UInt8 → List UInt8 → Except String (List UInt8)
  | [], input => .ok input
  | _ :: _, [] => .error errEnd
  | e :: es, c :: rest =>
    if c = e then scanLiteral name es rest
    else .error (invalidChar c ("in literal " ++ name ++ " (expecting " ++ quoteChar e ++ ")"))

mutual
/-- A value after optional white space, at `depth` open arrays and objects. Each call
takes a byte of the input or is followed by one that does, so twice the length of the
input plus two is fuel enough. -/
def parseValue : Nat → Nat → List UInt8 → Except String (Value × List UInt8)
  | 0, _, _ => .error errEnd
  | fuel + 1, depth, input =>
    match skipSpace input with
    | [] => .error errEnd
    | c :: rest =>
      if c = '{'.toUInt8 ∨ c = '['.toUInt8 then
        if maxNestingDepth ≤ depth then .error (invalidChar c "exceeded max depth")
        else
          match skipSpace rest with
          | [] => .error errEnd
          | d :: rest' =>
            if c = '{'.toUInt8 then
              if d = '}'.toUInt8 then .ok (.object [], rest')
              else parseMembers fuel (depth + 1) [] (d :: rest')
            else
              if d = ']'.toUInt8 then .ok (.array [], rest')
              else parseElems fuel (depth + 1) [] (d :: rest')
      else if c = '"'.toUInt8 then
        (stringBody rest).map fun p => (.string (sanitize p.1), p.2)
      else if c = 't'.toUInt8 then
        (scanLiteral "true" (ascii ['r', 'u', 'e']) rest).map fun r => (.bool true, r)
      else if c = 'f'.toUInt8 then
        (scanLiteral "false" (ascii ['a', 'l', 's', 'e']) rest).map fun r => (.bool false, r)
      else if c = 'n'.toUInt8 then
        (scanLiteral "null" (ascii ['u', 'l', 'l']) rest).map fun r => (.null, r)
      else if c = '-'.toUInt8 ∨ isDigitByte c then
        (scanNumber (c :: rest)).map fun p => (.number p.1, p.2)
      else .error (invalidChar c "looking for beginning of value")

def parseElems : Nat → Nat → List Value → List UInt8 → Except String (Value × List UInt8)
  | 0, _, _, _ => .error errEnd
  | fuel + 1, depth, acc, input => do
    let (v, rest) ← parseValue fuel depth input
    match skipSpace rest with
    | [] => .error errEnd
    | c :: rest' =>
      if c = ','.toUInt8 then parseElems fuel depth (acc ++ [v]) rest'
      else if c = ']'.toUInt8 then .ok (.array (acc ++ [v]), rest')
      else .error (invalidChar c "after array element")

def parseMembers : Nat → Nat → List (List UInt8 × Value) → List UInt8 →
    Except String (Value × List UInt8)
  | 0, _, _, _ => .error errEnd
  | fuel + 1, depth, acc, input =>
    match skipSpace input with
    | [] => .error errEnd
    | c :: rest =>
      if c = '"'.toUInt8 then do
        let (k, rest) ← stringBody rest
        match skipSpace rest with
        | [] => .error errEnd
        | d :: rest' =>
          if d = ':'.toUInt8 then do
            let (v, rest'') ← parseValue fuel depth rest'
            match skipSpace rest'' with
            | [] => .error errEnd
            | e :: rest₃ =>
              if e = ','.toUInt8 then parseMembers fuel depth (acc ++ [(sanitize k, v)]) rest₃
              else if e = '}'.toUInt8 then .ok (.object (acc ++ [(sanitize k, v)]), rest₃)
              else .error (invalidChar e "after object key:value pair")
          else .error (invalidChar d "after object key")
      else .error (invalidChar c "looking for beginning of object key string")
end

def parse (input : List UInt8) : Except String Value := do
  let (v, rest) ← parseValue (2 * input.length + 2) 0 input
  match skipSpace rest with
  | [] => return v
  | c :: _ => throw (invalidChar c "after top-level value")

/-- What may follow a value inside the text of an array or an object. -/
def isDelimited : List UInt8 → Bool
  | [] => true
  | c :: _ => c == ','.toUInt8 || c == ']'.toUInt8 || c == '}'.toUInt8

theorem skipSpace_cons {c : UInt8} (h : isSpace c = false) (r : List UInt8) :
    skipSpace (c :: r) = c :: r := by
  simp [skipSpace, h]

theorem stringBody_quote (rest : List UInt8) : stringBody ('"'.toUInt8 :: rest) = .ok ([], rest) := by
  rw [stringBody.eq_def]
  simp only [if_pos]

theorem stringBody_plainByte {c : UInt8} (h₁ : c ≠ '"'.toUInt8) (h₂ : ¬c < 0x20)
    (h₃ : c ≠ '\\'.toUInt8) (rest : List UInt8) :
    stringBody (c :: rest) = (stringBody rest).map fun p => (c :: p.1, p.2) := by
  rw [stringBody.eq_def]
  simp only [if_neg h₁, if_neg h₂, if_neg h₃]

theorem stringBody_plain (rest : List UInt8) :
    ∀ {s : List UInt8}, s.all isPlainByte → stringBody (s ++ '"'.toUInt8 :: rest) = .ok (s, rest)
  | [], _ => stringBody_quote rest
  | c :: s, h => by
    simp only [List.all_cons, Bool.and_eq_true] at h
    obtain ⟨hc, hs⟩ := h
    simp only [isPlainByte, Bool.and_eq_true, bne_iff_ne, ne_eq, decide_eq_true_eq] at hc
    obtain ⟨⟨⟨hlo, -⟩, hquote⟩, hslash⟩ := hc
    rw [List.cons_append, stringBody_plainByte hquote (UInt8.not_lt.mpr hlo) hslash,
      stringBody_plain rest hs]
    rfl

theorem stringBody_escape {e c : UInt8} (h : escapeByte e = some c) (rest : List UInt8) :
    stringBody ('\\'.toUInt8 :: e :: rest) = (stringBody rest).map fun p => (c :: p.1, p.2) := by
  have hu : e ≠ 'u'.toUInt8 := by
    rintro rfl
    have hnone : escapeByte 'u'.toUInt8 = none := by decide
    rw [hnone] at h
    cases h
  rw [stringBody.eq_def]
  simp only [if_neg (show '\\'.toUInt8 ≠ '"'.toUInt8 by decide),
    if_neg (show ¬ '\\'.toUInt8 < 0x20 by decide), ↓reduceIte, if_neg hu, h]

theorem stringBody_badEscape {e : UInt8} (hu : e ≠ 'u'.toUInt8) (h : escapeByte e = none)
    (rest : List UInt8) :
    stringBody ('\\'.toUInt8 :: e :: rest) = .error (invalidChar e "in string escape code") := by
  rw [stringBody.eq_def]
  simp only [if_neg (show '\\'.toUInt8 ≠ '"'.toUInt8 by decide),
    if_neg (show ¬ '\\'.toUInt8 < 0x20 by decide), ↓reduceIte, if_neg hu, h]

theorem sanitize_of_ascii {s : List UInt8} (h : ∀ b ∈ s, b < 0x80) : sanitize s = s := by
  have henc : ∀ b ∈ s, encodeRune b.toNat = [b] := by
    intro b hb
    rw [encodeRune_of_lt (show b.toNat < 0x80 from h b hb)]
    simp
  rw [sanitize, runes_of_ascii h, List.flatMap_map, List.flatMap_congr henc]
  simp

theorem parseValue_string (fuel depth : Nat) (rest : List UInt8) :
    parseValue (fuel + 1) depth ('"'.toUInt8 :: rest) =
      (stringBody rest).map fun p => (.string (sanitize p.1), p.2) := by
  rw [parseValue, skipSpace_cons (by decide)]
  simp only [if_neg (show ¬('"'.toUInt8 = '{'.toUInt8 ∨ '"'.toUInt8 = '['.toUInt8) by decide),
    ↓reduceIte]

/-- The message of the `UnmarshalTypeError` a JSON value of the kind `what` raises at a
Go `string`. -/
def unmarshalTypeError (what : String) : String :=
  "json: cannot unmarshal " ++ what ++ " into Go value of type string"

/-- `json.NewDecoder(r).Decode(&s)` for a Go `string` `s` that starts empty. The first
value of the text is read and what follows it is left unread. At the end of the text the
decoder reports `io.EOF` if it read nothing but white space and `io.ErrUnexpectedEOF`
otherwise; `null` leaves the string as it was. -/
def decodeString (body : List UInt8) : Except String (List UInt8) :=
  match parseValue (2 * body.length + 2) 0 body with
  | .error e =>
    .error (if e ≠ errEnd then e else if skipSpace body = [] then "EOF" else "unexpected EOF")
  | .ok (.string s, _) => .ok s
  | .ok (.null, _) => .ok []
  | .ok (.bool _, _) => .error (unmarshalTypeError "bool")
  | .ok (.number _, _) => .error (unmarshalTypeError "number")
  | .ok (.array _, _) => .error (unmarshalTypeError "array")
  | .ok (.object _, _) => .error (unmarshalTypeError "object")

theorem decodeString_of_stringBody {body s rest : List UInt8}
    (h : stringBody body = .ok (s, rest)) : decodeString ('"'.toUInt8 :: body) = .ok (sanitize s) := by
  rw [decodeString, List.length_cons, show 2 * (body.length + 1) + 2 = (2 * body.length + 3) + 1 by omega,
    parseValue_string, h]
  rfl

theorem decodeString_of_stringBody_error {body : List UInt8} {e : String}
    (h : stringBody body = .error e) :
    decodeString ('"'.toUInt8 :: body) = .error (if e ≠ errEnd then e else "unexpected EOF") := by
  rw [decodeString, List.length_cons, show 2 * (body.length + 1) + 2 = (2 * body.length + 3) + 1 by omega,
    parseValue_string, h, skipSpace_cons (by decide)]
  rfl

end Vct.Lib.Json
