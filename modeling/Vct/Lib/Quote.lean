import Vct.Lib.Unicode

namespace Vct.Lib.Quote

open Vct.Lib.Unicode

def lowerhex : List UInt8 := "0123456789abcdef".toList.map Char.toUInt8

/-- `lowerhex[n]`, for `n < 16`. -/
def hexDigit (n : Nat) : UInt8 := lowerhex.getD n 0

/-- The `width` hex digits of `r`, most significant first: the loops
`for s := 4 * (width - 1); s >= 0; s -= 4` of `appendEscapedRune`. -/
def hexDigits (width r : Nat) : List UInt8 :=
  (List.range width).reverse.map fun i => hexDigit (r / 16 ^ i % 16)

/-- `utf8.ValidRune`. -/
def validRune (r : Nat) : Bool := r < 0xD800 || (0xDFFF < r && r ≤ 0x10FFFF)

section Quote

variable (isPrintTable : Nat → Bool)

/-- `strconv.IsPrint`, with the lookup in `isPrint16`, `isNotPrint16`, `isPrint32` and
`isNotPrint32` for runes above Latin-1 left to `isPrintTable`. -/
def isPrint (r : Nat) : Bool :=
  if r ≤ 0xFF then
    if 0x20 ≤ r ∧ r ≤ 0x7E then true
    else if 0xA1 ≤ r ∧ r ≤ 0xFF then r ≠ 0xAD
    else false
  else isPrintTable r

/-- `appendEscapedRune` for the quote `"`. The seven named escapes are those of the bells
and white space `\a \b \f \n \r \t \v`, runes 7, 8, 12, 10, 13, 9 and 11. -/
def appendEscapedRune (r : Nat) : List UInt8 :=
  if r = '"'.toNat ∨ r = '\\'.toNat then '\\'.toUInt8 :: encodeRune r
  else if isPrint isPrintTable r then encodeRune r
  else if r = 7 then ['\\'.toUInt8, 'a'.toUInt8]
  else if r = 8 then ['\\'.toUInt8, 'b'.toUInt8]
  else if r = 12 then ['\\'.toUInt8, 'f'.toUInt8]
  else if r = 10 then ['\\'.toUInt8, 'n'.toUInt8]
  else if r = 13 then ['\\'.toUInt8, 'r'.toUInt8]
  else if r = 9 then ['\\'.toUInt8, 't'.toUInt8]
  else if r = 11 then ['\\'.toUInt8, 'v'.toUInt8]
  else if r < 0x20 ∨ r = 0x7F then
    ['\\'.toUInt8, 'x'.toUInt8, hexDigit (r % 256 / 16), hexDigit (r % 16)]
  else
    -- an invalid rune falls through to the `\u` escape of `RuneError`
    let r := if validRune r then r else runeError
    if r < 0x10000 then ['\\'.toUInt8, 'u'.toUInt8] ++ hexDigits 4 r
    else ['\\'.toUInt8, 'U'.toUInt8] ++ hexDigits 8 r

/-- The loop of `appendQuotedWith` over the bytes of the string. Each turn takes at least
one byte, so the length of the string is fuel enough. -/
def quoteBody : Nat → List UInt8 → List UInt8
  | 0, _ => []
  | _, [] => []
  | fuel + 1, b :: rest =>
    let (r, width) := if b < 0x80 then (b.toNat, 1) else decodeRune b rest
    if width = 1 ∧ r = runeError then
      ['\\'.toUInt8, 'x'.toUInt8, hexDigit (b.toNat / 16), hexDigit (b.toNat % 16)] ++
        quoteBody fuel rest
    else appendEscapedRune isPrintTable r ++ quoteBody fuel ((b :: rest).drop width)

/-- `strconv.Quote`. -/
def quote (s : List UInt8) : List UInt8 :=
  '"'.toUInt8 :: quoteBody isPrintTable s.length s ++ ['"'.toUInt8]

theorem quoteBody_cons_of_lt {b : UInt8} (hb : b < 0x80) (fuel : Nat) (rest : List UInt8) :
    quoteBody isPrintTable (fuel + 1) (b :: rest) =
      appendEscapedRune isPrintTable b.toNat ++ quoteBody isPrintTable fuel rest := by
  have hne : b.toNat ≠ runeError := by
    have : b.toNat < 0x80 := hb
    unfold runeError
    omega
  simp [quoteBody, hb, hne]

/-- On ASCII, `Quote` escapes byte by byte. -/
theorem quoteBody_of_ascii {s : List UInt8} (h : ∀ b ∈ s, b < 0x80) :
    ∀ {fuel}, s.length ≤ fuel →
      quoteBody isPrintTable fuel s = s.flatMap fun b => appendEscapedRune isPrintTable b.toNat := by
  induction s with
  | nil =>
    intro fuel _
    cases fuel <;> rfl
  | cons b s ih =>
    intro fuel hfuel
    obtain ⟨fuel, rfl⟩ : ∃ n, fuel = n + 1 := ⟨fuel - 1, by simp at hfuel; omega⟩
    rw [quoteBody_cons_of_lt isPrintTable (h b (by simp)), List.flatMap_cons,
      ih (fun c hc => h c (by simp [hc])) (by simpa using hfuel)]

theorem quote_of_ascii {s : List UInt8} (h : ∀ b ∈ s, b < 0x80) :
    quote isPrintTable s =
      '"'.toUInt8 :: s.flatMap (fun b => appendEscapedRune isPrintTable b.toNat) ++ ['"'.toUInt8] := by
  rw [quote, quoteBody_of_ascii isPrintTable h (Nat.le_refl _)]

end Quote

end Vct.Lib.Quote
