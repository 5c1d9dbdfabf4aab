import Mathlib
import Vct.Lib.Decimal

namespace Vct.Lib.ParseInt

open Vct.Lib.Json

/-- The `Err` of a `*strconv.NumError`. -/
inductive NumError
  | errSyntax
  | errRange
  deriving DecidableEq, Repr

def maxUint64 : UInt64 := 0xFFFFFFFFFFFFFFFF

/-- `lower(c)`: `c | ('x' - 'X')`. -/
def lower (c : UInt8) : UInt8 := c ||| 0x20

/-- The digit a byte stands for in the switch of `ParseUint`: `0` to `9`, then the letters
from 10 on. -/
def digitOf (c : UInt8) : Option UInt8 :=
  if '0'.toUInt8 ≤ c ∧ c ≤ '9'.toUInt8 then some (c - '0'.toUInt8)
  else if 'a'.toUInt8 ≤ lower c ∧ lower c ≤ 'z'.toUInt8 then some (lower c - 'a'.toUInt8 + 10)
  else none

/-- The loop of `ParseUint` in base 10 for 64 bits, from the value `n` of the bytes read. -/
def parseUintLoop (n : UInt64) : List UInt8 → Except NumError UInt64
  | [] => .ok n
  | c :: s =>
    match digitOf c with
    | none => .error .errSyntax
    | some d =>
      if d ≥ 10 then .error .errSyntax
      -- `cutoff = maxUint64/10 + 1`: from there `n * 10` overflows
      else if n ≥ maxUint64 / 10 + 1 then .error .errRange
      else
        let n1 := n * 10 + d.toUInt64
        if n1 < n * 10 ∨ n1 > maxUint64 then .error .errRange
        else parseUintLoop n1 s

def parseUint (s : List UInt8) : Except NumError UInt64 :=
  if s = [] then .error .errSyntax else parseUintLoop 0 s

/-- `ParseInt(s, 10, 64)`. A range error of `ParseUint` comes with `maxVal`, which is out of
range for `int64` as well. -/
def parseInt (s : List UInt8) : Except NumError Int64 := do
  if s = [] then throw .errSyntax
  let (neg, digits) := match s with
    | c :: rest =>
      if c = '+'.toUInt8 then (false, rest) else if c = '-'.toUInt8 then (true, rest) else (false, s)
    | [] => (false, [])
  let un ← match parseUint digits with
    | .ok un => pure un
    | .error .errRange => pure maxUint64
    | .error .errSyntax => throw .errSyntax
  let cutoff : UInt64 := (1 : UInt64) <<< 63
  if !neg && un ≥ cutoff then throw .errRange
  if neg && un > cutoff then throw .errRange
  let n := un.toInt64
  return if neg then -n else n

section Digits

/-- The value of the digits `s` read after a value `init`, as `Nat.ofDigitChars` reads
their characters. -/
def digitsValue (init : Nat) (s : List UInt8) : Nat :=
  Nat.ofDigitChars 10 (s.map fun b => Char.ofNat b.toNat) init

theorem toNat_ofNat_toNat (c : UInt8) : (Char.ofNat c.toNat).toNat = c.toNat := by
  have hvalid : c.toNat.isValidChar := Or.inl (by have := c.toNat_lt; omega)
  simp [Char.ofNat, hvalid, Char.ofNatAux, Char.toNat]

theorem digitsValue_cons (init : Nat) (c : UInt8) (s : List UInt8) :
    digitsValue init (c :: s) = digitsValue (10 * init + (c.toNat - 48)) s := by
  have hchar := toNat_ofNat_toNat c
  simp only [digitsValue, List.map_cons, Nat.ofDigitChars_cons, hchar]
  rfl

/-- The value read after `init` is at least `init` shifted past the digits. -/
theorem le_digitsValue (init : Nat) (s : List UInt8) : 10 ^ s.length * init ≤ digitsValue init s := by
  rw [digitsValue, Nat.ofDigitChars_eq_ofDigitChars_zero, List.length_map]
  omega

theorem digitsValue_decimal (n : Nat) : digitsValue 0 (decimal n) = n := by
  rw [digitsValue, map_ofNat_decimal, Nat.ofDigitChars_ten_toDigits]

theorem toNat_lt_of_isDigitByte {c : UInt8} (hc : isDigitByte c = true) :
    48 ≤ c.toNat ∧ c.toNat ≤ 57 := by
  simp only [isDigitByte, Bool.and_eq_true, decide_eq_true_eq, UInt8.le_iff_toNat_le] at hc
  exact hc

theorem digitOf_of_isDigitByte {c : UInt8} (hc : isDigitByte c = true) :
    digitOf c = some (c - '0'.toUInt8) := by
  have hrange : '0'.toUInt8 ≤ c ∧ c ≤ '9'.toUInt8 := by
    simpa [isDigitByte] using hc
  simp [digitOf, hrange]

end Digits

/-- The run of the loop over digits whose value stays below `2^64`: no check fails, and the
loop ends with that value. -/
theorem parseUintLoop_digits : ∀ (s : List UInt8) (n : UInt64),
    (∀ b ∈ s, isDigitByte b = true) → digitsValue n.toNat s < 2 ^ 64 →
      parseUintLoop n s = .ok (UInt64.ofNat (digitsValue n.toNat s))
  | [], n, _, _ => by simp [parseUintLoop, digitsValue, Nat.ofDigitChars_nil]
  | c :: s, n, hdigits, hvalue => by
    obtain ⟨hlo, hhi⟩ := toNat_lt_of_isDigitByte (hdigits c List.mem_cons_self)
    rw [digitsValue_cons] at hvalue ⊢
    have hstep : 10 * n.toNat + (c.toNat - 48) < 2 ^ 64 :=
      lt_of_le_of_lt (Nat.le_trans (Nat.le_mul_of_pos_left _ (Nat.pow_pos (by decide)))
        (le_digitsValue _ s)) hvalue
    have hd : (c - '0'.toUInt8).toNat = c.toNat - 48 := by
      have hle : '0'.toUInt8 ≤ c := UInt8.le_iff_toNat_le.mpr hlo
      rw [UInt8.toNat_sub_of_le _ _ hle]
      rfl
    have hn1 : (n * 10 + (c - '0'.toUInt8).toUInt64).toNat = 10 * n.toNat + (c.toNat - 48) := by
      rw [UInt64.toNat_add, UInt64.toNat_mul, UInt8.toNat_toUInt64, hd]
      simp only [UInt64.reduceToNat]
      omega
    have hmul : (n * 10).toNat = 10 * n.toNat := by
      rw [UInt64.toNat_mul]
      simp only [UInt64.reduceToNat]
      omega
    have hdigit : ¬(c - '0'.toUInt8 ≥ 10) := by
      rw [ge_iff_le, UInt8.le_iff_toNat_le, hd]
      simp only [UInt8.reduceToNat]
      omega
    have hcutoff : ¬(n ≥ maxUint64 / 10 + 1) := by
      rw [ge_iff_le, UInt64.le_iff_toNat_le]
      simp only [maxUint64, UInt64.reduceDiv, UInt64.reduceAdd, UInt64.reduceToNat]
      omega
    have hoverflow : ¬(n * 10 + (c - '0'.toUInt8).toUInt64 < n * 10 ∨
        n * 10 + (c - '0'.toUInt8).toUInt64 > maxUint64) := by
      rw [UInt64.lt_iff_toNat_lt, gt_iff_lt, UInt64.lt_iff_toNat_lt, hn1, hmul]
      simp only [maxUint64, UInt64.reduceToNat]
      omega
    have hrest := parseUintLoop_digits s (n * 10 + (c - '0'.toUInt8).toUInt64)
      (fun b hb => hdigits b (List.mem_cons_of_mem c hb)) (by rw [hn1]; exact hvalue)
    rw [hn1] at hrest
    simp only [parseUintLoop, digitOf_of_isDigitByte (hdigits c List.mem_cons_self), hdigit, hcutoff,
      hoverflow, if_false]
    exact hrest

/-- `ParseUint` reads the text `FormatUint` writes for a number below `2^64` as that number. -/
theorem parseUint_decimal {n : Nat} (hn : n < 2 ^ 64) : parseUint (decimal n) = .ok (UInt64.ofNat n) := by
  have hne : decimal n ≠ [] := by
    simp [decimal, ascii, Nat.toDigits_ne_nil]
  have hrun := parseUintLoop_digits (decimal n) 0 (fun b hb => isDigitByte_of_mem_decimal hb)
    (by rw [UInt64.toNat_zero, digitsValue_decimal]; exact hn)
  rw [UInt64.toNat_zero, digitsValue_decimal] at hrun
  simp only [parseUint, hne, if_false]
  exact hrun

theorem head_not_sign {n : Nat} {c : UInt8} {rest : List UInt8} (h : decimal n = c :: rest) :
    c ≠ '+'.toUInt8 ∧ c ≠ '-'.toUInt8 := by
  have hc := toNat_lt_of_isDigitByte (isDigitByte_of_mem_decimal (h ▸ List.mem_cons_self))
  constructor <;> rintro rfl <;> revert hc <;> decide

/-- `ParseInt` reads the text `FormatUint` writes for a number below `2^64` as that number
when it is below `2^63`, and answers `ErrRange` for the others. -/
theorem parseInt_decimal {n : Nat} (hn : n < 2 ^ 64) :
    parseInt (decimal n) = if n < 2 ^ 63 then .ok (Int64.ofNat n) else .error .errRange := by
  have hne : decimal n ≠ [] := by
    simp [decimal, ascii, Nat.toDigits_ne_nil]
  obtain ⟨c, rest, hcons⟩ := List.exists_cons_of_ne_nil hne
  obtain ⟨hplus, hminus⟩ := head_not_sign hcons
  have hparse := parseUint_decimal hn
  rw [hcons] at hparse
  have hofNat : (UInt64.ofNat n).toNat = n := UInt64.toNat_ofNat_of_lt' hn
  have hcutoff : UInt64.ofNat n ≥ (1 : UInt64) <<< 63 ↔ 2 ^ 63 ≤ n := by
    have hshift : ((1 : UInt64) <<< 63).toNat = 2 ^ 63 := by decide
    rw [ge_iff_le, UInt64.le_iff_toNat_le, hshift, hofNat]
  simp only [parseInt, hcons, reduceCtorEq, if_false, hplus, hminus, hparse, pure_bind,
    Bool.not_false, Bool.true_and, Bool.false_and, decide_eq_true_eq, hcutoff]
  by_cases hsmall : n < 2 ^ 63
  · have hint : (UInt64.ofNat n).toInt64 = Int64.ofNat n := by
      apply Int64.toInt_inj.mp
      simp [Int64.toInt_ofNat_of_lt hsmall]
    rw [if_neg (by omega), if_pos (by omega), hint]
    rfl
  · rw [if_pos (by omega), if_neg (by omega)]
    rfl

end Vct.Lib.ParseInt
