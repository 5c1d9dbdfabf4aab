import Mathlib
import Vct.Lib.Json

namespace Vct.Lib.Json

/-- `strconv.FormatUint(n, 10)`. -/
def decimal (n : Nat) : List UInt8 := ascii (Nat.toDigits 10 n)

theorem toNat_toUInt8_of_isDigit {c : Char} (h : c.isDigit = true) : c.toUInt8.toNat = c.toNat := by
  simp only [Char.isDigit, Bool.and_eq_true, decide_eq_true_eq] at h
  have hle : c.toNat ≤ 57 := h.2
  rw [← Char.toUInt8_val, UInt32.toNat_toUInt8]
  have hval : c.val.toNat = c.toNat := rfl
  omega

theorem isDigitByte_of_isDigit {c : Char} (h : c.isDigit = true) : isDigitByte c.toUInt8 = true := by
  have hn := toNat_toUInt8_of_isDigit h
  simp only [Char.isDigit, Bool.and_eq_true, decide_eq_true_eq] at h
  simp only [isDigitByte, Bool.and_eq_true, decide_eq_true_eq, UInt8.le_iff_toNat_le, hn]
  exact ⟨h.1, h.2⟩

/-- The first digit of a positive number is not a zero. -/
theorem toDigits_cons {n : Nat} (hn : 0 < n) :
    ∃ d rest, Nat.toDigits 10 n = Nat.digitChar d :: rest ∧ 0 < d ∧ d < 10 := by
  induction n using Nat.strong_induction_on with
  | _ n ih =>
    rw [Nat.toDigits_eq_if (by decide)]
    split_ifs with h
    · exact ⟨n, [], rfl, hn, h⟩
    · -- the digits of `n / 10` come first, and it is positive
      obtain ⟨d, rest, hd, hd0, hd10⟩ := ih (n / 10) (by omega) (by omega)
      exact ⟨d, rest ++ [Nat.digitChar (n % 10)], by rw [hd]; rfl, hd0, hd10⟩

theorem isDigitByte_of_mem_decimal {n : Nat} {b : UInt8} (hb : b ∈ decimal n) :
    isDigitByte b = true := by
  obtain ⟨c, hc, rfl⟩ := List.mem_map.mp hb
  exact isDigitByte_of_isDigit (Nat.isDigit_of_mem_toDigits (by decide) (by decide) hc)

theorem isDecimal_decimal (n : Nat) : isDecimal (decimal n) = true := by
  rcases Nat.eq_zero_or_pos n with rfl | hn
  · decide
  obtain ⟨d, rest, hd, hd0, hd10⟩ := toDigits_cons hn
  have hdigits : ∀ b ∈ decimal n, isDigitByte b = true := fun b hb => isDigitByte_of_mem_decimal hb
  have hlead : (Nat.digitChar d).toUInt8 ≠ '0'.toUInt8 := by
    interval_cases d <;> decide
  rw [decimal, hd, ascii, List.map_cons] at hdigits ⊢
  cases hrest : rest.map Char.toUInt8 with
  | nil => exact hdigits _ List.mem_cons_self
  | cons c cs =>
    rw [hrest] at hdigits
    simp only [isDecimal, Bool.and_eq_true, bne_iff_ne, ne_eq, List.all_eq_true]
    exact ⟨⟨hlead, hdigits _ List.mem_cons_self⟩, fun b hb => hdigits b (List.mem_cons_of_mem _ hb)⟩

theorem map_ofNat_decimal (n : Nat) :
    (decimal n).map (fun b => Char.ofNat b.toNat) = Nat.toDigits 10 n := by
  rw [decimal, ascii, List.map_map]
  conv_rhs => rw [← List.map_id (Nat.toDigits 10 n)]
  refine List.map_congr_left fun c hc => ?_
  have hdigit := Nat.isDigit_of_mem_toDigits (by decide) (by decide) hc
  simp only [Function.comp_apply, toNat_toUInt8_of_isDigit hdigit, Char.ofNat_toNat, id_eq]

theorem decimal_injective {m n : Nat} (h : decimal m = decimal n) : m = n := by
  have hdigits : Nat.toDigits 10 m = Nat.toDigits 10 n := by
    rw [← map_ofNat_decimal m, ← map_ofNat_decimal n, h]
  rw [← Nat.ofDigitChars_ten_toDigits (n := m), hdigits, Nat.ofDigitChars_ten_toDigits]

end Vct.Lib.Json
