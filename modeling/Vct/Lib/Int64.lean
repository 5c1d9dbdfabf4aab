import Mathlib

namespace Vct.Lib.Int64

theorem toInt_add_of_range {a b : Int64} (hlo : -2 ^ 63 ≤ a.toInt + b.toInt)
    (hhi : a.toInt + b.toInt < 2 ^ 63) : (a + b).toInt = a.toInt + b.toInt := by
  rw [Int64.toInt_add]
  exact Int.bmod_eq_of_le (by omega) (by omega)

theorem toInt_sub_of_range {a b : Int64} (hlo : -2 ^ 63 ≤ a.toInt - b.toInt)
    (hhi : a.toInt - b.toInt < 2 ^ 63) : (a - b).toInt = a.toInt - b.toInt := by
  rw [Int64.toInt_sub]
  exact Int.bmod_eq_of_le (by omega) (by omega)

theorem toInt_add_sub_of_range {a b c : Int64} (hlo : -2 ^ 63 ≤ a.toInt + b.toInt - c.toInt)
    (hhi : a.toInt + b.toInt - c.toInt < 2 ^ 63) :
    (a + b - c).toInt = a.toInt + b.toInt - c.toInt := by
  rw [Int64.toInt_sub, Int64.toInt_add, Int.bmod_sub_bmod]
  exact Int.bmod_eq_of_le (by omega) (by omega)

theorem toInt_sub_add_of_range {a b c : Int64} (hlo : -2 ^ 63 ≤ a.toInt - b.toInt + c.toInt)
    (hhi : a.toInt - b.toInt + c.toInt < 2 ^ 63) :
    (a - b + c).toInt = a.toInt - b.toInt + c.toInt := by
  rw [Int64.toInt_add, Int64.toInt_sub, Int.bmod_add_bmod]
  exact Int.bmod_eq_of_le (by omega) (by omega)

theorem toInt_range (a : Int64) : -2 ^ 63 ≤ a.toInt ∧ a.toInt < 2 ^ 63 :=
  ⟨a.le_toInt, a.toInt_lt⟩

theorem neg_one_lt_iff {x : Int64} : -1 < x ↔ 0 ≤ x.toInt := by
  rw [Int64.lt_iff_toInt_lt]
  have hneg : (-1 : Int64).toInt = -1 := by decide
  omega

/-- Go's `int64(u)` of a `uint64` below `2^63` is the same number. -/
theorem toInt_toInt64_of_lt {r : UInt64} (h : r.toNat < 2 ^ 63) : r.toInt64.toInt = r.toNat := by
  rw [Int64.toInt, UInt64.toBitVec_toInt64, BitVec.toInt_eq_toNat_of_msb]
  · rfl
  · rw [BitVec.msb_eq_decide]
    simp only [decide_eq_false_iff_not, Nat.not_le]
    exact h

end Vct.Lib.Int64
