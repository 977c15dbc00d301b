import TableFlow.Proofs.Decimal.Nearest
import TableFlow.Table.Cell

/-!
# Whole numbers as doubles

A whole number with at most 53 bits is the value of a double: its mantissa is the number, shifted until it is full.
The key of a cell names a number by its double, so that codes, which are small whole numbers, have their digits as
keys.

Main results:

- Theorem `exists_isDouble`: the whole numbers up to `2 ^ 53` are values of doubles.
- Theorem `value_ofInt_of_le`: such a number becomes a double of its own value.
- Theorem `isIntegral_ofInt`: larger integers become whole doubles, too.
- Theorem `Cell.key?_nat`: the key of a whole number below the bound is its digits.
-/

namespace TableFlow
namespace Decimal

/-! ## Whole numbers -/

/-- How far a positive number is shifted to become the mantissa of a double. -/
def shiftOf (n : Nat) : Nat :=
  52 - n.log2

/-- A positive number below `2 ^ 53` is a double, with this shift. -/
theorem isDouble_shiftOf {n : Nat} (hpos : 0 < n) (hlt : n < 2 ^ 53) :
    IsDouble (n * 2 ^ shiftOf n) (-shiftOf n) := by
  have hlog : n.log2 ≤ 52 := Nat.lt_succ_iff.1 ((Nat.log2_lt hpos.ne').2 hlt)
  have hsum : n.log2 + shiftOf n = 52 := Nat.add_sub_cancel' hlog
  have hlow : leadingBit ≤ n * 2 ^ shiftOf n := by
    calc leadingBit = 2 ^ n.log2 * 2 ^ shiftOf n := by rw [← Nat.pow_add, hsum, leadingBit_eq]
      _ ≤ n * 2 ^ shiftOf n := Nat.mul_le_mul_right _ (Nat.log2_self_le hpos.ne')
  have hhigh : n * 2 ^ shiftOf n < 2 * leadingBit := by
    calc n * 2 ^ shiftOf n < 2 ^ (n.log2 + 1) * 2 ^ shiftOf n :=
          Nat.mul_lt_mul_of_pos_right Nat.lt_log2_self (Nat.two_pow_pos _)
      _ = 2 * leadingBit := by rw [← Nat.pow_add, Nat.add_right_comm, hsum, leadingBit_eq, Nat.pow_succ']
  have hleast : leastExponent = -1074 := rfl
  exact ⟨hhigh, by omega, by omega, Or.inl hlow⟩

/-- The whole numbers up to `2 ^ 53` are values of doubles. -/
theorem exists_isDouble {n : Nat} (h : n ≤ 2 ^ 53) : ∃ m q, IsDouble m q ∧ (m : ℚ) * 2 ^ q = n := by
  have hleast : leastExponent = -1074 := rfl
  rcases Nat.eq_zero_or_pos n with rfl | hpos
  · exact ⟨0, leastExponent, ⟨by decide, le_rfl, by decide, Or.inr rfl⟩, by simp⟩
  rcases h.eq_or_lt with rfl | hlt
  · refine ⟨leadingBit, 1, ⟨by decide, by decide, by decide, Or.inl le_rfl⟩, ?_⟩
    rw [leadingBit_cast]
    norm_num
  · refine ⟨n * 2 ^ shiftOf n, -shiftOf n, isDouble_shiftOf hpos hlt, ?_⟩
    push_cast
    rw [zpow_neg, zpow_natCast]
    field_simp

/-- A whole number up to `2 ^ 53` becomes a double of its own value. -/
theorem value_ofInt_of_le {n : Int} (h : n.natAbs ≤ 2 ^ 53) : value (ofInt n) = n := by
  obtain ⟨m, q, hdouble, hvalue⟩ := exists_isDouble h
  rw [Nat.cast_natAbs, Int.cast_abs] at hvalue
  have hfloat := ofFloat_ofBits (decide (n < 0)) hdouble
  have hfinite : isFinite (Float.ofBits (UInt64.ofNat
      (if decide (n < 0) then packBits m q + signBound else packBits m q))) = true := by
    rw [isFinite, hfloat]
  apply value_ofInt hfinite
  rw [value_of_ofFloat hfloat, Binary.value, hvalue]
  by_cases hneg : n < 0
  · rw [if_pos (decide_eq_true hneg), abs_of_neg (by exact_mod_cast hneg), neg_neg]
  · rw [if_neg (by simpa using hneg), abs_of_nonneg (by exact_mod_cast not_lt.1 hneg)]

/-- An integer of at most 64 bits becomes a whole double, also where it is rounded: where it has more than 53 bits, the
double has no bits after the point. -/
theorem isIntegral_ofInt {n : Int} (h : n.natAbs < wordBound) : isIntegral (ofInt n) = true := by
  by_cases hsmall : n.natAbs ≤ 2 ^ 53
  · exact (isIntegral_iff (isFinite_ofInt h)).2 ⟨n, value_ofInt_of_le hsmall⟩
  · have hne : n ≠ 0 := fun hzero => hsmall (hzero ▸ Nat.zero_le _)
    obtain ⟨m, q, hfloat, hdouble, hrounds⟩ := ofFloat_ofInt hne h
    have hlarge : (2 : ℚ) ^ (53 : Int) < n.natAbs := by exact_mod_cast not_le.1 hsmall
    have hexponent : 53 < q + 53 := (zpow_lt_zpow_iff_right₀ one_lt_two).1 (hlarge.trans (hrounds.lt_next hdouble))
    have hq : 0 ≤ q := by omega
    simp only [isIntegral, hfloat, hq, decide_true, Bool.true_or]

end Decimal

/-! ## Keys of whole numbers -/

open Decimal

/-- The value of the bound below which whole numbers are written with their digits alone. -/
theorem Cell.value_wholeBound : isFinite Cell.wholeBound = true ∧ value Cell.wholeBound = 10 ^ 15 := by
  have hfloat : Binary.ofFloat Cell.wholeBound = .finite false (10 ^ 15 * 2 ^ 3) (-3) := by decide +kernel
  constructor
  · rw [isFinite, hfloat]
  · rw [value_of_ofFloat hfloat, Binary.value, if_neg Bool.false_ne_true]
    norm_num

/-- A whole number below the bound becomes a double of its own value. -/
theorem Cell.value_nat {n : Nat} (h : n < 10 ^ 15) : isFinite (ofInt n) = true ∧ value (ofInt n) = (n : Int) := by
  constructor
  · apply isFinite_ofInt
    rw [Int.natAbs_natCast]
    exact h.trans (by decide)
  · apply value_ofInt_of_le
    rw [Int.natAbs_natCast]
    omega

/-- The key of a whole number below the bound is its digits. -/
theorem Cell.key?_nat {n : Nat} (h : n < 10 ^ 15) : Cell.key? (.nat n) = some (toString n) := by
  have hkey : Cell.key? (.nat n) = some (Cell.numberKey (.int n)) := rfl
  have hfloat : (Number.int n).toFloat = ofInt n := rfl
  obtain ⟨hfinite, hvalue⟩ := Cell.value_nat h
  have hbelow : (ofInt n).abs < Cell.wholeBound := by
    rw [lt_iff_value_lt (isFinite_abs hfinite) Cell.value_wholeBound.1, value_abs hfinite, hvalue,
      Cell.value_wholeBound.2, abs_of_nonneg (by positivity)]
    exact_mod_cast h
  have hintegral : isIntegral (ofInt n) = true := (isIntegral_iff hfinite).2 ⟨n, hvalue⟩
  simp only [hkey, Cell.numberKey, hfloat, hintegral, hbelow, integerPart_eq hfinite hvalue, decide_true,
    Bool.and_self, if_true]
  rfl

end TableFlow
