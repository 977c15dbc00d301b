import TableFlow.Decimal.Shortest
import TableFlow.Proofs.Decimal.Rounding

/-!
# Shortest digits read back

The digits that are chosen for a double lie in its interval.  The search works with natural numbers, in quarters of
a decimal unit; here its interval is compared with the interval of reals, and every point that it can stop at
lies inside.

Main results:

- Theorem `Interval.holds_search`: the search stops at a point of the interval.
- Theorem `rounds_of_holds`: the interval of natural numbers is the interval of reals, counted in quarters.
- Theorem `rounds_shortest`: the digits of a double round to it.
-/

namespace TableFlow
namespace Decimal

/-! ## The search -/

/-- A grid point that is found lies in the interval. -/
theorem Interval.holds_of_nearest? {i : Interval} {k d : Nat} (h : i.nearest? k = some d) :
    i.holds (d * (4 * Nat.pow 10 k)) = true := by
  simp only [Interval.nearest?] at h
  split at h
  · rename_i hboth
    obtain ⟨hlower, hupper⟩ := Bool.and_eq_true_iff.1 hboth
    split at h
    · cases h
      exact hlower
    · split at h
      · cases h
        exact hupper
      · cases h
        rcases Nat.mod_two_eq_zero_or_one (i.value / (4 * Nat.pow 10 k)) with heven | hodd
        · rw [heven]
          exact hlower
        · rw [hodd]
          exact hupper
  · split at h
    · cases h
      assumption
    · split at h
      · cases h
        assumption
      · cases h

/-- The search stops at a point of the interval, if its value is one and is a whole number of units. -/
theorem Interval.holds_search {i : Interval} (hvalue : i.holds i.value = true) (hunit : i.value % 4 = 0)
    (n : Nat) : i.holds ((i.search n).1 * (4 * Nat.pow 10 (i.search n).2)) = true := by
  induction n with
  | zero =>
    have : i.value / 4 * (4 * Nat.pow 10 0) = i.value := by
      rw [Nat.pow_eq, pow_zero]
      omega
    rw [Interval.search, this]
    exact hvalue
  | succ k ih =>
    rw [Interval.search]
    split
    · rename_i d hd
      exact Interval.holds_of_nearest? hd
    · exact ih

/-! ## Decimal units -/

/-- A step of the last bit is a whole number of decimal units. -/
theorem bitStep_mul_unit (q : Int) : (bitStep q * 10 ^ unitExponent q : ℚ) = 2 ^ q := by
  unfold bitStep unitExponent
  by_cases hq : q < 0
  · obtain ⟨n, hn⟩ := Int.eq_ofNat_of_zero_le (show 0 ≤ -q by omega)
    obtain rfl : q = -n := by omega
    rw [if_pos hq, min_eq_left hq.le, neg_neg, Int.toNat_natCast, zpow_neg, zpow_neg, zpow_natCast,
      zpow_natCast, show (10 : ℚ) = 2 * 5 by norm_num, mul_pow, Nat.pow_eq]
    push_cast
    field_simp
  · obtain ⟨n, rfl⟩ := Int.eq_ofNat_of_zero_le (not_lt.1 hq)
    rw [if_neg hq, min_eq_right (not_lt.1 hq), Int.toNat_natCast, zpow_zero, mul_one, zpow_natCast,
      Nat.pow_eq]
    push_cast
    rfl

theorem bitStep_pos (q : Int) : 0 < bitStep q := by
  unfold bitStep
  split
  · exact Nat.pow_pos (by decide)
  · exact Nat.pow_pos (by decide)

/-- The lower end of the interval, in quarters of a decimal unit. -/
theorem Interval.low_cast {m : Nat} (hm : 0 < m) (q : Int) :
    ((Interval.of m q).low : ℚ) = 4 * (m - reachBelow m q) * bitStep q := by
  have hstep : bitStep q ≤ m * bitStep q := Nat.le_mul_of_pos_left _ hm
  simp only [Interval.of, reachBelow, Bool.and_eq_true, decide_eq_true_eq]
  split
  · rw [Nat.cast_sub (by rw [Nat.mul_assoc]; omega)]
    push_cast
    ring
  · rw [Nat.cast_sub (by rw [Nat.mul_assoc]; omega)]
    push_cast
    ring

/-- The upper end of the interval, in quarters of a decimal unit. -/
theorem Interval.high_cast (m : Nat) (q : Int) :
    ((Interval.of m q).high : ℚ) = 4 * (m + 1 / 2) * bitStep q := by
  simp only [Interval.of]
  push_cast
  ring

/-! ## The digits of a double -/

/-- A number of quarters in the interval rounds to the double. -/
theorem rounds_of_holds {m : Nat} {q : Int} (hm : 0 < m) {n : Nat}
    (h : (Interval.of m q).holds n = true) : Rounds m q (n * (10 ^ unitExponent q / 4)) := by
  have hunit : (0 : ℚ) < 10 ^ unitExponent q / 4 := by positivity
  have hlow : ((Interval.of m q).low * (10 ^ unitExponent q / 4) : ℚ) = (m - reachBelow m q) * 2 ^ q := by
    rw [Interval.low_cast hm, ← bitStep_mul_unit]
    ring
  have hhigh : ((Interval.of m q).high * (10 ^ unitExponent q / 4) : ℚ) = (m + 1 / 2) * 2 ^ q := by
    rw [Interval.high_cast, ← bitStep_mul_unit]
    ring
  have hclosed : (Interval.of m q).closed = decide (m % 2 = 0) := rfl
  simp only [Interval.holds, hclosed, decide_eq_true_eq] at h
  split at h
  · rename_i heven
    obtain ⟨hl, hr⟩ : (Interval.of m q).low ≤ n ∧ n ≤ (Interval.of m q).high := by simpa using h
    refine ⟨?_, ?_, fun hodd => by omega⟩
    · rw [← hlow]
      gcongr
    · rw [← hhigh]
      gcongr
  · obtain ⟨hl, hr⟩ : (Interval.of m q).low < n ∧ n < (Interval.of m q).high := by simpa using h
    have hleft : (m - reachBelow m q) * 2 ^ q < (n * (10 ^ unitExponent q / 4) : ℚ) := by
      rw [← hlow]
      gcongr
    have hright : (n * (10 ^ unitExponent q / 4) : ℚ) < (m + 1 / 2) * 2 ^ q := by
      rw [← hhigh]
      gcongr
    exact ⟨hleft.le, hright.le, fun _ => ⟨hleft, hright⟩⟩

/-- The value of a double lies in its interval. -/
theorem Interval.holds_value {m : Nat} (hm : 0 < m) (q : Int) :
    (Interval.of m q).holds (Interval.of m q).value = true := by
  have hstep := bitStep_pos q
  have hle : bitStep q ≤ m * bitStep q := Nat.le_mul_of_pos_left _ hm
  simp only [Interval.holds, Interval.of, Nat.mul_assoc]
  split <;> split <;> simp <;> omega

/-- The value of a decimal. -/
def Digits.value (d : Digits) : ℚ :=
  d.digits * 10 ^ d.exponent

/-- The digits of a double round to it. -/
theorem rounds_shortest {m : Nat} (hm : 0 < m) (q : Int) : Rounds m q (shortest m q).value := by
  have hunit : (Interval.of m q).value % 4 = 0 := by
    simp only [Interval.of, Nat.mul_assoc]
    omega
  have hholds := Interval.holds_search (Interval.holds_value hm q) hunit
    ((Nat.toDigits 10 (m * bitStep q)).length - 1)
  have hrounds := rounds_of_holds hm hholds
  simp only [shortest, Digits.value]
  generalize (Interval.of m q).search _ = found at *
  convert hrounds using 1
  rw [zpow_add₀ (by norm_num), zpow_natCast, Nat.pow_eq]
  push_cast
  ring

/-- What rounds to a positive double is positive. -/
theorem Rounds.pos {m : Nat} {q : Int} {v : ℚ} (hm : 0 < m) (h : Rounds m q v) : 0 < v := by
  have hreach := reachBelow_le m q
  have hone : (1 : ℚ) ≤ m := by exact_mod_cast hm
  calc (0 : ℚ) < (m - reachBelow m q) * 2 ^ q := mul_pos (by linarith) (by positivity)
    _ ≤ v := h.low

end Decimal
end TableFlow
