import Mathlib
import TableFlow.Decimal.Round

/-!
# The reals that round to a double

A double stands for an interval of reals around its value: those that are nearer to it than to any other double,
with the two ends when its mantissa is even.  A quotient in this interval is rounded to that double, also where
the doubles get denser at a power of two and the rounding carries into it.

Main results:

- Structure `Rounds`: the interval of the reals that round to `m * 2 ^ q`.
- Theorem `lastBit_eq`: where the last bit of a quotient stands.
- Theorem `quotientBits_of_rounds`: a quotient in the interval of a double gets the bits of that double.
- Theorem `ofQuotient_of_rounds`: with its sign it is that double.
-/

namespace TableFlow
namespace Decimal

/-! ## Doubles and their intervals -/

/-- The mantissa and the exponent of a finite double. -/
structure IsDouble (m : Nat) (q : Int) : Prop where
  small : m < 2 * leadingBit
  least : leastExponent ≤ q
  greatest : q ≤ 971
  full : leadingBit ≤ m ∨ q = leastExponent

/-- How far below `m` the reals that round to `m * 2 ^ q` reach, in steps of `2 ^ q`: half a step, but a quarter
where the doubles below are twice as dense. -/
def reachBelow (m : Nat) (q : Int) : ℚ :=
  if m = leadingBit ∧ leastExponent < q then 1 / 4 else 1 / 2

/-- The reals that round to `m * 2 ^ q`; the two ends belong to them if `m` is even. -/
structure Rounds (m : Nat) (q : Int) (v : ℚ) : Prop where
  low : (m - reachBelow m q) * 2 ^ q ≤ v
  high : v ≤ (m + 1 / 2) * 2 ^ q
  inside : m % 2 = 1 → (m - reachBelow m q) * 2 ^ q < v ∧ v < (m + 1 / 2) * 2 ^ q

theorem reachBelow_le (m : Nat) (q : Int) : reachBelow m q ≤ 1 / 2 := by
  unfold reachBelow
  split <;> norm_num

theorem leadingBit_eq : leadingBit = 2 ^ 52 := rfl

theorem leadingBit_cast : ((leadingBit : Nat) : ℚ) = 2 ^ 52 := by
  rw [leadingBit_eq]
  norm_num

/-- The first power of two beyond the mantissas of a binade, and its first one. -/
theorem two_zpow_add_52 (q : Int) : (2 : ℚ) ^ (q + 52) = 2 ^ 52 * 2 ^ q := by
  rw [zpow_add₀ two_ne_zero, mul_comm]
  rfl

/-- Half a step above the mantissa does not reach the next power of two. -/
theorem Rounds.lt_next {m : Nat} {q : Int} {v : ℚ} (h : IsDouble m q) (hv : Rounds m q v) :
    v < 2 ^ (q + 53) := by
  have hpow : (0 : ℚ) < 2 ^ q := by positivity
  have hsmall : (m : ℚ) ≤ 2 ^ 53 - 1 := by
    have hm := h.small
    rw [leadingBit_eq] at hm
    rw [le_sub_iff_add_le]
    exact_mod_cast hm
  calc v ≤ (m + 1 / 2) * 2 ^ q := hv.high
    _ < 2 ^ (53 : Int) * 2 ^ q := by
      apply mul_lt_mul_of_pos_right _ hpow
      rw [zpow_ofNat]
      linarith
    _ = 2 ^ (q + 53) := by rw [← zpow_add₀ two_ne_zero, add_comm]

/-! ## Rounding to a natural number -/

/-- A quotient less than half a unit from `m` is rounded to it, and one just half a unit away if `m` is even. -/
theorem roundDiv_eq {num den m : Nat} (h : 0 < den)
    (hlow : 2 * (m * den) ≤ 2 * num + den) (hhigh : 2 * num ≤ 2 * (m * den) + den)
    (hodd : m % 2 = 1 → 2 * (m * den) < 2 * num + den ∧ 2 * num < 2 * (m * den) + den) :
    roundDiv num den = m := by
  have hnum : num / den * den + num % den = num := by
    rw [Nat.mul_comm]
    exact Nat.div_add_mod num den
  have hrest := Nat.mod_lt num h
  -- `m` is the quotient or the number after it
  have hm : m = num / den ∨ m = num / den + 1 := by
    have hle : m < num / den + 2 := by
      by_contra hge
      have := Nat.mul_le_mul_right den (Nat.not_lt.1 hge)
      rw [Nat.add_mul] at this
      omega
    have hge : num / den ≤ m := by
      by_contra hlt
      have := Nat.mul_le_mul_right den (Nat.succ_le_of_lt (Nat.not_le.1 hlt))
      rw [Nat.succ_mul] at this
      omega
    omega
  have hparity := Nat.mod_two_eq_zero_or_one (num / den)
  simp only [roundDiv]
  rcases hm with rfl | rfl
  · split
    · rfl
    · split <;> omega
  · rw [Nat.add_mul] at hlow hhigh hodd
    split
    · omega
    · split
      · rfl
      · omega

/-- `roundDiv_eq` with the quotient as a rational number. -/
theorem roundDiv_eq_of_near {num den m : Nat} (h : 0 < den)
    (hlow : (m - 1 / 2 : ℚ) ≤ num / den) (hhigh : (num / den : ℚ) ≤ m + 1 / 2)
    (hodd : m % 2 = 1 → (m - 1 / 2 : ℚ) < num / den ∧ (num / den : ℚ) < m + 1 / 2) :
    roundDiv num den = m := by
  have hden : (0 : ℚ) < den := by exact_mod_cast h
  rw [le_div_iff₀ hden] at hlow
  rw [div_le_iff₀ hden] at hhigh
  rw [lt_div_iff₀ hden, div_lt_iff₀ hden] at hodd
  apply roundDiv_eq h
  · have : (2 * (m * den) : ℚ) ≤ 2 * num + den := by linarith
    exact_mod_cast this
  · have : (2 * num : ℚ) ≤ 2 * (m * den) + den := by linarith
    exact_mod_cast this
  · intro hm
    obtain ⟨hlow, hhigh⟩ := hodd hm
    have : (2 * (m * den) : ℚ) < 2 * num + den := by linarith
    have : (2 * num : ℚ) < 2 * (m * den) + den := by linarith
    constructor <;> assumption_mod_cast

/-! ## Where the last bit of a quotient stands -/

/-- A quotient lies within a factor of two of the power that the logarithms of its parts give. -/
theorem quotient_near_power {num den : Nat} (hn : 0 < num) (hd : 0 < den) :
    (2 : ℚ) ^ ((num.log2 : Int) - den.log2 - 1) < num / den ∧
      (num / den : ℚ) < 2 ^ ((num.log2 : Int) - den.log2 + 1) := by
  have hden : (0 : ℚ) < den := by exact_mod_cast hd
  have num_ge : (2 : ℚ) ^ (num.log2 : Int) ≤ num := by
    exact_mod_cast Nat.log2_self_le hn.ne'
  have num_lt : (num : ℚ) < 2 ^ ((num.log2 : Int) + 1) := by
    exact_mod_cast Nat.lt_log2_self
  have den_ge : (2 : ℚ) ^ (den.log2 : Int) ≤ den := by
    exact_mod_cast Nat.log2_self_le hd.ne'
  have den_lt : (den : ℚ) < 2 ^ ((den.log2 : Int) + 1) := by
    exact_mod_cast Nat.lt_log2_self
  constructor
  · rw [lt_div_iff₀ hden]
    calc (2 : ℚ) ^ ((num.log2 : Int) - den.log2 - 1) * den
        < 2 ^ ((num.log2 : Int) - den.log2 - 1) * 2 ^ ((den.log2 : Int) + 1) := by gcongr
      _ = 2 ^ (num.log2 : Int) := by
        rw [← zpow_add₀ two_ne_zero]
        congr 1
        ring
      _ ≤ num := num_ge
  · rw [div_lt_iff₀ hden]
    calc (num : ℚ) < 2 ^ ((num.log2 : Int) + 1) := num_lt
      _ = 2 ^ ((num.log2 : Int) - den.log2 + 1) * 2 ^ (den.log2 : Int) := by
        rw [← zpow_add₀ two_ne_zero]
        congr 1
        ring
      _ ≤ 2 ^ ((num.log2 : Int) - den.log2 + 1) * den := by gcongr

/-- Both ways of scaling compare a quotient with a power of two. -/
theorem scaled_lt_iff (num : Nat) {den : Nat} (hd : 0 < den) (e : Int) :
    (if 0 ≤ e then decide (num < den * Nat.pow 2 (e.toNat + 52))
      else decide (num * Nat.pow 2 (-e).toNat < den * leadingBit)) = true ↔
    (num / den : ℚ) < 2 ^ (e + 52) := by
  have hden : (0 : ℚ) < den := by exact_mod_cast hd
  rw [div_lt_iff₀ hden]
  split
  · obtain ⟨n, rfl⟩ := Int.eq_ofNat_of_zero_le ‹0 ≤ e›
    rw [decide_eq_true_iff, mul_comm]
    norm_cast
  · obtain ⟨n, hn⟩ := Int.eq_ofNat_of_zero_le (show 0 ≤ -e by omega)
    obtain rfl : e = -n := by omega
    have hpow : (0 : ℚ) < 2 ^ n := by positivity
    rw [decide_eq_true_iff, neg_add_eq_sub, zpow_sub₀ two_ne_zero, zpow_natCast,
      div_mul_eq_mul_div, lt_div_iff₀ hpow, neg_neg, Int.toNat_natCast, leadingBit_eq, mul_comm den]
    norm_cast

/-- The last bit is 52 places below the power of two just below the quotient, or the least one. -/
theorem lastBit_eq_max {num den : Nat} (hn : 0 < num) (hd : 0 < den) :
    ∃ e : Int, lastBit num den = max e leastExponent ∧
      (2 : ℚ) ^ (e + 52) ≤ num / den ∧ (num / den : ℚ) < 2 ^ (e + 53) := by
  obtain ⟨hgt, hlt⟩ := quotient_near_power hn hd
  have hshort := scaled_lt_iff num hd ((num.log2 : Int) - den.log2 - 52)
  rw [sub_add_cancel] at hshort
  by_cases hs : (num / den : ℚ) < 2 ^ ((num.log2 : Int) - den.log2)
  · refine ⟨(num.log2 : Int) - den.log2 - 52 - 1, ?_, ?_, ?_⟩
    · simp only [lastBit, if_pos (hshort.2 hs)]
    · rw [show (num.log2 : Int) - den.log2 - 52 - 1 + 52 = num.log2 - den.log2 - 1 by ring]
      exact hgt.le
    · rwa [show (num.log2 : Int) - den.log2 - 52 - 1 + 53 = num.log2 - den.log2 by ring]
  · refine ⟨(num.log2 : Int) - den.log2 - 52, ?_, ?_, ?_⟩
    · simp only [lastBit, if_neg (mt hshort.1 hs)]
    · rw [sub_add_cancel]
      exact not_lt.1 hs
    · rwa [show (num.log2 : Int) - den.log2 - 52 + 53 = num.log2 - den.log2 + 1 by ring]

/-- The last bit of the double nearest to a quotient in `[2 ^ (q + 52), 2 ^ (q + 53))` counts `2 ^ q`, and for the
least `q` so it does for every smaller quotient. -/
theorem lastBit_eq {num den : Nat} {q : Int} (hn : 0 < num) (hd : 0 < den) (hq : leastExponent ≤ q)
    (hhigh : (num / den : ℚ) < 2 ^ (q + 53))
    (hlow : q = leastExponent ∨ (2 : ℚ) ^ (q + 52) ≤ num / den) : lastBit num den = q := by
  obtain ⟨e, he, hbelow, habove⟩ := lastBit_eq_max hn hd
  have hle : e + 52 < q + 53 := (zpow_lt_zpow_iff_right₀ one_lt_two).1 (hbelow.trans_lt hhigh)
  rw [he]
  cases hlow with
  | inl heq => omega
  | inr hlow =>
    have hge : q + 52 < e + 53 := (zpow_lt_zpow_iff_right₀ one_lt_two).1 (hlow.trans_lt habove)
    omega

/-! ## The bits of a quotient -/

/-- The mantissa of the double nearest to a quotient is the quotient counted in its last bit, rounded. -/
theorem quotientBits_eq {num den m : Nat} {q : Int} (hd : 0 < den) (hq : lastBit num den = q)
    (hlow : (m - 1 / 2 : ℚ) * 2 ^ q ≤ num / den) (hhigh : (num / den : ℚ) ≤ (m + 1 / 2) * 2 ^ q)
    (hodd : m % 2 = 1 → (m - 1 / 2 : ℚ) * 2 ^ q < num / den ∧ (num / den : ℚ) < (m + 1 / 2) * 2 ^ q) :
    quotientBits num den = packBits m q := by
  have hpow : (0 : ℚ) < 2 ^ q := by positivity
  rw [← le_div_iff₀ hpow] at hlow
  rw [← div_le_iff₀ hpow] at hhigh
  rw [← lt_div_iff₀ hpow, ← div_lt_iff₀ hpow] at hodd
  simp only [quotientBits, hq]
  congr 1
  split
  · obtain ⟨n, rfl⟩ := Int.eq_ofNat_of_zero_le ‹0 ≤ q›
    have hcast : ((num : ℚ) / den) / 2 ^ (n : Int) = num / ((den * 2 ^ n : Nat) : ℚ) := by
      push_cast
      rw [zpow_natCast, div_div]
    rw [hcast] at hlow hhigh hodd
    exact roundDiv_eq_of_near (Nat.mul_pos hd (Nat.two_pow_pos n)) hlow hhigh hodd
  · obtain ⟨n, hn⟩ := Int.eq_ofNat_of_zero_le (show 0 ≤ -q by omega)
    obtain rfl : q = -n := by omega
    have hcast : ((num : ℚ) / den) / 2 ^ (-n : Int) = ((num * 2 ^ n : Nat) : ℚ) / den := by
      push_cast
      rw [zpow_neg, zpow_natCast, div_inv_eq_mul, div_mul_eq_mul_div]
    rw [hcast] at hlow hhigh hodd
    rw [neg_neg, Int.toNat_natCast]
    exact roundDiv_eq_of_near hd hlow hhigh hodd

/-- The first double of a binade is also what comes after the last mantissa of the binade below. -/
theorem packBits_carry {q : Int} (hq : leastExponent < q) :
    packBits (2 * leadingBit) (q - 1) = packBits leadingBit q := by
  have hstep : (q - leastExponent).toNat = (q - 1 - leastExponent).toNat + 1 := by omega
  have hcarry : ∀ k : Nat, 2 * leadingBit + k * leadingBit = leadingBit + (k + 1) * leadingBit :=
    fun k => by ring
  simp only [packBits, hstep, hcarry]

/-- A quotient just below a power of two is counted in bits of half the size, and rounding carries. -/
theorem quotientBits_below_power {num den : Nat} {q : Int} (hn : 0 < num) (hd : 0 < den)
    (hq : leastExponent < q) (hv : Rounds leadingBit q (num / den))
    (hbelow : (num / den : ℚ) < 2 ^ (q + 52)) : quotientBits num den = packBits leadingBit q := by
  have hlow := hv.low
  rw [reachBelow, if_pos ⟨rfl, hq⟩, leadingBit_cast] at hlow
  have hpow : (0 : ℚ) < 2 ^ (q - 1) := by positivity
  have hhalf : (2 : ℚ) ^ q = 2 * 2 ^ (q - 1) := by
    rw [← zpow_one_add₀ two_ne_zero]
    congr 1
    ring
  rw [hhalf] at hlow
  have hlast : lastBit num den = q - 1 := by
    apply lastBit_eq hn hd (by omega)
    · rwa [show q - 1 + 53 = q + 52 by ring]
    · right
      rw [two_zpow_add_52]
      linarith
  rw [← packBits_carry hq]
  apply quotientBits_eq hd hlast
  · push_cast
    rw [leadingBit_cast]
    linarith
  · push_cast
    rw [two_zpow_add_52, hhalf] at hbelow
    rw [leadingBit_cast]
    linarith
  · intro hodd
    omega

/-- A quotient in the interval of a double gets the bits of that double. -/
theorem quotientBits_of_rounds {num den m : Nat} {q : Int} (hn : 0 < num) (hd : 0 < den)
    (h : IsDouble m q) (hv : Rounds m q (num / den)) : quotientBits num den = packBits m q := by
  by_cases hdense : m = leadingBit ∧ leastExponent < q ∧ (num / den : ℚ) < 2 ^ (q + 52)
  · obtain ⟨rfl, hq, hbelow⟩ := hdense
    exact quotientBits_below_power hn hd hq hv hbelow
  have hreach := reachBelow_le m q
  have hlast : lastBit num den = q := by
    apply lastBit_eq hn hd h.least (hv.lt_next h)
    rw [or_iff_not_imp_left]
    intro hq
    have hleast : leastExponent < q := lt_of_le_of_ne h.least (Ne.symm hq)
    rcases (h.full.resolve_right hq).eq_or_lt with heq | hlt
    · exact not_lt.1 fun hbelow => hdense ⟨heq.symm, hleast, hbelow⟩
    · have hmore : (2 : ℚ) ^ 52 + 1 ≤ m := by
        rw [leadingBit_eq] at hlt
        exact_mod_cast hlt
      calc (2 : ℚ) ^ (q + 52) = 2 ^ 52 * 2 ^ q := two_zpow_add_52 q
        _ ≤ (m - reachBelow m q) * 2 ^ q := by
          gcongr
          linarith
        _ ≤ num / den := hv.low
  apply quotientBits_eq hd hlast
  · calc (m - 1 / 2 : ℚ) * 2 ^ q ≤ (m - reachBelow m q) * 2 ^ q := by gcongr
      _ ≤ num / den := hv.low
  · exact hv.high
  · intro hodd
    obtain ⟨hlow, hhigh⟩ := hv.inside hodd
    refine ⟨lt_of_le_of_lt ?_ hlow, hhigh⟩
    gcongr

/-! ## Doubles from their parts -/

/-- The fields of a word: the sign, the exponent and the fraction, at their weights. -/
theorem word_eq_fields {bits : Nat} (h : bits < 2 ^ 64) :
    bits = (if signBound ≤ bits then signBound else 0) + bits / leadingBit % 2048 * leadingBit +
      bits % leadingBit := by
  have hsign : signBound = 9223372036854775808 := rfl
  by_cases hs : signBound ≤ bits
  · rw [if_pos hs, hsign, leadingBit]
    omega
  · rw [if_neg hs, leadingBit]
    omega

/-- A finite double has a sign, a mantissa and an exponent. -/
theorem exists_of_isFinite {x : Float} (h : isFinite x = true) :
    ∃ negative m q, Binary.ofFloat x = .finite negative m q := by
  unfold isFinite at h
  split at h
  · exact ⟨_, _, _, ‹_›⟩
  · cases h

/-- Below the bits of infinity nothing is cut off. -/
theorem packBits_of_lt {m : Nat} {q : Int} {step : Nat} (hstep : (q - leastExponent).toNat = step)
    (hlt : m + step * leadingBit < 2047 * leadingBit) : packBits m q = m + step * leadingBit := by
  simp only [packBits, hstep]
  exact if_neg (Nat.not_le.2 hlt)

/-- What the fields of a finite double stand for are the parts of a double, and packing them gives the fields back. -/
theorem isDouble_of_ofFields {sign negative : Bool} {field fraction m : Nat} {q : Int} (hfield : field < 2048)
    (hfraction : fraction < leadingBit) (h : Binary.ofFields sign field fraction = .finite negative m q) :
    negative = sign ∧ IsDouble m q ∧ packBits m q = fraction + field * leadingBit := by
  have hleast : leastExponent = -1074 := rfl
  unfold Binary.ofFields at h
  split at h
  · split at h <;> cases h
  · next hfinite =>
      have hlt : fraction + field * leadingBit < 2047 * leadingBit := by
        have := Nat.mul_le_mul_right leadingBit (show field + 1 ≤ 2047 by omega)
        rw [Nat.succ_mul] at this
        omega
      split at h
      · next hzero =>
          cases h
          subst hzero
          refine ⟨rfl, ⟨by omega, le_rfl, by decide, Or.inr rfl⟩, ?_⟩
          exact packBits_of_lt (by rw [sub_self]; rfl) hlt
      · next hpos =>
          cases h
          obtain ⟨e, rfl⟩ := Nat.exists_eq_succ_of_ne_zero hpos
          have hstep : (leastExponent + ((e.succ : Int) - 1) - leastExponent).toNat = e := by omega
          rw [Nat.succ_mul] at hlt ⊢
          refine ⟨rfl, ⟨by omega, by omega, by omega, Or.inl (by omega)⟩, ?_⟩
          rw [packBits_of_lt hstep (by omega)]
          omega

/-- The parts of a finite double are those of a double and give its bits back. -/
theorem isDouble_of_ofFloat {x : Float} {negative : Bool} {m : Nat} {q : Int}
    (h : Binary.ofFloat x = .finite negative m q) :
    IsDouble m q ∧ x.toBits.toNat = packBits m q + (if negative then signBound else 0) := by
  obtain ⟨rfl, hdouble, hpack⟩ :=
    isDouble_of_ofFields (Nat.mod_lt _ (by decide)) (Nat.mod_lt _ (by decide)) h
  refine ⟨hdouble, ?_⟩
  have hword := word_eq_fields x.toBits.toNat_lt
  simp only [decide_eq_true_eq]
  omega

/-- A quotient in the interval of a double is read as that double. -/
theorem ofQuotient_of_rounds {x : Float} {negative : Bool} {m : Nat} {q : Int}
    (h : Binary.ofFloat x = .finite negative m q) {num den : Nat} (hn : 0 < num) (hd : 0 < den)
    (hv : Rounds m q (num / den)) : ofQuotient negative num den = x := by
  obtain ⟨hdouble, hbits⟩ := isDouble_of_ofFloat h
  have heq : (if negative then packBits m q + signBound else packBits m q) = x.toBits.toNat := by
    rw [hbits]
    cases negative <;> simp
  simp only [ofQuotient, if_neg hn.ne', quotientBits_of_rounds hn hd hdouble hv, heq,
    UInt64.ofNat_toNat, Float.ofBits_toBits]

/-- A zero is read as the zero with the same sign. -/
theorem ofQuotient_zero {x : Float} {negative : Bool} {q : Int}
    (h : Binary.ofFloat x = .finite negative 0 q) (den : Nat) : ofQuotient negative 0 den = x := by
  obtain ⟨hdouble, hbits⟩ := isDouble_of_ofFloat h
  have hq : q = leastExponent := hdouble.full.resolve_left (Nat.not_le.2 (Nat.two_pow_pos 52))
  have hzero : packBits 0 q = 0 := by
    simp [packBits, hq, leadingBit]
  have heq : (if negative then 0 + signBound else 0) = x.toBits.toNat := by
    rw [hbits, hzero]
    cases negative <;> simp
  simp only [ofQuotient, if_true, heq, UInt64.ofNat_toNat, Float.ofBits_toBits]

end Decimal
end TableFlow
