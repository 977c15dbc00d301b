import TableFlow.Proofs.Decimal.Nearest

/-!
# Sums and halves of doubles

The machine computes a sum or a quotient of doubles exactly and then rounds it: the bits that do not fit are shifted out
of the mantissa, and of them two are kept, which tell on what side of a half the rest lies.  This is enough to round to
the nearest double.

Main results:

- Structure `Represents`: the number that a mantissa with two more bits stands for.
- Theorem `roundWithAccuracy_eq`: such a number is rounded to the nearest double.
- Theorems `faithful_add` and `faithful_half`: no double lies between a sum or a half and what is computed for it.
- Theorem `midpoint_between`: where the middle of two doubles comes out.
-/

namespace TableFlow
namespace Decimal

open Float.Model (Format UnpackedFloat totalExponent)
open Float.Model.UnpackedFloat

/-! ## Mantissas with two more bits -/

/-- The mantissa is the whole part of the number, the first bit tells whether the rest is a half or more, and the second
one whether it is neither nothing nor a half. -/
structure Represents (em : ExtendedMantissa) (v : ℚ) : Prop where
  low : (em.mantissa : ℚ) ≤ v
  high : v < em.mantissa + 1
  half : em.roundBit = true ↔ (em.mantissa + 1 / 2 : ℚ) ≤ v
  rest : em.stickyBit = true ↔ v ≠ em.mantissa ∧ v ≠ em.mantissa + 1 / 2

theorem represents_exact (m : Nat) : Represents (.ofMantissaAndAccuracy m .exact) m := by
  constructor
  · exact le_rfl
  · exact lt_add_one _
  · simp only [ExtendedMantissa.ofMantissaAndAccuracy, Bool.false_eq_true, false_iff, not_le]
    linarith
  · simp [ExtendedMantissa.ofMantissaAndAccuracy]

/-- A quotient is represented by its whole part and a comparison of the rest with a half. -/
theorem represents_quotient (num : Nat) {den : Nat} (h : 0 < den) :
    Represents (.ofMantissaAndAccuracy (num / den) (accuracyOfFraction (num % den) den)) (num / den) := by
  have hden : (0 : ℚ) < den := by exact_mod_cast h
  have hsplit : (num : ℚ) = (num / den : Nat) * den + (num % den : Nat) := by
    exact_mod_cast (Nat.div_add_mod' num den).symm
  have hrest : ((num % den : Nat) : ℚ) < den := by exact_mod_cast Nat.mod_lt num h
  generalize num / den = m at hsplit ⊢
  generalize num % den = k at hsplit hrest ⊢
  have hvalue : (num : ℚ) / den = m + k / den := by
    rw [hsplit]
    field_simp
  rw [hvalue, accuracyOfFraction]
  by_cases hk : k = 0
  · rw [if_pos hk, hk, Nat.cast_zero, zero_div, add_zero]
    exact represents_exact m
  have hpos : (0 : ℚ) < k / den := div_pos (by exact_mod_cast Nat.pos_of_ne_zero hk) hden
  have hone : (k / den : ℚ) < 1 := (div_lt_one hden).2 hrest
  rw [if_neg hk]
  rcases lt_trichotomy (2 * k) den with hlt | heq | hgt
  · have hhalf : (k / den : ℚ) < 1 / 2 := by
      rw [div_lt_iff₀ hden]
      have : (2 * k : ℚ) < den := by exact_mod_cast hlt
      linarith
    rw [Nat.compare_eq_lt.2 hlt]
    refine ⟨?_, ?_, iff_of_false Bool.false_ne_true ?_, iff_of_true rfl ⟨?_, ?_⟩⟩ <;>
      simp only [ExtendedMantissa.ofMantissaAndAccuracy] <;> linarith
  · have hhalf : (k / den : ℚ) = 1 / 2 := by
      rw [div_eq_iff hden.ne']
      have : (2 * k : ℚ) = den := by exact_mod_cast heq
      linarith
    rw [Nat.compare_eq_eq.2 heq, hhalf]
    refine ⟨?_, ?_, iff_of_true rfl le_rfl, iff_of_false Bool.false_ne_true fun hne => hne.2 rfl⟩ <;>
      simp only [ExtendedMantissa.ofMantissaAndAccuracy] <;> linarith
  · have hhalf : (1 / 2 : ℚ) < k / den := by
      rw [lt_div_iff₀ hden]
      have : (den : ℚ) < 2 * k := by exact_mod_cast hgt
      linarith
    rw [Nat.compare_eq_gt.2 hgt]
    refine ⟨?_, ?_, iff_of_true rfl ?_, iff_of_true rfl ⟨?_, ?_⟩⟩ <;>
      simp only [ExtendedMantissa.ofMantissaAndAccuracy] <;> linarith

/-- Any of the two bits is set if the number is no natural number. -/
theorem Represents.or_eq_true_iff {em : ExtendedMantissa} {v : ℚ} (h : Represents em v) :
    (em.roundBit || em.stickyBit) = true ↔ v ≠ em.mantissa := by
  rw [Bool.or_eq_true, h.half, h.rest]
  constructor
  · rintro (hhalf | ⟨hne, -⟩)
    · intro heq
      linarith
    · exact hne
  · intro hne
    by_cases hhalf : (em.mantissa + 1 / 2 : ℚ) ≤ v
    · exact Or.inl hhalf
    · exact Or.inr ⟨hne, fun heq => hhalf heq.ge⟩

/-- The number is halved when the mantissa is shifted. -/
theorem Represents.shiftRightOne {em : ExtendedMantissa} {v : ℚ} (h : Represents em v) :
    Represents em.shiftRightOne (v / 2) := by
  have hlow := h.low
  have hhigh := h.high
  have hor := h.or_eq_true_iff
  obtain ⟨k, hk⟩ : ∃ k, em.mantissa / 2 = k := ⟨_, rfl⟩
  have hmantissa : em.shiftRightOne.mantissa = k := hk
  have hround : em.shiftRightOne.roundBit = true ↔ em.mantissa % 2 ≠ 0 := bne_iff_ne
  have hsticky : em.shiftRightOne.stickyBit = (em.roundBit || em.stickyBit) := rfl
  rcases Nat.mod_two_eq_zero_or_one em.mantissa with heven | hodd
  · have hsplit : (em.mantissa : ℚ) = 2 * k := by exact_mod_cast (by omega : em.mantissa = 2 * k)
    rw [hsplit] at hlow hhigh hor
    constructor
    · rw [hmantissa]
      linarith
    · rw [hmantissa]
      linarith
    · rw [hround, hmantissa]
      refine iff_of_false (not_not.2 heven) ?_
      linarith
    · rw [hsticky, hor, hmantissa]
      constructor
      · intro hne
        exact ⟨fun heq => hne (by linarith), fun heq => by linarith⟩
      · rintro ⟨hne, -⟩ heq
        exact hne (by linarith)
  · have hsplit : (em.mantissa : ℚ) = 2 * k + 1 := by exact_mod_cast (by omega : em.mantissa = 2 * k + 1)
    rw [hsplit] at hlow hhigh hor
    constructor
    · rw [hmantissa]
      linarith
    · rw [hmantissa]
      linarith
    · rw [hround, hmantissa]
      refine iff_of_true (by omega) ?_
      linarith
    · rw [hsticky, hor, hmantissa]
      constructor
      · intro hne
        exact ⟨fun heq => by linarith, fun heq => hne (by linarith)⟩
      · rintro ⟨-, hne⟩ heq
        exact hne (by linarith)

theorem Represents.shiftRight {em : ExtendedMantissa} {v : ℚ} (h : Represents em v) (count : Nat) :
    Represents (em >>> count) (v / 2 ^ count) := by
  induction count with
  | zero =>
      rw [pow_zero, div_one]
      exact h
  | succ count ih =>
      rw [pow_succ, ← div_div]
      exact ih.shiftRightOne

/-- The rounded mantissa is nearest to the number. -/
theorem Represents.nearest {em : ExtendedMantissa} {v : ℚ} (h : Represents em v) : Nearest em.roundedMantissa v := by
  obtain ⟨m, roundBit, stickyBit⟩ := em
  obtain ⟨hlow, hhigh, hhalf, hrest⟩ := h
  simp only at hlow hhigh hhalf hrest
  cases roundBit with
  | false =>
      have hbelow : v < m + 1 / 2 := not_le.1 fun hle => Bool.false_ne_true (hhalf.2 hle)
      have hrounded : ExtendedMantissa.roundedMantissa ⟨m, false, stickyBit⟩ = m := by
        cases stickyBit <;> rfl
      rw [hrounded]
      exact ⟨by linarith, hbelow.le, fun _ => ⟨by linarith, hbelow⟩⟩
  | true =>
      have habove : (m + 1 / 2 : ℚ) ≤ v := hhalf.1 rfl
      cases stickyBit with
      | false =>
          have hrounded : ExtendedMantissa.roundedMantissa ⟨m, true, false⟩ = m + m % 2 := rfl
          have heq : v = m + 1 / 2 := by
            by_contra hne
            exact Bool.false_ne_true (hrest.2 ⟨fun heq => by linarith, hne⟩)
          rw [hrounded, heq]
          rcases Nat.mod_two_eq_zero_or_one m with heven | hodd
          · rw [heven, Nat.add_zero]
            exact ⟨by linarith, le_rfl, fun hodd => by omega⟩
          · rw [hodd]
            exact ⟨by push_cast; linarith, by push_cast; linarith, fun hodd' => by omega⟩
      | true =>
          have hrounded : ExtendedMantissa.roundedMantissa ⟨m, true, true⟩ = m + 1 := rfl
          have hlt : (m + 1 / 2 : ℚ) < v := lt_of_le_of_ne habove (hrest.1 rfl).2.symm
          rw [hrounded]
          exact ⟨by push_cast; linarith, by push_cast; linarith, fun _ =>
            ⟨by push_cast; linarith, by push_cast; linarith⟩⟩

/-! ## Rounding a mantissa -/

/-- The exponent that a mantissa of 53 bits would have, or the least one. -/
theorem targetExponent_eq (k : Nat) (e : Int) :
    Format.binary64.targetExponent (totalExponent k e) = max ((k.log2 : Int) + e - 52) leastExponent := by
  have hbits : (Format.binary64.mantissaBits : Int) = 53 := rfl
  have hleast : Format.binary64.minExponent = leastExponent := rfl
  rw [Format.targetExponent, totalExponent, hbits, hleast]
  omega

/-- A mantissa is shifted to this exponent if its own is less. -/
theorem shiftToTargetExponent_eq {k d : Nat} {e : Int} (acc : Accuracy)
    (hd : (max ((k.log2 : Int) + e - 52) leastExponent - e).toNat = d) :
    shiftToTargetExponent Format.binary64 k e acc = (ExtendedMantissa.ofMantissaAndAccuracy k acc >>> d, e + d) := by
  rw [shiftToTargetExponent, targetExponent_eq, shiftToExponent, hd]

section

variable {k : Nat} {e q : Int} {acc : Accuracy} {v : ℚ}

theorem mantissa_ofMantissaAndAccuracy (k : Nat) (acc : Accuracy) :
    (ExtendedMantissa.ofMantissaAndAccuracy k acc).mantissa = k := by
  cases acc with
  | exact => rfl
  | inexact o => cases o <;> rfl

/-- The number is below the next power of two after its mantissa. -/
theorem Represents.lt_two_zpow (hv : Represents (.ofMantissaAndAccuracy k acc) v)
    (hq : (k.log2 : Int) + e - 52 ≤ q) : v * 2 ^ e < 2 ^ (q + 53) := by
  have hhigh := hv.high
  rw [mantissa_ofMantissaAndAccuracy] at hhigh
  have hlog : (k : ℚ) + 1 ≤ 2 ^ ((k.log2 : Int) + 1) := by exact_mod_cast Nat.lt_log2_self (n := k)
  calc v * 2 ^ e < 2 ^ ((k.log2 : Int) + 1) * 2 ^ e := by
        gcongr
        linarith
    _ = 2 ^ ((k.log2 : Int) + 1 + e) := (zpow_add₀ two_ne_zero _ _).symm
    _ ≤ 2 ^ (q + 53) := zpow_le_zpow_right₀ one_le_two (by omega)

/-- It is not below the greatest power of two in its mantissa. -/
theorem Represents.two_zpow_le (hv : Represents (.ofMantissaAndAccuracy k acc) v) (hk : 0 < k)
    (hq : (k.log2 : Int) + e - 52 = q) : (2 : ℚ) ^ (q + 52) ≤ v * 2 ^ e := by
  have hlow := hv.low
  rw [mantissa_ofMantissaAndAccuracy] at hlow
  have hlog : (2 : ℚ) ^ (k.log2 : Int) ≤ k := by exact_mod_cast Nat.log2_self_le hk.ne'
  have hbits : q + 52 = k.log2 + e := by omega
  rw [hbits, zpow_add₀ two_ne_zero]
  gcongr
  linarith

/-- The exponent that is aimed at is that of the nearest double, up to a carry. -/
theorem Represents.exists_target (hv : Represents (.ofMantissaAndAccuracy k acc) v)
    (he : e ≤ max ((k.log2 : Int) + e - 52) leastExponent) (hsmall : v * 2 ^ e < 2 ^ (1023 : Int)) :
    ∃ d : Nat, max ((k.log2 : Int) + e - 52) leastExponent = e + d ∧ e + d < 971 ∧ v * 2 ^ e < 2 ^ (e + d + 53) ∧
      (e + d = leastExponent ∨ (2 : ℚ) ^ (e + d + 52) ≤ v * 2 ^ e) := by
  have hexp : leastExponent = -1074 := rfl
  obtain ⟨d, hd⟩ : ∃ d : Nat, max ((k.log2 : Int) + e - 52) leastExponent = e + d :=
    ⟨(max ((k.log2 : Int) + e - 52) leastExponent - e).toNat, by omega⟩
  have hfirst : e + d = leastExponent ∨ (2 : ℚ) ^ (e + d + 52) ≤ v * 2 ^ e := by
    rw [or_iff_not_imp_left]
    intro hne
    have hk : 0 < k := by
      rw [Nat.pos_iff_ne_zero]
      rintro rfl
      rw [Nat.log2_zero] at hd
      omega
    exact hv.two_zpow_le hk (by omega)
  refine ⟨d, hd, ?_, hv.lt_two_zpow (by omega), hfirst⟩
  rcases hfirst with hleast | hbelow
  · omega
  · have := (zpow_lt_zpow_iff_right₀ one_lt_two).1 (hbelow.trans_lt hsmall)
    omega

end

/-- A mantissa that rounding has carried into the next power of two is shifted by one more bit. -/
theorem shiftToTargetExponent_carry {q : Int} (hq : leastExponent ≤ q) :
    shiftToTargetExponent Format.binary64 (2 * leadingBit) q .exact =
      (ExtendedMantissa.ofMantissaAndAccuracy leadingBit .exact, q + 1) := by
  have hlog : (2 * leadingBit).log2 = 53 := by decide +kernel
  rw [shiftToTargetExponent_eq (d := 1) .exact (by omega)]
  rfl

/-- A rounded mantissa of 53 bits stays as it is. -/
theorem shiftToTargetExponent_self {n : Nat} {q : Int} (hn : n < 2 * leadingBit) (hq : leastExponent ≤ q) :
    shiftToTargetExponent Format.binary64 n q .exact = (ExtendedMantissa.ofMantissaAndAccuracy n .exact, q) := by
  have hlog : n.log2 < 53 := by
    rcases Nat.eq_zero_or_pos n with rfl | hpos
    · rw [Nat.log2_zero]
      decide
    · exact (Nat.log2_lt hpos.ne').2 hn
  rw [shiftToTargetExponent_eq (d := 0) .exact (by omega), Nat.cast_zero, add_zero]
  rfl

/-- What is rounded is the nearest double, if the exponent is not too large for the bits of the mantissa. -/
theorem roundWithAccuracy_eq (negative : Bool) {k : Nat} {e : Int} {acc : Accuracy} {v : ℚ}
    (hv : Represents (.ofMantissaAndAccuracy k acc) v) (he : e ≤ max ((k.log2 : Int) + e - 52) leastExponent)
    (hsmall : v * 2 ^ e < 2 ^ (1023 : Int)) :
    ∃ m q, IsDouble m q ∧ Rounds m q (v * 2 ^ e) ∧
      roundWithAccuracy Format.binary64 (signOf negative) k e acc = (Binary.finite negative m q).unpacked := by
  obtain ⟨d, hd, hgreatest, hnext, hfirst⟩ := hv.exists_target he hsmall
  have hleast : leastExponent ≤ e + d := hd ▸ le_max_right _ _
  have hscaled : v / 2 ^ d = v * 2 ^ e / 2 ^ (e + d) := by
    rw [zpow_add₀ two_ne_zero, zpow_natCast]
    field_simp
  have hnear := (hv.shiftRight d).nearest
  rw [hscaled] at hnear
  rw [roundWithAccuracy, shiftToTargetExponent_eq (d := d) acc (by omega)]
  simp only
  generalize (ExtendedMantissa.ofMantissaAndAccuracy k acc >>> d).roundedMantissa = n at hnear ⊢
  rcases (hnear.le_two_leadingBit hnext).eq_or_lt with rfl | hfits
  · obtain ⟨hdouble, hrounds⟩ := rounds_of_carry hnear hleast hgreatest hnext
    refine ⟨_, _, hdouble, hrounds, ?_⟩
    rw [shiftToTargetExponent_carry hleast]
    rfl
  · obtain ⟨hdouble, hrounds⟩ := rounds_of_nearest hnear hleast hgreatest.le hfirst hfits
    refine ⟨_, _, hdouble, hrounds, ?_⟩
    rw [shiftToTargetExponent_self hfits hleast]
    simp only [mantissa_ofMantissaAndAccuracy, Binary.unpacked]
    rcases Nat.eq_zero_or_pos n with rfl | hpos
    · rfl
    · rw [dif_neg hpos.ne', dif_pos hpos]

theorem log2_shiftLeft {k : Nat} (hk : 0 < k) (d : Nat) : (k <<< d).log2 = k.log2 + d := by
  have hlow := Nat.mul_le_mul_right (2 ^ d) (Nat.log2_self_le hk.ne')
  have hhigh := Nat.mul_lt_mul_of_pos_right (Nat.lt_log2_self (n := k)) (Nat.two_pow_pos d)
  rw [← Nat.pow_add] at hlow hhigh
  rw [Nat.shiftLeft_eq, Nat.log2_eq_iff (Nat.mul_pos hk (Nat.two_pow_pos d)).ne']
  exact ⟨hlow, by rwa [Nat.add_right_comm] at hhigh⟩

/-- A mantissa with any exponent is rounded to the nearest double. -/
theorem round_eq (negative : Bool) {k : Nat} {e : Int} (hk : 0 < k) (hsmall : (k : ℚ) * 2 ^ e < 2 ^ (1023 : Int)) :
    ∃ m q, IsDouble m q ∧ Rounds m q (k * 2 ^ e) ∧
      UnpackedFloat.round Format.binary64 (signOf negative) k e = (Binary.finite negative m q).unpacked := by
  obtain ⟨d, hd⟩ : ∃ d, (e - max ((k.log2 : Int) + e - 52) leastExponent).toNat = d := ⟨_, rfl⟩
  have hshift : ((k <<< d : Nat) : ℚ) * 2 ^ (e - d) = k * 2 ^ e := by
    rw [Nat.shiftLeft_eq, zpow_sub₀ two_ne_zero, zpow_natCast]
    push_cast
    field_simp
  have hlog := log2_shiftLeft hk d
  rw [UnpackedFloat.round, targetExponent_eq, decreaseExponent, hd, ← hshift]
  rw [← hshift] at hsmall
  exact roundWithAccuracy_eq negative (represents_exact _) (by rw [hlog]; push_cast; omega) hsmall

/-! ## Sums -/

/-- A double that is packed from what a number was rounded to is faithful to it. -/
theorem faithful_pack (negative : Bool) {m : Nat} {q : Int} {v : ℚ} (hdouble : IsDouble m q) (hrounds : Rounds m q v)
    (hpos : 0 ≤ v) :
    Faithful (Float.ofModel (.pack (Binary.finite negative m q).unpacked)) (if negative then -v else v) :=
  faithful_of_rounds (ofFloat_pack negative hdouble) hrounds hpos

theorem faithful_pack_zero (negative : Bool) :
    Faithful (Float.ofModel (.pack (.zero (signOf negative)))) 0 := by
  have hdouble : IsDouble 0 leastExponent := ⟨by decide, le_rfl, by decide, Or.inr rfl⟩
  have hrounds := rounds_self 0 leastExponent
  rw [Nat.cast_zero, zero_mul] at hrounds
  have hzero := faithful_pack negative hdouble hrounds le_rfl
  rwa [neg_zero, ite_self] at hzero

/-- A number with a sign becomes a double that is faithful to it. -/
theorem faithful_normalize {k e : Int} (hsmall : |(k : ℚ) * 2 ^ e| < 2 ^ (1023 : Int)) :
    Faithful (Float.ofModel (.pack (UnpackedFloat.normalize Format.binary64 k e .positive))) (k * 2 ^ e) := by
  have hpow : (0 : ℚ) < 2 ^ e := by positivity
  rw [abs_mul, abs_of_pos hpow] at hsmall
  rcases lt_trichotomy k 0 with hneg | rfl | hpos
  · obtain ⟨n, rfl⟩ : ∃ n : Nat, k = -n := ⟨k.natAbs, by omega⟩
    have hn : 0 < n := by omega
    rw [Int.cast_neg, Int.cast_natCast, abs_neg, Nat.abs_cast] at hsmall
    obtain ⟨m, q, hdouble, hrounds, hround⟩ := round_eq true hn hsmall
    rw [UnpackedFloat.normalize, Int.compare_eq_lt.2 hneg]
    simp only [neg_neg, Int.toNat_natCast]
    have hfaithful := faithful_pack true hdouble hrounds (by positivity)
    rw [← hround, if_pos rfl] at hfaithful
    rw [Int.cast_neg, Int.cast_natCast, neg_mul]
    exact hfaithful
  · rw [Int.cast_zero, zero_mul]
    exact faithful_pack_zero false
  · obtain ⟨n, rfl⟩ : ∃ n : Nat, k = n := ⟨k.natAbs, by omega⟩
    have hn : 0 < n := by omega
    rw [Int.cast_natCast, Nat.abs_cast] at hsmall
    obtain ⟨m, q, hdouble, hrounds, hround⟩ := round_eq false hn hsmall
    rw [UnpackedFloat.normalize, Int.compare_eq_gt.2 hpos]
    simp only [Int.toNat_natCast]
    have hfaithful := faithful_pack false hdouble hrounds (by positivity)
    rw [← hround, if_neg Bool.false_ne_true] at hfaithful
    rw [Int.cast_natCast]
    exact hfaithful

/-- With a smaller exponent a mantissa is shifted, and with its sign it has the value of the double. -/
theorem apply_shiftLeft (negative : Bool) (m : Nat) {q e : Int} (h : e ≤ q) :
    (((signOf negative).apply ((m <<< (q - e).toNat : Nat) : Int) : Int) : ℚ) * 2 ^ e =
      (Binary.finite negative m q).value := by
  obtain ⟨d, rfl⟩ := Int.le.dest h
  have hshift : (e + d - e).toNat = d := by omega
  have hpow : (2 : ℚ) ^ (e + d) = 2 ^ d * 2 ^ e := by rw [zpow_add₀ two_ne_zero, zpow_natCast, mul_comm]
  rw [hshift, Nat.shiftLeft_eq]
  cases negative with
  | false =>
      simp only [signOf, Sign.apply, Binary.value, Bool.false_eq_true, if_false, hpow]
      push_cast
      ring
  | true =>
      simp only [signOf, Sign.apply, Binary.value, if_true, hpow]
      push_cast
      ring

section

variable {x y : Float} {b c : Bool} {m n : Nat} {q r : Int}

theorem pack_unpack (x : Float) : Float.ofModel (.pack x.toModel.unpack) = x :=
  Float.ofBits_toBits x

theorem unpack_of_zero (h : Binary.ofFloat x = .finite b 0 q) : x.toModel.unpack = .zero (signOf b) := by
  rw [unpack_eq, h]
  rfl

theorem unpack_of_pos (h : Binary.ofFloat x = .finite b m q) (hm : 0 < m) :
    x.toModel.unpack = .finite (signOf b) m q hm := by
  rw [unpack_eq, h, Binary.unpacked, dif_pos hm]

/-- Adding a double to a zero gives the double, but for the sign of a zero. -/
theorem faithful_zero_add (hx : Binary.ofFloat x = .finite b 0 q) (hy : Binary.ofFloat y = .finite c n r) :
    Faithful (x + y) (value x + value y) := by
  have hadd : x + y = Float.ofModel (.pack (add Format.binary64 x.toModel.unpack y.toModel.unpack)) := rfl
  rw [hadd, unpack_of_zero hx, value_of_ofFloat hx, Binary.value_zero, zero_add]
  rcases Nat.eq_zero_or_pos n with rfl | hn
  · have hsum : add Format.binary64 (.zero (signOf b)) (.zero (signOf c)) = .zero (signOf (b && c)) := by
      cases b <;> cases c <;> rfl
    rw [unpack_of_zero hy, hsum, value_of_ofFloat hy, Binary.value_zero]
    exact faithful_pack_zero _
  · have hsum : add Format.binary64 (.zero (signOf b)) y.toModel.unpack = y.toModel.unpack := by
      rw [unpack_of_pos hy hn]
      rfl
    rw [hsum, pack_unpack]
    exact faithful_self (by rw [isFinite, hy])

/-- Adding a zero to a double that is none gives the double. -/
theorem add_zero_of_pos (hx : Binary.ofFloat x = .finite b m q) (hm : 0 < m)
    (hy : Binary.ofFloat y = .finite c 0 r) : x + y = x := by
  have hsum : add Format.binary64 x.toModel.unpack y.toModel.unpack = x.toModel.unpack := by
    rw [unpack_of_pos hx hm, unpack_of_zero hy]
    rfl
  calc x + y = Float.ofModel (.pack (add Format.binary64 x.toModel.unpack y.toModel.unpack)) := rfl
    _ = x := by rw [hsum, pack_unpack]

/-- Doubles that are no zeros are added with the less exponent of the two. -/
theorem faithful_add_of_pos (hx : Binary.ofFloat x = .finite b m q) (hm : 0 < m)
    (hy : Binary.ofFloat y = .finite c n r) (hn : 0 < n) (hsmall : |value x + value y| < 2 ^ (1023 : Int)) :
    Faithful (x + y) (value x + value y) := by
  have hadd : x + y = Float.ofModel (.pack (add Format.binary64 x.toModel.unpack y.toModel.unpack)) := rfl
  have hsum : add Format.binary64 x.toModel.unpack y.toModel.unpack =
      UnpackedFloat.normalize Format.binary64 ((signOf b).apply ((m <<< (q - min q r).toNat : Nat) : Int) +
        (signOf c).apply ((n <<< (r - min q r).toNat : Nat) : Int)) (min q r) .positive := by
    rw [unpack_of_pos hx hm, unpack_of_pos hy hn]
    rfl
  have hvalue : (((signOf b).apply ((m <<< (q - min q r).toNat : Nat) : Int) +
        (signOf c).apply ((n <<< (r - min q r).toNat : Nat) : Int) : Int) : ℚ) * 2 ^ min q r =
      value x + value y := by
    rw [Int.cast_add, add_mul, apply_shiftLeft b m (min_le_left q r), apply_shiftLeft c n (min_le_right q r),
      value_of_ofFloat hx, value_of_ofFloat hy]
  rw [← hvalue] at hsmall
  rw [hadd, hsum, ← hvalue]
  exact faithful_normalize hsmall

end

/-- No double lies between the sum of two doubles and what is computed for it. -/
theorem faithful_add {x y : Float} (hx : isFinite x = true) (hy : isFinite y = true)
    (hsmall : |value x + value y| < 2 ^ (1023 : Int)) : Faithful (x + y) (value x + value y) := by
  obtain ⟨b, m, q, hfloat⟩ := exists_of_isFinite hx
  obtain ⟨c, n, r, hfloat'⟩ := exists_of_isFinite hy
  rcases Nat.eq_zero_or_pos m with rfl | hm
  · exact faithful_zero_add hfloat hfloat'
  · rcases Nat.eq_zero_or_pos n with rfl | hn
    · rw [add_zero_of_pos hfloat hm hfloat', value_of_ofFloat hfloat', Binary.value_zero, add_zero]
      exact faithful_self hx
    · exact faithful_add_of_pos hfloat hm hfloat' hn hsmall

/-! ## Halves -/

/-- A finite double is below the first power of two that is none. -/
theorem IsDouble.value_lt_top {m : Nat} {q : Int} (h : IsDouble m q) : (m : ℚ) * 2 ^ q < 2 ^ (1024 : Int) := by
  have hsmall : (m : ℚ) < 2 * leadingBit := by exact_mod_cast h.small
  calc (m : ℚ) * 2 ^ q < 2 * leadingBit * 2 ^ q := by gcongr
    _ = 2 ^ (q + 53) := (two_zpow_add_53 q).symm
    _ ≤ 2 ^ (1024 : Int) := zpow_le_zpow_right₀ one_le_two (by linarith [h.greatest])

/-- The double two, as it is unpacked. -/
theorem unpack_two : (2.0 : Float).toModel.unpack = .finite .positive leadingBit (-51) (by decide) := by
  have hfloat : Binary.ofFloat 2.0 = .finite false leadingBit (-51) := by decide +kernel
  rw [unpack_eq, hfloat]
  rfl

/-- The bits that a mantissa is shifted by are taken off its exponent. -/
theorem shiftLeft_div_leadingBit {m d : Nat} {q t : Int} (h : (d : Int) + t = q + 51) :
    ((m <<< d : Nat) / leadingBit : ℚ) * 2 ^ t = m * 2 ^ q / 2 := by
  have hpow : (2 : ℚ) ^ d * 2 ^ t = 2 ^ 51 * 2 ^ q := by
    rw [← zpow_natCast, ← zpow_add₀ two_ne_zero, h, zpow_add₀ two_ne_zero, mul_comm]
    norm_num
  rw [Nat.shiftLeft_eq, Nat.cast_mul, Nat.cast_pow, Nat.cast_ofNat, leadingBit_cast]
  calc ((m : ℚ) * 2 ^ d / 2 ^ 52) * 2 ^ t = (m : ℚ) * (2 ^ d * 2 ^ t) / 2 ^ 52 := by ring
    _ = (m : ℚ) * 2 ^ q / 2 := by
      rw [hpow]
      ring

/-- A mantissa that has been shifted far enough leaves a quotient with bits enough. -/
theorem le_log2_shiftLeft_div {m d : Nat} (hm : 0 < m) (h : 104 ≤ m.log2 + d) :
    52 ≤ ((m <<< d) / leadingBit).log2 := by
  have hlarge : 2 ^ 52 * leadingBit ≤ m <<< d := by
    calc 2 ^ 52 * leadingBit ≤ 2 ^ (m.log2 + d) := by
          rw [leadingBit_eq, ← Nat.pow_add]
          exact Nat.pow_le_pow_right (by decide) h
      _ ≤ m <<< d := by
          rw [Nat.shiftLeft_eq, Nat.pow_add]
          exact Nat.mul_le_mul_right _ (Nat.log2_self_le hm.ne')
  have hquotient : 2 ^ 52 ≤ (m <<< d) / leadingBit := (Nat.le_div_iff_mul_le (by decide)).2 hlarge
  exact (Nat.le_log2 ((Nat.two_pow_pos 52).trans_le hquotient).ne').2 hquotient

/-- A mantissa is divided by that of two after it has been shifted, and the quotient is rounded. -/
theorem div_two_eq (negative : Bool) {m : Nat} {q : Int} (hm : 0 < m) (h : IsDouble m q) :
    ∃ n r, IsDouble n r ∧ Rounds n r (m * 2 ^ q / 2) ∧
      div Format.binary64 (.finite (signOf negative) m q hm) (.finite .positive leadingBit (-51) (by decide)) =
        (Binary.finite negative n r).unpacked := by
  have hexp : leastExponent = -1074 := rfl
  have hsign : signOf negative / Sign.positive = signOf negative := by cases negative <;> rfl
  obtain ⟨t, ht⟩ : ∃ t, min (q - -51) (Format.binary64.targetExponent
      (totalExponent m q - totalExponent leadingBit (-51))) = t := ⟨_, rfl⟩
  obtain ⟨d, hd⟩ : ∃ d, (q - -51 - t).toNat = d := ⟨_, rfl⟩
  have hdiv : div Format.binary64 (.finite (signOf negative) m q hm) (.finite .positive leadingBit (-51) (by decide)) =
      roundWithAccuracy Format.binary64 (signOf negative / .positive) ((m <<< d) / leadingBit) t
        (accuracyOfFraction ((m <<< d) % leadingBit) leadingBit) := by
    rw [div, divCore, ht, hd]
  have htarget : t = min (q + 51) (max ((m.log2 : Int) + q - 54) leastExponent) := by
    have hbits : (Format.binary64.mantissaBits : Int) = 53 := rfl
    have hleast : Format.binary64.minExponent = leastExponent := rfl
    have hlog : leadingBit.log2 = 52 := by decide +kernel
    rw [← ht, Format.targetExponent, totalExponent, totalExponent, hbits, hleast, hlog]
    omega
  have hvalue := shiftLeft_div_leadingBit (m := m) (show (d : Int) + t = q + 51 by omega)
  have hfits : t ≤ max ((((m <<< d) / leadingBit).log2 : Int) + t - 52) leastExponent := by
    rcases le_or_gt t leastExponent with hle | hgt
    · exact le_max_of_le_right hle
    · -- above the least exponent the mantissa was shifted by 53 bits at least, and two has 53
      have hlog := le_log2_shiftLeft_div hm (show 104 ≤ m.log2 + d by omega)
      omega
  have hsmall : (m : ℚ) * 2 ^ q / 2 < 2 ^ (1023 : Int) := by
    have htop := h.value_lt_top
    have hdouble : (2 : ℚ) ^ (1024 : Int) = 2 ^ (1023 : Int) * 2 := zpow_add_one₀ two_ne_zero 1023
    rw [hdouble] at htop
    linarith
  rw [hdiv, hsign, ← hvalue]
  rw [← hvalue] at hsmall
  exact roundWithAccuracy_eq negative (represents_quotient _ (by decide)) hfits hsmall

/-- No double lies between the half of a double and what is computed for it. -/
theorem faithful_half {x : Float} (hx : isFinite x = true) : Faithful (x / 2.0) (value x / 2) := by
  obtain ⟨b, m, q, hfloat⟩ := exists_of_isFinite hx
  have hdiv : x / 2.0 = Float.ofModel (.pack (div Format.binary64 x.toModel.unpack (2.0 : Float).toModel.unpack)) := rfl
  rw [hdiv, unpack_two, value_of_ofFloat hfloat]
  rcases Nat.eq_zero_or_pos m with rfl | hm
  · have hquotient : div Format.binary64 (.zero (signOf b)) (.finite .positive leadingBit (-51) (by decide)) =
        .zero (signOf b) := by
      cases b <;> rfl
    rw [unpack_of_zero hfloat, Binary.value_zero, zero_div, hquotient]
    exact faithful_pack_zero b
  · obtain ⟨n, r, hdouble, hrounds, hquotient⟩ := div_two_eq b hm (isDouble_of_ofFloat hfloat).1
    have hfaithful := faithful_pack b hdouble hrounds (by positivity)
    have hvalue : (Binary.finite b m q).value / 2 = if b then -((m : ℚ) * 2 ^ q / 2) else m * 2 ^ q / 2 := by
      cases b with
      | false => rfl
      | true => exact neg_div _ _
    rw [unpack_of_pos hfloat hm, hquotient, hvalue]
    exact hfaithful

/-! ## The middle of two doubles -/

/-- Twice a double is a double, unless it is a large one. -/
theorem IsDouble.twice {m : Nat} {q : Int} (h : IsDouble m q) (hsmall : (m : ℚ) * 2 ^ q ≤ 2 ^ (1022 : Int)) :
    ∃ n r, IsDouble n r ∧ (n : ℚ) * 2 ^ r = 2 * (m * 2 ^ q) := by
  by_cases hfull : leadingBit ≤ m
  · have hgreatest : q + 52 ≤ 1022 := by
      have hpow : (2 : ℚ) ^ (q + 52) ≤ 2 ^ (1022 : Int) := by
        rw [two_zpow_add_52, ← leadingBit_cast]
        refine le_trans ?_ hsmall
        gcongr
      exact (zpow_le_zpow_iff_right₀ one_lt_two).1 hpow
    have hleast := h.least
    refine ⟨m, q + 1, ⟨h.small, by omega, by omega, Or.inl hfull⟩, ?_⟩
    rw [zpow_add_one₀ two_ne_zero]
    ring
  · have hq := h.full.resolve_left hfull
    refine ⟨2 * m, q, ⟨by omega, h.least, h.greatest, Or.inr hq⟩, ?_⟩
    push_cast
    ring

theorem exists_twice {x : Float} (hx : isFinite x = true) (hsmall : |value x| ≤ 2 ^ (1022 : Int)) :
    ∃ y, isFinite y = true ∧ value y = 2 * value x := by
  obtain ⟨b, m, q, hfloat⟩ := exists_of_isFinite hx
  have hmag : |value x| = m * 2 ^ q := by rw [value_of_ofFloat hfloat, Binary.abs_value_finite]
  obtain ⟨n, r, hdouble, htwice⟩ := (isDouble_of_ofFloat hfloat).1.twice (hmag ▸ hsmall)
  have hfloat' := ofFloat_ofBits b hdouble
  refine ⟨_, by rw [isFinite, hfloat'], ?_⟩
  rw [value_of_ofFloat hfloat', value_of_ofFloat hfloat]
  cases b with
  | false => exact htwice
  | true =>
      simp only [Binary.value, if_true, htwice]
      ring

/-- The middle of two doubles that are not very large comes out between them, and below the greater one if there is a
double between the middle and this one. -/
theorem midpoint_between {x y z : Float} (hx : isFinite x = true) (hy : isFinite y = true) (hz : isFinite z = true)
    (hsmall : |value x| ≤ 2 ^ (1022 : Int)) (hsmall' : |value y| ≤ 2 ^ (1022 : Int)) (hlt : value x < value y)
    (hmiddle : (value x + value y) / 2 ≤ value z) (hbelow : value z < value y) :
    isFinite ((x + y) / 2.0) = true ∧ value x ≤ value ((x + y) / 2.0) ∧ value ((x + y) / 2.0) < value y := by
  obtain ⟨hxlow, hxhigh⟩ := abs_le.1 hsmall
  obtain ⟨hylow, hyhigh⟩ := abs_le.1 hsmall'
  have hdouble : (2 : ℚ) ^ (1023 : Int) = 2 ^ (1022 : Int) * 2 := zpow_add_one₀ two_ne_zero 1022
  have hsum : Faithful (x + y) (value x + value y) := by
    apply faithful_add hx hy
    rw [hdouble, abs_lt]
    constructor <;> linarith
  have hhalf := faithful_half hsum.finite
  refine ⟨hhalf.finite, ?_, ?_⟩
  · obtain ⟨twice, hfinite, htwice⟩ := exists_twice hx hsmall
    have hle := hsum.ge_of_ge twice hfinite (by linarith)
    exact hhalf.ge_of_ge x hx (by linarith)
  · obtain ⟨twice, hfinite, htwice⟩ := exists_twice hz (abs_le.2 ⟨by linarith, by linarith⟩)
    have hle := hsum.le_of_le twice hfinite (by linarith)
    exact (hhalf.le_of_le z hz (by linarith)).trans_lt hbelow

-- Between neighbours there is no double, and their middle may come out at the greater one.
example : ((1.0000000000000002 + 1.0000000000000004 : Float) / 2.0 == 1.0000000000000004) = true := by decide +kernel

end Decimal
end TableFlow
