import TableFlow.Proofs.Decimal.Rounding

/-!
# The values of doubles

A finite double `m * 2 ^ q` has a rational value, and what the machine says of doubles is said of these values: which
of two is less, which have no fractional part, and in what order they are sorted.  Two doubles of one value are one
double, but for the two zeros.

Main results:

- Definition `value`: the value of a finite double.
- Theorem `unpack_eq`: how a double is unpacked before it is compared.
- Theorems `lt_iff_value_lt`, `le_iff_value_le` and `beq_iff_value_eq`: comparing doubles compares their values.
- Theorem `value_le_of_rank_le`: the total order of doubles is the order of their values.
- Theorem `eq_of_value_eq`: doubles of one value other than zero are equal.
- Theorems `isIntegral_iff` and `integerPart_eq`: which doubles are whole, and what their integers are.
- Theorems `toBits_ofBits` and `ofFloat_ofQuotient`: what double has given bits, or is nearest to a quotient.
-/

namespace TableFlow
namespace Decimal

open Float.Model (Format UnpackedFloat)
open Float.Model.UnpackedFloat (Sign unpackExponent unpackMantissa unpackSign)

/-! ## Bits of doubles -/

/-- The exponent field of a word, as doubles are unpacked. -/
theorem toNat_unpackExponent (word : UInt64) :
    (@unpackExponent Format.binary64 word.toBitVec).toNat = word.toNat / leadingBit % 2048 := by
  have hfield : (@unpackExponent Format.binary64 word.toBitVec).toNat = (word.toNat >>> 52) % 2 ^ 11 := rfl
  rw [hfield, Nat.shiftRight_eq_div_pow]
  rfl

theorem toNat_unpackMantissa (word : UInt64) :
    (@unpackMantissa Format.binary64 word.toBitVec).toNat = word.toNat % leadingBit := by
  have hfield : (@unpackMantissa Format.binary64 word.toBitVec).toNat = (word.toNat >>> 0) % 2 ^ 52 := rfl
  rw [hfield, Nat.shiftRight_zero]
  rfl

theorem toNat_unpackSign (word : UInt64) :
    (@unpackSign Format.binary64 word.toBitVec).toNat = word.toNat / signBound % 2 := by
  have hfield : (@unpackSign Format.binary64 word.toBitVec).toNat = (word.toNat >>> 63) % 2 ^ 1 := rfl
  rw [hfield, Nat.shiftRight_eq_div_pow]
  rfl

/-- The mantissa with its leading bit. -/
theorem toNat_append_leadingBit (fraction : BitVec 52) : (1#1 ++ fraction).toNat = leadingBit + fraction.toNat := by
  rw [BitVec.toNat_append, ← Nat.shiftLeft_add_eq_or_of_lt fraction.isLt, Nat.shiftLeft_eq]
  rfl

/-- A double that is made of bits has these bits, unless they stand for no finite double. -/
theorem toBits_ofBits {word : UInt64} (h : word.toNat / leadingBit % 2048 ≠ 2047) :
    (Float.ofBits word).toBits = word := by
  -- Such a word is the word of a double as it stands; only what is not a number is given one word for all.
  have hvalid : Format.binary64.Valid word.toBitVec := by
    constructor
    intro hexponent
    have hfield := toNat_unpackExponent word
    rw [hexponent] at hfield
    exact absurd hfield.symm h
  have hbits : (Float.ofModel ⟨word, hvalid⟩).toBits = word := rfl
  rw [← hbits, Float.ofBits_toBits]

/-- The fields of the bits that are put together from an exponent and a fraction. -/
theorem ofBits_fields {field fraction : Nat} (hfield : field < 2047) (hfraction : fraction < leadingBit) :
    fraction + field * leadingBit < 2047 * leadingBit ∧
      Binary.ofBits (fraction + field * leadingBit) = Binary.ofFields false field fraction := by
  have hpos : 0 < leadingBit := by decide
  have hlt : fraction + field * leadingBit < 2047 * leadingBit := by
    calc fraction + field * leadingBit < (field + 1) * leadingBit := by
          rw [Nat.succ_mul]
          omega
      _ ≤ 2047 * leadingBit := Nat.mul_le_mul_right _ hfield
  have hsign : ¬signBound ≤ fraction + field * leadingBit := by
    have hbound : 2047 * leadingBit ≤ signBound := by decide
    omega
  refine ⟨hlt, ?_⟩
  rw [Binary.ofBits, decide_eq_false hsign, Nat.add_mul_div_right _ _ hpos, Nat.div_eq_of_lt hfraction, Nat.zero_add,
    Nat.mod_eq_of_lt (by omega), Nat.add_mul_mod_self_right, Nat.mod_eq_of_lt hfraction]

/-- The bits of a finite double are read as its mantissa and its exponent. -/
theorem ofBits_packBits {m : Nat} {q : Int} (h : IsDouble m q) :
    packBits m q < 2047 * leadingBit ∧ Binary.ofBits (packBits m q) = .finite false m q := by
  have hsmall := h.small
  have hgreatest := h.greatest
  have hleast : leastExponent = -1074 := rfl
  obtain ⟨e, he⟩ := Int.eq_ofNat_of_zero_le (sub_nonneg.2 h.least)
  have hexponent : (q - leastExponent).toNat = e := by omega
  rw [packBits, hexponent]
  by_cases hnormal : leadingBit ≤ m
  · obtain ⟨fraction, rfl⟩ := Nat.exists_eq_add_of_le hnormal
    have hfield : e + 1 < 2047 := by omega
    have hfraction : fraction < leadingBit := by omega
    obtain ⟨hlt, hfields⟩ := ofBits_fields hfield hfraction
    have hbits : leadingBit + fraction + e * leadingBit = fraction + (e + 1) * leadingBit := by ring
    rw [hbits, if_neg (Nat.not_le.2 hlt)]
    refine ⟨hlt, ?_⟩
    rw [hfields, Binary.ofFields, if_neg (by omega), if_neg (by omega)]
    congr 1
    omega
  · have hq : q = leastExponent := h.full.resolve_left hnormal
    have hfield : 0 < 2047 := by decide
    obtain ⟨hlt, hfields⟩ := ofBits_fields hfield (Nat.not_le.1 hnormal)
    obtain rfl : e = 0 := by omega
    rw [if_neg (Nat.not_le.2 hlt)]
    refine ⟨hlt, ?_⟩
    rw [hfields, Binary.ofFields, if_neg (by decide), if_pos rfl, hq]

/-- With the bit of the sign the bits are read as the negative double. -/
theorem ofBits_signed {bits m : Nat} {q : Int} (hlt : bits < signBound)
    (h : Binary.ofBits bits = .finite false m q) : Binary.ofBits (bits + signBound) = .finite true m q := by
  have hpos : 0 < leadingBit := by decide
  have hbound : signBound = 2048 * leadingBit := rfl
  rw [Binary.ofBits, decide_eq_false (Nat.not_le.2 hlt)] at h
  rw [Binary.ofBits, decide_eq_true (Nat.le_add_left _ _), hbound, Nat.add_mul_div_right _ _ hpos, Nat.add_mod_right,
    Nat.add_mul_mod_self_right]
  generalize bits / leadingBit % 2048 = field at h ⊢
  generalize bits % leadingBit = fraction at h ⊢
  rw [Binary.ofFields] at h ⊢
  split at h
  · split at h <;> cases h
  · next hones =>
      rw [if_neg hones]
      split at h
      · next hzero =>
          cases h
          rw [if_pos hzero]
      · next hzero =>
          cases h
          rw [if_neg hzero]

/-- The bits of a finite double make it. -/
theorem ofFloat_ofBits (negative : Bool) {m : Nat} {q : Int} (h : IsDouble m q) :
    Binary.ofFloat (Float.ofBits (UInt64.ofNat (if negative then packBits m q + signBound else packBits m q))) =
      .finite negative m q := by
  obtain ⟨hlt, hfields⟩ := ofBits_packBits h
  have hpos : 0 < leadingBit := by decide
  have hbound : signBound = 2048 * leadingBit := rfl
  have hword : ∀ bits < wordBound, (UInt64.ofNat bits).toNat = bits := fun bits => UInt64.toNat_ofNat_of_lt'
  have hfield : packBits m q / leadingBit % 2048 ≠ 2047 := by
    have hfield : packBits m q / leadingBit < 2047 := (Nat.div_lt_iff_lt_mul hpos).2 hlt
    exact ((Nat.mod_le _ _).trans_lt hfield).ne
  cases negative with
  | false =>
      have hpositive := hword (packBits m q) (hlt.trans (by decide))
      rw [if_neg Bool.false_ne_true, Binary.ofFloat, toBits_ofBits (by rwa [hpositive]), hpositive, hfields]
  | true =>
      have hnegative := hword (packBits m q + signBound) (Nat.add_lt_add_right hlt signBound |>.trans (by decide))
      have hsame : (packBits m q + signBound) / leadingBit % 2048 = packBits m q / leadingBit % 2048 := by
        rw [hbound, Nat.add_mul_div_right _ _ hpos, Nat.add_mod_right]
      rw [if_pos rfl, Binary.ofFloat, toBits_ofBits (by rwa [hnegative, hsame]), hnegative]
      exact ofBits_signed (hlt.trans_le (by decide)) hfields

/-- A quotient in the interval of a double becomes that double. -/
theorem ofFloat_ofQuotient (negative : Bool) {num den m : Nat} {q : Int} (hn : 0 < num) (hd : 0 < den)
    (h : IsDouble m q) (hv : Rounds m q (num / den)) :
    Binary.ofFloat (ofQuotient negative num den) = .finite negative m q := by
  simp only [ofQuotient, if_neg hn.ne', quotientBits_of_rounds hn hd h hv]
  exact ofFloat_ofBits negative h

/-! ## Values -/

/-- The value of a finite double; zero for all others. -/
def Binary.value : Binary → ℚ
  | .finite negative m q => if negative then -(m * 2 ^ q) else m * 2 ^ q
  | _ => 0

/-- The value of a finite double; zero for all others. -/
def value (x : Float) : ℚ :=
  (Binary.ofFloat x).value

theorem Binary.value_zero (negative : Bool) (q : Int) : (Binary.finite negative 0 q).value = 0 := by
  simp [Binary.value]

theorem value_of_ofFloat {x : Float} {b : Binary} (h : Binary.ofFloat x = b) : value x = b.value := by
  rw [value, h]

/-- The value of a double rounds to it. -/
theorem rounds_self (m : Nat) (q : Int) : Rounds m q (m * 2 ^ q) := by
  have hpow : (0 : ℚ) < 2 ^ q := by positivity
  have hreach : 0 < reachBelow m q := by
    unfold reachBelow
    split <;> norm_num
  have hlow : (m - reachBelow m q) * 2 ^ q < (m : ℚ) * 2 ^ q := by
    apply mul_lt_mul_of_pos_right _ hpow
    linarith
  have hhigh : (m : ℚ) * 2 ^ q < (m + 1 / 2) * 2 ^ q := by
    apply mul_lt_mul_of_pos_right _ hpow
    linarith
  exact ⟨hlow.le, hhigh.le, fun _ => ⟨hlow, hhigh⟩⟩

/-- Doubles are in the order of their exponents, and with one exponent in the order of their mantissas. -/
theorem IsDouble.value_lt {m n : Nat} {q r : Int} (hm : IsDouble m q) (hn : IsDouble n r)
    (h : q < r ∨ q = r ∧ m < n) : (m : ℚ) * 2 ^ q < n * 2 ^ r := by
  have hpow : (0 : ℚ) < 2 ^ q := by positivity
  rcases h with hlt | ⟨rfl, hlt⟩
  · have hleast : leastExponent < r := lt_of_le_of_lt hm.least hlt
    have hfull : leadingBit ≤ n := hn.full.resolve_right hleast.ne'
    have hsmall : (m : ℚ) < 2 * leadingBit := by exact_mod_cast hm.small
    calc (m : ℚ) * 2 ^ q < 2 * leadingBit * 2 ^ q := by gcongr
      _ = leadingBit * 2 ^ (q + 1) := by
        rw [zpow_add_one₀ two_ne_zero]
        ring
      _ ≤ n * 2 ^ r := by
        gcongr
        · norm_num
        · omega
  · gcongr

/-- Comparing the exponents and then the mantissas of two doubles compares their values. -/
theorem IsDouble.compare_eq {m n : Nat} {q r : Int} (hm : IsDouble m q) (hn : IsDouble n r) :
    (compare q r).then (compare m n) = compare ((m : ℚ) * 2 ^ q) (n * 2 ^ r) := by
  rcases lt_trichotomy q r with hlt | rfl | hgt
  · rw [compare_lt_iff_lt.2 hlt, compare_lt_iff_lt.2 (hm.value_lt hn (Or.inl hlt))]
    rfl
  · rw [compare_eq_iff_eq.2 rfl, Ordering.eq_then]
    rcases lt_trichotomy m n with hlt | rfl | hgt
    · rw [compare_lt_iff_lt.2 hlt, compare_lt_iff_lt.2 (hm.value_lt hn (Or.inr ⟨rfl, hlt⟩))]
    · rw [compare_eq_iff_eq.2 rfl, compare_eq_iff_eq.2 rfl]
    · rw [compare_gt_iff_gt.2 hgt, compare_gt_iff_gt.2 (hn.value_lt hm (Or.inr ⟨rfl, hgt⟩))]
  · rw [compare_gt_iff_gt.2 hgt, compare_gt_iff_gt.2 (hn.value_lt hm (Or.inl hgt))]
    rfl

theorem IsDouble.value_lt_iff {m n : Nat} {q r : Int} (hm : IsDouble m q) (hn : IsDouble n r) :
    (m : ℚ) * 2 ^ q < n * 2 ^ r ↔ q < r ∨ q = r ∧ m < n := by
  rw [← compare_lt_iff_lt, ← hm.compare_eq hn, Ordering.then_eq_lt, compare_lt_iff_lt, compare_eq_iff_eq,
    compare_lt_iff_lt]

/-- Doubles of one value have one mantissa and one exponent. -/
theorem IsDouble.eq_of_value_eq {m n : Nat} {q r : Int} (hm : IsDouble m q) (hn : IsDouble n r)
    (h : (m : ℚ) * 2 ^ q = n * 2 ^ r) : m = n ∧ q = r := by
  have hcompare := hm.compare_eq hn
  rw [compare_eq_iff_eq.2 h, Ordering.then_eq_eq] at hcompare
  exact ⟨compare_eq_iff_eq.1 hcompare.2, compare_eq_iff_eq.1 hcompare.1⟩

/-- Doubles of one value are equal, unless both are zeros. -/
theorem eq_of_value_eq {x y : Float} (hx : isFinite x = true) (hy : isFinite y = true) (h : value x = value y)
    (hzero : value x ≠ 0) : x = y := by
  obtain ⟨b, m, q, hfloat⟩ := exists_of_isFinite hx
  obtain ⟨c, n, r, hfloat'⟩ := exists_of_isFinite hy
  obtain ⟨hm, hbits⟩ := isDouble_of_ofFloat hfloat
  obtain ⟨hn, hbits'⟩ := isDouble_of_ofFloat hfloat'
  rw [value_of_ofFloat hfloat] at h hzero
  rw [value_of_ofFloat hfloat'] at h
  have hmag : (0 : ℚ) ≤ m * 2 ^ q := by positivity
  have hmag' : (0 : ℚ) ≤ n * 2 ^ r := by positivity
  have hsame : b = c ∧ (m : ℚ) * 2 ^ q = n * 2 ^ r := by
    cases b <;> cases c <;> simp only [Binary.value, Bool.false_eq_true, if_true, if_false] at h hzero
    · exact ⟨rfl, h⟩
    · exact absurd (le_antisymm (by linarith) hmag) hzero
    · exact absurd (by linarith) hzero
    · exact ⟨rfl, neg_inj.1 h⟩
  obtain ⟨rfl, heq⟩ := hsame
  obtain ⟨rfl, rfl⟩ := hm.eq_of_value_eq hn heq
  apply Float.toBits_inj.1
  apply UInt64.toNat_inj.1
  rw [hbits, hbits']

/-! ## Comparing doubles -/

/-- The sign of an unpacked double. -/
def signOf (negative : Bool) : Sign :=
  if negative then .negative else .positive

/-- A double as it is unpacked. -/
def Binary.unpacked : Binary → UnpackedFloat
  | .nan => .notANumber
  | .infinite negative => .infinity (signOf negative)
  | .finite negative m q => if h : 0 < m then .finite (signOf negative) m q h else .zero (signOf negative)

theorem ofBitVec_unpackSign (word : UInt64) :
    Sign.ofBitVec (@unpackSign Format.binary64 word.toBitVec) = signOf (signBound ≤ word.toNat) := by
  have hlt := word.toNat_lt
  have hsign := toNat_unpackSign word
  have hbound : signBound = 9223372036854775808 := rfl
  have hbit : ∀ bit : BitVec 1, word.toNat / signBound % 2 = bit.toNat →
      @unpackSign Format.binary64 word.toBitVec = bit := fun bit heq =>
    BitVec.eq_of_toNat_eq (hsign.trans heq)
  by_cases h : signBound ≤ word.toNat
  · have hnegative : word.toNat / signBound % 2 = 1 := by
      rw [hbound] at h ⊢
      omega
    rw [hbit 1#1 hnegative, decide_eq_true h]
    rfl
  · have hpositive : word.toNat / signBound % 2 = 0 := by
      rw [hbound] at h ⊢
      omega
    rw [hbit 0#1 hpositive, decide_eq_false h]
    rfl

/-- A double is unpacked to its fields. -/
theorem unpack_eq (x : Float) : x.toModel.unpack = (Binary.ofFloat x).unpacked := by
  show UnpackedFloat.unpack Format.binary64 x.toBits.toBitVec = _
  rw [Binary.ofFloat, Binary.ofBits, Binary.ofFields]
  generalize x.toBits = word
  have hexponent := toNat_unpackExponent word
  have hmantissa := toNat_unpackMantissa word
  have hones : @unpackExponent Format.binary64 word.toBitVec = -1#_ ↔ word.toNat / leadingBit % 2048 = 2047 := by
    rw [← hexponent, BitVec.toNat_eq]
    rfl
  have hleast : @unpackExponent Format.binary64 word.toBitVec = 0#_ ↔ word.toNat / leadingBit % 2048 = 0 := by
    rw [← hexponent, BitVec.toNat_eq]
    rfl
  have hzero : @unpackMantissa Format.binary64 word.toBitVec = 0#_ ↔ word.toNat % leadingBit = 0 := by
    rw [← hmantissa, BitVec.toNat_eq]
    rfl
  have hbias : (Format.binary64.exponentBias + Format.binary64.mantissaBitsWithoutImplicit : Int) = 1075 := rfl
  have hexp : leastExponent = -1074 := rfl
  unfold UnpackedFloat.unpack
  simp only [hones, hleast, hzero, ofBitVec_unpackSign]
  split
  · split <;> rfl
  · split
    · next hfield =>
        split
        · next h => rw [Binary.unpacked, dif_neg (by omega)]
        · next h =>
            rw [Binary.unpacked, dif_pos (Nat.pos_of_ne_zero h), UnpackedFloat.finite.injEq]
            refine ⟨rfl, hmantissa, ?_⟩
            rw [hexponent, hbias, hexp, hfield]
            rfl
    · have hpos : 0 < leadingBit + word.toNat % leadingBit := Nat.add_pos_left (by decide) _
      rw [Binary.unpacked, dif_pos hpos, UnpackedFloat.finite.injEq]
      refine ⟨rfl, ?_, ?_⟩
      · rw [← hmantissa]
        exact toNat_append_leadingBit _
      · rw [hexponent, hbias, hexp]
        omega

theorem compare_neg (a b : ℚ) : compare (-a) (-b) = (compare a b).swap := by
  rcases lt_trichotomy a b with hlt | rfl | hgt
  · rw [compare_gt_iff_gt.2 (neg_lt_neg hlt), compare_lt_iff_lt.2 hlt]
    rfl
  · rw [compare_eq_iff_eq.2 rfl, compare_eq_iff_eq.2 rfl]
    rfl
  · rw [compare_lt_iff_lt.2 (neg_lt_neg hgt), compare_gt_iff_gt.2 hgt]
    rfl

/-- Unpacked doubles are compared by their values: by their signs first, and if they have one sign by their
exponents and mantissas. -/
theorem compare_unpacked {b c : Bool} {m n : Nat} {q r : Int} (hm : IsDouble m q) (hn : IsDouble n r) :
    (Binary.finite b m q).unpacked.compare (Binary.finite c n r).unpacked =
      some (compare (Binary.finite b m q).value (Binary.finite c n r).value) := by
  rcases Nat.eq_zero_or_pos m with rfl | hmpos
  · rcases Nat.eq_zero_or_pos n with rfl | hnpos
    · cases b <;> cases c <;> simp [Binary.unpacked, Binary.value, UnpackedFloat.compare]
    · have hpos : (0 : ℚ) < n * 2 ^ r := by positivity
      cases b <;> cases c <;> simp [Binary.unpacked, Binary.value, UnpackedFloat.compare, signOf, hnpos,
        compare_lt_iff_lt.2 hpos, compare_gt_iff_gt.2 (neg_lt_zero.2 hpos)]
  · have hpos : (0 : ℚ) < m * 2 ^ q := by positivity
    rcases Nat.eq_zero_or_pos n with rfl | hnpos
    · cases b <;> cases c <;> simp [Binary.unpacked, Binary.value, UnpackedFloat.compare, signOf, hmpos,
        compare_gt_iff_gt.2 hpos, compare_lt_iff_lt.2 (neg_lt_zero.2 hpos)]
    · have hpos' : (0 : ℚ) < n * 2 ^ r := by positivity
      have hbelow : -((m : ℚ) * 2 ^ q) < n * 2 ^ r := by linarith
      have habove : -((n : ℚ) * 2 ^ r) < m * 2 ^ q := by linarith
      cases b <;> cases c <;> simp [Binary.unpacked, Binary.value, UnpackedFloat.compare, signOf, hmpos, hnpos,
        compare_neg, hm.compare_eq hn, compare_lt_iff_lt.2 hbelow, compare_gt_iff_gt.2 habove]

/-- Finite doubles are compared by their values. -/
theorem compare_eq {x y : Float} (hx : isFinite x = true) (hy : isFinite y = true) :
    x.toModel.unpack.compare y.toModel.unpack = some (compare (value x) (value y)) := by
  obtain ⟨b, m, q, hfloat⟩ := exists_of_isFinite hx
  obtain ⟨c, n, r, hfloat'⟩ := exists_of_isFinite hy
  rw [unpack_eq, unpack_eq, value, value, hfloat, hfloat']
  exact compare_unpacked (isDouble_of_ofFloat hfloat).1 (isDouble_of_ofFloat hfloat').1

section

variable {x y : Float} (hx : isFinite x = true) (hy : isFinite y = true)

include hx hy

theorem lt_iff_value_lt : x < y ↔ value x < value y := by
  have hlt : x < y ↔ x.toModel.unpack.lt y.toModel.unpack = true := by
    show Float.lt x y = true ↔ _
    exact decide_eq_true_iff
  rw [hlt, UnpackedFloat.lt, compare_eq hx hy, ← compare_lt_iff_lt]
  simp

theorem le_iff_value_le : x ≤ y ↔ value x ≤ value y := by
  have hle : x ≤ y ↔ x.toModel.unpack.le y.toModel.unpack = true := by
    show Float.le x y = true ↔ _
    exact decide_eq_true_iff
  rw [hle, UnpackedFloat.le, compare_eq hx hy, ← compare_le_iff_le]
  simp [Ordering.isLE_iff_ne_gt]

theorem beq_iff_value_eq : (x == y) = true ↔ value x = value y := by
  have hbeq : (x == y) = x.toModel.unpack.beq y.toModel.unpack := rfl
  rw [hbeq, UnpackedFloat.beq, compare_eq hx hy, ← compare_eq_iff_eq]
  simp

end

/-! ## The total order -/

/-- The bits of finite doubles without signs are in the order of their values. -/
theorem packBits_lt {m n : Nat} {q r : Int} (hm : IsDouble m q) (hn : IsDouble n r)
    (h : (m : ℚ) * 2 ^ q < n * 2 ^ r) : packBits m q < packBits n r := by
  have hlex := (hm.value_lt_iff hn).1 h
  have hfinite := (ofBits_packBits hm).1
  have hfinite' := (ofBits_packBits hn).1
  have hleast := hm.least
  have hsmall := hm.small
  simp only [packBits] at hfinite hfinite' ⊢
  split at hfinite
  · exact absurd hfinite (lt_irrefl _)
  split at hfinite'
  · exact absurd hfinite' (lt_irrefl _)
  rw [if_neg (Nat.not_le.2 hfinite), if_neg (Nat.not_le.2 hfinite')]
  rcases hlex with hlt | ⟨rfl, hlt⟩
  · have hfull : leadingBit ≤ n := hn.full.resolve_right (hleast.trans_lt hlt).ne'
    have hsteps : (q - leastExponent).toNat + 1 ≤ (r - leastExponent).toNat := by omega
    calc m + (q - leastExponent).toNat * leadingBit
        < leadingBit + ((q - leastExponent).toNat + 1) * leadingBit := by
          rw [Nat.succ_mul]
          omega
      _ ≤ n + (r - leastExponent).toNat * leadingBit :=
          Nat.add_le_add hfull (Nat.mul_le_mul_right _ hsteps)
  · omega

/-- The place of a finite double in the total order, by its sign and its bits without the sign. -/
theorem rank_of_ofFloat {x : Float} {negative : Bool} {m : Nat} {q : Int}
    (h : Binary.ofFloat x = .finite negative m q) :
    rank x = if negative then -(packBits m q : Int) - 1 else packBits m q := by
  obtain ⟨hdouble, hbits⟩ := isDouble_of_ofFloat h
  have hlt : packBits m q < signBound := (ofBits_packBits hdouble).1.trans_le (by decide)
  have hrank : rank x = if signBound ≤ x.toBits.toNat then -((x.toBits.toNat : Int) - signBound) - 1
      else x.toBits.toNat := rfl
  rw [hrank, hbits]
  cases negative with
  | true =>
      rw [if_pos rfl, if_pos rfl, if_pos (Nat.le_add_left _ _), Nat.cast_add, add_sub_cancel_right]
  | false =>
      rw [if_neg Bool.false_ne_true, if_neg Bool.false_ne_true, Nat.add_zero, if_neg (Nat.not_le.2 hlt)]

/-- The total order of doubles is the order of their values. -/
theorem value_le_of_rank_le {x y : Float} (hx : isFinite x = true) (hy : isFinite y = true) (h : rank x ≤ rank y) :
    value x ≤ value y := by
  obtain ⟨b, m, q, hfloat⟩ := exists_of_isFinite hx
  obtain ⟨c, n, r, hfloat'⟩ := exists_of_isFinite hy
  have hm := (isDouble_of_ofFloat hfloat).1
  have hn := (isDouble_of_ofFloat hfloat').1
  rw [rank_of_ofFloat hfloat, rank_of_ofFloat hfloat'] at h
  rw [value_of_ofFloat hfloat, value_of_ofFloat hfloat']
  have hpos : (0 : ℚ) ≤ m * 2 ^ q := by positivity
  have hpos' : (0 : ℚ) ≤ n * 2 ^ r := by positivity
  cases b with
  | false =>
      cases c with
      | false =>
          simp only [Binary.value, Bool.false_eq_true, if_false] at h ⊢
          by_contra hgt
          have := packBits_lt hn hm (not_le.1 hgt)
          omega
      | true =>
          simp only [Bool.false_eq_true, if_false, if_true] at h
          omega
  | true =>
      cases c with
      | false =>
          simp only [Binary.value, Bool.false_eq_true, if_false, if_true]
          linarith
      | true =>
          simp only [Binary.value, if_true] at h ⊢
          apply neg_le_neg
          by_contra hgt
          have := packBits_lt hm hn (not_le.1 hgt)
          omega

/-- So the first of two doubles in this order is below the second, unless they are equal. -/
theorem lt_of_rank_le {x y : Float} (hx : isFinite x = true) (hy : isFinite y = true) (h : rank x ≤ rank y)
    (hne : ¬(x == y) = true) : x < y := by
  rw [beq_iff_value_eq hx hy] at hne
  exact (lt_iff_value_lt hx hy).2 (lt_of_le_of_ne (value_le_of_rank_le hx hy h) hne)

/-! ## Absolute values -/

/-- What is packed from the fields of a double is the double of these fields. -/
theorem ofFloat_pack (negative : Bool) {m : Nat} {q : Int} (h : IsDouble m q) :
    Binary.ofFloat (Float.ofModel (.pack (Binary.finite negative m q).unpacked)) = .finite negative m q := by
  have hfloat := ofFloat_ofBits negative h
  generalize Float.ofBits (UInt64.ofNat (if negative then packBits m q + signBound else packBits m q)) = x at hfloat
  have hpack : Float.ofModel (.pack x.toModel.unpack) = x := Float.ofBits_toBits x
  rw [← hfloat, ← unpack_eq, hpack]

/-- The absolute value of a finite double. -/
theorem ofFloat_abs {x : Float} {negative : Bool} {m : Nat} {q : Int} (h : Binary.ofFloat x = .finite negative m q) :
    Binary.ofFloat x.abs = .finite false m q := by
  have habs : x.toModel.unpack.abs = (Binary.finite false m q).unpacked := by
    rw [unpack_eq, h]
    rcases Nat.eq_zero_or_pos m with rfl | hpos
    · rfl
    · rw [Binary.unpacked, Binary.unpacked, dif_pos hpos, dif_pos hpos]
      rfl
  have hsame : x.abs = Float.ofModel (.pack x.toModel.unpack.abs) := rfl
  rw [hsame, habs, ofFloat_pack false (isDouble_of_ofFloat h).1]

theorem isFinite_abs {x : Float} (h : isFinite x = true) : isFinite x.abs = true := by
  obtain ⟨negative, m, q, hfloat⟩ := exists_of_isFinite h
  rw [isFinite, ofFloat_abs hfloat]

/-- The magnitude of a finite value, from its mantissa and its exponent. -/
theorem Binary.abs_value_finite (negative : Bool) (m : Nat) (q : Int) : |(Binary.finite negative m q).value| = m * 2 ^ q := by
  have hpos : (0 : ℚ) ≤ m * 2 ^ q := by positivity
  cases negative with
  | false => exact abs_of_nonneg hpos
  | true => exact (abs_neg _).trans (abs_of_nonneg hpos)

theorem value_abs {x : Float} (h : isFinite x = true) : value x.abs = |value x| := by
  obtain ⟨negative, m, q, hfloat⟩ := exists_of_isFinite h
  rw [value_of_ofFloat hfloat, value_of_ofFloat (ofFloat_abs hfloat), Binary.abs_value_finite]
  rfl

/-! ## Whole doubles -/

/-- The value of a double is whole if its mantissa ends in as many zero bits as stand after the point. -/
theorem isIntegral_iff {x : Float} (h : isFinite x = true) :
    isIntegral x = true ↔ ∃ n : Int, value x = n := by
  obtain ⟨negative, m, q, hfloat⟩ := exists_of_isFinite h
  have hsign : (∃ n : Int, value x = n) ↔ ∃ n : Int, (m : ℚ) * 2 ^ q = n := by
    rw [value_of_ofFloat hfloat]
    cases negative with
    | false => rfl
    | true =>
        constructor
        · rintro ⟨n, hn⟩
          exact ⟨-n, by rw [Int.cast_neg, ← hn]; exact (neg_neg _).symm⟩
        · rintro ⟨n, hn⟩
          exact ⟨-n, by rw [Int.cast_neg, ← hn]; rfl⟩
  rw [hsign, isIntegral, hfloat]
  by_cases hq : 0 ≤ q
  · obtain ⟨k, rfl⟩ := Int.eq_ofNat_of_zero_le hq
    simp only [hq, decide_true, Bool.true_or, true_iff]
    exact ⟨(m * 2 ^ k : Nat), by push_cast; rfl⟩
  · obtain ⟨k, rfl⟩ : ∃ k : Nat, q = -k := ⟨(-q).toNat, by omega⟩
    have hpow : (2 : ℚ) ^ k ≠ 0 := by positivity
    simp only [hq, decide_false, Bool.false_or, neg_neg, Int.toNat_natCast, beq_iff_eq, Nat.pow_eq]
    rw [← Nat.dvd_iff_mod_eq_zero]
    constructor
    · rintro ⟨n, rfl⟩
      refine ⟨n, ?_⟩
      rw [zpow_neg, zpow_natCast]
      push_cast
      field_simp
    · rintro ⟨n, hn⟩
      rw [zpow_neg, zpow_natCast, mul_inv_eq_iff_eq_mul₀ hpow] at hn
      have hmul : (m : Int) = n * 2 ^ k := by exact_mod_cast hn
      exact Int.natCast_dvd_natCast.1 ⟨n, by rw [hmul]; push_cast; ring⟩

/-- The integer part of a whole double is its value. -/
theorem integerPart_eq {x : Float} {n : Int} (h : isFinite x = true) (hn : value x = n) : integerPart x = n := by
  obtain ⟨negative, m, q, hfloat⟩ := exists_of_isFinite h
  have hpart : ∀ a : Int, (m : ℚ) * 2 ^ q = a →
      (if 0 ≤ q then (m * Nat.pow 2 q.toNat : Nat) else (m / Nat.pow 2 (-q).toNat : Nat) : Int) = a := by
    intro a ha
    by_cases hq : 0 ≤ q
    · obtain ⟨k, rfl⟩ := Int.eq_ofNat_of_zero_le hq
      rw [if_pos hq, Int.toNat_natCast, Nat.pow_eq]
      rw [zpow_natCast] at ha
      exact_mod_cast ha
    · obtain ⟨k, rfl⟩ : ∃ k : Nat, q = -k := ⟨(-q).toNat, by omega⟩
      have hpow : (2 : ℚ) ^ k ≠ 0 := by positivity
      rw [zpow_neg, zpow_natCast, mul_inv_eq_iff_eq_mul₀ hpow] at ha
      have hmul : (m : Int) = a * 2 ^ k := by exact_mod_cast ha
      rw [if_neg hq, neg_neg, Int.toNat_natCast, Nat.pow_eq, Int.natCast_ediv, hmul]
      push_cast
      exact Int.mul_ediv_cancel _ (by positivity)
  rw [value_of_ofFloat hfloat] at hn
  rw [integerPart, hfloat]
  cases negative with
  | false => exact hpart n hn
  | true =>
      have hneg : (m : ℚ) * 2 ^ q = (-n : Int) := by
        rw [Int.cast_neg, ← hn]
        exact (neg_neg _).symm
      simp only [if_true, hpart (-n) hneg, neg_neg]

end Decimal
end TableFlow
