import TableFlow.Proofs.Decimal.Value

/-!
# Nearest doubles

Every rational number that is not very large rounds to a double: counted in the last bit of the double, it is rounded to
the nearest natural number.  No double lies between a number and the one that it rounds to, so that rounding keeps the
order of numbers.

Main results:

- Structure `Nearest`: the natural number that is nearest to a rational one.
- Theorem `rounds_of_nearest`: what a number rounds to, from the place of its last bit.
- Theorem `ofFloat_ofInt`: what double an integer becomes.
- Structure `Faithful`: no double lies between a number and a given double.
- Theorem `faithful_of_rounds`: this holds of what a number rounds to.
-/

namespace TableFlow
namespace Decimal

/-! ## Nearest natural numbers -/

/-- The natural number nearest to a rational one, and the even one of two. -/
structure Nearest (m : Nat) (v : ℚ) : Prop where
  low : (m - 1 / 2 : ℚ) ≤ v
  high : v ≤ m + 1 / 2
  inside : m % 2 = 1 → (m - 1 / 2 : ℚ) < v ∧ v < m + 1 / 2

theorem exists_nearest {v : ℚ} (h : 0 ≤ v) : ∃ m, Nearest m v := by
  have hfloor := Nat.floor_le h
  have hnext := Nat.lt_floor_add_one v
  generalize ⌊v⌋₊ = k at hfloor hnext
  rcases lt_trichotomy v (k + 1 / 2) with hlt | heq | hgt
  · exact ⟨k, by linarith, hlt.le, fun _ => ⟨by linarith, hlt⟩⟩
  · rcases Nat.mod_two_eq_zero_or_one k with heven | hodd
    · exact ⟨k, by linarith, heq.le, fun hodd => by omega⟩
    · exact ⟨k + 1, by push_cast; linarith, by push_cast; linarith, fun heven => by omega⟩
  · exact ⟨k + 1, by push_cast; linarith, by push_cast; linarith, fun _ =>
      ⟨by push_cast; linarith, by push_cast; linarith⟩⟩

/-! ## Rounding to doubles -/

/-- A full mantissa and one more is the next power of two. -/
theorem two_zpow_add_53 (q : Int) : (2 : ℚ) ^ (q + 53) = 2 * leadingBit * 2 ^ q := by
  rw [zpow_add₀ two_ne_zero, leadingBit_cast, mul_comm]
  norm_num

section

variable {v : ℚ} {m : Nat} {q : Int}

/-- A number below the next power of two is rounded to a full mantissa and one more, at most. -/
theorem Nearest.le_two_leadingBit (hnear : Nearest m (v / 2 ^ q)) (hnext : v < 2 ^ (q + 53)) : m ≤ 2 * leadingBit := by
  have hpow : (0 : ℚ) < 2 ^ q := by positivity
  rw [two_zpow_add_53] at hnext
  have hlt : v / 2 ^ q < 2 * leadingBit := (div_lt_iff₀ hpow).2 hnext
  have hlow := hnear.low
  have hcast : (m : ℚ) < (2 * leadingBit + 1 : Nat) := by
    push_cast
    linarith
  exact Nat.lt_succ_iff.1 (by exact_mod_cast hcast)

/-- A number is rounded to the double whose mantissa is nearest to it, counted in the last bit. -/
theorem rounds_of_nearest (hnear : Nearest m (v / 2 ^ q)) (hleast : leastExponent ≤ q) (hgreatest : q ≤ 971)
    (hfirst : q = leastExponent ∨ (2 : ℚ) ^ (q + 52) ≤ v) (hsmall : m < 2 * leadingBit) :
    IsDouble m q ∧ Rounds m q v := by
  have hpow : (0 : ℚ) < 2 ^ q := by positivity
  obtain ⟨hlow, hhigh, hodd⟩ := hnear
  rw [le_div_iff₀ hpow] at hlow
  rw [div_le_iff₀ hpow] at hhigh
  rw [lt_div_iff₀ hpow, div_lt_iff₀ hpow] at hodd
  have hreach : (m - reachBelow m q) * 2 ^ q ≤ v := by
    unfold reachBelow
    split
    · next hdense =>
        have hbelow := hfirst.resolve_left hdense.2.ne'
        rw [two_zpow_add_52, ← leadingBit_cast, ← hdense.1] at hbelow
        linarith
    · exact hlow
  have hfull : leadingBit ≤ m ∨ q = leastExponent := by
    rw [or_iff_not_imp_right]
    intro hne
    have hbelow := hfirst.resolve_left hne
    rw [two_zpow_add_52, ← leadingBit_cast] at hbelow
    have hle : (leadingBit : ℚ) ≤ m + 1 / 2 := le_of_mul_le_mul_right (hbelow.trans hhigh) hpow
    have hcast : (leadingBit : ℚ) < (m + 1 : Nat) := by
      push_cast
      linarith
    exact Nat.lt_succ_iff.1 (by exact_mod_cast hcast)
  refine ⟨⟨hsmall, hleast, hgreatest, hfull⟩, hreach, hhigh, fun hone => ?_⟩
  have heven : leadingBit % 2 = 0 := rfl
  rw [reachBelow, if_neg (by omega)]
  exact hodd hone

/-- A mantissa that is full and one more is the first one of the next exponent. -/
theorem rounds_of_carry (hnear : Nearest (2 * leadingBit) (v / 2 ^ q)) (hleast : leastExponent ≤ q) (hgreatest : q < 971)
    (hnext : v < 2 ^ (q + 53)) : IsDouble leadingBit (q + 1) ∧ Rounds leadingBit (q + 1) v := by
  have hpow : (0 : ℚ) < 2 ^ q := by positivity
  have heven : leadingBit % 2 = 0 := rfl
  have hdouble : (2 : ℚ) ^ (q + 1) = 2 * 2 ^ q := by
    rw [zpow_add_one₀ two_ne_zero, mul_comm]
  have hlow := hnear.low
  rw [le_div_iff₀ hpow] at hlow
  push_cast at hlow
  rw [two_zpow_add_53] at hnext
  refine ⟨⟨by decide, by omega, by omega, Or.inl le_rfl⟩, ?_, ?_, fun hone => by omega⟩
  · rw [reachBelow, if_pos ⟨rfl, by omega⟩, hdouble]
    linarith
  · rw [hdouble]
    linarith

end

/-- Every quotient that is not very large rounds to a double. -/
theorem exists_rounds {num den : Nat} (hn : 0 < num) (hd : 0 < den) (h : (num / den : ℚ) < 2 ^ (1023 : Int)) :
    ∃ m q, IsDouble m q ∧ Rounds m q (num / den) := by
  obtain ⟨e, -, hbelow, habove⟩ := lastBit_eq_max hn hd
  have hexp : leastExponent = -1074 := rfl
  have hlarge : e + 52 < 1023 := (zpow_lt_zpow_iff_right₀ one_lt_two).1 (hbelow.trans_lt h)
  have hv : (0 : ℚ) ≤ num / den := by positivity
  obtain ⟨q, hq⟩ : ∃ q, q = max e leastExponent := ⟨_, rfl⟩
  have hnext : (num / den : ℚ) < 2 ^ (q + 53) := habove.trans_le (zpow_le_zpow_right₀ one_le_two (by omega))
  have hfirst : q = leastExponent ∨ (2 : ℚ) ^ (q + 52) ≤ num / den := by
    rcases le_total e leastExponent with hle | hle
    · exact Or.inl (by omega)
    · obtain rfl : q = e := by omega
      exact Or.inr hbelow
  obtain ⟨m, hnear⟩ := exists_nearest (div_nonneg hv (by positivity : (0 : ℚ) ≤ 2 ^ q))
  rcases (hnear.le_two_leadingBit hnext).eq_or_lt with rfl | hsmall
  · exact ⟨_, _, rounds_of_carry hnear (by omega) (by omega) hnext⟩
  · exact ⟨_, _, rounds_of_nearest hnear (by omega) (by omega) hfirst hsmall⟩

/-! ## Doubles of integers -/

/-- An integer that is the value of a double becomes this value. -/
theorem value_ofInt {n : Int} {x : Float} (h : isFinite x = true) (hn : value x = n) : value (ofInt n) = n := by
  by_cases hzero : n = 0
  · subst hzero
    have hofInt : Binary.ofFloat (ofInt 0) = .finite false 0 leastExponent := by decide +kernel
    rw [value_of_ofFloat hofInt]
    exact (Binary.value_zero _ _).trans Int.cast_zero.symm
  obtain ⟨negative, m, q, hfloat⟩ := exists_of_isFinite h
  have hvalue := hn
  rw [value_of_ofFloat hfloat] at hvalue
  have hmag : (0 : ℚ) ≤ m * 2 ^ q := by positivity
  have hsign : decide (n < 0) = negative ∧ ((n.natAbs : Nat) : ℚ) / (1 : Nat) = m * 2 ^ q := by
    rw [Nat.cast_one, div_one]
    have hcast : ((n.natAbs : Nat) : ℚ) = |(n : ℚ)| := by rw [Nat.cast_natAbs, Int.cast_abs]
    rw [hcast]
    cases negative with
    | false =>
        have hvalue' : (m : ℚ) * 2 ^ q = n := hvalue
        rw [hvalue'] at hmag ⊢
        have hnonneg : 0 ≤ n := by exact_mod_cast hmag
        exact ⟨decide_eq_false (not_lt.2 hnonneg), abs_of_nonneg hmag⟩
    | true =>
        have hvalue' : (m : ℚ) * 2 ^ q = -n := by
          rw [← hvalue]
          exact (neg_neg _).symm
        rw [hvalue'] at hmag ⊢
        have hnonpos : (n : ℚ) ≤ 0 := by linarith
        have hneg : n < 0 := lt_of_le_of_ne (by exact_mod_cast hnonpos) hzero
        exact ⟨decide_eq_true hneg, abs_of_nonpos hnonpos⟩
  rw [ofInt, hsign.1, ofQuotient_of_rounds hfloat (Int.natAbs_pos.2 hzero) Nat.one_pos, hn]
  rw [hsign.2]
  exact rounds_self m q

/-- An integer of at most 64 bits becomes a double that it rounds to. -/
theorem ofFloat_ofInt {n : Int} (hn : n ≠ 0) (h : n.natAbs < wordBound) :
    ∃ m q, Binary.ofFloat (ofInt n) = .finite (decide (n < 0)) m q ∧ IsDouble m q ∧ Rounds m q n.natAbs := by
  have hpos : 0 < n.natAbs := Int.natAbs_pos.2 hn
  have hbound : ((n.natAbs : Nat) / (1 : Nat) : ℚ) < 2 ^ (1023 : Int) := by
    have hcast : (n.natAbs : ℚ) < (2 : ℚ) ^ (64 : Int) := by exact_mod_cast h
    rw [Nat.cast_one, div_one]
    exact hcast.trans (zpow_lt_zpow_right₀ one_lt_two (by decide))
  obtain ⟨m, q, hdouble, hrounds⟩ := exists_rounds hpos Nat.one_pos hbound
  refine ⟨m, q, ofFloat_ofQuotient _ hpos Nat.one_pos hdouble hrounds, hdouble, ?_⟩
  rwa [Nat.cast_one, div_one] at hrounds

/-- An integer of at most 64 bits becomes a finite double. -/
theorem isFinite_ofInt {n : Int} (h : n.natAbs < wordBound) : isFinite (ofInt n) = true := by
  by_cases hzero : n = 0
  · rw [hzero]
    decide +kernel
  · obtain ⟨m, q, hfloat, -⟩ := ofFloat_ofInt hzero h
    rw [isFinite, hfloat]

/-! ## No double in between -/

section

variable {m n : Nat} {q r : Int} {v : ℚ}

/-- A double above another one is above it by one in the last bit of that one at least. -/
theorem IsDouble.succ_le (hm : IsDouble m q) (hn : IsDouble n r) (h : (m : ℚ) * 2 ^ q < n * 2 ^ r) :
    ((m : ℚ) + 1) * 2 ^ q ≤ n * 2 ^ r := by
  rcases (hm.value_lt_iff hn).1 h with hlt | ⟨rfl, hlt⟩
  · have hfull : leadingBit ≤ n := hn.full.resolve_right (hm.least.trans_lt hlt).ne'
    have hsmall : (m : ℚ) + 1 ≤ 2 * leadingBit := by exact_mod_cast hm.small
    calc ((m : ℚ) + 1) * 2 ^ q ≤ 2 * leadingBit * 2 ^ q := by gcongr
      _ = leadingBit * 2 ^ (q + 1) := by
        rw [zpow_add_one₀ two_ne_zero]
        ring
      _ ≤ n * 2 ^ r := by
        gcongr
        · norm_num
        · omega
  · gcongr
    exact_mod_cast hlt

/-- A double with a less exponent is below the first mantissa of the greater one, by half a step at least. -/
theorem IsDouble.le_of_lt_exponent (hn : IsDouble n r) (h : r < q) :
    (n : ℚ) * 2 ^ r ≤ (leadingBit - 1 / 2) * 2 ^ q := by
  have hsmall : (n : ℚ) ≤ 2 * leadingBit - 1 := by
    rw [le_sub_iff_add_le]
    exact_mod_cast hn.small
  have hpos : (0 : ℚ) ≤ leadingBit - 1 / 2 := by
    rw [leadingBit_cast]
    norm_num
  calc (n : ℚ) * 2 ^ r ≤ (2 * leadingBit - 1) * 2 ^ r := by gcongr
    _ = (leadingBit - 1 / 2) * 2 ^ (r + 1) := by
      rw [zpow_add_one₀ two_ne_zero]
      ring
    _ ≤ (leadingBit - 1 / 2) * 2 ^ q := by
      gcongr
      · norm_num
      · omega

/-- Twice what rounds to a double from below is half a step for the first mantissa, and one step for the others. -/
theorem IsDouble.le_sub_reachBelow (hm : IsDouble m q) (h : leastExponent < q) :
    (leadingBit - 1 / 2 : ℚ) ≤ m - 2 * reachBelow m q := by
  unfold reachBelow
  split
  · next hdense =>
      rw [hdense.1]
      linarith
  · next hdense =>
      have hfull : leadingBit ≤ m := hm.full.resolve_right h.ne'
      have hmore : leadingBit + 1 ≤ m := Nat.lt_of_le_of_ne hfull fun heq => hdense ⟨heq.symm, h⟩
      have hcast : (leadingBit : ℚ) + 1 ≤ m := by exact_mod_cast hmore
      linarith

/-- A double below another one is below it by twice what rounds to that one from below at least. -/
theorem IsDouble.le_pred (hm : IsDouble m q) (hn : IsDouble n r) (h : (n : ℚ) * 2 ^ r < m * 2 ^ q) :
    (n : ℚ) * 2 ^ r ≤ (m - 2 * reachBelow m q) * 2 ^ q := by
  rcases (hn.value_lt_iff hm).1 h with hlt | ⟨rfl, hlt⟩
  · have hreach := hm.le_sub_reachBelow (hn.least.trans_lt hlt)
    exact (hn.le_of_lt_exponent hlt).trans (mul_le_mul_of_nonneg_right hreach (by positivity))
  · have hstep : reachBelow m r = 1 / 2 := by
      rw [reachBelow, if_neg]
      rintro ⟨rfl, hleast⟩
      exact absurd (hn.full.resolve_right hleast.ne') (Nat.not_le.2 hlt)
    have hcast : (n : ℚ) + 1 ≤ m := by exact_mod_cast hlt
    rw [hstep]
    gcongr
    linarith

theorem reachBelow_pos (m : Nat) (q : Int) : 0 < reachBelow m q := by
  unfold reachBelow
  split <;> norm_num

/-- What a number below a double rounds to is not above this double. -/
theorem Rounds.le_double (hv : Rounds m q v) (hm : IsDouble m q) (hn : IsDouble n r) (h : v ≤ n * 2 ^ r) :
    (m : ℚ) * 2 ^ q ≤ n * 2 ^ r := by
  by_contra hgt
  have hpow : (0 : ℚ) < 2 ^ q := by positivity
  have hpred := hm.le_pred hn (not_le.1 hgt)
  have hlow := le_of_mul_le_mul_right (hv.low.trans (h.trans hpred)) hpow
  have hreach := reachBelow_pos m q
  linarith

/-- What a number above a double rounds to is not below this double. -/
theorem Rounds.double_le (hv : Rounds m q v) (hm : IsDouble m q) (hn : IsDouble n r) (h : (n : ℚ) * 2 ^ r ≤ v) :
    (n : ℚ) * 2 ^ r ≤ m * 2 ^ q := by
  by_contra hlt
  have hpow : (0 : ℚ) < 2 ^ q := by positivity
  have hsucc := hm.succ_le hn (not_le.1 hlt)
  have hhigh := le_of_mul_le_mul_right (hsucc.trans (h.trans hv.high)) hpow
  linarith

end

/-- No double lies between a double and a rational number. -/
structure Faithful (x : Float) (v : ℚ) : Prop where
  finite : isFinite x = true
  le_of_le : ∀ y, isFinite y = true → v ≤ value y → value x ≤ value y
  ge_of_ge : ∀ y, isFinite y = true → value y ≤ v → value y ≤ value x

theorem faithful_self {x : Float} (h : isFinite x = true) : Faithful x (value x) :=
  ⟨h, fun _ _ hle => hle, fun _ _ hge => hge⟩

/-- No double lies between a number and what it rounds to. -/
theorem faithful_of_rounds {x : Float} {negative : Bool} {m : Nat} {q : Int} {v : ℚ}
    (h : Binary.ofFloat x = .finite negative m q) (hv : Rounds m q v) (hpos : 0 ≤ v) :
    Faithful x (if negative then -v else v) := by
  have hfinite : isFinite x = true := by rw [isFinite, h]
  have hm := (isDouble_of_ofFloat h).1
  have hmag : (0 : ℚ) ≤ m * 2 ^ q := by positivity
  have hvalue := value_of_ofFloat h
  constructor
  · exact hfinite
  · intro y hy hle
    obtain ⟨c, n, r, hfloat⟩ := exists_of_isFinite hy
    have hn := (isDouble_of_ofFloat hfloat).1
    have hmag' : (0 : ℚ) ≤ n * 2 ^ r := by positivity
    rw [value_of_ofFloat hfloat] at hle ⊢
    rw [hvalue]
    cases negative <;> cases c <;> simp only [Binary.value, Bool.false_eq_true, if_true, if_false] at hle ⊢
    · exact hv.le_double hm hn hle
    · have := hv.le_double hm hn (by linarith)
      linarith
    · linarith
    · have := hv.double_le hm hn (by linarith)
      linarith
  · intro y hy hge
    obtain ⟨c, n, r, hfloat⟩ := exists_of_isFinite hy
    have hn := (isDouble_of_ofFloat hfloat).1
    have hmag' : (0 : ℚ) ≤ n * 2 ^ r := by positivity
    rw [value_of_ofFloat hfloat] at hge ⊢
    rw [hvalue]
    cases negative <;> cases c <;> simp only [Binary.value, Bool.false_eq_true, if_true, if_false] at hge ⊢
    · exact hv.double_le hm hn hge
    · linarith
    · have := hv.le_double hm hn (by linarith)
      linarith
    · have := hv.le_double hm hn (by linarith)
      linarith

end Decimal
end TableFlow
