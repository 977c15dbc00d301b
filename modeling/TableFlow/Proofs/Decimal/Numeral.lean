import TableFlow.Decimal.Layout
import TableFlow.Decimal.Reading
import TableFlow.Proofs.Decimal.Shortest
import TableFlow.Proofs.Text.Digit

/-!
# Numerals

A numeral is the shape that a positive decimal has on paper: digits, perhaps digits after a point, perhaps a power
of ten.  Every layout writes a numeral of the value that it was given, and the reader takes a numeral apart again.
What a numeral denotes is said once, so that layouts and readers do not need to know each other.

Main results:

- Structures `Numeral` and `Numeral.WellFormed`: the shape and its rules.
- Theorem `Layout.exists_numeral`: a layout writes a numeral of the right value.
- Theorem `ofChars?_chars`: reading a numeral gives its parts.
- Theorem `Spelled.value_of_rounds`: a spelled decimal in the interval of a double is that double.
- Theorem `readChars?_chars`: a finite double that has been written is read back.
-/

namespace TableFlow
namespace Decimal

open Text

/-- An unsigned decimal on paper. -/
structure Numeral where
  /-- The digits before the point. -/
  whole : List Char
  /-- The digits after the point, if there is one. -/
  fraction : Option (List Char)
  /-- The power of ten, if one is written. -/
  power : Option Int

namespace Numeral

/-- The point and the digits after it. -/
def fractionChars : Option (List Char) → List Char
  | none => []
  | some digits => '.' :: digits

/-- The mark of the power, its sign and its digits. -/
def powerChars : Option Int → List Char
  | none => []
  | some p => 'e' :: (if p < 0 then '-' else '+') :: Nat.toDigits 10 p.natAbs

/-- The characters of a numeral. -/
def chars (n : Numeral) : List Char :=
  n.whole ++ fractionChars n.fraction ++ powerChars n.power

/-- The parts of a numeral without the distinction between nothing and an absent part. -/
def spelled (n : Numeral) : Spelled :=
  ⟨n.whole, n.fraction.getD [], n.power.getD 0⟩

/-- Digits on both sides of the point, and no zero in front of other digits. -/
structure WellFormed (n : Numeral) : Prop where
  whole_digits : ∀ c ∈ n.whole, isDigit c = true
  whole_start : n.whole = ['0'] ∨ ∃ c rest, n.whole = c :: rest ∧ c ≠ '0'
  fraction_digits : ∀ digits, n.fraction = some digits → digits ≠ [] ∧ ∀ c ∈ digits, isDigit c = true

/-- The numeral shows that it is not a whole number by its spelling. -/
def HasMark (n : Numeral) : Prop :=
  n.fraction.isSome = true ∨ n.power.isSome = true

theorem WellFormed.whole_ne_nil {n : Numeral} (h : n.WellFormed) : n.whole ≠ [] := by
  rcases h.whole_start with heq | ⟨c, rest, heq, -⟩ <;> simp [heq]

/-- A numeral starts with a digit. -/
theorem WellFormed.chars_cons {n : Numeral} (h : n.WellFormed) :
    ∃ c rest, n.chars = c :: rest ∧ isDigit c = true := by
  obtain ⟨c, rest, heq⟩ := List.exists_cons_of_ne_nil h.whole_ne_nil
  refine ⟨c, rest ++ fractionChars n.fraction ++ powerChars n.power, ?_, ?_⟩
  · rw [chars, heq]
    rfl
  · exact h.whole_digits c (by simp [heq])

/-- The characters of a numeral are digits, a point, an exponent mark and signs. -/
theorem WellFormed.mem_chars {n : Numeral} (h : n.WellFormed) {c : Char} (hc : c ∈ n.chars) :
    isDigit c = true ∨ c ∈ ['.', 'e', '+', '-'] := by
  simp only [chars, List.mem_append] at hc
  rcases hc with (hc | hc) | hc
  · exact Or.inl (h.whole_digits c hc)
  · cases hfraction : n.fraction with
    | none => simp [fractionChars, hfraction] at hc
    | some digits =>
      simp only [fractionChars, hfraction, List.mem_cons] at hc
      rcases hc with rfl | hc
      · exact Or.inr (by simp)
      · exact Or.inl ((h.fraction_digits digits hfraction).2 c hc)
  · cases hpower : n.power with
    | none => simp [powerChars, hpower] at hc
    | some p =>
      simp only [powerChars, hpower, List.mem_cons] at hc
      rcases hc with rfl | rfl | hc
      · exact Or.inr (by simp)
      · exact Or.inr (by split <;> simp)
      · exact Or.inl (isDigit_of_mem_toDigits hc)

end Numeral

/-- The number that a spelled decimal denotes. -/
def Spelled.number (s : Spelled) : ℚ :=
  digitsValue (s.whole ++ s.fraction) * 10 ^ (s.exponent - s.fraction.length)

/-! ## Writing numerals -/

theorem isDigit_of_mem_zero : ∀ c ∈ ['0'], isDigit c = true := by
  intro c hc
  rw [List.mem_singleton.1 hc]
  decide

/-- A run of digits that does not start with a zero. -/
structure Leading (digits : List Char) : Prop where
  all : ∀ c ∈ digits, isDigit c = true
  start : ∃ c rest, digits = c :: rest ∧ c ≠ '0'

theorem isDigit_of_mem_zeros {n : Nat} {c : Char} (h : c ∈ zeros n) : isDigit c = true := by
  rw [List.eq_of_mem_replicate h]
  decide

/-- Digits with a point before them and zeros behind the point are a numeral of their value. -/
theorem exists_numeral_before {digits : List Char} (h : Leading digits) (k : Nat) :
    ∃ n : Numeral, n.WellFormed ∧ n.chars = '0' :: '.' :: zeros k ++ digits ∧ n.HasMark ∧
      n.spelled.number = digitsValue digits * 10 ^ (-k - digits.length : Int) := by
  obtain ⟨first, rest, hdigits, -⟩ := h.start
  refine ⟨⟨['0'], some (zeros k ++ digits), none⟩, ⟨?_, Or.inl rfl, ?_⟩, ?_, Or.inl rfl, ?_⟩
  · exact isDigit_of_mem_zero
  · rintro _ ⟨⟩
    refine ⟨by simp [hdigits], fun c hc => ?_⟩
    rcases List.mem_append.1 hc with hc | hc
    · exact isDigit_of_mem_zeros hc
    · exact h.all c hc
  · simp [Numeral.chars, Numeral.fractionChars, Numeral.powerChars]
  · have hvalue : digitsValue (['0'] ++ (zeros k ++ digits)) = digitsValue digits := by
      rw [← List.append_assoc]
      exact digitsValue_zeros_append (k + 1) digits
    simp only [Numeral.spelled, Spelled.number, Option.getD_some, Option.getD_none, hvalue]
    congr 2
    simp only [zeros, List.length_append, List.length_replicate]
    push_cast
    ring

/-- Digits with zeros behind them are a numeral of a whole number, which may end with a point and a zero. -/
theorem exists_numeral_whole {wholeEnd : String} (hend : wholeEnd = "" ∨ wholeEnd = ".0")
    {digits : List Char} (h : Leading digits) (k : Nat) :
    ∃ n : Numeral, n.WellFormed ∧ n.chars = digits ++ zeros k ++ wholeEnd.toList ∧
      (wholeEnd = ".0" → n.HasMark) ∧ n.spelled.number = digitsValue digits * 10 ^ k := by
  obtain ⟨first, rest, hdigits, hfirst⟩ := h.start
  have hall : ∀ c ∈ digits ++ zeros k, isDigit c = true := by
    intro c hc
    rcases List.mem_append.1 hc with hc | hc
    · exact h.all c hc
    · exact isDigit_of_mem_zeros hc
  have hstart : ∃ c rest, digits ++ zeros k = c :: rest ∧ c ≠ '0' :=
    ⟨first, rest ++ zeros k, by rw [hdigits]; rfl, hfirst⟩
  rcases hend with rfl | rfl
  · refine ⟨⟨digits ++ zeros k, none, none⟩, ⟨hall, Or.inr hstart, ?_⟩, ?_, fun h => absurd h (by decide), ?_⟩
    · rintro _ ⟨⟩
    · simp [Numeral.chars, Numeral.fractionChars, Numeral.powerChars]
    · simp only [Numeral.spelled, Spelled.number, Option.getD_none, List.append_nil, zeros,
        digitsValue_append_zeros]
      simp
  · refine ⟨⟨digits ++ zeros k, some ['0'], none⟩, ⟨hall, Or.inr hstart, ?_⟩, ?_, fun _ => Or.inl rfl, ?_⟩
    · rintro _ ⟨⟩
      exact ⟨by simp, isDigit_of_mem_zero⟩
    · simp [Numeral.chars, Numeral.fractionChars, Numeral.powerChars]
    · simp only [Numeral.spelled, Spelled.number, Option.getD_some, Option.getD_none, zeros]
      rw [show ['0'] = List.replicate 1 '0' from rfl, digitsValue_append_zeros, digitsValue_append_zeros]
      simp

/-- Digits with a point among them are a numeral of their value. -/
theorem exists_numeral_between {digits : List Char} (h : Leading digits) {k : Nat} (hpos : 0 < k)
    (hlt : k < digits.length) :
    ∃ n : Numeral, n.WellFormed ∧ n.chars = digits.take k ++ '.' :: digits.drop k ∧ n.HasMark ∧
      n.spelled.number = digitsValue digits * 10 ^ (k - digits.length : Int) := by
  obtain ⟨first, rest, hdigits, hfirst⟩ := h.start
  refine ⟨⟨digits.take k, some (digits.drop k), none⟩, ⟨?_, Or.inr ?_, ?_⟩, ?_, Or.inl rfl, ?_⟩
  · exact fun c hc => h.all c (List.mem_of_mem_take hc)
  · obtain ⟨j, rfl⟩ := Nat.exists_eq_succ_of_ne_zero hpos.ne'
    exact ⟨first, rest.take j, by rw [hdigits]; rfl, hfirst⟩
  · rintro _ ⟨⟩
    refine ⟨?_, fun c hc => h.all c (List.mem_of_mem_drop hc)⟩
    rw [ne_eq, List.drop_eq_nil_iff]
    exact Nat.not_le.2 hlt
  · simp [Numeral.chars, Numeral.fractionChars, Numeral.powerChars]
  · simp only [Numeral.spelled, Spelled.number, Option.getD_some, Option.getD_none, List.take_append_drop,
      List.length_drop]
    congr 2
    omega

/-- Digits with a point after the first `point` places are a numeral of their value. -/
theorem exists_numeral_placed {wholeEnd : String} (hend : wholeEnd = "" ∨ wholeEnd = ".0")
    {digits : List Char} (h : Leading digits) (point : Int) :
    ∃ n : Numeral, n.WellFormed ∧ n.chars = placed wholeEnd digits point ∧
      (wholeEnd = ".0" → n.HasMark) ∧
      n.spelled.number = digitsValue digits * 10 ^ (point - digits.length) := by
  unfold placed
  by_cases hsmall : point ≤ 0
  · obtain ⟨k, hk⟩ := Int.eq_ofNat_of_zero_le (show 0 ≤ -point by omega)
    obtain rfl : point = -k := by omega
    rw [if_pos hsmall, neg_neg, Int.toNat_natCast]
    obtain ⟨n, hn, hchars, hmark, hnumber⟩ := exists_numeral_before h k
    exact ⟨n, hn, hchars, fun _ => hmark, hnumber⟩
  · obtain ⟨k, rfl⟩ := Int.eq_ofNat_of_zero_le (not_le.1 hsmall).le
    rw [if_neg hsmall, Int.toNat_natCast]
    by_cases hlong : digits.length ≤ k
    · have hpower : (10 : ℚ) ^ ((k : Int) - digits.length) = 10 ^ (k - digits.length) := by
        rw [← zpow_natCast, Nat.cast_sub hlong]
      rw [if_pos hlong, hpower]
      exact exists_numeral_whole hend h (k - digits.length)
    · rw [if_neg hlong]
      obtain ⟨n, hn, hchars, hmark, hnumber⟩ := exists_numeral_between h (k := k) (by omega) (by omega)
      exact ⟨n, hn, hchars, fun _ => hmark, hnumber⟩

/-- Digits with an exponent are a numeral of their value. -/
theorem exists_numeral_scientific {digits : List Char} (h : Leading digits) (point : Int) :
    ∃ n : Numeral, n.WellFormed ∧ n.chars = scientific digits point ∧ n.HasMark ∧
      n.spelled.number = digitsValue digits * 10 ^ (point - digits.length) := by
  obtain ⟨first, rest, rfl, hfirst⟩ := h.start
  have hdigit : ∀ c ∈ [first], isDigit c = true := by
    intro c hc
    exact h.all c (by simp_all)
  cases rest with
  | nil =>
    refine ⟨⟨[first], none, some (point - 1)⟩, ⟨hdigit, Or.inr ⟨first, [], rfl, hfirst⟩, ?_⟩, ?_,
      Or.inr rfl, ?_⟩
    · rintro _ ⟨⟩
    · simp only [Numeral.chars, Numeral.fractionChars, Numeral.powerChars, scientific]
      split <;> simp
    · simp [Numeral.spelled, Spelled.number]
  | cons second rest =>
    refine ⟨⟨[first], some (second :: rest), some (point - 1)⟩,
      ⟨hdigit, Or.inr ⟨first, [], rfl, hfirst⟩, ?_⟩, ?_, Or.inr rfl, ?_⟩
    · rintro _ ⟨⟩
      exact ⟨by simp, fun c hc => h.all c (List.mem_cons_of_mem _ hc)⟩
    · simp only [Numeral.chars, Numeral.fractionChars, Numeral.powerChars, scientific]
      split <;> simp
    · simp only [Numeral.spelled, Spelled.number, Option.getD_some, List.singleton_append,
        List.length_cons]
      congr 2
      push_cast
      ring

/-- Trimming takes only zeros away. -/
theorem trimZeros_append (digits : List Char) : ∃ k, digits = trimZeros digits ++ zeros k := by
  induction digits using List.reverseRecOn with
  | nil => exact ⟨0, rfl⟩
  | append_singleton digits c ih =>
    by_cases hc : c = '0'
    · obtain ⟨k, hk⟩ := ih
      refine ⟨k + 1, ?_⟩
      have htrim : trimZeros (digits ++ [c]) = trimZeros digits := by simp [trimZeros, hc]
      rw [htrim, zeros, List.replicate_succ', ← List.append_assoc, ← zeros, ← hk, hc]
    · exact ⟨0, by simp [trimZeros, hc, zeros]⟩

/-- What is left of a run that starts with another digit than zero still does. -/
theorem leading_trimZeros {digits : List Char} (h : Leading digits) : Leading (trimZeros digits) := by
  obtain ⟨k, hk⟩ := trimZeros_append digits
  obtain ⟨first, rest, hdigits, hfirst⟩ := h.start
  refine ⟨fun c hc => h.all c (by rw [hk]; exact List.mem_append_left _ hc), ?_⟩
  cases htrim : trimZeros digits with
  | nil =>
    rw [htrim, List.nil_append] at hk
    have hmem : first ∈ zeros k := by
      rw [← hk, hdigits]
      exact List.mem_cons_self
    exact absurd (List.eq_of_mem_replicate hmem) hfirst
  | cons c kept =>
    rw [htrim, hdigits] at hk
    cases hk
    exact ⟨first, kept, rfl, hfirst⟩

/-- A layout writes a numeral of the right value, and one with a mark if its whole numbers have one. -/
theorem Layout.exists_numeral {layout : Layout} (hend : layout.wholeEnd = "" ∨ layout.wholeEnd = ".0")
    {d : Digits} (h : 0 < d.digits) :
    ∃ n : Numeral, n.WellFormed ∧ n.chars = layout.digits d ∧ (layout.wholeEnd = ".0" → n.HasMark) ∧
      n.spelled.number = d.value := by
  have hall : Leading (Nat.toDigits 10 d.digits) :=
    ⟨fun _ => isDigit_of_mem_toDigits, toDigits_first h⟩
  have hkept := leading_trimZeros hall
  obtain ⟨k, hk⟩ := trimZeros_append (Nat.toDigits 10 d.digits)
  have hlength : (Nat.toDigits 10 d.digits).length = (trimZeros (Nat.toDigits 10 d.digits)).length + k := by
    conv_lhs => rw [hk]
    simp [zeros]
  have hdigits : d.digits = digitsValue (trimZeros (Nat.toDigits 10 d.digits)) * 10 ^ k := by
    conv_lhs => rw [← digitsValue_toDigits d.digits, hk]
    rw [zeros, digitsValue_append_zeros]
  have hvalue : (digitsValue (trimZeros (Nat.toDigits 10 d.digits)) : ℚ) *
      10 ^ ((Nat.toDigits 10 d.digits).length + d.exponent -
        (trimZeros (Nat.toDigits 10 d.digits)).length) = d.value := by
    have hexponent : ((Nat.toDigits 10 d.digits).length + d.exponent -
        (trimZeros (Nat.toDigits 10 d.digits)).length : Int) = k + d.exponent := by
      rw [hlength]
      push_cast
      ring
    rw [hexponent, zpow_add₀ (by norm_num), zpow_natCast, ← mul_assoc, Digits.value]
    congr 1
    conv_rhs => rw [hdigits]
    push_cast
    rfl
  rw [← hvalue]
  simp only [Layout.digits]
  split
  · exact exists_numeral_placed hend hkept _
  · obtain ⟨n, hn, hchars, hmark, hnumber⟩ := exists_numeral_scientific hkept
      ((Nat.toDigits 10 d.digits).length + d.exponent)
    exact ⟨n, hn, hchars, fun _ => hmark, hnumber⟩

/-- The zero of a layout is a numeral of zero. -/
theorem Layout.exists_numeral_zero {layout : Layout} (hend : layout.wholeEnd = "" ∨ layout.wholeEnd = ".0") :
    ∃ n : Numeral, n.WellFormed ∧ n.chars = '0' :: layout.wholeEnd.toList ∧
      (layout.wholeEnd = ".0" → n.HasMark) ∧ digitsValue (n.spelled.whole ++ n.spelled.fraction) = 0 := by
  rcases hend with heq | heq
  · refine ⟨⟨['0'], none, none⟩, ⟨isDigit_of_mem_zero, Or.inl rfl, ?_⟩, ?_, ?_, rfl⟩
    · rintro _ ⟨⟩
    · rw [heq]
      rfl
    · rw [heq]
      exact fun h => absurd h (by decide)
  · refine ⟨⟨['0'], some ['0'], none⟩, ⟨isDigit_of_mem_zero, Or.inl rfl, ?_⟩, ?_, fun _ => Or.inl rfl, rfl⟩
    · rintro _ ⟨⟩
      exact ⟨by simp, isDigit_of_mem_zero⟩
    · rw [heq]
      rfl

/-! ## Reading numerals -/

/-- The power of ten that is written after the mark is read back. -/
theorem exponent?_sign (p : Int) :
    exponent? ((if p < 0 then '-' else '+') :: Nat.toDigits 10 p.natAbs) = some p := by
  have hguard : ((Nat.toDigits 10 p.natAbs).isEmpty || !(Nat.toDigits 10 p.natAbs).all isDigit) = false := by
    have hall : (Nat.toDigits 10 p.natAbs).all isDigit = true :=
      List.all_eq_true.2 fun _ => isDigit_of_mem_toDigits
    simp [hall]
  by_cases hp : p < 0
  · simp only [if_pos hp, exponent?, hguard, digitsValue_toDigits, Bool.false_eq_true, if_false, if_true,
      Option.some.injEq]
    omega
  · simp only [if_neg hp, exponent?, hguard, digitsValue_toDigits, Bool.false_eq_true, if_false,
      Option.some.injEq]
    omega

theorem noDigitFirst_powerChars (p : Option Int) : NoDigitFirst (Numeral.powerChars p) := by
  cases p with
  | none => exact noDigitFirst_nil
  | some p => exact noDigitFirst_cons _ (by decide)

/-- After its digits a numeral is finished by its power. -/
theorem finish?_powerChars {whole : List Char} (h : whole ≠ []) (fraction : List Char) (p : Option Int) :
    Spelled.finish? whole fraction (Numeral.powerChars p) = some ⟨whole, fraction, p.getD 0⟩ := by
  cases p with
  | none => simp [Spelled.finish?, Numeral.powerChars, h]
  | some p =>
    simp only [Spelled.finish?, Numeral.powerChars, exponent?_sign]
    simp [h]

/-- Reading a numeral gives its parts. -/
theorem ofChars?_chars {n : Numeral} (h : n.WellFormed) : Spelled.ofChars? n.chars = some n.spelled := by
  obtain ⟨whole, fraction, power⟩ := n
  have hpower := noDigitFirst_powerChars power
  cases fraction with
  | none =>
    have htake := takeWhile_digits h.whole_digits hpower
    have hdrop := dropWhile_digits h.whole_digits hpower
    simp only [Spelled.ofChars?, Numeral.chars, Numeral.fractionChars, List.append_nil, htake, hdrop]
    split
    · rename_i heq
      cases power with
      | none => simp [Numeral.powerChars] at heq
      | some p => simp [Numeral.powerChars] at heq
    · exact finish?_powerChars h.whole_ne_nil [] power
  | some digits =>
    have hpoint : NoDigitFirst ('.' :: digits ++ Numeral.powerChars power) := noDigitFirst_cons _ (by decide)
    have hfraction := (h.fraction_digits digits rfl).2
    simp only [Spelled.ofChars?, Numeral.chars, Numeral.fractionChars, List.append_assoc,
      takeWhile_digits h.whole_digits hpoint, dropWhile_digits h.whole_digits hpoint]
    simp only [List.cons_append, takeWhile_digits hfraction hpower, dropWhile_digits hfraction hpower]
    exact finish?_powerChars h.whole_ne_nil digits power

/-! ## Values near a double -/

theorem two_pow_lt_ten_pow : (2 : ℚ) ^ (1200 : Int) < 10 ^ (400 : Int) := by
  calc (2 : ℚ) ^ (1200 : Int) = (2 ^ 3) ^ 400 := by
        rw [← pow_mul]
        rfl
    _ < 10 ^ 400 := pow_lt_pow_left₀ (by norm_num) (by norm_num) (by norm_num)
    _ = 10 ^ (400 : Int) := rfl

/-- A decimal in the interval of a double is neither too large nor too small to be computed. -/
theorem Rounds.exponent_bounds {m : Nat} {q : Int} (hm : 0 < m) (hdouble : IsDouble m q) {digits count : Nat}
    (hcount : digits < 10 ^ count) {exponent : Int} (h : Rounds m q (digits * 10 ^ exponent)) :
    exponent ≤ 400 ∧ -400 ≤ exponent + count := by
  have hpos := h.pos hm
  have hten : (0 : ℚ) < 10 ^ exponent := by positivity
  have hdigits : (1 : ℚ) ≤ digits := by
    have : (0 : ℚ) < digits := by
      by_contra hzero
      nlinarith
    exact_mod_cast this
  have hlarge : (10 : ℚ) ^ exponent < 10 ^ (400 : Int) := by
    calc (10 : ℚ) ^ exponent ≤ digits * 10 ^ exponent := le_mul_of_one_le_left hten.le hdigits
      _ < 2 ^ (q + 53) := h.lt_next hdouble
      _ ≤ 2 ^ (1200 : Int) := by
        have := hdouble.greatest
        exact zpow_le_zpow_right₀ (by norm_num) (by omega)
      _ < 10 ^ (400 : Int) := two_pow_lt_ten_pow
  have hsmall : (10 : ℚ) ^ (-400 : Int) < 10 ^ (exponent + count) := by
    have hreach := reachBelow_le m q
    have hone : (1 : ℚ) ≤ m := by exact_mod_cast hm
    calc (10 : ℚ) ^ (-400 : Int) ≤ 2 ^ (-1200 : Int) := by
          rw [zpow_neg, zpow_neg]
          exact inv_anti₀ (by positivity) two_pow_lt_ten_pow.le
      _ ≤ 2 ^ (q - 1) := by
        have hleast : -1074 ≤ q := hdouble.least
        exact zpow_le_zpow_right₀ (by norm_num) (by omega)
      _ = 1 / 2 * 2 ^ q := by
        rw [zpow_sub₀ two_ne_zero]
        ring
      _ ≤ (m - reachBelow m q) * 2 ^ q := by
        gcongr
        linarith
      _ ≤ digits * 10 ^ exponent := h.low
      _ < 10 ^ count * 10 ^ exponent := by
        gcongr
        exact_mod_cast hcount
      _ = 10 ^ (exponent + count) := by
        rw [zpow_add₀ (by norm_num), zpow_natCast, mul_comm]
  have hlt := (zpow_lt_zpow_iff_right₀ (by norm_num)).1 hlarge
  have hgt := (zpow_lt_zpow_iff_right₀ (by norm_num)).1 hsmall
  omega

/-- A decimal in the interval of a double is read as that double. -/
theorem nearest_of_rounds {x : Float} {negative : Bool} {m : Nat} {q : Int}
    (hx : Binary.ofFloat x = .finite negative m q) (hm : 0 < m) {digits count : Nat} (hcount : digits < 10 ^ count)
    {exponent : Int} (h : Rounds m q (digits * 10 ^ exponent)) : nearest negative digits count exponent = x := by
  obtain ⟨hdouble, -⟩ := isDouble_of_ofFloat hx
  obtain ⟨hlarge, hsmall⟩ := h.exponent_bounds hm hdouble hcount
  have hdigits : digits ≠ 0 := by
    rintro rfl
    have := h.pos hm
    simp at this
  rw [nearest, if_neg hdigits, if_neg (by omega), if_neg (by omega)]
  split
  · obtain ⟨k, rfl⟩ := Int.eq_ofNat_of_zero_le ‹0 ≤ exponent›
    rw [Int.toNat_natCast, Nat.pow_eq]
    apply ofQuotient_of_rounds hx (Nat.mul_pos (Nat.pos_of_ne_zero hdigits) (Nat.pow_pos (by decide))) Nat.one_pos
    convert h using 1
    push_cast
    rw [zpow_natCast, div_one]
  · obtain ⟨k, hk⟩ := Int.eq_ofNat_of_zero_le (show 0 ≤ -exponent by omega)
    obtain rfl : exponent = -k := by omega
    rw [neg_neg, Int.toNat_natCast, Nat.pow_eq]
    apply ofQuotient_of_rounds hx (Nat.pos_of_ne_zero hdigits) (Nat.pow_pos (by decide))
    convert h using 1
    push_cast
    rw [zpow_neg, zpow_natCast, div_eq_mul_inv]

/-- A spelled decimal in the interval of a double is that double. -/
theorem Spelled.value_of_rounds {x : Float} {negative : Bool} {m : Nat} {q : Int}
    (hx : Binary.ofFloat x = .finite negative m q) (hm : 0 < m) {s : Spelled}
    (hdigits : ∀ c ∈ s.whole ++ s.fraction, isDigit c = true) (h : Rounds m q s.number) :
    s.value negative = x :=
  nearest_of_rounds hx hm (digitsValue_lt hdigits) h

/-! ## Doubles on paper -/

theorem Numeral.WellFormed.spelled_digits {n : Numeral} (h : n.WellFormed) :
    ∀ c ∈ n.spelled.whole ++ n.spelled.fraction, isDigit c = true := by
  intro c hc
  rcases List.mem_append.1 hc with hc | hc
  · exact h.whole_digits c hc
  · cases hfraction : n.fraction with
    | none => simp [Numeral.spelled, hfraction] at hc
    | some digits =>
      simp only [Numeral.spelled, hfraction, Option.getD_some] at hc
      exact (h.fraction_digits digits hfraction).2 c hc

/-- A finite double is written as a numeral of it, after a minus sign if it is negative. -/
theorem Layout.chars_of_finite (layout : Layout) (hend : layout.wholeEnd = "" ∨ layout.wholeEnd = ".0")
    {x : Float} {negative : Bool} {m : Nat} {q : Int} (hx : Binary.ofFloat x = .finite negative m q) :
    ∃ n : Numeral, n.WellFormed ∧ (layout.wholeEnd = ".0" → n.HasMark) ∧ n.spelled.value negative = x ∧
      layout.chars x = if negative then '-' :: n.chars else n.chars := by
  simp only [Layout.chars, hx]
  rcases Nat.eq_zero_or_pos m with rfl | hm
  · obtain ⟨n, hn, hchars, hmark, hzero⟩ := Layout.exists_numeral_zero hend
    refine ⟨n, hn, hmark, ?_, ?_⟩
    · simp only [Spelled.value, hzero, nearest, if_true]
      exact ofQuotient_zero hx 1
    · rw [if_pos rfl, hchars]
  · have hrounds := rounds_shortest hm q
    have hpos : 0 < (shortest m q).digits := by
      rcases Nat.eq_zero_or_pos (shortest m q).digits with hzero | hpos
      · have := hrounds.pos hm
        simp [Digits.value, hzero] at this
      · exact hpos
    obtain ⟨n, hn, hchars, hmark, hnumber⟩ := Layout.exists_numeral hend hpos
    refine ⟨n, hn, hmark, ?_, ?_⟩
    · apply Spelled.value_of_rounds hx hm hn.spelled_digits
      rw [hnumber]
      exact hrounds
    · rw [if_neg hm.ne', hchars]

/-- A numeral after an optional minus sign is read as what it spells. -/
theorem readChars?_numeral {n : Numeral} (h : n.WellFormed) (negative : Bool) :
    readChars? (if negative then '-' :: n.chars else n.chars) = some (n.spelled.value negative) := by
  have hread : unsigned? negative n.chars = some (n.spelled.value negative) := by
    simp only [unsigned?, ofChars?_chars h]
  cases negative with
  | true => exact hread
  | false =>
    obtain ⟨c, rest, heq, hc⟩ := h.chars_cons
    rw [heq] at hread ⊢
    simp only [Bool.false_eq_true, if_false, readChars?]
    split
    · rename_i hminus
      cases hminus
      exact absurd hc (by decide)
    · rename_i hplus
      cases hplus
      exact absurd hc (by decide)
    · exact hread

/-- A finite double that has been written is read back. -/
theorem readChars?_chars {layout : Layout} (hend : layout.wholeEnd = "" ∨ layout.wholeEnd = ".0") {x : Float}
    (h : isFinite x = true) : readChars? (layout.chars x) = some x := by
  obtain ⟨negative, m, q, hx⟩ := exists_of_isFinite h
  obtain ⟨n, hn, -, hvalue, hchars⟩ := Layout.chars_of_finite layout hend hx
  rw [hchars, readChars?_numeral hn, hvalue]

end Decimal
end TableFlow
