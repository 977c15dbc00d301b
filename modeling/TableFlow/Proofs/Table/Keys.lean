import TableFlow.Proofs.Decimal.Whole
import TableFlow.Proofs.Json.Scalar

/-!
# Keys of numbers

The key of a number is written from the double nearest to it, and it can be read again: what is read has the value of
that double.  So two numbers have one key if and only if one value is nearest to both.  For numbers that are doubles
themselves this is their own value, and only integers of more than 53 bits may be none.

Main results:

- Definitions `Number.value` and `Number.Exact`: the number that is written, and which numbers are doubles.
- Theorem `read?_numberKey`: the key of a number is read as a double of the same value.
- Theorem `keys_tell_doubles_apart`: which numbers have one key.
- Theorem `large_integers_share_keys`: two integers may have one key.
-/

namespace TableFlow

open Decimal Text

/-! ## Values of numbers -/

/-- The value of a number as it is written. -/
def Number.value : Number → ℚ
  | .int n => n
  | .float x => Decimal.value x

/-- The double nearest to the number has its value. -/
def Number.Exact (n : Number) : Prop :=
  Decimal.value n.toFloat = n.value

theorem Number.exact_float (x : Float) : (Number.float x).Exact := rfl

/-- The integers of at most 53 bits are doubles. -/
theorem Number.exact_int {n : Int} (h : n.natAbs ≤ 2 ^ 53) : (Number.int n).Exact :=
  value_ofInt_of_le h

theorem Number.Valid.natAbs_lt {n : Int} (h : (Number.int n).Valid) : n.natAbs < wordBound := by
  have hfits : -(signBound : Int) ≤ n ∧ n < wordBound := by simpa [Number.Valid, Number.fits] using h
  have hbound : wordBound = 2 * signBound := rfl
  omega

theorem Number.Valid.isFinite_toFloat {n : Number} (h : n.Valid) : isFinite n.toFloat = true := by
  cases n with
  | int n => exact isFinite_ofInt h.natAbs_lt
  | float x => exact h

/-- Numbers of one value have doubles of one value, also where they are rounded. -/
theorem Number.Valid.value_toFloat {a b : Number} (ha : a.Valid) (hb : b.Valid) (h : a.value = b.value) :
    Decimal.value a.toFloat = Decimal.value b.toFloat := by
  cases a with
  | int n =>
      cases b with
      | int m =>
          have hsame : n = m := by exact_mod_cast (show (n : ℚ) = m from h)
          rw [hsame]
      | float x => exact (value_ofInt hb h.symm).trans h
  | float x =>
      cases b with
      | int m => exact h.trans (value_ofInt ha h).symm
      | float y => exact h

/-! ## Keys are read back -/

theorem toList_toString (n : Int) : (toString n).toList = (Number.int n).chars := by
  cases n with
  | ofNat n =>
      have hnonneg : ¬Int.ofNat n < 0 := Int.not_lt.2 (Int.natCast_nonneg n)
      rw [Number.chars, if_neg hnonneg]
      exact Nat.toList_repr
  | negSucc n =>
      have hsign : toString (Int.negSucc n) = "-" ++ Nat.repr (n + 1) := rfl
      rw [Number.chars, if_pos (Int.negSucc_lt_zero n), hsign, String.toList_append, Nat.toList_repr]
      rfl

/-- The digits of an integer are read as the double nearest to it. -/
theorem read?_toString (n : Int) : read? (toString n) = some (ofInt n) := by
  rw [read?, toList_toString, Json.int_chars, readChars?_numeral (Json.wellFormed_toDigits _)]
  simp only [Numeral.spelled, Spelled.value, Option.getD_none, List.append_nil, digitsValue_toDigits,
    List.length_nil, nearest, ofInt]
  split
  · next hzero =>
      have hn : n = 0 := Int.natAbs_eq_zero.1 hzero
      rw [hn]
      rfl
  · simp

/-- The key of a number is read as a double of the same value as the double nearest to the number. -/
theorem read?_numberKey {n : Number} (h : n.Valid) :
    ∃ y, read? (Cell.numberKey n) = some y ∧ value y = value n.toFloat := by
  have hfinite := h.isFinite_toFloat
  rw [Cell.numberKey]
  generalize n.toFloat = x at hfinite ⊢
  split
  · next hwhole =>
      obtain ⟨hintegral, -⟩ := Bool.and_eq_true_iff.1 hwhole
      obtain ⟨k, hk⟩ := (isIntegral_iff hfinite).1 hintegral
      rw [integerPart_eq hfinite hk, read?_toString, hk]
      exact ⟨_, rfl, value_ofInt hfinite hk⟩
  · refine ⟨x, ?_, rfl⟩
    rw [read?, plain, Layout.text, String.toList_ofList]
    exact readChars?_chars (Or.inl rfl) hfinite

/-- Both zeros have the digit zero as their key. -/
theorem numberKey_of_value_eq_zero {n : Number} (h : n.Valid) (hzero : value n.toFloat = 0) :
    Cell.numberKey n = "0" := by
  have hfinite := h.isFinite_toFloat
  have hcast : value n.toFloat = (0 : Int) := by rw [hzero, Int.cast_zero]
  have hbelow : n.toFloat.abs < Cell.wholeBound := by
    rw [lt_iff_value_lt (isFinite_abs hfinite) Cell.value_wholeBound.1, value_abs hfinite, hzero,
      Cell.value_wholeBound.2, abs_zero]
    norm_num
  rw [Cell.numberKey]
  simp only [(isIntegral_iff hfinite).2 ⟨0, hcast⟩, hbelow, integerPart_eq hfinite hcast, decide_true, Bool.and_self,
    if_true]
  rfl

/-- Numbers have one key if one value is nearest to both. -/
theorem numberKey_eq_iff {a b : Number} (ha : a.Valid) (hb : b.Valid) :
    Cell.numberKey a = Cell.numberKey b ↔ value a.toFloat = value b.toFloat := by
  constructor
  · intro hkey
    obtain ⟨x, hx, hvalue⟩ := read?_numberKey ha
    obtain ⟨y, hy, hvalue'⟩ := read?_numberKey hb
    rw [hkey, hy, Option.some.injEq] at hx
    rw [← hvalue, ← hvalue', hx]
  · intro hvalue
    by_cases hzero : value a.toFloat = 0
    · rw [numberKey_of_value_eq_zero ha hzero, numberKey_of_value_eq_zero hb (hvalue ▸ hzero)]
    · have hsame := eq_of_value_eq ha.isFinite_toFloat hb.isFinite_toFloat hvalue hzero
      rw [Cell.numberKey, Cell.numberKey, hsame]

/-- Two numbers have one key if and only if the doubles nearest to them have one value.  So equal numbers have one
key, and unequal ones that are values of doubles have two. -/
theorem keys_tell_doubles_apart {a b : Number} (ha : a.Valid) (hb : b.Valid) :
    (Cell.key? (.number a) = Cell.key? (.number b) ↔ value a.toFloat = value b.toFloat) ∧
      (a.value = b.value → Cell.key? (.number a) = Cell.key? (.number b)) ∧
      (a.Exact → b.Exact → (Cell.key? (.number a) = Cell.key? (.number b) ↔ a.value = b.value)) := by
  have hkeys : Cell.key? (.number a) = Cell.key? (.number b) ↔ value a.toFloat = value b.toFloat := by
    simp only [Cell.key?, Option.some.injEq]
    exact numberKey_eq_iff ha hb
  refine ⟨hkeys, fun h => hkeys.2 (ha.value_toFloat hb h), fun hexact hexact' => ?_⟩
  rw [hkeys, hexact, hexact']

/-- An integer of 54 bits that is the value of a double has the key of this double, and the integer before it has
another. -/
theorem keys_tell_doubles_apart_at_two_pow_53 :
    (Number.int 9007199254740991).Valid ∧ (Number.int 9007199254740992).Valid ∧
      (Number.float 9007199254740992).Valid ∧
      Cell.key? (.number (.int 9007199254740991)) ≠ Cell.key? (.number (.int 9007199254740992)) ∧
      Cell.key? (.number (.int 9007199254740992)) = Cell.key? (.number (.float 9007199254740992)) := by
  have hbefore : (Number.int 9007199254740991).Valid := show Number.fits 9007199254740991 = true by decide
  have hint : (Number.int 9007199254740992).Valid := show Number.fits 9007199254740992 = true by decide
  have hfloat : (Number.float 9007199254740992).Valid :=
    show isFinite 9007199254740992 = true by decide +kernel
  have hexact : (Number.int 9007199254740992).Exact := Number.exact_int (by decide)
  refine ⟨hbefore, hint, hfloat, ?_, ?_⟩
  · have hapart := (keys_tell_doubles_apart hbefore hint).2.2 (Number.exact_int (by decide)) hexact
    rw [ne_eq, hapart, Number.value, Number.value]
    norm_num
  · apply ((keys_tell_doubles_apart hint hfloat).2.2 hexact (Number.exact_float _)).2
    exact hexact.symm.trans (congrArg value (by decide +kernel : ofInt 9007199254740992 = 9007199254740992))

/-- Not all numbers have keys of their own: an integer of 54 bits has the key of the integer before it. -/
theorem large_integers_share_keys :
    ¬∀ a b : Number, a.Valid → b.Valid →
      (Cell.key? (.number a) = Cell.key? (.number b) ↔ a.value = b.value) := by
  intro h
  have hint : (Number.int 9007199254740992).Valid := show Number.fits 9007199254740992 = true by decide
  have hnext : (Number.int 9007199254740993).Valid := show Number.fits 9007199254740993 = true by decide
  have hsame : Cell.key? (.number (.int 9007199254740992)) = Cell.key? (.number (.int 9007199254740993)) := by
    decide +kernel
  have hvalues : ((9007199254740992 : Int) : ℚ) = (9007199254740993 : Int) := (h _ _ hint hnext).1 hsame
  norm_num at hvalues

end TableFlow
