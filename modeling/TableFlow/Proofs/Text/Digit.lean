import Mathlib.Data.Nat.Digits.Lemmas
import Mathlib.Data.List.TakeWhile
import TableFlow.Text.Digit

/-!
# Runs of digits

What a run of decimal digits denotes, and that the digits of a number are such a run.  Readers take the longest run
in front of a text, so a run is read back whole whenever what follows it does not start with a digit.

Main results:

- Theorem `digitsValue_toDigits`: the digits of a number denote it.
- Theorem `word64?_toString`: the digits of a number of 64 bits are read as that number.
- Theorem `digitsValue_append`: the value of a run made of two.
- Theorems `takeWhile_digits` and `dropWhile_digits`: a run in front of a text is cut off whole.
-/

namespace TableFlow
namespace Text

/-- The text does not start with a digit. -/
def NoDigitFirst (s : List Char) : Prop :=
  ∀ c rest, s = c :: rest → isDigit c = false

@[simp] theorem noDigitFirst_nil : NoDigitFirst [] := fun _ _ h => nomatch h

theorem noDigitFirst_cons {c : Char} (rest : List Char) (h : isDigit c = false) :
    NoDigitFirst (c :: rest) := by
  intro d more heq
  cases heq
  exact h

/-- Latin digits are the digits of the standard library. -/
theorem isDigit_eq (c : Char) : isDigit c = c.isDigit := rfl

/-- The value of a run is the one of the standard library. -/
theorem digitsValue_eq (s : List Char) : digitsValue s = Nat.ofDigitChars 10 s 0 := rfl

/-! ## The digits of a number -/

/-- The digits of a number denote it. -/
@[simp] theorem digitsValue_toDigits (n : Nat) : digitsValue (Nat.toDigits 10 n) = n := by
  rw [digitsValue_eq]
  exact Nat.ofDigitChars_toDigits (by decide) (by decide)

/-- The digits of a number are digits. -/
theorem isDigit_of_mem_toDigits {n : Nat} {c : Char} (h : c ∈ Nat.toDigits 10 n) : isDigit c = true := by
  rw [isDigit_eq]
  exact Nat.isDigit_of_mem_toDigits (by decide) (by decide) h

theorem toDigits_ne_nil (n : Nat) : Nat.toDigits 10 n ≠ [] :=
  List.ne_nil_of_length_pos Nat.length_toDigits_pos

/-- The digits of a positive number start with one that is not zero. -/
theorem toDigits_first {n : Nat} (h : 0 < n) : ∃ c rest, Nat.toDigits 10 n = c :: rest ∧ c ≠ '0' := by
  induction n using Nat.strongRecOn with
  | _ n ih =>
    by_cases hn : n < 10
    · refine ⟨n.digitChar, [], Nat.toDigits_of_lt_base hn, ?_⟩
      intro hzero
      have : n.digitChar.toNat = 48 + n := Nat.toNat_digitChar_of_lt_ten hn
      rw [hzero] at this
      have : 48 = 48 + n := this
      omega
    · obtain ⟨c, rest, hrest, hc⟩ := ih (n / 10) (by omega) (by omega)
      refine ⟨c, rest ++ [(n % 10).digitChar], ?_, hc⟩
      rw [Nat.toDigits_of_base_le (by decide) (by omega), hrest]
      rfl

/-- Different numbers have different digits. -/
theorem toString_injective : Function.Injective (toString : Nat → String) := by
  intro n m h
  rw [Nat.toString_eq_ofList_toDigits, Nat.toString_eq_ofList_toDigits] at h
  rw [← digitsValue_toDigits n, String.ofList_injective h, digitsValue_toDigits]

/-- The digits of a number of 64 bits spell it. -/
theorem word64?_toString {n : Nat} (h : n < wordBound) : word64? (toString n) = some n := by
  have hall : (Nat.toDigits 10 n).all isDigit = true := List.all_eq_true.2 fun _ => isDigit_of_mem_toDigits
  have hnatural : natural? (Nat.toDigits 10 n) = some n := by
    unfold natural?
    split
    · next rest hplus =>
        have hsign : isDigit '+' = true := isDigit_of_mem_toDigits (hplus ▸ List.mem_cons_self)
        cases hsign
    · simp [hall]
  rw [word64?, Nat.toString_eq_ofList_toDigits, String.toList_ofList, hnatural]
  simp [h]

/-! ## Values of runs -/

theorem digitsValue_concat (s : List Char) (c : Char) :
    digitsValue (s ++ [c]) = 10 * digitsValue s + digitValue c := by
  simp [digitsValue]

/-- The value of a run made of two. -/
theorem digitsValue_append (s t : List Char) :
    digitsValue (s ++ t) = digitsValue s * 10 ^ t.length + digitsValue t := by
  induction t using List.reverseRecOn with
  | nil => simp [digitsValue]
  | append_singleton t c ih =>
    rw [← List.append_assoc, digitsValue_concat, digitsValue_concat, ih, List.length_append, List.length_singleton,
      Nat.pow_succ]
    ring

theorem digitsValue_zeros (n : Nat) : digitsValue (List.replicate n '0') = 0 := by
  induction n with
  | zero => rfl
  | succ n ih =>
    rw [List.replicate_succ', digitsValue_concat, ih]
    rfl

/-- Zeros in front of a run do not count. -/
theorem digitsValue_zeros_append (n : Nat) (s : List Char) :
    digitsValue (List.replicate n '0' ++ s) = digitsValue s := by
  rw [digitsValue_append, digitsValue_zeros, Nat.zero_mul, Nat.zero_add]

/-- Zeros after a run count as a power of ten. -/
theorem digitsValue_append_zeros (s : List Char) (n : Nat) :
    digitsValue (s ++ List.replicate n '0') = digitsValue s * 10 ^ n := by
  rw [digitsValue_append, digitsValue_zeros, List.length_replicate, Nat.add_zero]

theorem digitValue_lt {c : Char} (h : isDigit c = true) : digitValue c < 10 := by
  have hle : c.toNat ≤ 57 := of_decide_eq_true (Bool.and_eq_true_iff.1 h).2
  simp only [digitValue]
  omega

/-- A run of `n` digits stays below `10 ^ n`. -/
theorem digitsValue_lt {s : List Char} (h : ∀ c ∈ s, isDigit c = true) : digitsValue s < 10 ^ s.length := by
  induction s using List.reverseRecOn with
  | nil => simp [digitsValue]
  | append_singleton s c ih =>
    have hs := ih fun d hd => h d (List.mem_append_left _ hd)
    have hc := digitValue_lt (h c (by simp))
    rw [digitsValue_concat, List.length_append, List.length_singleton, Nat.pow_succ]
    omega

/-! ## Cutting a run off -/

/-- The longest run of digits in front is the run that ends before something else. -/
theorem takeWhile_digits {digits rest : List Char} (h : ∀ c ∈ digits, isDigit c = true)
    (hrest : NoDigitFirst rest) : (digits ++ rest).takeWhile isDigit = digits := by
  rw [List.takeWhile_append_of_pos h]
  cases rest with
  | nil => simp
  | cons c rest => simp [hrest c rest rfl]

/-- What follows the longest run of digits in front. -/
theorem dropWhile_digits {digits rest : List Char} (h : ∀ c ∈ digits, isDigit c = true)
    (hrest : NoDigitFirst rest) : (digits ++ rest).dropWhile isDigit = rest := by
  rw [List.dropWhile_append_of_pos h]
  cases rest with
  | nil => simp
  | cons c rest => simp [hrest c rest rfl]

end Text
end TableFlow
