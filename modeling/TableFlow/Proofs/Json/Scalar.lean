import TableFlow.Json.Parser
import TableFlow.Json.Printer
import TableFlow.Proofs.Decimal.Numeral

/-!
# Texts and numbers of JSON are read back

A text is escaped character by character, and every escape is read as the one character that it stands for,
whatever comes after it.  A number ends where no character follows that could belong to it; whole numbers come back
as whole numbers and doubles as doubles, because a double always shows a point or an exponent.

Main results:

- Theorem `stringBody?_escaped`: a written text is read back.
- Definition `Number.Valid`: the numbers that JSON can hold.
- Theorem `number_chars`: a number is written as a numeral after an optional minus sign.
- Structure `NumberText.Spells`: the spellings of numbers.
- Theorem `numberText?_append`: a spelled number is read as its parts.
- Theorem `number?_chars`: a written number is read back.
-/

namespace TableFlow

/-- The numbers that JSON can hold: whole numbers of 64 bits and finite doubles. -/
def Number.Valid : Number → Prop
  | .int n => Number.fits n = true
  | .float x => Decimal.isFinite x = true

namespace Json

open Text

/-! ## Texts -/

/-- The value of a hexadecimal digit is the one it was written for. -/
theorem hexValue?_hexDigit : ∀ n < 16, hexValue? (hexDigit n) = some n := by
  decide

theorem unit?_of_lt {n : Nat} (h : n < 32) :
    unit? '0' '0' (hexDigit (n / 16)) (hexDigit (n % 16)) = some n := by
  have hzero : hexValue? '0' = some 0 := by decide
  have hhigh := hexValue?_hexDigit (n / 16) (by omega)
  have hlow := hexValue?_hexDigit (n % 16) (by omega)
  simp only [unit?, hzero, hhigh, hlow]
  simp
  omega

/-- An escape by number that is no half of a pair is one character, also in front of another escape. -/
theorem stringBody?_unit {a b c d : Char} {n : Nat} (h : unit? a b c d = some n) (hn : n < 0xD800)
    (rest : List Char) :
    stringBody? ('\\' :: 'u' :: a :: b :: c :: d :: rest) = before (Char.ofNat n) (stringBody? rest) := by
  have hhigh : ¬(0xD800 ≤ n ∧ n < 0xDC00) := by omega
  have hlow : ¬(0xDC00 ≤ n ∧ n < 0xE000) := by omega
  have hpair : ¬(0xD800 ≤ n ∧ n < 0xE000) := by omega
  rw [stringBody?.eq_def]
  split
  · simp_all
  · simp_all
  · rename_i heq
    simp only [List.cons.injEq] at heq
    obtain ⟨-, -, rfl, rfl, rfl, rfl, rfl⟩ := heq
    simp only [h, Bool.and_eq_true, decide_eq_true_eq, if_neg hhigh, if_neg hlow]
  · rename_i heq
    simp only [List.cons.injEq] at heq
    obtain ⟨-, -, rfl, rfl, rfl, rfl, rfl⟩ := heq
    simp only [h, Bool.and_eq_true, decide_eq_true_eq, if_neg hpair]
  · rename_i hnumber heq
    obtain ⟨-, heq⟩ := List.cons.inj heq
    obtain ⟨rfl, rfl⟩ := List.cons.inj heq
    exact absurd rfl (hnumber a b c d rest rfl)
  · rename_i hescape heq
    obtain ⟨rfl, rfl⟩ := List.cons.inj heq
    exact absurd rfl (hescape _ _ rfl)

/-- An escape by a letter is one character. -/
theorem stringBody?_letter {c plain : Char} (h : escape? c = some plain) (hu : c ≠ 'u') (rest : List Char) :
    stringBody? ('\\' :: c :: rest) = before plain (stringBody? rest) := by
  rw [stringBody?.eq_def]
  split
  · simp_all
  · simp_all
  · simp_all
  · simp_all
  · rename_i heq
    obtain ⟨-, heq⟩ := List.cons.inj heq
    obtain ⟨rfl, rfl⟩ := List.cons.inj heq
    simp only [h]
  · rename_i hescape heq
    obtain ⟨rfl, rfl⟩ := List.cons.inj heq
    exact absurd rfl (hescape _ _ rfl)

/-- A character that needs no escape stands for itself. -/
theorem stringBody?_plain {c : Char} (hquote : c ≠ '"') (hback : c ≠ '\\') (hcontrol : ¬c.toNat < 32)
    (rest : List Char) : stringBody? (c :: rest) = before c (stringBody? rest) := by
  rw [stringBody?.eq_def]
  split <;> simp_all

/-- An escaped character is read as itself. -/
theorem stringBody?_escapeChar (c : Char) (rest : List Char) :
    stringBody? (escapeChar c ++ rest) = before c (stringBody? rest) := by
  unfold escapeChar
  split
  · exact stringBody?_letter rfl (by decide) rest
  · exact stringBody?_letter rfl (by decide) rest
  · exact stringBody?_letter rfl (by decide) rest
  · exact stringBody?_letter rfl (by decide) rest
  · exact stringBody?_letter rfl (by decide) rest
  · exact stringBody?_letter rfl (by decide) rest
  · exact stringBody?_letter rfl (by decide) rest
  · rename_i hquote hback _ _ _ _ _
    split
    · rename_i hcontrol
      simp only [List.cons_append, List.nil_append]
      rw [stringBody?_unit (unit?_of_lt hcontrol) (by omega), Char.ofNat_toNat]
    · rename_i hcontrol
      exact stringBody?_plain hquote hback hcontrol rest

/-- A written text is read back, up to its closing quote. -/
theorem stringBody?_escaped (s rest : List Char) :
    stringBody? (s.flatMap escapeChar ++ '"' :: rest) = some (s, rest) := by
  induction s with
  | nil =>
    simp [stringBody?]
  | cons c s ih =>
    rw [List.flatMap_cons, List.append_assoc, stringBody?_escapeChar, ih]
    rfl

/-! ## Numbers -/

/-- A whole number is written as a numeral. -/
theorem wellFormed_toDigits (n : Nat) : Decimal.Numeral.WellFormed ⟨Nat.toDigits 10 n, none, none⟩ := by
  refine ⟨fun _ => isDigit_of_mem_toDigits, ?_, by rintro _ ⟨⟩⟩
  rcases Nat.eq_zero_or_pos n with rfl | hpos
  · exact Or.inl rfl
  · exact Or.inr (toDigits_first hpos)

theorem int_chars (n : Int) :
    (Number.int n).chars =
      if decide (n < 0) then '-' :: Decimal.Numeral.chars ⟨Nat.toDigits 10 n.natAbs, none, none⟩
      else Decimal.Numeral.chars ⟨Nat.toDigits 10 n.natAbs, none, none⟩ := by
  simp [Number.chars, Decimal.Numeral.chars, Decimal.Numeral.fractionChars, Decimal.Numeral.powerChars]

/-- A number is written as a numeral after an optional minus sign. -/
theorem number_chars {n : Number} (h : n.Valid) :
    ∃ (negative : Bool) (m : Decimal.Numeral), m.WellFormed ∧
      n.chars = if negative then '-' :: m.chars else m.chars := by
  cases n with
  | int n => exact ⟨_, _, wellFormed_toDigits n.natAbs, int_chars n⟩
  | float x =>
    obtain ⟨negative, _, _, hx⟩ := Decimal.exists_of_isFinite h
    obtain ⟨m, hm, -, -, hchars⟩ := Decimal.Layout.chars_of_finite .stored (Or.inr rfl) hx
    exact ⟨negative, m, hm, hchars⟩

/-- A number starts with a digit or a minus sign. -/
theorem number_chars_cons {n : Number} (h : n.Valid) :
    ∃ c rest, n.chars = c :: rest ∧ (isDigit c = true ∨ c = '-') := by
  obtain ⟨negative, m, hm, hchars⟩ := number_chars h
  obtain ⟨c, rest, heq, hc⟩ := hm.chars_cons
  rw [hchars]
  cases negative with
  | true => exact ⟨'-', m.chars, rfl, Or.inr rfl⟩
  | false => exact ⟨c, rest, heq, Or.inl hc⟩

/-- The characters of a number are digits, a point, an exponent mark and signs. -/
theorem mem_number_chars {n : Number} (h : n.Valid) {c : Char} (hc : c ∈ n.chars) :
    isDigit c = true ∨ c ∈ ['.', 'e', '+', '-'] := by
  obtain ⟨negative, m, hm, hchars⟩ := number_chars h
  rw [hchars] at hc
  cases negative with
  | false => exact hm.mem_chars hc
  | true =>
    rcases List.mem_cons.1 hc with rfl | hc
    · exact Or.inr (by simp)
    · exact hm.mem_chars hc

/-- Nothing that follows can belong to a number. -/
def EndsNumber (s : List Char) : Prop :=
  ∀ c rest, s = c :: rest → isDigit c = false ∧ c ≠ '.' ∧ c ≠ 'e' ∧ c ≠ 'E'

theorem endsNumber_nil : EndsNumber [] := fun _ _ h => nomatch h

theorem EndsNumber.noDigitFirst {s : List Char} (h : EndsNumber s) : NoDigitFirst s :=
  fun c rest heq => (h c rest heq).1

/-- A run of digits in front of a text is read whole. -/
theorem digits?_append {digits rest : List Char} (hne : digits ≠ []) (h : ∀ c ∈ digits, isDigit c = true)
    (hrest : NoDigitFirst rest) : digits? (digits ++ rest) = some (digits, rest) := by
  simp only [digits?, takeWhile_digits h hrest, dropWhile_digits h hrest]
  simp [hne]

/-- A run of digits starts with a digit. -/
theorem digits_append_ne_cons {digits : List Char} (hne : digits ≠ []) (h : ∀ c ∈ digits, isDigit c = true)
    (rest : List Char) {c : Char} (hc : isDigit c = false) (more : List Char) : digits ++ rest ≠ c :: more := by
  intro heq
  obtain ⟨d, tail, rfl⟩ := List.exists_cons_of_ne_nil hne
  obtain ⟨rfl, -⟩ := List.cons.inj heq
  rw [h d List.mem_cons_self] at hc
  cases hc

/-- A whole part without a needless zero is read whole. -/
theorem whole?_append {digits rest : List Char} (h : ∀ c ∈ digits, isDigit c = true)
    (hstart : digits = ['0'] ∨ ∃ c more, digits = c :: more ∧ c ≠ '0') (hrest : NoDigitFirst rest) :
    whole? (digits ++ rest) = some (digits, rest) := by
  have hne : digits ≠ [] := by
    rcases hstart with rfl | ⟨c, more, rfl, -⟩ <;> simp
  unfold whole?
  split
  · rename_i c more heq
    rcases hstart with rfl | ⟨first, tail, rfl, hfirst⟩
    · obtain ⟨-, rfl⟩ := List.cons.inj heq
      simp [hrest c more rfl]
    · exact absurd (List.cons.inj heq).1 hfirst
  · exact digits?_append hne h hrest

/-- The fraction of a numeral is read whole. -/
theorem fraction?_append {fraction : Option (List Char)} {rest : List Char}
    (h : ∀ digits, fraction = some digits → digits ≠ [] ∧ ∀ c ∈ digits, isDigit c = true)
    (hrest : NoDigitFirst rest) (hpoint : ∀ more, rest ≠ '.' :: more) :
    fraction? (Decimal.Numeral.fractionChars fraction ++ rest) = some (fraction, rest) := by
  cases fraction with
  | none =>
    simp only [Decimal.Numeral.fractionChars, List.nil_append]
    unfold fraction?
    split
    · exact absurd rfl (hpoint _)
    · rfl
  | some digits =>
    obtain ⟨hne, hdigits⟩ := h digits rfl
    simp only [Decimal.Numeral.fractionChars, List.cons_append, fraction?, digits?_append hne hdigits hrest,
      Option.map_some]

/-- The exponents that may follow a number, and how they are spelled. -/
inductive SpellsExponent : Option Int → List Char → Prop
  | absent : SpellsExponent none []
  | unsigned {mark : Char} {digits : List Char} (hmark : mark = 'e' ∨ mark = 'E') (hne : digits ≠ [])
      (h : ∀ c ∈ digits, isDigit c = true) : SpellsExponent (some (digitsValue digits)) (mark :: digits)
  | plus {mark : Char} {digits : List Char} (hmark : mark = 'e' ∨ mark = 'E') (hne : digits ≠ [])
      (h : ∀ c ∈ digits, isDigit c = true) : SpellsExponent (some (digitsValue digits)) (mark :: '+' :: digits)
  | minus {mark : Char} {digits : List Char} (hmark : mark = 'e' ∨ mark = 'E') (hne : digits ≠ [])
      (h : ∀ c ∈ digits, isDigit c = true) : SpellsExponent (some (-digitsValue digits)) (mark :: '-' :: digits)

/-- The power of a numeral is spelled as an exponent. -/
theorem spellsExponent_powerChars (power : Option Int) :
    SpellsExponent power (Decimal.Numeral.powerChars power) := by
  cases power with
  | none => exact .absent
  | some p =>
    have hdigits : ∀ c ∈ Nat.toDigits 10 p.natAbs, isDigit c = true := fun _ => isDigit_of_mem_toDigits
    have hvalue := digitsValue_toDigits p.natAbs
    by_cases hp : p < 0
    · have h := SpellsExponent.minus (Or.inl rfl) (toDigits_ne_nil p.natAbs) hdigits
      rw [hvalue, show -(p.natAbs : Int) = p by omega] at h
      simpa [Decimal.Numeral.powerChars, hp] using h
    · have h := SpellsExponent.plus (Or.inl rfl) (toDigits_ne_nil p.natAbs) hdigits
      rw [hvalue, show (p.natAbs : Int) = p by omega] at h
      simpa [Decimal.Numeral.powerChars, hp] using h

/-- An exponent starts with its mark. -/
theorem SpellsExponent.cons_or_nil {power : Option Int} {s : List Char} (h : SpellsExponent power s) :
    (power = none ∧ s = []) ∨ ∃ mark more, s = mark :: more ∧ (mark = 'e' ∨ mark = 'E') := by
  cases h with
  | absent => exact Or.inl ⟨rfl, rfl⟩
  | unsigned hmark => exact Or.inr ⟨_, _, rfl, hmark⟩
  | plus hmark => exact Or.inr ⟨_, _, rfl, hmark⟩
  | minus hmark => exact Or.inr ⟨_, _, rfl, hmark⟩

/-- An exponent is read whole. -/
theorem exponent?_append {power : Option Int} {s rest : List Char} (h : SpellsExponent power s)
    (hrest : EndsNumber rest) : exponent? (s ++ rest) = some (power, rest) := by
  have hmarked : ∀ mark : Char, mark = 'e' ∨ mark = 'E' → (mark == 'e' || mark == 'E') = true := by
    rintro mark (rfl | rfl) <;> rfl
  cases h with
  | absent =>
    cases rest with
    | nil => rfl
    | cons c more =>
      obtain ⟨-, -, hlow, hup⟩ := hrest c more rfl
      simp [exponent?, hlow, hup]
  | @unsigned mark digits hmark hne hdigits =>
    have hread := digits?_append hne hdigits hrest.noDigitFirst
    have hminus := digits_append_ne_cons hne hdigits rest (c := '-') rfl
    have hplus := digits_append_ne_cons hne hdigits rest (c := '+') rfl
    simp only [List.cons_append, exponent?, hmarked mark hmark, if_true, hread, Option.map_some]
  | @plus mark digits hmark hne hdigits =>
    have hread := digits?_append hne hdigits hrest.noDigitFirst
    simp only [List.cons_append, exponent?, hmarked mark hmark, if_true, hread, Option.map_some]
  | @minus mark digits hmark hne hdigits =>
    have hread := digits?_append hne hdigits hrest.noDigitFirst
    simp only [List.cons_append, exponent?, hmarked mark hmark, if_true, hread, Option.map_some]

/-- How a number may be spelled: an optional minus sign, a whole part without a needless zero, and perhaps a fraction
and an exponent. -/
structure NumberText.Spells (t : NumberText) (s : List Char) : Prop where
  whole_digits : ∀ c ∈ t.whole, isDigit c = true
  whole_start : t.whole = ['0'] ∨ ∃ c more, t.whole = c :: more ∧ c ≠ '0'
  fraction_digits : ∀ digits, t.fraction = some digits → digits ≠ [] ∧ ∀ c ∈ digits, isDigit c = true
  parts : ∃ power, SpellsExponent t.exponent power ∧
    s = (if t.negative then ['-'] else []) ++ (t.whole ++ (Decimal.Numeral.fractionChars t.fraction ++ power))

/-- A numeral after an optional minus sign is a number as JSON spells it. -/
theorem spells_numeral {n : Decimal.Numeral} (h : n.WellFormed) (negative : Bool) :
    NumberText.Spells ⟨negative, n.whole, n.fraction, n.power⟩ (if negative then '-' :: n.chars else n.chars) where
  whole_digits := h.whole_digits
  whole_start := h.whole_start
  fraction_digits := h.fraction_digits
  parts := ⟨_, spellsExponent_powerChars n.power, by cases negative <;> simp [Decimal.Numeral.chars]⟩

theorem NumberText.Spells.whole_ne_nil {t : NumberText} {s : List Char} (h : t.Spells s) : t.whole ≠ [] := by
  rcases h.whole_start with heq | ⟨c, more, heq, -⟩ <;> simp [heq]

/-- A number starts with a digit or a minus sign. -/
theorem NumberText.Spells.cons {t : NumberText} {s : List Char} (h : t.Spells s) :
    ∃ c rest, s = c :: rest ∧ (isDigit c = true ∨ c = '-') := by
  obtain ⟨power, -, rfl⟩ := h.parts
  cases hsign : t.negative with
  | true => exact ⟨'-', _, rfl, Or.inr rfl⟩
  | false =>
    obtain ⟨c, more, heq⟩ := List.exists_cons_of_ne_nil h.whole_ne_nil
    rw [heq]
    exact ⟨c, _, rfl, Or.inl (h.whole_digits c (by simp [heq]))⟩

/-- A number is read as its parts. -/
theorem numberText?_append {t : NumberText} {s rest : List Char} (h : t.Spells s) (hrest : EndsNumber rest) :
    numberText? (s ++ rest) = some (t, rest) := by
  obtain ⟨power, hpower, hparts⟩ := h.parts
  have hpowerDigit : NoDigitFirst (power ++ rest) := by
    rcases hpower.cons_or_nil with ⟨-, rfl⟩ | ⟨mark, tail, rfl, rfl | rfl⟩
    · exact hrest.noDigitFirst
    · exact noDigitFirst_cons _ (by decide)
    · exact noDigitFirst_cons _ (by decide)
  have hpoint : ∀ tail, power ++ rest ≠ '.' :: tail := by
    intro tail heq
    rcases hpower.cons_or_nil with ⟨-, rfl⟩ | ⟨mark, _, rfl, rfl | rfl⟩
    · exact (hrest '.' tail heq).2.1 rfl
    · cases heq
    · cases heq
  have hfractionDigit : NoDigitFirst (Decimal.Numeral.fractionChars t.fraction ++ (power ++ rest)) := by
    cases t.fraction with
    | none => exact hpowerDigit
    | some digits => exact noDigitFirst_cons _ (by decide)
  have hwhole := whole?_append h.whole_digits h.whole_start hfractionDigit
  have hfraction := fraction?_append h.fraction_digits hpowerDigit hpoint
  have hexponent := exponent?_append hpower hrest
  obtain ⟨negative, whole, fraction, exponent⟩ := t
  unfold numberText?
  cases negative with
  | true =>
    simp only [hparts, if_true, List.cons_append, List.nil_append, List.append_assoc, hwhole, hfraction, hexponent,
      Option.bind_eq_bind, Option.bind_some, Option.pure_def]
  | false =>
    simp only [Bool.false_eq_true, if_false, List.nil_append] at hparts
    have hminus : ∀ tail, s ++ rest ≠ '-' :: tail := by
      rw [hparts, List.append_assoc]
      exact digits_append_ne_cons h.whole_ne_nil h.whole_digits _ rfl
    simp only [Option.bind_eq_bind, Option.pure_def]
    simp only [hparts, List.append_assoc, hwhole, hfraction, hexponent, Option.bind_some]

/-- A numeral after an optional minus sign is read as its parts. -/
theorem number?_numeral {n : Decimal.Numeral} (h : n.WellFormed) (negative : Bool) {rest : List Char}
    (hrest : EndsNumber rest) :
    number? ((if negative then '-' :: n.chars else n.chars) ++ rest) =
      (NumberText.value? ⟨negative, n.whole, n.fraction, n.power⟩).map fun value => (value, rest) := by
  simp only [number?, numberText?_append (spells_numeral h negative) hrest, Option.bind_eq_bind, Option.bind_some]
  cases NumberText.value? ⟨negative, n.whole, n.fraction, n.power⟩ <;> rfl

/-- A written number is read back. -/
theorem number?_chars {n : Number} (h : n.Valid) {rest : List Char} (hrest : EndsNumber rest) :
    number? (n.chars ++ rest) = some (n, rest) := by
  cases n with
  | int n =>
    have hsigned : (if decide (n < 0) then -((n.natAbs : Nat) : Int) else (n.natAbs : Int)) = n := by
      by_cases hn : n < 0
      · rw [if_pos (decide_eq_true hn)]
        omega
      · rw [if_neg (by simpa using hn)]
        omega
    have hfits : Number.fits n = true := h
    have hminus : (decide (n < 0) && (n.natAbs : Int) == 0) = false := by
      rw [Bool.and_eq_false_iff, decide_eq_false_iff_not, beq_eq_false_iff_ne]
      omega
    rw [int_chars, number?_numeral (wellFormed_toDigits n.natAbs) _ hrest, NumberText.value?]
    simp only [digitsValue_toDigits, hsigned, hfits, hminus]
    rfl
  | float x =>
    obtain ⟨negative, m, q, hx⟩ := Decimal.exists_of_isFinite h
    obtain ⟨n, hn, hmark, hvalue, hchars⟩ :=
      Decimal.Layout.chars_of_finite .stored (Or.inr rfl) hx
    have hfloat : Decimal.isFinite x = true := h
    have hmarked : (n.fraction.isNone && n.power.isNone) = false := by
      rcases hmark rfl with hsome | hsome
      · rw [Option.isNone_eq_false_iff.2 hsome, Bool.false_and]
      · rw [Option.isNone_eq_false_iff.2 hsome, Bool.and_false]
    have hspelled : Decimal.Spelled.value negative ⟨n.whole, n.fraction.getD [], n.power.getD 0⟩ = x := hvalue
    rw [Number.chars, hchars, number?_numeral hn _ hrest, NumberText.value?]
    simp only [hmarked, hspelled, hfloat, Bool.false_and]
    rfl

/-- A written number is a spelling of it. -/
theorem exists_spells_chars {n : Number} (h : n.Valid) : ∃ t : NumberText, t.Spells n.chars ∧ t.value? = some n := by
  obtain ⟨negative, m, hm, hchars⟩ := number_chars h
  have hread := number?_numeral hm negative endsNumber_nil
  rw [← hchars, number?_chars h endsNumber_nil] at hread
  obtain ⟨value, hvalue, hsame⟩ := Option.map_eq_some_iff.1 hread.symm
  refine ⟨⟨negative, m.whole, m.fraction, m.power⟩, hchars ▸ spells_numeral hm negative, ?_⟩
  rw [hvalue, (Prod.mk.inj hsame).1]

end Json
end TableFlow
