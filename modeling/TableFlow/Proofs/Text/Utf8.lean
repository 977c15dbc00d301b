import TableFlow.Text.Utf8

/-!
# UTF-8 read back

Every text that has been encoded is decoded to itself, one character after another, and the order of the code points
is the order of the bytes.

Main results:

- Theorems `decode_one` to `decode_four`: what the decoder does with a sequence of each width.
- Theorem `utf8EncodeChar_eq`: a character is encoded as its first byte and the last bits of its number.
- Theorem `decode_utf8EncodeChar`: an encoded character in front of a text is decoded to itself.
- Theorem `decode_encode`: decoding undoes encoding.
- Theorem `encode_lt_encode`: texts are ordered as their bytes are.
-/

namespace TableFlow
namespace Text

/-! ## Sequences of each width -/

variable {a b c d : UInt8}

/-- A byte between two bounds, as numbers. -/
theorem between_iff (low high : UInt8) :
    (decide (low ≤ a) && decide (a ≤ high)) = true ↔ low.toNat ≤ a.toNat ∧ a.toNat ≤ high.toNat := by
  simp [UInt8.le_iff_toNat_le]

theorem isTail_iff : isTail b = true ↔ 0x80 ≤ b.toNat ∧ b.toNat ≤ 0xBF :=
  between_iff 0x80 0xBF

/-- A byte of ASCII is a character. -/
theorem decode_one (ha : a.toNat < 0x80) (rest : Bytes) :
    decode (a :: rest) = prepend 1 a.toNat (decode rest) := by
  have h : a < 0x80 := UInt8.lt_iff_toNat_lt.2 ha
  conv => lhs; unfold decode
  rw [if_pos h]

theorem not_ascii (ha : 0x80 ≤ a.toNat) : ¬a < 0x80 := fun h =>
  Nat.not_lt.2 ha (UInt8.lt_iff_toNat_lt.1 h)

/-- A sequence of two bytes is a character. -/
theorem decode_two (ha : 0xC2 ≤ a.toNat ∧ a.toNat ≤ 0xDF) (hb : isTail b = true) (rest : Bytes) :
    decode (a :: b :: rest) = prepend 2 ((a.toNat % 32) * 64 + tailBits b) (decode rest) := by
  have h1 := not_ascii (a := a) (by omega)
  have h2 := (between_iff 0xC2 0xDF).2 ha
  conv => lhs; unfold decode
  simp only [if_neg h1, h2, hb, if_true]

/-- A sequence of three bytes is a character. -/
theorem decode_three (ha : 0xE0 ≤ a.toNat ∧ a.toNat ≤ 0xEF) (hb : isSecondOfThree a b = true)
    (hc : isTail c = true) (rest : Bytes) :
    decode (a :: b :: c :: rest) =
      prepend 3 (((a.toNat % 16) * 64 + tailBits b) * 64 + tailBits c) (decode rest) := by
  have h1 := not_ascii (a := a) (by omega)
  have h2 := mt (between_iff (a := a) 0xC2 0xDF).1 (by simp only [UInt8.reduceToNat]; omega)
  have h3 := (between_iff 0xE0 0xEF).2 ha
  conv => lhs; unfold decode
  simp only [if_neg h1, h2, h3, hb, hc, Bool.and_self, Bool.false_eq_true, if_true, if_false]

/-- A sequence of four bytes is a character. -/
theorem decode_four (ha : 0xF0 ≤ a.toNat ∧ a.toNat ≤ 0xF4) (hb : isSecondOfFour a b = true)
    (hc : isTail c = true) (hd : isTail d = true) (rest : Bytes) :
    decode (a :: b :: c :: d :: rest) =
      prepend 4 ((((a.toNat % 8) * 64 + tailBits b) * 64 + tailBits c) * 64 + tailBits d) (decode rest) := by
  have h1 := not_ascii (a := a) (by omega)
  have h2 := mt (between_iff (a := a) 0xC2 0xDF).1 (by simp only [UInt8.reduceToNat]; omega)
  have h3 := mt (between_iff (a := a) 0xE0 0xEF).1 (by simp only [UInt8.reduceToNat]; omega)
  have h4 := (between_iff 0xF0 0xF4).2 ha
  conv => lhs; unfold decode
  simp only [if_neg h1, h2, h3, h4, hb, hc, hd, Bool.and_self, Bool.false_eq_true, if_true, if_false]

/-- The second byte of a sequence of three, as numbers. -/
theorem isSecondOfThree_iff : isSecondOfThree a b = true ↔ 0x80 ≤ b.toNat ∧ b.toNat ≤ 0xBF ∧
    (a.toNat = 0xE0 → 0xA0 ≤ b.toNat) ∧ (a.toNat = 0xED → b.toNat ≤ 0x9F) := by
  simp only [isSecondOfThree, ← UInt8.toNat_inj, UInt8.reduceToNat]
  split
  · rw [between_iff]
    simp only [UInt8.reduceToNat]
    omega
  · split
    · rw [between_iff]
      simp only [UInt8.reduceToNat]
      omega
    · rw [isTail_iff]
      omega

/-- The second byte of a sequence of four, as numbers. -/
theorem isSecondOfFour_iff : isSecondOfFour a b = true ↔ 0x80 ≤ b.toNat ∧ b.toNat ≤ 0xBF ∧
    (a.toNat = 0xF0 → 0x90 ≤ b.toNat) ∧ (a.toNat = 0xF4 → b.toNat ≤ 0x8F) := by
  simp only [isSecondOfFour, ← UInt8.toNat_inj, UInt8.reduceToNat]
  split
  · rw [between_iff]
    simp only [UInt8.reduceToNat]
    omega
  · split
    · rw [between_iff]
      simp only [UInt8.reduceToNat]
      omega
    · rw [isTail_iff]
      omega

/-! ## Characters and texts -/

/-- The number of a character is no surrogate and within Unicode. -/
theorem toNat_bounds (c : Char) : c.toNat < 0xD800 ∨ 0xDFFF < c.toNat ∧ c.toNat < 0x110000 :=
  c.valid

theorem toNat_lt (c : Char) : c.toNat < 0x110000 := by
  have := toNat_bounds c
  omega

/-- A byte made of bits of a number. -/
theorem toNat_byte {n : Nat} (h : n < 256) : (UInt8.ofNat n).toNat = n :=
  UInt8.toNat_ofNat_of_lt' h

theorem isTail_ofNat (n : Nat) : isTail (UInt8.ofNat (n % 0x40 + 0x80)) = true := by
  rw [isTail_iff, toNat_byte (by omega)]
  omega

theorem tailBits_ofNat (n : Nat) : tailBits (UInt8.ofNat (n % 0x40 + 0x80)) = n % 0x40 := by
  rw [tailBits, toNat_byte (by omega)]
  omega

theorem encode_cons (c : Char) (s : List Char) : encode (c :: s) = String.utf8EncodeChar c ++ encode s :=
  List.flatMap_cons ..

/-- How many bytes follow the first one of a character with this number. -/
def tailCount (n : Nat) : Nat :=
  if n ≤ 0x7F then 0 else if n ≤ 0x7FF then 1 else if n ≤ 0xFFFF then 2 else 3

/-- The bits of a number that this many bytes, of six bits each, leave over. -/
def leadBits : Nat → Nat → Nat
  | 0, n => n
  | k + 1, n => leadBits k (n / 64)

/-- The last bits of a number, six in each of the bytes. -/
def tails : Nat → Nat → Bytes
  | 0, _ => []
  | k + 1, n => tails k (n / 64) ++ [UInt8.ofNat (n % 64 + 0x80)]

/-- The first byte of a character with this number: the bits that are left for it, and the mark of the width. -/
def leadByte (n : Nat) : Nat :=
  leadBits (tailCount n) n +
    match tailCount n with
    | 0 => 0
    | 1 => 0xC0
    | 2 => 0xE0
    | _ => 0xF0

/-- The first byte tells the width, and which numbers have it. -/
theorem leadByte_cases {n : Nat} (hn : n < 0x110000) :
    (n < 0x80 ∧ tailCount n = 0 ∧ leadByte n = n) ∨
    (0x80 ≤ n ∧ n < 0x800 ∧ tailCount n = 1 ∧ leadByte n = n / 64 + 0xC0) ∨
    (0x800 ≤ n ∧ n < 0x10000 ∧ tailCount n = 2 ∧ leadByte n = n / 64 / 64 + 0xE0) ∨
    (0x10000 ≤ n ∧ tailCount n = 3 ∧ leadByte n = n / 64 / 64 / 64 + 0xF0) := by
  unfold leadByte tailCount
  split
  · exact Or.inl ⟨by omega, rfl, rfl⟩
  · split
    · exact Or.inr (Or.inl ⟨by omega, by omega, rfl, rfl⟩)
    · split
      · exact Or.inr (Or.inr (Or.inl ⟨by omega, by omega, rfl, rfl⟩))
      · exact Or.inr (Or.inr (Or.inr ⟨by omega, rfl, rfl⟩))

/-- A character is encoded as its first byte and the last bits of its number. -/
theorem utf8EncodeChar_eq (c : Char) :
    String.utf8EncodeChar c = UInt8.ofNat (leadByte c.toNat) :: tails (tailCount c.toNat) c.toNat := by
  have hval : c.val.toNat = c.toNat := rfl
  have hlt := toNat_lt c
  have hcases := leadByte_cases hlt
  simp only [String.utf8EncodeChar, hval]
  generalize c.toNat = n at *
  rcases hcases with ⟨hn, hcount, heq⟩ | ⟨hn, hn', hcount, heq⟩ | ⟨hn, hn', hcount, heq⟩ | ⟨hn, hcount, heq⟩
  all_goals simp only [hcount, heq, tails, List.nil_append, List.cons_append]
  · rw [if_pos (by omega)]
  · rw [if_neg (by omega), if_pos (by omega), show n / 64 % 0x20 = n / 64 by omega]
  · rw [if_neg (by omega), if_neg (by omega), if_pos (by omega),
      show n / 4096 % 0x10 = n / 64 / 64 by omega]
  · rw [if_neg (by omega), if_neg (by omega), if_neg (by omega),
      show n / 262144 % 0x08 = n / 64 / 64 / 64 by omega, show n / 4096 = n / 64 / 64 by omega]

theorem leadByte_lt {n : Nat} (hn : n < 0x110000) : leadByte n < 256 := by
  have := leadByte_cases hn
  omega

/-- The bytes after the first one are none that plain characters have. -/
theorem le_of_mem_tails {k n : Nat} {b : UInt8} (hb : b ∈ tails k n) : 0x80 ≤ b.toNat := by
  induction k generalizing n with
  | zero => exact absurd hb List.not_mem_nil
  | succ k ih =>
    rcases List.mem_append.1 hb with hfront | hlast
    · exact ih hfront
    · rw [List.mem_singleton.1 hlast, toNat_byte (by omega)]
      omega

/-- A byte of a character is the character itself, or none of the bytes that plain characters have. -/
theorem toNat_of_mem_utf8EncodeChar {c : Char} {b : UInt8} (hb : b ∈ String.utf8EncodeChar c) :
    b.toNat = c.toNat ∨ 0x80 ≤ b.toNat := by
  rw [utf8EncodeChar_eq] at hb
  rcases List.mem_cons.1 hb with rfl | htail
  · rw [toNat_byte (leadByte_lt (toNat_lt c))]
    have := leadByte_cases (toNat_lt c)
    omega
  · exact Or.inr (le_of_mem_tails htail)

/-- The byte of a plain character is a byte of no other one. -/
theorem eq_of_mem_utf8EncodeChar {c d : Char} (hd : d.toNat < 0x80)
    (h : UInt8.ofNat d.toNat ∈ String.utf8EncodeChar c) : c = d := by
  have hbyte := toNat_of_mem_utf8EncodeChar h
  rw [toNat_byte (by omega)] at hbyte
  exact Char.toNat_inj.1 (by omega)

/-- An encoded character in front of a text is decoded to itself. -/
theorem decode_utf8EncodeChar (c : Char) (rest : Bytes) :
    ∃ width, decode (String.utf8EncodeChar c ++ rest) = prepend width c.toNat (decode rest) := by
  have hvalid := toNat_bounds c
  have hlead := toNat_byte (leadByte_lt (toNat_lt c))
  have hcases := leadByte_cases (toNat_lt c)
  rw [utf8EncodeChar_eq]
  generalize c.toNat = n at *
  rcases hcases with ⟨hn, hcount, heq⟩ | ⟨hn, hn', hcount, heq⟩ | ⟨hn, hn', hcount, heq⟩ | ⟨hn, hcount, heq⟩
  all_goals
    rw [heq] at hlead
    simp only [hcount, heq, tails, List.cons_append, List.nil_append]
  · refine ⟨1, ?_⟩
    rw [decode_one (by omega), hlead]
  · refine ⟨2, ?_⟩
    rw [decode_two (by omega) (isTail_ofNat n), hlead, tailBits_ofNat]
    congr 1
    omega
  · have hsecond : isSecondOfThree (UInt8.ofNat (n / 64 / 64 + 0xE0)) (UInt8.ofNat (n / 64 % 64 + 0x80)) = true := by
      rw [isSecondOfThree_iff, hlead, toNat_byte (by omega)]
      omega
    refine ⟨3, ?_⟩
    rw [decode_three (by omega) hsecond (isTail_ofNat n), hlead, tailBits_ofNat, tailBits_ofNat]
    congr 1
    omega
  · have hsecond : isSecondOfFour (UInt8.ofNat (n / 64 / 64 / 64 + 0xF0))
        (UInt8.ofNat (n / 64 / 64 % 64 + 0x80)) = true := by
      rw [isSecondOfFour_iff, hlead, toNat_byte (by omega)]
      omega
    refine ⟨4, ?_⟩
    rw [decode_four (by omega) hsecond (isTail_ofNat (n / 64)) (isTail_ofNat n), hlead, tailBits_ofNat,
      tailBits_ofNat, tailBits_ofNat]
    congr 1
    omega

/-- Decoding undoes encoding. -/
theorem decode_encode (s : List Char) : decode (encode s) = .ok s := by
  induction s with
  | nil => simp [encode, decode]
  | cons c rest ih =>
    obtain ⟨width, hwidth⟩ := decode_utf8EncodeChar c (encode rest)
    have hencode : encode (c :: rest) = String.utf8EncodeChar c ++ encode rest := List.flatMap_cons
    rw [hencode, hwidth, ih, prepend, Char.ofNat_toNat]

/-! ## The order of texts -/

/-- Bytes are compared as numbers, from the first to the last. -/
theorem ofNat_cons_lt {a b : Nat} {rest more : Bytes} (ha : a < 256) (hb : b < 256)
    (h : a < b ∨ a = b ∧ rest < more) : UInt8.ofNat a :: rest < UInt8.ofNat b :: more := by
  rw [List.cons_lt_cons_iff, UInt8.lt_iff_toNat_lt, ← UInt8.toNat_inj, toNat_byte ha, toNat_byte hb]
  exact h

/-- The first bytes are in the order of the numbers, and where they agree, the difference is in the bytes after them. -/
theorem leadByte_lt_or {n m : Nat} (h : n < m) (hm : m < 0x110000) :
    leadByte n < leadByte m ∨ leadByte n = leadByte m ∧ tailCount n = tailCount m ∧
      leadBits (tailCount m) n = leadBits (tailCount m) m := by
  have hn := leadByte_cases (Nat.lt_trans h hm)
  rcases leadByte_cases hm with ⟨hm, hcount, hlead⟩ | ⟨hm, hm', hcount, hlead⟩ | ⟨hm, hm', hcount, hlead⟩ |
    ⟨hm, hcount, hlead⟩ <;>
  · simp only [hcount, hlead, leadBits]
    omega

/-- Where the first bits agree, a smaller number has smaller bytes, whatever follows. -/
theorem tails_append_lt {k n m : Nat} (hlead : leadBits k n = leadBits k m) (h : n < m) (rest more : Bytes) :
    tails k n ++ rest < tails k m ++ more := by
  induction k generalizing n m rest more with
  | zero => exact absurd hlead (Nat.ne_of_lt h)
  | succ k ih =>
    rw [tails, tails, List.append_assoc, List.append_assoc]
    have hcases : n / 64 < m / 64 ∨ n / 64 = m / 64 ∧ n % 64 < m % 64 := by omega
    rcases hcases with hfront | ⟨hfront, hlast⟩
    · exact ih hlead hfront _ _
    · rw [hfront]
      exact List.append_left_lt (ofNat_cons_lt (by omega) (by omega) (Or.inl (by omega)))

/-- A smaller character is encoded as smaller bytes, whatever follows. -/
theorem utf8EncodeChar_lt {c d : Char} (h : c < d) (rest more : Bytes) :
    String.utf8EncodeChar c ++ rest < String.utf8EncodeChar d ++ more := by
  have hlt : c.toNat < d.toNat := h
  rw [utf8EncodeChar_eq, utf8EncodeChar_eq]
  refine ofNat_cons_lt (leadByte_lt (toNat_lt c)) (leadByte_lt (toNat_lt d)) ?_
  rcases leadByte_lt_or hlt (toNat_lt d) with hlead | ⟨hlead, hcount, hbits⟩
  · exact Or.inl hlead
  · rw [hcount]
    exact Or.inr ⟨hlead, tails_append_lt hbits hlt rest more⟩

/-- Encoding keeps the order: texts are ordered as their bytes are. -/
theorem encode_lt_encode {s t : List Char} (h : s < t) : encode s < encode t := by
  induction s generalizing t with
  | nil =>
    cases t with
    | nil => exact absurd h (List.lt_irrefl [])
    | cons d t =>
      have hne : encode (d :: t) ≠ [] := by simp [encode]
      obtain ⟨b, rest, heq⟩ := List.exists_cons_of_ne_nil hne
      rw [heq]
      exact List.nil_lt_cons b rest
  | cons c s ih =>
    cases t with
    | nil => exact absurd h (List.not_lt_nil _)
    | cons d t =>
      rw [encode, encode, List.flatMap_cons, List.flatMap_cons]
      rcases List.cons_lt_cons_iff.1 h with hlt | ⟨rfl, hlt⟩
      · exact utf8EncodeChar_lt hlt _ _
      · exact List.append_left_lt (ih hlt)

theorem bytes_lt_bytes {s t : String} (h : s < t) : bytes s < bytes t :=
  encode_lt_encode (String.lt_iff.1 h)

end Text
end TableFlow
