/-!
# UTF-8

Texts as bytes and back.  Reading is strict, and a failure says how many bytes before the bad sequence are
valid.
-/

namespace TableFlow

/-- The content of a file. -/
abbrev Bytes := List UInt8

namespace Text

/-- The bytes of a text. -/
def encode (s : List Char) : Bytes :=
  s.flatMap String.utf8EncodeChar

/-- The bytes of a string. -/
def bytes (s : String) : Bytes :=
  encode s.toList

/-- A byte that goes on a sequence. -/
def isTail (b : UInt8) : Bool :=
  0x80 ≤ b && b ≤ 0xBF

/-- The second byte that may follow the first byte of a sequence of three: no overlong form, no surrogate. -/
def isSecondOfThree (a b : UInt8) : Bool :=
  if a = 0xE0 then 0xA0 ≤ b && b ≤ 0xBF
  else if a = 0xED then 0x80 ≤ b && b ≤ 0x9F
  else isTail b

/-- The second byte that may follow the first byte of a sequence of four: no overlong form, nothing beyond the
last code point. -/
def isSecondOfFour (a b : UInt8) : Bool :=
  if a = 0xF0 then 0x90 ≤ b && b ≤ 0xBF
  else if a = 0xF4 then 0x80 ≤ b && b ≤ 0x8F
  else isTail b

/-- The six low bits of a byte. -/
def tailBits (b : UInt8) : Nat :=
  b.toNat % 64

/-- A sequence of `width` bytes in front of the rest of a text. -/
def prepend (width code : Nat) : Except Nat (List Char) → Except Nat (List Char)
  | .ok text => .ok (Char.ofNat code :: text)
  | .error valid => .error (width + valid)

/-- The text that bytes spell, or how many bytes are valid before the first bad sequence. -/
def decode : Bytes → Except Nat (List Char)
  | [] => .ok []
  | a :: rest =>
    if a < 0x80 then prepend 1 a.toNat (decode rest)
    else if 0xC2 ≤ a && a ≤ 0xDF then
      match rest with
      | b :: rest =>
        if isTail b then prepend 2 ((a.toNat % 32) * 64 + tailBits b) (decode rest) else .error 0
      | _ => .error 0
    else if 0xE0 ≤ a && a ≤ 0xEF then
      match rest with
      | b :: c :: rest =>
        if isSecondOfThree a b && isTail c then
          prepend 3 (((a.toNat % 16) * 64 + tailBits b) * 64 + tailBits c) (decode rest)
        else .error 0
      | _ => .error 0
    else if 0xF0 ≤ a && a ≤ 0xF4 then
      match rest with
      | b :: c :: d :: rest =>
        if isSecondOfFour a b && isTail c && isTail d then
          prepend 4 ((((a.toNat % 8) * 64 + tailBits b) * 64 + tailBits c) * 64 + tailBits d)
            (decode rest)
        else .error 0
      | _ => .error 0
    else .error 0

/-- The string that bytes spell. -/
def decode? (bytes : Bytes) : Option String :=
  match decode bytes with
  | .ok text => some (String.ofList text)
  | .error _ => none

end Text
end TableFlow
