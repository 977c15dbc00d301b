/-!
# Blank characters

The characters that separate words and that trimming removes: Unicode's `White_Space` property.
Everything here works on `List Char`, the view of a text that the rest of the library reasons about.
-/

namespace TableFlow
namespace Text

/-- A character is blank when Unicode gives it the property `White_Space`. -/
def isBlank (c : Char) : Bool :=
  let n := c.toNat
  (9 ≤ n && n ≤ 13) || n == 0x20 || n == 0x85 || n == 0xA0 || n == 0x1680 ||
    (0x2000 ≤ n && n ≤ 0x200A) || n == 0x2028 || n == 0x2029 || n == 0x202F || n == 0x205F ||
    n == 0x3000

/-- Drop the blanks in front. -/
def trimFront (s : List Char) : List Char :=
  s.dropWhile isBlank

/-- Drop the blanks at both ends. -/
def trimChars (s : List Char) : List Char :=
  (trimFront (trimFront s).reverse).reverse

/-- The text without the blanks at its two ends. -/
def trim (s : String) : String :=
  String.ofList (trimChars s.toList)

end Text
end TableFlow
