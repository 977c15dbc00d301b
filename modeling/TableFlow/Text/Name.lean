/-!
# Names without regard to case

Names of methods, algorithms and file types are compared in lower case.
-/

namespace TableFlow
namespace Text

/-- The lower case of a character as far as plain Latin names can tell: the letters `A` to `Z`, and the
Kelvin sign, which is the only other character whose lower case form is a plain Latin letter by itself. -/
def foldChar (c : Char) : Char :=
  if c = '\u212A' then 'k' else c.toLower

/-- A name in lower case, for comparison with names in plain Latin letters. -/
def foldName (s : String) : String :=
  String.ofList (s.toList.map foldChar)

/-- A name with its plain Latin letters in lower case and all else unchanged. -/
def foldLatin (s : String) : String :=
  String.ofList (s.toList.map Char.toLower)

end Text
end TableFlow
