/-!
# Option words

A word of the form `--name` or `--name=value` names an option.  A name starts with a Latin letter or an
underscore and goes on with letters, digits, underscores and hyphens; a value after `=` is whatever follows
on the same line.
-/

namespace TableFlow
namespace Script

/-- A character that may start an option name. -/
def isNameStart (c : Char) : Bool :=
  ('A' ≤ c && c ≤ 'Z') || ('a' ≤ c && c ≤ 'z') || c == '_'

/-- A character that may go on in an option name. -/
def isNameChar (c : Char) : Bool :=
  isNameStart c || ('0' ≤ c && c ≤ '9') || c == '-'

/-- An option name: a start character followed by name characters. -/
def isOptionName : List Char → Bool
  | [] => false
  | c :: rest => isNameStart c && rest.all isNameChar

/-- What an option word says. -/
structure OptionWord where
  /-- The name after the two hyphens. -/
  name : List Char
  /-- The value after `=`, if there is one. -/
  value : Option (List Char)
  deriving DecidableEq, Repr

/-- Read an option word. -/
def optionWord? : List Char → Option OptionWord
  | '-' :: '-' :: spelled =>
    let name := spelled.takeWhile isNameChar
    if !isOptionName name then none
    else
      match spelled.dropWhile isNameChar with
      | [] => some ⟨name, none⟩
      | '=' :: value => if value.contains '\n' then none else some ⟨name, some value⟩
      | _ => none
  | _ => none

/-- A word is spelled like an option. -/
def isOptionWord (word : String) : Bool :=
  (optionWord? word.toList).isSome

end Script
end TableFlow
