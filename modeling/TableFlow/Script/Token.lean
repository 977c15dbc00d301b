import TableFlow.Script.OptionWord
import TableFlow.Script.Word
import TableFlow.Text.Lines
import TableFlow.Text.Quoted

/-!
# Tokens

The words of a script with their roles.  The first word of a line is its command whatever it looks like; of
the other words, unquoted option words are keys, a key that has no value of its own takes the next word as
its value unless that is an option word too, and everything else is an argument.  The tokens of a script
end with one token that stands at the start of the line after the last.
-/

namespace TableFlow
namespace Script

/-- The role of a token. -/
inductive Role where
  | command
  | argument
  | optionKey
  | optionValue
  | finish
  deriving DecidableEq, Repr, Inhabited

/-- The name of a role. -/
def Role.name : Role → String
  | .command => "COMMAND"
  | .argument => "ARGUMENT"
  | .optionKey => "OPTION_KEY"
  | .optionValue => "OPTION_VALUE"
  | .finish => "END"

/-- The role of a given name. -/
def Role.ofName? (name : String) : Option Role :=
  [Role.command, .argument, .optionKey, .optionValue, .finish].find? fun role => role.name == name

/-- A word with its role and its place. -/
structure Token where
  role : Role
  /-- Its text without quotes; of a key, the name without hyphens. -/
  value : String
  /-- The line it stands on, counted from one. -/
  line : Nat
  /-- The column of its first character, counted from one. -/
  column : Nat
  deriving DecidableEq, Repr, Inhabited

/-- A token as messages show it: role, quoted value and place. -/
def Token.describe (t : Token) : String :=
  let role := t.role.name
  let value := Text.quoted t.value
  s!"{role} {value} @{t.line}:{t.column}"

/-- A word that can follow a key as its value. -/
def Word.mayBeValue (w : Word) : Bool :=
  w.quoted || !isOptionWord w.text

/-- What a word says as an option; a quoted word is never one. -/
def Word.option? (w : Word) : Option OptionWord :=
  if w.quoted then none else optionWord? w.text.toList

/-- The tokens of the words after the command. -/
def itemTokens (line : Nat) : List Word → List Token
  | [] => []
  | w :: rest =>
    match w.option? with
    | none => ⟨.argument, w.text, line, w.column⟩ :: itemTokens line rest
    | some ⟨name, some value⟩ =>
      ⟨.optionKey, String.ofList name, line, w.column⟩ ::
        ⟨.optionValue, String.ofList value, line, w.column + 3 + name.length⟩ ::
        itemTokens line rest
    | some ⟨name, none⟩ =>
      ⟨.optionKey, String.ofList name, line, w.column⟩ ::
        match rest with
        | [] => []
        | v :: after =>
          if v.mayBeValue then ⟨.optionValue, v.text, line, v.column⟩ :: itemTokens line after
          else itemTokens line (v :: after)

/-- A word that says nothing as an option is an argument. -/
theorem itemTokens_argument {w : Word} (h : w.option? = none) (line : Nat) (rest : List Word) :
    itemTokens line (w :: rest) = ⟨.argument, w.text, line, w.column⟩ :: itemTokens line rest := by
  rw [itemTokens.eq_def]
  simp only [h]

/-- An option word with a value of its own is a key and that value. -/
theorem itemTokens_inline {w : Word} {name value : List Char}
    (h : w.option? = some ⟨name, some value⟩) (line : Nat) (rest : List Word) :
    itemTokens line (w :: rest) =
      ⟨.optionKey, String.ofList name, line, w.column⟩ ::
        ⟨.optionValue, String.ofList value, line, w.column + 3 + name.length⟩ ::
        itemTokens line rest := by
  rw [itemTokens.eq_def]
  simp only [h]

/-- A key takes the next word as its value if that word may be one. -/
theorem itemTokens_key_value {w v : Word} {name : List Char} (h : w.option? = some ⟨name, none⟩)
    (hv : v.mayBeValue = true) (line : Nat) (rest : List Word) :
    itemTokens line (w :: v :: rest) =
      ⟨.optionKey, String.ofList name, line, w.column⟩ ::
        ⟨.optionValue, v.text, line, v.column⟩ :: itemTokens line rest := by
  rw [itemTokens.eq_def]
  simp only [h, hv, if_true]

/-- A key stays without a value if no word follows that may be one. -/
theorem itemTokens_key_alone {w : Word} {name : List Char} (h : w.option? = some ⟨name, none⟩)
    (line : Nat) {rest : List Word} (hrest : ∀ v ∈ rest.head?, v.mayBeValue = false) :
    itemTokens line (w :: rest) =
      ⟨.optionKey, String.ofList name, line, w.column⟩ :: itemTokens line rest := by
  rw [itemTokens.eq_def]
  cases rest with
  | nil =>
    simp only [h]
    rfl
  | cons v rest =>
    have hv := hrest v (by simp)
    simp [h, hv]

/-- The tokens of one line. -/
def lineTokens (line : Nat) (text : List Char) : List Token :=
  match words text with
  | [] => []
  | first :: rest => ⟨.command, first.text, line, first.column⟩ :: itemTokens line rest

/-- The tokens of lines of which the first has the given number, and the final token. -/
def tokensFrom (line : Nat) : List (List Char) → List Token
  | [] => [⟨.finish, "", line, 1⟩]
  | text :: rest => lineTokens line text ++ tokensFrom (line + 1) rest

/-- The tokens of a script. -/
def tokenize (source : String) : List Token :=
  tokensFrom 1 (Text.lines source.toList)

end Script
end TableFlow
