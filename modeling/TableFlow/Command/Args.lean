import TableFlow.Command.Spec

/-!
# Arguments

Lists of columns and paths as script lines spell them.
-/

namespace TableFlow

/-- Add a name at the end unless it is there already. -/
def addOnce (names : List String) (name : String) : List String :=
  if names.contains name then names else names ++ [name]

/-- The column names in words, which may each hold several between commas; each name once. -/
def columnList (words : List String) : List String :=
  let parts := words.flatMap fun word =>
    (Text.splitAt ',' word.toList).map fun part => String.ofList (Text.trimChars part)
  (parts.filter fun name => name != "").foldl addOnce []

/-- The first argument as a path, which may not be blank. -/
def CommandInput.path (i : CommandInput) : Except Error String :=
  let path := Text.trim i.firstArg
  if path = "" then .error (i.error "expects a non-empty path") else .ok path

/-- The arguments as column names, of which there has to be one. -/
def CommandInput.columns (i : CommandInput) : Except Error (List String) :=
  let columns := columnList i.args
  if columns.isEmpty then .error (i.error "expects at least one column name") else .ok columns

/-- The method of a name among some, without regard to case. -/
def methodOf? {α : Type} (methods : List (α × List String)) (name : String) : Option α :=
  let wanted := Text.foldName name
  (methods.find? fun (_, names) => names.contains wanted).map Prod.fst

end TableFlow
