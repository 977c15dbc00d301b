import TableFlow.Config
import TableFlow.Files.Basic
import TableFlow.Stored.JsonText
import TableFlow.Yaml.Parser

/-!
# Stored configurations

A configuration file is JSON if its name says so and YAML otherwise.  Every setting has a value of its own
when the file does not give one.
-/

namespace TableFlow
namespace Config

/-- The names of the settings, in order. -/
def settings : List String :=
  ["seed", "csv_delimiter", "missing_markers", "strict_options", "log_level", "default_trees"]

/-- A configuration as it is stored. -/
def toDocument (c : Config) : Document :=
  .named [
    ("seed", .nat c.seed),
    ("csv_delimiter", .text (String.singleton c.csvDelimiter)),
    ("missing_markers", .texts c.missingMarkers),
    ("strict_options", .flag c.strictOptions),
    ("log_level", .text c.logLevel),
    ("default_trees", .nat c.defaultTrees)]

/-- The configuration that a document stores. -/
def ofDocument? (byPosition : Bool) (d : Document) : Option Config := do
  let usual : Config := {}
  let fields ← Document.Fields.of? byPosition settings d
  let seed ← fields.optional? "seed" usual.seed Document.word64?
  let csvDelimiter ← fields.optional? "csv_delimiter" usual.csvDelimiter Document.character?
  let missingMarkers ← fields.optional? "missing_markers" usual.missingMarkers Document.texts?
  let strictOptions ← fields.optional? "strict_options" usual.strictOptions Document.flag?
  let logLevel ← fields.optional? "log_level" usual.logLevel Document.text?
  let defaultTrees ← fields.optional? "default_trees" usual.defaultTrees Document.word64?
  pure { seed, csvDelimiter, missingMarkers, strictOptions, logLevel, defaultTrees }

/-- The file is named as JSON. -/
def isJsonFile (path : String) : Bool :=
  match Path.fileName? path with
  | some name => Text.foldName (Path.extension name) == "json"
  | none => false

/-- The configuration in a file. -/
def ofFile (files : Files) (path : String) : Except Error Config := do
  let text ← match files.readText path with
    | .ok text => pure text
    | .error fault => throw (fault.at path)
  let stored := if isJsonFile path then (Document.ofJsonText? text).bind (ofDocument? true)
    else (Yaml.parse? text).bind (ofDocument? false)
  match stored with
  | some c =>
    c.validate
    pure c
  | none => throw (.serialization Json.malformed)

end Config
end TableFlow
