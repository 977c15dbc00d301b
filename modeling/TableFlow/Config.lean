import TableFlow.Error
import TableFlow.Text.Blank

/-!
# Configuration

The settings that scripts are checked and run with.
-/

namespace TableFlow

/-- The settings of a run. -/
structure Config where
  /-- Seed of splitting and training unless a step gives its own. -/
  seed : Nat := 42
  /-- The character between the fields of a table file. -/
  csvDelimiter : Char := ','
  /-- The cell texts that stand for a missing value. -/
  missingMarkers : List String := ["", "NA", "N/A", "NaN", "nan", "null", "NULL", "None", "?"]
  /-- Options that a command does not know are refused rather than ignored. -/
  strictOptions : Bool := true
  /-- The level of the log of the command line. -/
  logLevel : String := "info"
  /-- The number of trees of a forest unless a step gives its own. -/
  defaultTrees : Nat := 100
  deriving DecidableEq, Repr, Inhabited

namespace Config

/-- Check what the types leave open: the delimiter is plain ASCII and a forest has a tree. -/
def validate (c : Config) : Except Error Unit :=
  if 128 ≤ c.csvDelimiter.toNat then
    .error (.validation "config" s!"csv_delimiter must be ASCII, got '{c.csvDelimiter}'")
  else if c.defaultTrees = 0 then
    .error (.validation "config" "default_trees must be positive")
  else .ok ()

/-- The delimiter as one byte. -/
def delimiterByte (c : Config) : Except Error UInt8 :=
  if c.csvDelimiter.toNat < 256 then .ok (UInt8.ofNat c.csvDelimiter.toNat)
  else .error (.validation "config" "csv_delimiter must be ASCII")

/-- The text, without the blanks around it, stands for a missing value. -/
def isMissing (c : Config) (text : String) : Bool :=
  c.missingMarkers.contains (Text.trim text)

end Config
end TableFlow
