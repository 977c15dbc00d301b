import TableFlow.Config
import TableFlow.Files.Basic
import TableFlow.Json.Parser
import TableFlow.Table.Basic

/-!
# Tables as JSON objects

A table as an array of objects, or as lines of one object each.  The columns are the keys in order of first
appearance, the keys of one object taken in key order; an object without a key has a missing cell there.
-/

namespace TableFlow
namespace Records

/-- One object: its members in key order. -/
abbrev Fields := List (String × Json)

/-- The cell that a value becomes: texts that stand for missing values are missing, and nested values become
their text. -/
def cell (config : Config) : Json → Cell
  | .string s => if config.isMissing s then .null else .string s
  | .array items => .string (Json.array items).compact
  | .object members => .string (Json.object members).compact
  | other => other

/-- The keys of objects in order of first appearance, after those already known. -/
def keysAfter : (known : List String) → List Fields → List String
  | known, [] => known
  | known, fields :: rest =>
    keysAfter (fields.foldl (fun known (key, _) =>
      if known.contains key then known else known ++ [key]) known) rest

/-- The cells of one object under the given columns. -/
def row (config : Config) (columns : List String) (fields : Fields) : List Cell :=
  columns.map fun name => cell config ((fields.lookup name).getD .null)

/-- The table of a list of objects. -/
def toTable (config : Config) (objects : List Fields) : Except Error Table :=
  let columns := keysAfter [] objects
  Table.ofRows columns (objects.map (row config columns))

/-- The object on one line, which is not blank. -/
def lineObject (number : Nat) (text : List Char) : Except Error Fields :=
  match Json.parseChars? text with
  | none =>
    let reason := Json.malformed
    .error (.schema s!"line {number}: invalid json ({reason})")
  | some value =>
    match value.canonical with
    | .object fields => .ok fields
    | other =>
      let shown := other.compact
      .error (.schema s!"line {number}: expected a json object, got {shown}")

/-- The lines of a text as bytes, cut like the lines of a text. -/
def byteLines : Bytes → List Bytes
  | [] => []
  | 10 :: rest => [] :: byteLines rest
  | 13 :: 10 :: rest => [] :: byteLines rest
  | b :: rest =>
    match byteLines rest with
    | [] => [[b]]
    | line :: more => (b :: line) :: more

/-- The objects on lines of which the first has the given number; blank lines hold none. -/
def lineObjects : (number : Nat) → List Bytes → Except Error (List Fields)
  | _, [] => .ok []
  | number, line :: rest =>
    match Text.decode line with
    | .error _ => .error (.io "stream did not contain valid UTF-8")
    | .ok text => do
      if (Text.trimChars text).isEmpty then lineObjects (number + 1) rest
      else
        let object ← lineObject number text
        let more ← lineObjects (number + 1) rest
        pure (object :: more)

/-- The lines that can be read; when reading stops at a fault, the line it stops in does not count. -/
def wholeLines (stream : Stream) : List Bytes :=
  let lines := byteLines stream.bytes
  if stream.fault.isSome && stream.bytes.getLast? != some 10 then lines.dropLast else lines

/-- The table of a text with one object on each line. -/
def readLines (config : Config) (stream : Stream) : Except Error Table := do
  let objects ← lineObjects 1 (wholeLines stream)
  match stream.fault with
  | some fault => throw (.io fault.message)
  | none => toTable config objects

/-- The objects of an array of which the first item has the given number. -/
def itemObjects : (number : Nat) → List Json → Except Error (List Fields)
  | _, [] => .ok []
  | number, item :: rest =>
    match item with
    | .object fields => do
      let more ← itemObjects (number + 1) rest
      pure (fields :: more)
    | other =>
      let shown := other.compact
      .error (.schema s!"item {number}: expected an object, got {shown}")

/-- The table of a text that is an array of objects. -/
def readArray (config : Config) (stream : Stream) : Except Error Table :=
  match stream.fault with
  | some fault => .error (.serialization fault.message)
  | none =>
    match (Text.decode? stream.bytes).bind Json.parse? with
    | none => .error (.serialization Json.malformed)
    | some value =>
      match value.canonical with
      | .array items => do toTable config (← itemObjects 1 items)
      | _ => .error (.schema "json dataset must be an array of objects")

/-- A row as an object. -/
def object (t : Table) (row : List Cell) : Json :=
  .record (t.columns.zip row)

/-- A table with one object on each line. -/
def writeLines (t : Table) : Bytes :=
  t.rows.flatMap fun row => Text.encode ((object t row).compactChars ++ ['\n'])

/-- A table as an array of objects. -/
def writeArray (t : Table) : Bytes :=
  Text.bytes (Json.array (t.rows.map (object t))).pretty

end Records
end TableFlow
