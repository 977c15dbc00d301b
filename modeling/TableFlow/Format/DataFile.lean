import TableFlow.Format.Csv
import TableFlow.Format.Records
import TableFlow.Format.Zstd

/-!
# Data files

A table file is read and written in the layout that its name tells, packed if its name says so.
-/

namespace TableFlow

/-- The layout of a table file. -/
inductive DataFormat where
  /-- Delimited text. -/
  | csv (delimiter : UInt8)
  /-- One JSON object on each line. -/
  | jsonLines
  /-- An array of JSON objects. -/
  | json
  deriving DecidableEq, Repr

/-- How a file is packed. -/
inductive Packing where
  | none
  | gzip
  | zstd
  deriving DecidableEq, Repr

/-- The name of a packing. -/
def Packing.name : Packing → String
  | .none => "none"
  | .gzip => "gzip"
  | .zstd => "zstd"

namespace DataFile

/-- A name without an ending, if it ends so. -/
def withoutEnding? (ending name : String) : Option String :=
  if name.endsWith ending then some (name.dropEnd ending.length).toString else none

/-- The packing that a file name tells, and the name without its ending. -/
def packing (name : String) : Packing × String :=
  match withoutEnding? ".gz" name with
  | some stem => (.gzip, stem)
  | none =>
    match withoutEnding? ".zst" name with
    | some stem => (.zstd, stem)
    | none => (.none, name)

/-- The layout of a file with the given ending of its name. -/
def layout (delimiter : UInt8) (ending : String) : DataFormat :=
  if ending = "tsv" || ending = "tab" then .csv 9
  else if ending = "jsonl" || ending = "ndjson" then .jsonLines
  else if ending = "json" then .json
  else .csv delimiter

/-- The layout and the packing that a path tells. -/
def detect (path : String) (delimiter : UInt8) : DataFormat × Packing :=
  let name := Text.foldLatin ((Path.fileName? path).getD "")
  let (packing, stem) := packing name
  (layout delimiter (Path.extension stem), packing)

/-- How many bytes at a time the reader of a layout asks for. -/
def chunk : DataFormat → Nat
  | .csv _ => 8192
  | .jsonLines => 8192
  | .json => 1

/-- The content of an entry, unpacked for a reader that asks for `chunk` bytes at a time. -/
def content (packing : Packing) (chunk : Nat) : Entry → Stream
  | .directory => ⟨[], some .isDirectory⟩
  | .file bytes =>
    match packing with
    | .none => ⟨bytes, none⟩
    | .gzip => Gzip.unpack bytes
    | .zstd => Zstd.unpack chunk bytes

/-- Read a table in a layout. -/
def readTable (config : Config) (stream : Stream) : DataFormat → Except Error Table
  | .csv delimiter => Csv.readTable config delimiter stream
  | .jsonLines => Records.readLines config stream
  | .json => Records.readArray config stream

/-- Write a table in a layout. -/
def writeTable (t : Table) : DataFormat → Bytes
  | .csv delimiter => Csv.writeTable delimiter t
  | .jsonLines => Records.writeLines t
  | .json => Records.writeArray t

/-- An error of the content of a file names the file, unless it does already. -/
def withPath (path : String) : Error → Error
  | .io text => if text.startsWith path then .io text else .io s!"{path}: {text}"
  | .schema text => .schema s!"{path}: {text}"
  | .serialization text => .schema s!"{path}: {text}"
  | other => other

/-- Pack bytes. -/
def packed (bytes : Bytes) : Packing → Bytes
  | .none => bytes
  | .gzip => Gzip.pack bytes
  | .zstd => Zstd.pack bytes

/-- Load a table from a file. -/
def load (config : Config) (path : String) : FileM Table := do
  let delimiter ← config.delimiterByte
  let (format, packing) := detect path delimiter
  let entry ← FileM.openEntry path
  match readTable config (content packing (chunk format) entry) format with
  | .ok table => pure table
  | .error e => throw (withPath path e)

/-- Write a table to a file. -/
def write (config : Config) (path : String) (t : Table) : FileM Unit := do
  let delimiter ← config.delimiterByte
  let (format, packing) := detect path delimiter
  FileM.save path (packed (writeTable t format) packing)

end DataFile
end TableFlow
