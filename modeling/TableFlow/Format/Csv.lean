import TableFlow.Config
import TableFlow.Decimal.Reading
import TableFlow.Files.Basic
import TableFlow.Table.Basic

/-!
# Delimited text

Tables as lines of fields between delimiters, the first line being the column names.  A field may stand
between double quotes, and then delimiters and line ends in it are content and a quote is written twice.
Reading works on bytes: the delimiter is a byte, and a field has to be valid text only after it has been cut
out.
-/

namespace TableFlow
namespace Csv

/-- The double quote as a byte. -/
def quoteByte : UInt8 := 34

/-- A byte that ends a record. -/
def isLineEnd (b : UInt8) : Bool :=
  b == 10 || b == 13

/-- Where in a record reading stands. -/
inductive Place where
  /-- Before a record; line ends are skipped. -/
  | recordStart
  /-- Before a field. -/
  | fieldStart
  /-- In a field, outside quotes. -/
  | plain
  /-- In a field, between quotes. -/
  | quoted
  /-- After a quote inside a quoted field, which closes it unless another quote follows. -/
  | quoteSeen
  deriving DecidableEq, Repr

/-- A record as it was cut out: where reading stood before it, and its fields. -/
structure RawRecord where
  /-- How many bytes had been read. -/
  offset : Nat
  /-- The line reading stood on, counted from one. -/
  line : Nat
  fields : List Bytes
  deriving DecidableEq, Repr

/-- The state of reading. -/
structure Cursor where
  place : Place
  /-- How many bytes have been read. -/
  offset : Nat
  /-- The line reading stands on. -/
  line : Nat
  /-- The offset and the line at the start of the record. -/
  start : Nat × Nat
  /-- The bytes of the field so far, the last one first. -/
  field : Bytes
  /-- The finished fields of the record, the last one first. -/
  fields : List Bytes

namespace Cursor

/-- Reading stands before a record. -/
def before (offset line : Nat) : Cursor :=
  ⟨.recordStart, offset, line, (offset, line), [], []⟩

/-- Count a byte as read. -/
def advance (c : Cursor) (b : UInt8) : Cursor :=
  { c with offset := c.offset + 1, line := if b = 10 then c.line + 1 else c.line }

/-- The byte belongs to the field. -/
def keep (c : Cursor) (b : UInt8) : Cursor :=
  { c with place := .plain, field := b :: c.field }

/-- The byte belongs to the field, between quotes. -/
def keepQuoted (c : Cursor) (b : UInt8) : Cursor :=
  { c with place := .quoted, field := b :: c.field }

/-- The field ends at a delimiter. -/
def endField (c : Cursor) : Cursor :=
  { c with place := .fieldStart, field := [], fields := c.field.reverse :: c.fields }

/-- The record with the field that is being read as its last. -/
def record (c : Cursor) : RawRecord :=
  ⟨c.start.1, c.start.2, (c.field.reverse :: c.fields).reverse⟩

end Cursor

/-- What a byte does: the record that it ends, if any, and the state after it. -/
def step (delimiter : UInt8) (c : Cursor) (b : UInt8) : Option RawRecord × Cursor :=
  let c := c.advance b
  let outside : Option RawRecord × Cursor :=
    if b = delimiter then (none, c.endField)
    else if isLineEnd b then (some c.record, .before c.offset c.line)
    else (none, c.keep b)
  let first : Option RawRecord × Cursor :=
    if b = quoteByte then (none, { c with place := .quoted }) else outside
  match c.place with
  | .recordStart => if isLineEnd b then (none, c) else first
  | .fieldStart => first
  | .plain => outside
  | .quoted => if b = quoteByte then (none, { c with place := .quoteSeen }) else (none, c.keepQuoted b)
  | .quoteSeen => if b = quoteByte then (none, c.keepQuoted b) else outside

/-- The records of a text from a state on.  A text that is `whole` ends its last record. -/
def recordsFrom (delimiter : UInt8) (whole : Bool) (c : Cursor) : Bytes → List RawRecord
  | [] => if c.place = .recordStart || !whole then [] else [c.record]
  | b :: rest =>
    match step delimiter c b with
    | (some r, c) => r :: recordsFrom delimiter whole c rest
    | (none, c) => recordsFrom delimiter whole c rest

/-- The records of a text; a byte order mark in front is skipped. -/
def records (delimiter : UInt8) (whole : Bool) : Bytes → List RawRecord
  | 0xEF :: 0xBB :: 0xBF :: rest =>
    recordsFrom delimiter whole { Cursor.before 3 1 with start := (0, 1) } rest
  | bytes => recordsFrom delimiter whole (.before 0 1) bytes

/-- What is wrong with a record. -/
inductive RecordFault where
  /-- It has another number of fields than the header. -/
  | width (found expected : Nat)
  /-- A field is not valid text from this byte on. -/
  | notText (field validBytes : Nat)
  deriving DecidableEq, Repr

/-- The text of a fault of the record with the given number. -/
def RecordFault.message (number : Nat) (r : RawRecord) : RecordFault → String
  | .width found expected =>
    s!"CSV error: record {number} (line: {r.line}, byte: {r.offset}): found record with {found} fields, but the previous record has {expected} fields"
  | .notText field validBytes =>
    s!"CSV parse error: record {number} (line {r.line}, field: {field}, byte: {r.offset}): invalid utf-8: invalid UTF-8 in field {field} near byte index {validBytes}"

/-- The fields as texts without the blanks around them, or the first one that is no text. -/
def fieldTexts : (field : Nat) → List Bytes → Except RecordFault (List String)
  | _, [] => .ok []
  | field, bytes :: rest =>
    match Text.decode bytes with
    | .error valid => .error (.notText field valid)
    | .ok text =>
      match fieldTexts (field + 1) rest with
      | .error fault => .error fault
      | .ok texts => .ok (String.ofList (Text.trimChars text) :: texts)

/-- The cell that a field spells: missing, a finite number, or a text. -/
def cell (config : Config) (field : String) : Cell :=
  if config.isMissing field then .null
  else
    match Decimal.readFinite? (Text.trim field) with
    | some x => .number (.float x)
    | none => .string (Text.trim field)

/-- A byte that is a blank by itself: a space, a tab, a form feed or the end of a line. -/
def isBlankByte (b : UInt8) : Bool :=
  b == 9 || b == 10 || b == 12 || b == 13 || b == 32

/-- The fault as it is told of a row, where bytes count from behind the blanks in front of a field. -/
def RecordFault.behindBlanks (fields : List Bytes) : RecordFault → RecordFault
  | .notText field validBytes =>
    .notText field (validBytes - ((fields.getD field []).takeWhile isBlankByte).length)
  | fault => fault

/-- The row of a record with as many fields as there are columns. -/
def row (config : Config) (width : Nat) (r : RawRecord) : Except RecordFault (List Cell) :=
  if r.fields.length = width then
    match fieldTexts 0 r.fields with
    | .ok texts => .ok (texts.map (cell config))
    | .error fault => .error (fault.behindBlanks r.fields)
  else .error (.width r.fields.length width)

/-- The rows of the records, of which the first has the given number.  If reading stopped at a fault, it is
reported for the record after the last one. -/
def rows (config : Config) (width : Nat) (fault : Option FileFault) : (number : Nat) →
    List RawRecord → Except Error (List (List Cell))
  | number, [] =>
    match fault with
    | none => .ok []
    | some fault =>
      let reason := fault.message
      .error (.schema s!"row {number}: {reason}")
  | number, r :: rest =>
    match row config width r with
    | .error fault =>
      let reason := fault.message number r
      .error (.schema s!"row {number}: {reason}")
    | .ok cells =>
      match rows config width fault (number + 1) rest with
      | .error e => .error e
      | .ok more => .ok (cells :: more)

/-- The column names of a header. -/
def header (r : RawRecord) : Except Error (List String) :=
  match fieldTexts 0 r.fields with
  | .ok names => .ok names
  | .error fault =>
    let reason := fault.message 0 r
    .error (.schema s!"csv error: {reason}")

/-- The table that a delimited text spells. -/
def readTable (config : Config) (delimiter : UInt8) (stream : Stream) : Except Error Table :=
  match records delimiter stream.fault.isNone stream.bytes with
  | [] =>
    match stream.fault with
    | some fault => .error (.io fault.message)
    | none => .error (.schema "file has no header row")
  | first :: rest => do
    let columns ← header first
    if columns.all fun name => name == "" then throw (.schema "file has no header row")
    let empty ← Table.ofRows columns []
    let rows ← rows config columns.length stream.fault 1 rest
    pure { empty with rows := rows }

/-- A field has to stand between quotes. -/
def needsQuotes (delimiter : UInt8) (field : Bytes) : Bool :=
  field.any fun b => b == delimiter || b == quoteByte || isLineEnd b

/-- A field between quotes, with every quote in it doubled. -/
def quoteField (field : Bytes) : Bytes :=
  quoteByte :: field.flatMap (fun b => if b = quoteByte then [quoteByte, quoteByte] else [b]) ++
    [quoteByte]

/-- A field as it is written. -/
def writeField (delimiter : UInt8) (field : Bytes) : Bytes :=
  if needsQuotes delimiter field then quoteField field else field

/-- A record as it is written; one that would be an empty line is written as an empty quoted field. -/
def writeRecord (delimiter : UInt8) (fields : List Bytes) : Bytes :=
  match fields with
  | [] => [quoteByte, quoteByte, 10]
  | [[]] => [quoteByte, quoteByte, 10]
  | fields => [delimiter].intercalate (fields.map (writeField delimiter)) ++ [10]

/-- A table as a delimited text. -/
def writeTable (delimiter : UInt8) (t : Table) : Bytes :=
  writeRecord delimiter (t.columns.map Text.bytes) ++
    t.rows.flatMap fun row => writeRecord delimiter (row.map fun c => Text.bytes c.fieldText)

end Csv
end TableFlow
