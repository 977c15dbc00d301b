import TableFlow.Counting
import TableFlow.Json.Parser
import TableFlow.Json.Printer

/-!
# Stored documents

What a stored text holds, whichever format spells it: programs, configurations and errors are read from
documents and written as documents.  A record keeps its members as they are spelled; what reads one decides
which members it needs and refuses a member that it knows and that is there twice.
-/

namespace TableFlow

/-- The content of a stored text. -/
inductive Document where
  /-- Nothing is written where a value could be. -/
  | blank
  | null
  | flag (value : Bool)
  | number (value : Number)
  | text (value : String)
  | list (items : List Document)
  | record (members : List (Document × Document))
  /-- What is spelled as a text or a number, but is none: half a character, or a number beyond the doubles. -/
  | unreadable
  deriving Inhabited

namespace Document

/-- A natural number. -/
def nat (n : Nat) : Document := .number (.int n)

/-- A list of texts. -/
def texts (items : List String) : Document := .list (items.map .text)

/-- A record whose members have names. -/
def named (members : List (String × Document)) : Document :=
  .record (members.map fun (name, value) => (.text name, value))

/-! ### Reading a document -/

/-- The text that a document is. -/
def text? : Document → Option String
  | .text s => some s
  | _ => none

/-- The natural number of at most 64 bits that a document is. -/
def word64? : Document → Option Nat
  | .number (.int n) => if 0 ≤ n && n < wordBound then some n.toNat else none
  | _ => none

/-- The truth value that a document is. -/
def flag? : Document → Option Bool
  | .flag b => some b
  | _ => none

/-- The single character that a document is. -/
def character? (d : Document) : Option Char :=
  match d.text?.map String.toList with
  | some [c] => some c
  | _ => none

/-- The items of a list; nothing written is an empty list. -/
def items? : Document → Option (List Document)
  | .list items => some items
  | .blank => some []
  | _ => none

/-- The texts of a list. -/
def texts? (d : Document) : Option (List String) := do
  (← d.items?).mapM text?

/-- The members of a record whose values are texts; nothing written is an empty record. -/
def textMembers? : Document → Option (List (String × String))
  | .record members => members.mapM fun (key, value) => do
    pure (← key.text?, ← value.text?)
  | .blank => some []
  | _ => none

/-- The members of a record by name; nothing if some name is not a text. -/
def members? : Document → Option (List (String × Document))
  | .record members => members.mapM fun (key, value) => do
    pure (← key.text?, value)
  | .blank => some []
  | _ => none

/-- The values of the fields of a record.  A format may spell a record by position, as the list of the values
of its first fields. -/
structure Fields where
  /-- The fields that are there. -/
  members : List (String × Document)

namespace Fields

/-- The fields of some names; a field may be there once, and members of other names do not count. -/
def ofMembers? (names : List String) (members : List (String × Document)) : Option Fields :=
  let known := members.filter fun member => names.contains member.1
  if (known.map Prod.fst).Nodup then some ⟨known⟩ else none

/-- The fields of a document. -/
def of? (byPosition : Bool) (names : List String) : Document → Option Fields
  | .list items =>
    if byPosition && items.length ≤ names.length then some ⟨names.zip items⟩ else none
  | d => d.members?.bind (ofMembers? names)

/-- The value of a field that has to be there. -/
def required? {α : Type} (f : Fields) (name : String) (read : Document → Option α) : Option α :=
  (f.members.lookup name).bind read

/-- The value of a field, or what stands for it if it is not there. -/
def optional? {α : Type} (f : Fields) (name : String) (absent : α) (read : Document → Option α) :
    Option α :=
  match f.members.lookup name with
  | none => some absent
  | some d => read d

end Fields

/-! ### JSON -/

mutual

/-- The document that a JSON value is. -/
def ofJson : Json → Document
  | .null => .null
  | .bool b => .flag b
  | .number n => .number n
  | .string s => .text s
  | .array items => .list (ofJsonItems items)
  | .object members => .record (ofJsonMembers members)

/-- The documents of items. -/
def ofJsonItems : List Json → List Document
  | [] => []
  | item :: rest => ofJson item :: ofJsonItems rest

/-- The documents of members. -/
def ofJsonMembers : List (String × Json) → List (Document × Document)
  | [] => []
  | (key, value) :: rest => (.text key, ofJson value) :: ofJsonMembers rest

end

mutual

/-- The JSON value of a document; members without a name are left out. -/
def toJson : Document → Json
  | .blank => .null
  | .null => .null
  | .flag b => .bool b
  | .number n => .number n
  | .text s => .string s
  | .list items => .array (toJsonItems items)
  | .record members => .object (toJsonMembers members)
  | .unreadable => .null

/-- The JSON values of items. -/
def toJsonItems : List Document → List Json
  | [] => []
  | item :: rest => item.toJson :: toJsonItems rest

/-- The JSON members of a record. -/
def toJsonMembers : List (Document × Document) → List (String × Json)
  | [] => []
  | (.text key, value) :: rest => (key, value.toJson) :: toJsonMembers rest
  | _ :: rest => toJsonMembers rest

end

/-- The document as JSON with one member on a line. -/
def jsonText (d : Document) : String :=
  d.toJson.pretty

end Document
end TableFlow
