import TableFlow.Stored.Document

/-!
# Stored JSON

The document that a JSON text spells.  The grammar is that of JSON, but whether a value can be held is left to
what reads the document, since a member that nobody asks for counts for nothing: values nest without a limit,
and a text with half of a surrogate pair or a number beyond the greatest double is `unreadable` where it stands
and does not make the text around it wrong.
-/

namespace TableFlow
namespace Document

open Json (NumberText skip unit? escape? stringBody? numberText? word?)

/-- The characters up to the closing quote as they are spelled, and what follows the quote. -/
def body? : List Char → Option (List Char × List Char)
  | [] => none
  | '"' :: rest => some ([], rest)
  | '\\' :: 'u' :: a :: b :: c :: d :: rest =>
    match unit? a b c d with
    | none => none
    | some _ => (body? rest).map fun (body, after) => ('\\' :: 'u' :: a :: b :: c :: d :: body, after)
  | '\\' :: c :: rest =>
    match escape? c with
    | none => none
    | some _ => (body? rest).map fun (body, after) => ('\\' :: c :: body, after)
  | c :: rest =>
    if c.toNat < 32 || c == '\\' then none
    else (body? rest).map fun (body, after) => (c :: body, after)

/-- What the characters between two quotes spell. -/
def textOf (body : List Char) : Document :=
  match stringBody? (body ++ ['"']) with
  | some (chars, _) => .text (String.ofList chars)
  | none => .unreadable

/-- What a spelling of a number spells. -/
def numberOf (spelled : NumberText) : Document :=
  match spelled.value? with
  | some n => .number n
  | none => .unreadable

/-- The text after an opening quote, and what follows it. -/
def jsonString? (s : List Char) : Option (Document × List Char) :=
  (body? s).map fun (body, after) => (textOf body, after)

/-- The number in front, and the rest. -/
def jsonNumber? (s : List Char) : Option (Document × List Char) :=
  (numberText? s).map fun (spelled, after) => (numberOf spelled, after)

mutual

/-- The value in front, and the rest.  The fuel bounds the number of calls. -/
def jsonValue? : (fuel : Nat) → List Char → Option (Document × List Char)
  | 0, _ => none
  | fuel + 1, s =>
    match skip s with
    | '"' :: rest => jsonString? rest
    | '[' :: rest =>
      match skip rest with
      | ']' :: after => some (.list [], after)
      | _ => (jsonItems? fuel rest).map fun (items, after) => (.list items, after)
    | '{' :: rest =>
      match skip rest with
      | '}' :: after => some (.record [], after)
      | _ => (jsonMembers? fuel rest).map fun (members, after) => (.record members, after)
    | 'n' :: rest => word? ['n', 'u', 'l', 'l'] .null ('n' :: rest)
    | 't' :: rest => word? ['t', 'r', 'u', 'e'] (.flag true) ('t' :: rest)
    | 'f' :: rest => word? ['f', 'a', 'l', 's', 'e'] (.flag false) ('f' :: rest)
    | rest => jsonNumber? rest

/-- The items of a list up to its end. -/
def jsonItems? : (fuel : Nat) → List Char → Option (List Document × List Char)
  | 0, _ => none
  | fuel + 1, s =>
    match jsonValue? fuel s with
    | none => none
    | some (item, s) =>
      match skip s with
      | ',' :: rest => (jsonItems? fuel rest).map fun (items, after) => (item :: items, after)
      | ']' :: rest => some ([item], rest)
      | _ => none

/-- The members of a record up to its end. -/
def jsonMembers? : (fuel : Nat) → List Char → Option (List (Document × Document) × List Char)
  | 0, _ => none
  | fuel + 1, s =>
    match skip s with
    | '"' :: rest =>
      match jsonString? rest with
      | none => none
      | some (key, s) =>
        match skip s with
        | ':' :: rest =>
          match jsonValue? fuel rest with
          | none => none
          | some (value, s) =>
            match skip s with
            | ',' :: rest =>
              (jsonMembers? fuel rest).map fun (members, after) => ((key, value) :: members, after)
            | '}' :: rest => some ([(key, value)], rest)
            | _ => none
        | _ => none
    | _ => none

end

/-- The document that a text spells, with nothing but blanks around it. -/
def ofJsonChars? (s : List Char) : Option Document :=
  match jsonValue? (2 * s.length + 2) s with
  | some (d, rest) => if (skip rest).isEmpty then some d else none
  | none => none

/-- The document that a JSON text spells. -/
def ofJsonText? (s : String) : Option Document :=
  ofJsonChars? s.toList

end Document
end TableFlow
