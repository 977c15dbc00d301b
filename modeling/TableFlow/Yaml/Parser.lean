import TableFlow.Yaml.BlockScalar
import TableFlow.Yaml.FlowScalar
import TableFlow.Yaml.Node

/-!
# Reading YAML

One document in block or flow style: mappings and sequences by indentation, mappings and sequences in
brackets, and scalars.  A node may have a name and a tag in front of it, and a name may stand for a node.  A
key stands on one line before its colon, or between a question mark and a colon on a line of its own.
-/

namespace TableFlow
namespace Yaml

/-! ### Names and tags -/

/-- A letter of the name of a node. -/
def isNameLetter (c : Char) : Bool :=
  c.isAlphanum || c == '_' || c == '-'

/-- A letter of a tag. -/
def isTagLetter (c : Char) : Bool :=
  isNameLetter c || c == ';' || c == '/' || c == '?' || c == ':' || c == '@' || c == '&' || c == '=' ||
    c == '+' || c == '$' || c == '.' || c == '~' || c == '*' || c == '\'' || c == '(' || c == ')' ||
    c == '%' || c == '!'

/-- What may follow a name directly. -/
def endsName : List Char → Bool
  | [] => true
  | c :: _ =>
    isGap c || c == '?' || c == ':' || c == ',' || c == ']' || c == '\x7d' || c == '%' || c == '@' ||
      c == '\x60'

/-- The name of a node after its sign, and the place after it. -/
def name? (p : Place) : Option (String × Place) :=
  let word := (p.rest.drop 1).takeWhile isNameLetter
  let after := p.advance (1 + word.length)
  if word.isEmpty || !endsName after.rest then none else some (String.ofList word, after)

/-- The tag at a place, and the place after it. -/
def tag? (flow : Bool) (p : Place) : Option (Tag × Place) :=
  let body := p.rest.drop 1
  let ended (tag : Tag) (length : Nat) : Option (Tag × Place) :=
    let after := p.advance length
    if gapNext after.rest || (flow && after.rest.head? = some ',') then some (tag, after) else none
  match body with
  | '<' :: rest =>
    let word := rest.takeWhile fun c => isTagLetter c || c == ',' || c == '[' || c == ']'
    if word.isEmpty || rest[word.length]? ≠ some '>' then none
    else ended (.ofName (String.ofList word)) (word.length + 3)
  | '!' :: rest =>
    let word := rest.takeWhile isTagLetter
    if word.isEmpty then none
    else ended (.ofName ("tag:yaml.org,2002:" ++ String.ofList word)) (word.length + 2)
  | rest =>
    if (rest.dropWhile isNameLetter).head? = some '!' then none
    else ended .other ((rest.takeWhile isTagLetter).length + 1)

/-- What stands in front of a node. -/
inductive Mark where
  | name (word : String)
  | tag (kind : Tag)

/-- The node with a mark in front of it. -/
def Mark.on? (mark : Mark) (node : Node) : Option Node :=
  match mark with
  | .name word => node.named? word
  | .tag kind => node.tagged? kind

/-- A mark stands here. -/
def startsMark : List Char → Bool
  | c :: _ => c == '&' || c == '!'
  | [] => false

/-- The mark at a place, and the place after it. -/
def mark? (flow : Bool) (p : Place) : Option (Mark × Place) :=
  if p.rest.head? = some '&' then (name? p).map fun (word, after) => (.name word, after)
  else (tag? flow p).map fun (kind, after) => (.tag kind, after)

/-! ### Flow style -/

/-- What lies between two places can be a key: it is on one line and not too long. -/
def isShortKey (start after : List Char) : Bool :=
  let used := start.take (start.length - after.length)
  used.length ≤ 1024 && !used.any isBreak

/-- A colon stands here. -/
def startsColon : List Char → Bool
  | ':' :: _ => true
  | _ => false

/-- A node in brackets ends before this: it is not there if nothing is before it. -/
def endsFlow : List Char → Bool
  | [] => true
  | c :: _ => c == ',' || c == ':' || c == ']' || c == '\x7d'

mutual

/-- A node in brackets, and the place after it. -/
def flow? : (fuel least : Nat) → Place → Option (Node × Place)
  | 0, _, _ => none
  | fuel + 1, least, p =>
    if startsMark p.rest then do
      let (mark, after) ← mark? true p
      let (node, after) ← flowPart? fuel least after
      pure (← mark.on? node, after)
    else if startsQuoted p.rest then
      (quoted? p.rest).map fun (text, after) => (.scalar false (String.ofList text), ⟨p.column, after⟩)
    else
      match p.rest with
      | '[' :: _ =>
        (flowItems? fuel least (p.advance 1)).map fun (items, after) => (.list items, after)
      | '\x7b' :: _ =>
        (flowMembers? fuel least (p.advance 1)).map fun (members, after) => (.record members, after)
      | '*' :: _ => (name? p).map fun (name, after) => (.reference name, after)
      | rest =>
        if startsPlain true rest then
          (plainLines? true least rest.length rest).map fun (text, after) =>
            (.scalar true (String.ofList text), ⟨p.column, after⟩)
        else none

/-- A node in brackets that may be missing. -/
def flowPart? : (fuel least : Nat) → Place → Option (Node × Place)
  | 0, _, _ => none
  | fuel + 1, least, p =>
    let p := p.nextInFlow
    if endsFlow p.rest then some (.missing, p) else flow? fuel least p

/-- A key and its value after a question mark in brackets. -/
def flowPair? : (fuel least : Nat) → Place → Option ((Node × Node) × Place)
  | 0, _, _ => none
  | fuel + 1, least, p => do
    let (key, after) ← flowPart? fuel least p
    let after := after.nextInFlow
    if startsColon after.rest then
      let (value, after) ← flowPart? fuel least (after.advance 1)
      pure ((key, value), after)
    else pure ((key, .missing), after)

/-- The items of a list in brackets up to its end; an item with a colon is a record with one member. -/
def flowItems? : (fuel least : Nat) → Place → Option (List Node × Place)
  | 0, _, _ => none
  | fuel + 1, least, p =>
    let start := p.nextInFlow
    match start.rest with
    | ']' :: _ => some ([], start.advance 1)
    | c :: _ => do
      let (item, after) ←
        if c = '?' then
          (flowPair? fuel least (start.advance 1)).map fun (pair, after) => (Node.record [pair], after)
        else do
          let (item, after) ← flow? fuel least start
          let after := after.nextInFlow
          if startsColon after.rest then
            if isShortKey start.rest after.rest then
              (flowPart? fuel least (after.advance 1)).map fun (value, after) =>
                (Node.record [(item, value)], after)
            else none
          else some (item, after)
      let after := after.nextInFlow
      match after.rest with
      | ',' :: _ =>
        (flowItems? fuel least (after.advance 1)).map fun (items, after) => (item :: items, after)
      | ']' :: _ => some ([item], after.advance 1)
      | _ => none
    | [] => none

/-- The members of a record in brackets up to its end; a key without a colon has nothing as its value. -/
def flowMembers? : (fuel least : Nat) → Place → Option (List (Node × Node) × Place)
  | 0, _, _ => none
  | fuel + 1, least, p =>
    let start := p.nextInFlow
    match start.rest with
    | '\x7d' :: _ => some ([], start.advance 1)
    | c :: _ => do
      let (member, after) ←
        if c = '?' then flowPair? fuel least (start.advance 1)
        else do
          let (key, after) ← flow? fuel least start
          let after := after.nextInFlow
          if startsColon after.rest then
            if isShortKey start.rest after.rest then
              (flowPart? fuel least (after.advance 1)).map fun (value, after) => ((key, value), after)
            else none
          else some ((key, .missing), after)
      let after := after.nextInFlow
      match after.rest with
      | ',' :: _ =>
        (flowMembers? fuel least (after.advance 1)).map fun (members, after) =>
          (member :: members, after)
      | '\x7d' :: _ => some ([member], after.advance 1)
      | _ => none
    | [] => none

end

/-- A value in brackets, and the place after it. -/
def bracketed? (least : Nat) (p : Place) : Option (Node × Place) :=
  flow? (4 * p.rest.length + 8) least p

/-- A bracket opens here. -/
def startsBracketed : List Char → Bool
  | c :: _ => c == '[' || c == '\x7b'
  | [] => false

/-! ### Block style -/

/-- A dash that starts an item stands here. -/
def startsItem (p : Place) : Bool :=
  p.rest.head? = some '-' && gapNext (p.rest.drop 1)

/-- A question mark that starts a key stands here. -/
def startsKey (p : Place) : Bool :=
  p.rest.head? = some '?' && gapNext (p.rest.drop 1)

/-- A colon that starts a value stands here. -/
def startsValue (p : Place) : Bool :=
  startsColon p.rest && gapNext (p.rest.drop 1)

/-- The blanks that follow on the line are left behind. -/
def Place.skipBlanks (p : Place) : Place :=
  p.advance (p.rest.takeWhile isSpaceOrTab).length

/-- What stands before the colon of a key on one line, and the place after it. -/
def keyNode? : (marks : Nat) → Place → Option (Node × Place)
  | marks, p =>
    if startsMark p.rest then
      match marks with
      | 0 => none
      | marks + 1 => do
        let (mark, after) ← mark? false p
        let after := after.skipBlanks
        let (node, after) ← if startsValue after then some (.missing, after) else keyNode? marks after
        pure (← mark.on? node, after)
    else if startsQuoted p.rest then
      (quoted? p.rest).map fun (text, after) =>
        (.scalar false (String.ofList text), p.advance (p.rest.length - after.length))
    else if startsBracketed p.rest then
      (bracketed? 0 p).map fun (node, after) => (node, p.advance (p.rest.length - after.rest.length))
    else if p.rest.head? = some '*' then
      (name? p).map fun (name, after) => (.reference name, after)
    else if startsPlain false p.rest then
      let (run, _) := plainRun false false p.rest
      some (.scalar true (String.ofList (trimEnd run)), p.advance run.length)
    else none

/-- A key on one line with its colon, and the place after the colon. -/
def key? (p : Place) : Option (Node × Place) := do
  let (key, after) ← keyNode? 2 p
  let after := after.skipBlanks
  if startsValue after && isShortKey p.rest after.rest then pure (key, after.advance 1) else none

/-- A collection in block style starts here. -/
def startsBlock (p : Place) : Bool :=
  startsItem p || startsKey p || (key? p).isSome

/-- A scalar, a reference or a value in brackets; later lines of it start at `least` or to the right of it. -/
def scalar? (least : Nat) (p : Place) : Option (Node × Place) :=
  if startsQuoted p.rest then
    (quoted? p.rest).map fun (text, after) => (.scalar false (String.ofList text), ⟨p.column, after⟩)
  else if startsBracketed p.rest then bracketed? least p
  else
    match p.rest with
    | '|' :: rest => (block? false least rest).map fun (text, after) => (.scalar false text, after)
    | '>' :: rest => (block? true least rest).map fun (text, after) => (.scalar false text, after)
    | '*' :: _ => (name? p).map fun (name, after) => (.reference name, after)
    | rest =>
      if startsPlain false rest then
        (plainLines? false least rest.length rest).map fun (text, after) =>
          (.scalar true (String.ofList text), ⟨p.column, after⟩)
      else none

/-- Where a node may stand. -/
structure Room where
  /-- The column at which its lines start, or to the right of which they start. -/
  least : Nat
  /-- The items of a sequence may also stand one column to the left, where the key before them stands. -/
  shallow : Bool
  /-- A collection in block style may start on this line. -/
  block : Bool

mutual

/-- The node that starts here: a sequence, a mapping or a scalar; and the place after it. -/
def node? : (fuel : Nat) → Room → Place → Option (Node × Place)
  | 0, _, _ => none
  | fuel + 1, room, p =>
    if startsBlock p then
      if !room.block then none
      else if startsItem p then
        (items? fuel p.column p).map fun (items, after) => (.list items, after)
      else (members? fuel p.column p).map fun (members, after) => (.record members, after)
    else if startsMark p.rest then do
      let (mark, after) ← mark? false p
      let (node, after) ← part? fuel true { room with block := false } after
      pure (← mark.on? node, after)
    else scalar? room.least p

/-- The next node, on this line or a later one; it may be missing.  Tells whether a tab may stand before it. -/
def part? : (fuel : Nat) → (tabs : Bool) → Room → Place → Option (Node × Place)
  | 0, _, _, _ => none
  | fuel + 1, tabs, room, p =>
    let (crossed, content) := p.next tabs
    if content.rest.isEmpty then some (.missing, p)
    else if !crossed then node? fuel room content
    else if room.least ≤ content.column then node? fuel { room with block := true } content
    else if room.shallow && content.column + 1 = room.least && startsItem content then
      (items? fuel content.column content).map fun (items, after) => (.list items, after)
    else some (.missing, p)

/-- The items of a sequence whose dashes stand in a column. -/
def items? : (fuel column : Nat) → Place → Option (List Node × Place)
  | 0, _, _ => none
  | fuel + 1, column, p => do
    let (item, p) ← part? fuel false ⟨column + 1, false, true⟩ (p.advance 1)
    let (crossed, after) := p.next true
    if after.rest.isEmpty then pure ([item], after)
    else if !crossed || column < after.column then none
    else if after.column = column && startsItem after then
      (items? fuel column after).map fun (items, after) => (item :: items, after)
    else pure ([item], p)

/-- A key and its value, and the place after them. -/
def member? : (fuel column : Nat) → Place → Option ((Node × Node) × Place)
  | 0, _, _ => none
  | fuel + 1, column, p =>
    if startsKey p then do
      let (key, p) ← part? fuel false ⟨column + 1, true, true⟩ (p.advance 1)
      let (crossed, after) := p.next true
      if crossed && after.column = column && startsValue after then
        let (value, p) ← part? fuel false ⟨column + 1, true, true⟩ (after.advance 1)
        pure ((key, value), p)
      else pure ((key, .missing), p)
    else do
      let (key, p) ← key? p
      let (value, p) ← part? fuel true ⟨column + 1, true, false⟩ p
      pure ((key, value), p)

/-- The members of a mapping whose keys stand in a column. -/
def members? : (fuel column : Nat) → Place → Option (List (Node × Node) × Place)
  | 0, _, _ => none
  | fuel + 1, column, p => do
    let (member, p) ← member? fuel column p
    let (crossed, after) := p.next true
    if after.rest.isEmpty then pure ([member], after)
    else if !crossed || column < after.column then none
    else if after.column = column then
      (members? fuel column after).map fun (members, after) => (member :: members, after)
    else pure ([member], p)

end

/-- The document that a text spells; a text without content is nothing written. -/
def parse? (s : String) : Option Document := do
  let letters := match s.toList with
    | '\uFEFF' :: rest => rest
    | all => all
  if !letters.all isAllowed then none
  else
    let body ← body? (closedLines (unifyBreaks letters))
    let room : Room := ⟨0, false, !body.marked⟩
    let (node, after) ← part? (4 * body.text.length + 8) body.marked room ⟨0, body.text⟩
    if (after.next true).2.rest.isEmpty then (node.resolve? []).map Prod.fst else none

end Yaml
end TableFlow
