import TableFlow.Yaml.Scalar

/-!
# Nodes of YAML

What a text spells before names are looked up: a node may have a name by which later nodes refer to it, and a
tag that says how to read it.  `Node.resolve?` gives the document that a node stands for.
-/

namespace TableFlow
namespace Yaml

/-- How a scalar has to be read. -/
inductive Tag where
  | whole
  | fractional
  | flag
  | null
  /-- Any other tag; the scalar is a text. -/
  | other
  deriving DecidableEq

/-- The tag of a full name. -/
def Tag.ofName (name : String) : Tag :=
  if name = "tag:yaml.org,2002:int" then .whole
  else if name = "tag:yaml.org,2002:float" then .fractional
  else if name = "tag:yaml.org,2002:bool" then .flag
  else if name = "tag:yaml.org,2002:null" then .null
  else .other

/-- What a scalar with a tag stands for. -/
def Tag.read? (tag : Tag) (s : String) : Option Document :=
  match tag with
  | .whole =>
    match number? s.toList with
    | some (.int n) => some (.number (.int n))
    | _ => none
  | .fractional => (fractional? s.toList).map fun x => .number (.float x)
  | .flag => (flag? s).map .flag
  | .null => if isNull s then some .null else none
  | .other => some (.text s)

/-- What a text spells. -/
inductive Node where
  /-- Nothing is written where a node could be. -/
  | missing
  | scalar (plain : Bool) (text : String)
  | list (items : List Node)
  | record (members : List (Node × Node))
  /-- The node that has a name. -/
  | reference (name : String)
  | marked (name : Option String) (tag : Option Tag) (node : Node)
  deriving Inhabited

namespace Node

/-- The node with a name; a reference has none, and no node has two. -/
def named? (name : String) : Node → Option Node
  | .reference _ => none
  | .marked (some _) _ _ => none
  | .marked none tag node => some (.marked (some name) tag node)
  | node => some (.marked (some name) none node)

/-- The node with a tag; a reference has none, and no node has two. -/
def tagged? (tag : Tag) : Node → Option Node
  | .reference _ => none
  | .marked _ (some _) _ => none
  | .marked name none node => some (.marked name (some tag) node)
  | node => some (.marked none (some tag) node)

/-- The text of a scalar. -/
def spelling? : Node → Option String
  | .missing => some ""
  | .scalar _ text => some text
  | _ => none

/-- Documents by the names of their nodes, the latest first. -/
abbrev Names := List (String × Document)

mutual

/-- The document that a node stands for, and the names that are known after it. -/
def resolve? (names : Names) : Node → Option (Document × Names)
  | .missing => some (.blank, names)
  | .scalar true text => some (Yaml.plain text, names)
  | .scalar false text => some (.text text, names)
  | .list items => (resolveItems? names items).map fun (items, names) => (.list items, names)
  | .record members =>
    (resolveMembers? names members).map fun (members, names) => (.record members, names)
  | .reference name => (names.lookup name).map fun document => (document, names)
  | .marked name tag node => do
    let (document, names) ← resolve? names node
    let document ← match tag, node.spelling? with
      | some tag, some text => tag.read? text
      | _, _ => some document
    pure (document, match name with
      | some name => (name, document) :: names
      | none => names)

/-- The documents that nodes stand for, one after the other. -/
def resolveItems? (names : Names) : List Node → Option (List Document × Names)
  | [] => some ([], names)
  | item :: rest => do
    let (item, names) ← resolve? names item
    let (rest, names) ← resolveItems? names rest
    pure (item :: rest, names)

/-- The members that nodes stand for, one after the other. -/
def resolveMembers? (names : Names) :
    List (Node × Node) → Option (List (Document × Document) × Names)
  | [] => some ([], names)
  | (key, value) :: rest => do
    let (key, names) ← resolve? names key
    let (value, names) ← resolve? names value
    let (rest, names) ← resolveMembers? names rest
    pure ((key, value) :: rest, names)

end

end Node
end Yaml
end TableFlow
