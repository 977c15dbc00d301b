import TableFlow.Error
import TableFlow.Script.Program
import TableFlow.Script.Token

/-!
# Reading programs

Tokens are grouped into nodes: a command opens a node, arguments and options that stand on its line belong
to it, and each key is followed by its value.  Reading stops at the first token that breaks this, with a
`Fault` that says how, and the line it is reported for.
-/

namespace TableFlow
namespace Script

/-- The ways in which tokens fail to form a program. -/
inductive Fault where
  /-- A token follows the final one. -/
  | afterFinish (token : Token)
  /-- A key is not followed by a value. -/
  | missingValue (key : String)
  /-- A command is the empty word. -/
  | emptyCommand
  /-- A line starts with an option word. -/
  | optionAsCommand (word : String)
  /-- A value does not follow a key. -/
  | strayValue (value : String)
  /-- An argument or option stands on a line that has no command before it. -/
  | noCommand (value : String)
  /-- The final token is missing. -/
  | unfinished
  deriving DecidableEq, Repr

/-- The text of a fault. -/
def Fault.message : Fault → String
  | .afterFinish token =>
    let shown := token.describe
    s!"unexpected token after end of input: {shown}"
  | .missingValue key => s!"option '--{key}' expects a value"
  | .emptyCommand => "empty command word"
  | .optionAsCommand word => s!"line must start with a command, found option '{word}'"
  | .strayValue value => s!"option value '{value}' has no option key"
  | .noCommand value => s!"'{value}' appears before any command on its line"
  | .unfinished => "token stream is not terminated by END"

/-- A fault reported for a line. -/
def Fault.at (fault : Fault) (line : Nat) : Error :=
  .grammar line fault.message

/-- What has been read so far. -/
structure Reading where
  /-- The finished nodes, the last one first. -/
  done : List Node
  /-- The node that is being read. -/
  current : Option Node
  /-- The key that waits for its value. -/
  pending : Option Token
  /-- The final token has been read. -/
  finished : Bool
  deriving Inhabited

namespace Reading

/-- Nothing read yet. -/
def start : Reading := ⟨[], none, none, false⟩

/-- The nodes read so far, the last one first. -/
def nodes (r : Reading) : List Node :=
  match r.current with
  | none => r.done
  | some node => node :: r.done

/-- No key may be waiting for its value. -/
def settled (r : Reading) : Except Error Unit :=
  match r.pending with
  | none => .ok ()
  | some key => .error ((Fault.missingValue key.value).at key.line)

/-- The node to which a token on this line belongs. -/
def nodeFor (r : Reading) (token : Token) : Except Error Node :=
  match r.current with
  | some node =>
    if node.line = token.line then .ok node
    else .error ((Fault.noCommand token.value).at token.line)
  | none => .error ((Fault.noCommand token.value).at token.line)

/-- Open a node. -/
def openNode (r : Reading) (token : Token) : Except Error Reading :=
  if token.value = "" then .error (Fault.emptyCommand.at token.line)
  else if isOptionWord token.value then
    .error ((Fault.optionAsCommand token.value).at token.line)
  else
    .ok { r with done := r.nodes, current := some { command := token.value, line := token.line } }

/-- Read one token. -/
def read (r : Reading) (token : Token) : Except Error Reading :=
  if r.finished then .error ((Fault.afterFinish token).at token.line)
  else
    match token.role with
    | .command => do
      r.settled
      r.openNode token
    | .argument => do
      r.settled
      let node ← r.nodeFor token
      pure { r with current := some { node with args := node.args ++ [token.value] } }
    | .optionKey => do
      r.settled
      let _ ← r.nodeFor token
      pure { r with pending := some token }
    | .optionValue =>
      match r.pending with
      | none => .error ((Fault.strayValue token.value).at token.line)
      | some key => do
        let node ← r.nodeFor token
        let options := node.options.insert key.value token.value
        pure { r with current := some { node with options := options }, pending := none }
    | .finish => do
      r.settled
      pure { r with finished := true }

end Reading

/-- The program that a list of tokens forms. -/
def Program.ofTokens (tokens : List Token) : Except Error Program := do
  let reading ← tokens.foldlM Reading.read Reading.start
  if reading.finished then
    pure ⟨reading.nodes.reverse⟩
  else
    let line := match tokens.getLast? with
      | some token => token.line
      | none => 1
    .error (Fault.unfinished.at line)

/-- The program that a script spells. -/
def Program.parse (source : String) : Except Error Program :=
  Program.ofTokens (tokenize source)

end Script
end TableFlow
