import TableFlow.Command.Bundled
import TableFlow.Script.Parser
import TableFlow.Script.Printer

/-!
# Steps

A dialect, the commands that are known together with the configuration, turns each node of a program into a
step: the command is looked up, its arguments are counted, its options are checked one after another, and
what is left is made into a handler.  The first node that fails a check is the error of the program.
-/

namespace TableFlow

open Script (Node Program)

/-- A checked script line with what it does. -/
structure Step where
  name : String
  args : List String
  /-- The options that the command knows, in order. -/
  options : Options
  line : Nat
  handler : Handler

namespace Step

/-- The step as a node of a program. -/
def node (s : Step) : Node := ⟨s.name, s.args, s.options, s.line⟩

/-- The step as a script line. -/
def describe (s : Step) : String := s.node.render

/-- Same command, arguments, options and line; these decide what the handler does. -/
def agrees (a b : Step) : Bool :=
  a.node.agrees b.node && a.line == b.line

end Step

/-- What scripts may say. -/
structure Dialect where
  registry : Registry := Registry.bundled
  config : Config := {}

namespace Dialect

/-- The error of a command that is not known. -/
def unknownCommand (d : Dialect) (n : Node) : Error :=
  let known := ", ".intercalate d.registry.names
  .validation n.command
    s!"line {n.line}: unknown command '{n.command}' (known commands: {known})"

/-- The command of a node, which has to be known. -/
def lookup (d : Dialect) (n : Node) : Except Error CommandSpec :=
  match d.registry.get? n.command with
  | some s => .ok s
  | none => .error (d.unknownCommand n)

/-- The error of an option that a command does not know. -/
def unknownOption (s : CommandSpec) (i : CommandInput) (key : String) : Error :=
  i.error s!"unknown option '--{key}' (allowed: {s.allowed})"

/-- Check the options of a line in order; one that the command does not know is an error if the dialect is
strict. -/
def checkOptions (strict : Bool) (s : CommandSpec) (i : CommandInput) :
    List (String × String) → Except Error Unit
  | [] => .ok ()
  | (key, value) :: rest =>
    match s.option? key with
    | some o => do
      CommandSpec.checkOption i o value
      checkOptions strict s i rest
    | none => if strict then .error (unknownOption s i key) else checkOptions strict s i rest

/-- The step of a node. -/
def step (d : Dialect) (n : Node) : Except Error Step := do
  let s ← d.lookup n
  let written : CommandInput := ⟨s.name, n.args, n.options, d.config, n.line⟩
  s.checkArity written
  checkOptions d.config.strictOptions s written n.options.pairs
  let options := n.options.filter fun key => (s.option? key).isSome
  let handler ← s.build { written with options }
  pure ⟨s.name, n.args, options, n.line, handler⟩

/-- The steps of a program. -/
def compile (d : Dialect) (p : Program) : Except Error (List Step) :=
  p.nodes.mapM d.step

/-- The steps of a script. -/
def compileSource (d : Dialect) (source : String) : Except Error (List Step) := do
  d.compile (← Program.parse source)

end Dialect
end TableFlow
