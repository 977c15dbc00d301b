import TableFlow.Script.Options

/-!
# Programs

A program is the list of the command lines of a script.  Two programs are equal in content when their nodes
have the same commands and arguments and give the same options the same values; the line a node stands on
and the order of its options are not content.
-/

namespace TableFlow
namespace Script

/-- One command line: the command word, its arguments and its options. -/
structure Node where
  command : String
  args : List String := []
  options : Options := Options.empty
  /-- The line of the script, counted from one; zero for a node that was not read from a script. -/
  line : Nat := 0
  deriving DecidableEq, Inhabited

/-- Same content, wherever the two nodes stand and in whatever order their options are. -/
def Node.agrees (a b : Node) : Bool :=
  a.command == b.command && a.args == b.args && a.options.agrees b.options

/-- The nodes of a script in order. -/
structure Program where
  nodes : List Node
  deriving DecidableEq, Inhabited

namespace Program

/-- The command words in order. -/
def commands (p : Program) : List String :=
  p.nodes.map Node.command

/-- Same content, node by node. -/
def agrees (a b : Program) : Bool :=
  a.nodes.length == b.nodes.length && (a.nodes.zip b.nodes).all fun (m, n) => m.agrees n

end Program
end Script
end TableFlow
