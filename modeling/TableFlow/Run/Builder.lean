import TableFlow.Command.Ratio
import TableFlow.Run.Execution

/-!
# Building programs

A program can be built command by command instead of being read from a script.  Each command becomes one node,
on the line after the last one, and nothing is checked before the program is compiled.
-/

namespace TableFlow

open Script (Node Program)

/-- A program that is being built. -/
structure Builder where
  program : Program
  deriving DecidableEq, Inhabited

namespace Builder

/-- No commands. -/
def empty : Builder := ⟨⟨[]⟩⟩

/-- How many commands there are. -/
def size (b : Builder) : Nat := b.program.nodes.length

/-- There are no commands. -/
def isEmpty (b : Builder) : Bool := b.program.nodes.isEmpty

/-- Add a node, on the next line. -/
def add (b : Builder) (n : Node) : Builder :=
  ⟨⟨b.program.nodes ++ [{ n with line := b.size + 1 }]⟩⟩

/-- Add a command with arguments and options. -/
def command (b : Builder) (word : String) (args : List String := [])
    (options : List (String × String) := []) : Builder :=
  b.add { command := word, args, options := .ofList options }

/-- Load a table. -/
def load (b : Builder) (path : String) : Builder := b.command "load" [path]

/-- Clean the table in some way. -/
def clean (b : Builder) (way : String) : Builder := b.command "clean" [way]

/-- Drop the rows with missing cells. -/
def cleanMissing (b : Builder) : Builder := b.clean "missing"

/-- Drop the rows that repeat earlier ones. -/
def dropDuplicates (b : Builder) : Builder := b.clean "duplicates"

/-- Encode every categorical column. -/
def encode (b : Builder) : Builder := b.command "encode"

/-- Encode some columns. -/
def encodeColumns (b : Builder) (columns : List String) : Builder := b.command "encode" columns

/-- Encode some columns as indicators. -/
def encodeIndicators (b : Builder) (columns : List String) : Builder :=
  b.command "encode" columns [("method", "onehot")]

/-- Scale in some way. -/
def scale (b : Builder) (way : String) : Builder := b.command "scale" [way]

/-- Drop some columns. -/
def drop (b : Builder) (columns : List String) : Builder := b.command "drop" columns

/-- Keep some columns only. -/
def select (b : Builder) (columns : List String) : Builder := b.command "select" columns

/-- Split the rows, with a share for training. -/
def split (b : Builder) (share : Float) : Builder := b.command "split" [Ratio.ofShare share]

/-- Split the rows, with a share for training, and name the target. -/
def splitFor (b : Builder) (share : Float) (target : String) : Builder :=
  b.command "split" [Ratio.ofShare share] [("target", target)]

/-- Train a model. -/
def train (b : Builder) (algorithm : String) : Builder := b.command "train" [algorithm]

/-- Train a model with some parameters. -/
def trainWith (b : Builder) (algorithm : String) (params : List (String × String)) : Builder :=
  b.command "train" [algorithm] params

/-- Score the model. -/
def evaluate (b : Builder) : Builder := b.command "evaluate"

/-- Export the table. -/
def exportTo (b : Builder) (path : String) : Builder := b.command "export" [path]

/-- Save a summary of the model. -/
def save (b : Builder) (path : String) : Builder := b.command "save" [path]

/-- Load, clean, encode, split, train and evaluate. -/
def quick (path target algorithm : String) : Builder :=
  ((((empty.load path).cleanMissing.encode).splitFor 0.8 target).train algorithm).evaluate

/-- The program as a script. -/
def script (b : Builder) : String := b.program.render

/-- The steps of the program. -/
def compile (b : Builder) (config : Config) : Except Error (List Step) :=
  ({ config } : Dialect).compile b.program

/-- Run the program. -/
def run (b : Builder) (config : Config) (services : Services) (files : Files) : Run :=
  .ofCompiled config services (b.compile config) files

end Builder
end TableFlow
