import TableFlow.Run.Execution
import TableFlow.Script.Diagram
import TableFlow.Stored.Config

/-!
# The command line

What the words of a command line ask for, and what is answered.  A script can be run, checked, shown as a
diagram or shown as its tokens.  Answering works on files as a value, so that nothing but reading and writing
them is left to the program itself.
-/

namespace TableFlow

open Script (Diagram Program Token)

/-- What to do with a script. -/
inductive Task where
  /-- Run it, and tell how it went as messages or as JSON. -/
  | run (json : Bool)
  /-- Check it without running it. -/
  | check
  /-- Show it as a diagram. -/
  | show (diagram : Diagram)
  /-- Show its tokens. -/
  | tokens
  deriving DecidableEq, Repr

/-- What a command line asks for. -/
structure Invocation where
  /-- The configuration file. -/
  config : Option String := none
  logLevel : Option String := none
  task : Task
  /-- The path of the script. -/
  script : String
  deriving DecidableEq, Repr

/-! ### Words -/

/-- The words of a command line, with the options told apart. -/
structure CommandWords where
  config : Option String := none
  logLevel : Option String := none
  format : Option String := none
  json : Bool := false
  /-- The words that are no options, the last one first. -/
  plain : List String := []

namespace CommandWords

/-- Give an option its value; nothing if it is unknown or has a value already. -/
def assign? (w : CommandWords) (name value : String) : Option CommandWords :=
  if value = "" then none
  else if name = "--config" && w.config.isNone then some { w with config := some value }
  else if name = "--log-level" && w.logLevel.isNone then some { w with logLevel := some value }
  else if name = "--format" && w.format.isNone && !w.plain.isEmpty then
    some { w with format := some value }
  else none

/-- A word that starts with a hyphen and goes on after it. -/
def isOption (word : String) : Bool :=
  match word.toList with
  | '-' :: _ :: _ => true
  | _ => false

/-- The name and the value of an option in one word. -/
def inlineValue? (word : String) : Option (String × String) :=
  let letters := word.toList
  let name := letters.takeWhile (· != '=')
  match letters.drop name.length with
  | '=' :: value => some (String.ofList name, String.ofList value)
  | _ => none

/-- Sort the words of a command line. -/
def sort? (w : CommandWords) : List String → Option CommandWords
  | [] => some w
  | word :: rest =>
    if word = "--" then some { w with plain := rest.reverse ++ w.plain }
    else if word = "--json" then
      if w.json || w.plain.isEmpty then none else sort? { w with json := true } rest
    else if isOption word then
      match inlineValue? word, rest with
      | some (name, value), rest => (w.assign? name value).bind fun w => w.sort? rest
      | none, value :: rest =>
        if isOption value then none else (w.assign? word value).bind fun w => w.sort? rest
      | none, [] => none
    else sort? { w with plain := word :: w.plain } rest

end CommandWords

namespace Invocation

/-- The task of a command, with the options that belong to it. -/
def task? (command : String) (w : CommandWords) : Option Task :=
  if w.json && command != "run" || w.format.isSome && command != "show" then none
  else
    match command with
    | "run" => some (.run w.json)
    | "check" => some .check
    | "show" => ((Diagram.ofName (w.format.getD "ascii")).toOption).map .show
    | "tokens" => some .tokens
    | _ => none

/-- What the words of a command line ask for. -/
def ofArgs? (args : List String) : Option Invocation := do
  let w ← CommandWords.sort? {} args
  match w.plain with
  | [script, command] =>
    let task ← task? command w
    if script = "" then none
    else pure { config := w.config, logLevel := w.logLevel, task, script }
  | _ => none

/-- How a command line is written. -/
def usage : String :=
  "[--config FILE] [--log-level LEVEL] <run|check|show|tokens> <script>"

end Invocation

/-! ### Answers -/

/-- What comes of an invocation. -/
inductive Answer where
  /-- A script has run. -/
  | ran (json : Bool) (run : Run)
  /-- Lines to print. -/
  | told (text : List String)

namespace Answer

/-- The task was done without a failure. -/
def success : Answer → Bool
  | .ran _ run => run.success
  | .told _ => true

/-- The lines to print. -/
def output (timing : Timing) : Answer → List String
  | .ran true run => [(run.summary timing).pretty]
  | .ran false run =>
    let seconds := Decimal.fixed 2 timing.seconds
    let last := match run.error with
      | none => s!"ok ({seconds}s)"
      | some e => "failed: " ++ e.message
    run.context.log ++ [last]
  | .told text => text

/-- The files as the answer leaves them. -/
def files (before : Files) : Answer → Files
  | .ran _ run => run.files
  | .told _ => before

end Answer

namespace Invocation

/-- A text with spaces in front, so that it takes at least `width` places. -/
def padLeft (width : Nat) (text : String) : String :=
  "".pushn ' ' (width - text.length) ++ text

/-- A text with spaces behind, so that it takes at least `width` places. -/
def padRight (width : Nat) (text : String) : String :=
  text ++ "".pushn ' ' (width - text.length)

/-- A step as a line of a check. -/
def stepLine (s : Step) : String :=
  padLeft 4 (toString s.line) ++ "  " ++ s.describe

/-- A token as a line. -/
def tokenLine (t : Token) : String :=
  padLeft 4 (toString t.line) ++ ":" ++ padRight 3 (toString t.column) ++ " " ++
    padRight 12 t.role.name ++ " " ++ t.value

/-- The configuration that an invocation works with. -/
def settings (i : Invocation) (files : Files) : Except String Config := do
  let config ← match i.config with
    | none => pure {}
    | some path =>
      match Config.ofFile files path with
      | .ok config => pure config
      | .error e => throw (s!"loading config {path}: " ++ e.message)
  pure { config with logLevel := i.logLevel.getD config.logLevel }

/-- The text of the script. -/
def source (i : Invocation) (files : Files) : Except String String :=
  match files.readText i.script with
  | .ok text => .ok text
  | .error fault => .error (s!"reading script {i.script}: " ++ fault.message)

/-- Answer an invocation, or say why it cannot be answered. -/
def answer (i : Invocation) (time : String) (files : Files) : Except String Answer := do
  let config ← i.settings files
  let source ← i.source files
  match i.task with
  | .run json => pure (.ran json (Run.script config time source files))
  | .check =>
    let steps ← (({ config } : Dialect).compileSource source).mapError Error.message
    pure (.told (steps.map stepLine ++ [s!"{steps.length} step(s) ok"]))
  | .show diagram =>
    let program ← (Program.parse source).mapError Error.message
    pure (.told [diagram.render program])
  | .tokens => pure (.told ((Script.tokenize source).map tokenLine))

/-- What is printed, and the number that tells how it went. -/
structure Reply where
  output : String := ""
  errors : String := ""
  exit : Nat := 0

/-- Lines as a text. -/
def linesText (lines : List String) : String :=
  String.join (lines.map (· ++ "\n"))

/-- The reply that an answer becomes. -/
def reply (timing : Timing) : Except String Answer → Reply
  | .ok answer =>
    { output := linesText (answer.output timing), exit := if answer.success then 0 else 1 }
  | .error message => { errors := s!"error: {message}\n", exit := 2 }

end Invocation
end TableFlow
