import TableFlow.Decimal.Reading
import TableFlow.Script.Options
import TableFlow.Services

/-!
# Commands

A command word has a specification: how many arguments it takes, which options it knows, and how a checked
script line becomes a handler.  A handler reads the context that it finds, then writes to it and tells what it
has done, or it fails; what it has written by then stays written.
-/

namespace TableFlow

/-- What an option accepts. -/
inductive OptionKind where
  /-- Any text that is not blank. -/
  | text
  /-- A natural number of at most 64 bits. -/
  | integer
  /-- A finite number. -/
  | number
  deriving DecidableEq, Repr, Inhabited

namespace OptionKind

/-- The name of a kind. -/
def name : OptionKind → String
  | .text => "text"
  | .integer => "integer"
  | .number => "number"

/-- What is wrong with a value, if anything. -/
def complaint? (kind : OptionKind) (value : String) : Option String :=
  match kind with
  | .text => if Text.trim value = "" then some "expects a non-empty value" else none
  | .integer =>
    if (Text.word64? value).isSome then none
    else some s!"expects a non-negative integer, got '{value}'"
  | .number =>
    if (Decimal.readFinite? value).isSome then none else some s!"expects a number, got '{value}'"

end OptionKind

/-- An option that a command knows. -/
structure OptionSpec where
  name : String
  kind : OptionKind
  deriving DecidableEq, Repr, Inhabited

/-- A script line as a command sees it. -/
structure CommandInput where
  command : String
  args : List String
  options : Options
  config : Config
  line : Nat

namespace CommandInput

/-- The value of an option. -/
def option? (i : CommandInput) (key : String) : Option String :=
  i.options.get? key

/-- An error of this line. -/
def error (i : CommandInput) (message : String) : Error :=
  .validation i.command s!"line {i.line}: {message}"

/-- The value of an option as a natural number. -/
def natural (i : CommandInput) (key : String) : Except Error (Option Nat) :=
  match i.option? key with
  | none => .ok none
  | some value =>
    match Text.word64? value with
    | some n => .ok (some n)
    | none => .error (i.error s!"--{key} expects a non-negative integer, got '{value}'")

/-- The value of an option as a finite number. -/
def number (i : CommandInput) (key : String) : Except Error (Option Float) :=
  match i.option? key with
  | none => .ok none
  | some value =>
    match Decimal.readFinite? value with
    | some x => .ok (some x)
    | none => .error (i.error s!"--{key} expects a number, got '{value}'")

/-- The first argument; empty if there is none. -/
def firstArg (i : CommandInput) : String :=
  i.args.headD ""

end CommandInput

/-- Why a handler did not succeed. -/
inductive Breakdown where
  /-- It failed with an error. -/
  | failed (error : Error)
  /-- It broke down; what it last said, if it said anything. -/
  | crashed (detail : Option String)
  deriving DecidableEq, Repr

/-- The error that a breakdown is recorded as. -/
def Breakdown.toError : Breakdown → Error
  | .failed e => e
  | .crashed detail => .internal (detail.getD "handler panicked")

/-- An action on a state that may fail or break down; what it has changed by then stays changed. -/
abbrev ActionM (σ : Type) := ExceptT Breakdown (StateM σ)

/-- Run an action. -/
def ActionM.runWith {σ α : Type} (action : ActionM σ α) (s : σ) : Except Breakdown α × σ :=
  Id.run (StateT.run (ExceptT.run action) s)

/-- What a step works on: the context, and the files around it. -/
structure Workspace where
  context : Context
  files : Files

/-- An action on a workspace. -/
abbrev StepM := ActionM Workspace

namespace StepM

variable {α : Type}

/-- Fail with an error. -/
def fail (e : Error) : StepM α := throw (.failed e)

/-- A result that depends on no workspace. -/
def ofExcept : Except Error α → StepM α
  | .ok a => pure a
  | .error e => fail e

/-- An action on the files. -/
def ofFiles (action : FileM α) : StepM α := fun w =>
  match action.runWith w.files with
  | (.ok a, files) => (.ok a, { w with files })
  | (.error e, files) => (.error (.failed e), { w with files })

/-- Change the context. -/
def change (f : Context → Context) : StepM Unit := fun w =>
  (.ok (), { w with context := f w.context })

@[simp] theorem runWith_pure (a : α) (w : Workspace) :
    (pure a : StepM α).runWith w = (.ok a, w) := rfl

@[simp] theorem runWith_fail (e : Error) (w : Workspace) :
    (fail e : StepM α).runWith w = (.error (.failed e), w) := rfl

@[simp] theorem runWith_change (f : Context → Context) (w : Workspace) :
    (change f).runWith w = (.ok (), { w with context := f w.context }) := rfl

@[simp] theorem runWith_ofExcept_ok (a : α) (w : Workspace) :
    (ofExcept (.ok a)).runWith w = (.ok a, w) := rfl

theorem runWith_ofFiles (action : FileM α) (w : Workspace) :
    (ofFiles action).runWith w =
      match action.runWith w.files with
      | (.ok a, files) => (.ok a, { w with files })
      | (.error e, files) => (.error (.failed e), { w with files }) := rfl

/-- A sequence goes on where its first part has succeeded. -/
theorem runWith_bind {β : Type} (x : StepM α) (f : α → StepM β) (w : Workspace) :
    (x >>= f).runWith w =
      match x.runWith w with
      | (.ok a, w) => (f a).runWith w
      | (.error b, w) => (.error b, w) := by
  simp only [ActionM.runWith, ExceptT.run_bind, StateT.run_bind]
  rcases StateT.run (ExceptT.run x) w with ⟨_ | _, _⟩ <;> rfl

end StepM

/-- What a step of a script does. -/
structure Handler where
  /-- The command word. -/
  name : String
  /-- Work on a workspace; the context is given as the step finds it there. -/
  run : Services → Context → StepM String

namespace Handler

/-- A handler that uses no files and writes the context as a whole. -/
def ofContext (name : String) (act : Services → Context → Except Error (Context × String)) :
    Handler where
  name := name
  run := fun services context => do
    let (changed, message) ← StepM.ofExcept (act services context)
    StepM.change fun _ => changed
    pure message

/-- Work on the context and the files of a workspace. -/
def execute (h : Handler) (services : Services) : StepM String := fun w =>
  h.run services w.context w

end Handler

/-- The specification of a command. -/
structure CommandSpec where
  name : String
  /-- How the command is written. -/
  usage : String
  minArgs : Nat := 0
  /-- The most arguments; any number if absent. -/
  maxArgs : Option Nat := some 0
  options : List OptionSpec := []
  /-- The handler of a line that has passed the checks. -/
  build : CommandInput → Except Error Handler

namespace CommandSpec

/-- The option of a name. -/
def option? (s : CommandSpec) (name : String) : Option OptionSpec :=
  s.options.find? fun o => o.name == name

/-- Check the number of arguments. -/
def checkArity (s : CommandSpec) (i : CommandInput) : Except Error Unit :=
  let given := i.args.length
  if given < s.minArgs then
    .error (i.error
      s!"expects at least {s.minArgs} argument(s), got {given} (usage: {s.usage})")
  else
    match s.maxArgs with
    | none => .ok ()
    | some most =>
      if most < given then
        .error (i.error s!"takes at most {most} argument(s), got {given} (usage: {s.usage})")
      else .ok ()

/-- Check the value of an option. -/
def checkOption (i : CommandInput) (o : OptionSpec) (value : String) : Except Error Unit :=
  match o.kind.complaint? value with
  | none => .ok ()
  | some text => .error (i.error s!"--{o.name} {text}")

/-- The options that the command knows, as a message lists them. -/
def allowed (s : CommandSpec) : String :=
  if s.options.isEmpty then "none"
  else ", ".intercalate (s.options.map fun o => "--" ++ o.name)

end CommandSpec
end TableFlow
