import TableFlow.Run.Execution

/-!
# Debugging

A debugger runs steps one at a time, or up to the next breakpoint.  A breakpoint is a command word; the run
pauses before a step of that command.  Once a step has failed nothing runs any more.
-/

namespace TableFlow

/-- Steps that are being run, and where to pause. -/
structure Debugger where
  services : Services
  steps : List Step
  /-- How many steps have run. -/
  position : Nat := 0
  /-- The command words to pause before. -/
  breakpoints : KeyMap Unit := KeyMap.empty
  run : Run

namespace Debugger

/-- A debugger before the first step. -/
def start (config : Config) (services : Services) (steps : List Step) (files : Files) :
    Debugger where
  services := services
  steps := steps
  run := Run.start config files

/-- A debugger for a script, unless it is not accepted. -/
def ofSource (d : Dialect) (services : Services) (source : String) (files : Files) :
    Except Error Debugger :=
  (d.compileSource source).map fun steps => start d.config services steps files

/-- Pause before the steps of a command. -/
def addBreakpoint (d : Debugger) (command : String) : Debugger :=
  { d with breakpoints := d.breakpoints.insert command () }

/-- Do not pause before the steps of a command any more. -/
def removeBreakpoint (d : Debugger) (command : String) : Debugger :=
  { d with breakpoints := d.breakpoints.erase command }

/-- The run pauses before the step. -/
def pausesAt (d : Debugger) (s : Step) : Bool :=
  d.breakpoints.contains s.name

/-- The step that runs next, if there is one and no step has failed. -/
def next? (d : Debugger) : Option Step :=
  if d.run.error.isSome then none else d.steps[d.position]?

/-- Nothing is left to run. -/
def isFinished (d : Debugger) : Bool :=
  d.next?.isNone

/-- The debugger after the step has run. -/
def after (d : Debugger) (s : Step) : Debugger :=
  { d with run := d.run.advance d.services s, position := d.position + 1 }

/-- Run the next step; its report, nothing if there is no step, or the error it failed with. -/
def step (d : Debugger) : Except Error (Option StepReport) × Debugger :=
  match d.next? with
  | none => (.ok none, d)
  | some s =>
    let d := d.after s
    match d.run.error with
    | none => (.ok d.run.reports.getLast?, d)
    | some e => (.error e, d)

/-- Run at most `n` steps, until one fails or the run pauses before one. -/
def continueFor (d : Debugger) : (n : Nat) → Except Error (Option Step) × Debugger
  | 0 => (.ok none, d)
  | n + 1 =>
    match d.next? with
    | none => (.ok none, d)
    | some s =>
      if d.pausesAt s then (.ok (some s), d)
      else
        match d.step with
        | (.error e, d) => (.error e, d)
        | (.ok _, d) => d.continueFor n

/-- How many steps are left. -/
def remaining (d : Debugger) : Nat :=
  d.steps.length - d.position

/-- Run the next step, and then more until the run pauses before one. -/
def runToBreakpoint (d : Debugger) : Except Error (Option Step) × Debugger :=
  match d.step with
  | (.error e, d) => (.error e, d)
  | (.ok none, d) => (.ok none, d)
  | (.ok (some _), d) => d.continueFor d.remaining

/-- Run at most `n` steps. -/
def stepFor (d : Debugger) : (n : Nat) → Debugger
  | 0 => d
  | n + 1 => (d.step.2).stepFor n

/-- Run what is left. -/
def finish (d : Debugger) : Run :=
  (d.stepFor d.remaining).run

end Debugger
end TableFlow
