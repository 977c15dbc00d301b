import TableFlow.Run.Step

/-!
# Runs

Steps run one after another.  A step that succeeds changes the context and adds its message to the log; the
first one that fails ends the run.  Each step that ran has a report.
-/

namespace TableFlow

/-- What is told about a step that ran. -/
structure StepReport where
  name : String
  line : Nat
  success : Bool
  /-- The message of a step that succeeded, the error of one that failed. -/
  message : String
  deriving DecidableEq, Repr, Inhabited

/-- Run a handler for a line of a script; an error it fails with names the handler and the line. -/
def Handler.perform (h : Handler) (line : Nat) (services : Services) : StepM String := fun w =>
  match (h.execute services).runWith w with
  | (.error (.failed e), w) => (.error (.failed (.execution h.name line e)), w)
  | (result, w) => (result, w)

/-- An error goes out with the name of the handler and the line; anything else goes out as it is. -/
theorem Handler.runWith_perform (h : Handler) (line : Nat) (services : Services) (w : Workspace) :
    (h.perform line services).runWith w =
      match (h.execute services).runWith w with
      | (.error (.failed e), w) => (.error (.failed (.execution h.name line e)), w)
      | (result, w) => (result, w) := rfl

/-- Run a handler outside a run, on a context that the caller goes on with if it fails. -/
def Handler.attempt (h : Handler) (line : Nat) (services : Services) (context : Context) :
    ActionM Files (Context × String) := fun files =>
  match (h.perform line services).runWith ⟨context, files⟩ with
  | (.ok message, w) => (.ok (w.context, message), w.files)
  | (.error b, w) => (.error b, w.files)

/-- The error that a step which broke down is recorded with. -/
def Step.breakdown (s : Step) : Breakdown → Error
  | .failed e => e
  | .crashed detail => .execution s.name s.line (Breakdown.crashed detail).toError

/-- How far a run has come. -/
structure Run extends Workspace where
  reports : List StepReport := []
  error : Option Error := none

namespace Run

/-- Nothing has run yet. -/
def start (config : Config) (files : Files) : Run where
  context := Context.start config.seed
  files := files

/-- The run of a script that was not accepted. -/
def rejected (e : Error) (files : Files) : Run where
  context := Context.start 0
  files := files
  error := some e

/-- No step has failed. -/
def success (r : Run) : Bool := r.error.isNone

/-- The name of the step that failed. -/
def failedStep? (r : Run) : Option String := r.error.bind Error.step?

/-- Run one step. -/
def advance (services : Services) (r : Run) (s : Step) : Run :=
  match (s.handler.perform s.line services).runWith r.toWorkspace with
  | (.ok message, w) =>
    { context := { w.context with log := w.context.log ++ [message] }
      files := w.files
      reports := r.reports ++ [⟨s.name, s.line, true, message⟩]
      error := none }
  | (.error b, w) =>
    let e := s.breakdown b
    { context := w.context
      files := w.files
      reports := r.reports ++ [⟨s.name, s.line, false, e.message⟩]
      error := some e }

/-- Run steps until one fails. -/
def advanceAll (services : Services) (r : Run) : List Step → Run
  | [] => r
  | s :: rest =>
    let r := r.advance services s
    if r.error.isSome then r else r.advanceAll services rest

/-- Run steps from the start. -/
def ofSteps (config : Config) (services : Services) (steps : List Step) (files : Files) : Run :=
  (start config files).advanceAll services steps

/-- Run the steps of a script or a program, unless it is not accepted. -/
def ofCompiled (config : Config) (services : Services) (steps : Except Error (List Step))
    (files : Files) : Run :=
  match steps with
  | .ok steps => ofSteps config services steps files
  | .error e => rejected e files

/-- Run a script. -/
def ofSource (d : Dialect) (services : Services) (source : String) (files : Files) : Run :=
  ofCompiled d.config services (d.compileSource source) files

/-- Run a script with the commands and services of the library. -/
def script (config : Config) (time source : String) (files : Files) : Run :=
  ofSource { config } (.native config time) source files

end Run

/-- The clock readings of a run. -/
structure Timing where
  /-- When the run started. -/
  startedAt : String
  /-- How many seconds it took. -/
  seconds : Float := 0.0
  /-- How many milliseconds each step took. -/
  stepMillis : List Float := []

/-- What is told about a run. -/
def Run.summary (r : Run) (t : Timing) : Json :=
  let millis := t.stepMillis ++ List.replicate (r.reports.length - t.stepMillis.length) 0.0
  .record [
    ("success", .bool r.success),
    ("started_at", .string t.startedAt),
    ("duration_secs", .float t.seconds),
    ("error", .stringOrNull (r.error.map Error.message)),
    ("steps", .array ((r.reports.zip millis).map fun (report, ms) => .record [
      ("name", .string report.name),
      ("line", .nat report.line),
      ("success", .bool report.success),
      ("message", .string report.message),
      ("duration", .float ms)])),
    ("context", r.context.summary)]

end TableFlow
