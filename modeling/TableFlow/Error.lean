/-!
# Errors

Every phase of the library fails with an `Error`: reading a script, checking it against the known commands,
and running its steps.  An error knows its kind, the text that a user sees, and, when a step failed, the
step and the cause below it.
-/

namespace TableFlow

/-- What went wrong, by phase. -/
inductive Error where
  /-- A file could not be read or written. -/
  | io (message : String)
  /-- A line of a script has no structure. -/
  | grammar (line : Nat) (message : String)
  /-- A command is unknown, or its arguments or options are not acceptable. -/
  | validation (command message : String)
  /-- A step ran before the state it depends on was there. -/
  | precondition (requires message : String)
  /-- A step failed while it ran. -/
  | execution (step : String) (line : Nat) (source : Error)
  /-- Data has a layout or a value that a step cannot use. -/
  | schema (message : String)
  /-- A text is not in the stored format it should be in. -/
  | serialization (message : String)
  /-- Something that is nobody's input failed. -/
  | internal (message : String)
  deriving DecidableEq, Repr, Inhabited

namespace Error

/-- The name of the kind of an error. -/
def kind : Error → String
  | .io _ => "io"
  | .grammar .. => "syntax"
  | .validation .. => "validation"
  | .precondition .. => "precondition"
  | .execution .. => "execution"
  | .schema _ => "schema"
  | .serialization _ => "serde"
  | .internal _ => "internal"

/-- The text that a user sees. -/
def message : Error → String
  | .io text => s!"io error: {text}"
  | .grammar line text => s!"syntax error at line {line}: {text}"
  | .validation command text => s!"validation error in '{command}': {text}"
  | .precondition requires text => s!"precondition failed (requires {requires}): {text}"
  | .execution step line source =>
    let cause := source.message
    s!"step '{step}' (line {line}) failed: {cause}"
  | .schema text => s!"schema error: {text}"
  | .serialization text => s!"serialization error: {text}"
  | .internal text => s!"internal error: {text}"

/-- The step that failed, for an error raised while a step ran. -/
def step? : Error → Option String
  | .execution step _ _ => some step
  | _ => none

/-- The cause below every layer of failed steps. -/
def rootCause : Error → Error
  | .execution _ _ source => source.rootCause
  | other => other

end Error
end TableFlow
