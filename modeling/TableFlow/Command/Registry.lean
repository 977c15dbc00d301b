import TableFlow.Command.Spec

/-!
# Registries

The commands that scripts may use, in the order in which they became known.
-/

namespace TableFlow

/-- The known commands. -/
structure Registry where
  specs : List CommandSpec

namespace Registry

/-- No commands. -/
def empty : Registry := ⟨[]⟩

/-- The command of a name. -/
def get? (r : Registry) (name : String) : Option CommandSpec :=
  r.specs.find? fun s => s.name == name

/-- A command of the name is known. -/
def contains (r : Registry) (name : String) : Bool :=
  (r.get? name).isSome

/-- Make a command known, in place of one of the same name if there is one. -/
def register (r : Registry) (s : CommandSpec) : Registry :=
  if r.contains s.name then ⟨r.specs.map fun old => if old.name == s.name then s else old⟩
  else ⟨r.specs ++ [s]⟩

/-- The names of the known commands. -/
def names (r : Registry) : List String :=
  r.specs.map CommandSpec.name

/-- How many commands are known. -/
def size (r : Registry) : Nat :=
  r.specs.length

end Registry
end TableFlow
