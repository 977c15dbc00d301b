import TableFlow.Command.Clean
import TableFlow.Command.Columns
import TableFlow.Command.Encode
import TableFlow.Command.Registry
import TableFlow.Command.Scale
import TableFlow.Command.Split
import TableFlow.Command.Storage
import TableFlow.Command.Train

/-!
# The commands of the language
-/

namespace TableFlow
namespace Registry

/-- The commands that every script may use. -/
def bundled : Registry :=
  ⟨[Storage.loadSpec, Cleaning.spec, Encoding.spec, Scaling.spec, Columns.dropSpec,
    Columns.selectSpec, Splitting.spec, Training.spec, Evaluation.spec, Storage.exportSpec,
    Storage.saveSpec]⟩

end Registry
end TableFlow
