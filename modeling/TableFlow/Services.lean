import TableFlow.Context
import TableFlow.Format.DataFile

/-!
# Services

What the commands use and do not do themselves: reading and writing tables, training, and evaluating.  Each
can be replaced.
-/

namespace TableFlow

/-- The services of a run. -/
structure Services where
  /-- Load a table. -/
  load : String → FileM Table
  /-- Write a table. -/
  write : String → Table → FileM Unit
  /-- Train a model. -/
  train : Learn.Request → Except Error Learn.Model
  /-- Score a model on a table. -/
  evaluate : Learn.Model → Table → Except Error Learn.Metrics
  /-- The time that saved summaries tell. -/
  time : String

namespace Services

/-- The services of the library itself. -/
def native (config : Config) (time : String) : Services where
  load := DataFile.load config
  write := DataFile.write config
  train := Learn.train config.defaultTrees
  evaluate := Learn.evaluate
  time

end Services
end TableFlow
