import TableFlow.Main
import TableFlow.Run.Builder
import TableFlow.Run.Debugger
import TableFlow.Stored.Error
import TableFlow.Stored.Program
import TableFlow.Proofs.Checks
import TableFlow.Proofs.Script.Spelling
import TableFlow.Proofs.Script.WellFormed
import TableFlow.Proofs.Script.Lines
import TableFlow.Proofs.Action
import TableFlow.Proofs.Script.RoundTrip
import TableFlow.Proofs.Command.Instruction
import TableFlow.Proofs.Command.Effect
import TableFlow.Proofs.Run.Failure
import TableFlow.Proofs.Table.Columns
import TableFlow.Proofs.Run.Fresh
import TableFlow.Proofs.KeyMap
import TableFlow.Proofs.Command.Clean
import TableFlow.Proofs.Command.Scale
import TableFlow.Proofs.Command.Encode
import TableFlow.Proofs.Run.Codes
import TableFlow.Proofs.Script.Grammar
import TableFlow.Proofs.Script.LineByLine
import TableFlow.Proofs.Run.Building
import TableFlow.Proofs.Run.Debugging
import TableFlow.Proofs.Run.Pausing
import TableFlow.Proofs.Run.Leniency
import TableFlow.Proofs.Decimal.Rounding
import TableFlow.Proofs.Decimal.Shortest
import TableFlow.Proofs.Text.Digit
import TableFlow.Proofs.Decimal.Numeral
import TableFlow.Proofs.Json.RoundTrip
import TableFlow.Proofs.Text.Utf8
import TableFlow.Proofs.Text.Blank
import TableFlow.Proofs.Text.Lines
import TableFlow.Proofs.Format.Csv.RoundTrip
import TableFlow.Proofs.Format.Csv.Record
import TableFlow.Proofs.Format.Records
import TableFlow.Proofs.Format.Gathering
import TableFlow.Proofs.Kinds
import TableFlow.Proofs.Table.Shape
import TableFlow.Proofs.Random.Bounds
import TableFlow.Proofs.Format.DataFile
import TableFlow.Proofs.Run.Shape
import TableFlow.Proofs.Command.Kinds
import TableFlow.Proofs.Guarded.Access
import TableFlow.Proofs.Guarded.Words
import TableFlow.Proofs.Guarded.Tables
import TableFlow.Proofs.Guarded.Preparing
import TableFlow.Proofs.Guarded.Trees
import TableFlow.Proofs.Guarded.Ensembles
import TableFlow.Proofs.Guarded.Neighbours
import TableFlow.Proofs.Guarded.Logistic
import TableFlow.Proofs.Guarded.Bayes
import TableFlow.Proofs.Guarded.Models
import TableFlow.Proofs.Guarded.Reports
import TableFlow.Proofs.Guarded.Instructions
import TableFlow.Proofs.Guarded.Scripts
import TableFlow.Proofs.Run.Phases
import TableFlow.Proofs.Script.Agreement
import TableFlow.Proofs.Run.Alike
import TableFlow.Proofs.Run.Rectangular
import TableFlow.Proofs.Learn.Seedless
import TableFlow.Proofs.Command.Seeding
import TableFlow.Proofs.Run.Reseeding
import TableFlow.Proofs.Command.ScaleFrame
import TableFlow.Proofs.Table.Cells
import TableFlow.Proofs.Command.Imputation
import TableFlow.Proofs.Command.Dealing
import TableFlow.Proofs.Command.Labelling
import TableFlow.Proofs.Decimal.Whole
import TableFlow.Proofs.Command.Indicators
import TableFlow.Proofs.Command.Repeats
import TableFlow.Proofs.Decimal.Value
import TableFlow.Proofs.Decimal.Nearest
import TableFlow.Proofs.Table.Keys
import TableFlow.Proofs.Command.ScaleDefaults
import TableFlow.Proofs.Decimal.Arithmetic
import TableFlow.Proofs.Learn.Progress
import TableFlow.Proofs.Decimal.Order
import TableFlow.Proofs.Learn.Routing
import TableFlow.Proofs.Learn.Training
import TableFlow.Proofs.Learn.Predictions
import TableFlow.Proofs.Learn.Balance
import TableFlow.Proofs.Command.Independence
import TableFlow.Proofs.Script.Positions
import TableFlow.Proofs.Stored.Spelling
import TableFlow.Proofs.Stored.Programs
import TableFlow.Proofs.Learn.Voting
import TableFlow.Proofs.Command.Mode
