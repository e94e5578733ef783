import EquationPuzzle.Json.Datum
import EquationPuzzle.Json.Reader
import EquationPuzzle.Main
import EquationPuzzle.Store.Interference
import EquationPuzzle.Store.Memory
import EquationPuzzle.Proofs.Inventory.Representation
import EquationPuzzle.Proofs.Text.Identifier
import EquationPuzzle.Proofs.Calendar.Day
import EquationPuzzle.Proofs.Store.Agreement
import EquationPuzzle.Proofs.Allocation.Requests
import EquationPuzzle.Proofs.Directory.Folder
import EquationPuzzle.Proofs.Directory.Mirror
import EquationPuzzle.Proofs.Generator
import EquationPuzzle.Proofs.Allocation.Effect
import EquationPuzzle.Proofs.Allocation.Uniqueness
import EquationPuzzle.Proofs.Yaml.Lines
import EquationPuzzle.Proofs.Yaml.Datum
import EquationPuzzle.Proofs.Record.Fields
import EquationPuzzle.Proofs.Calendar.Timestamp
import EquationPuzzle.Proofs.Equation
import EquationPuzzle.Proofs.Record.Words
import EquationPuzzle.Proofs.Record.Entries
import EquationPuzzle.Proofs.Record.Files
import EquationPuzzle.Proofs.Directory.Reopening
import EquationPuzzle.Proofs.Allocation.Restart
import EquationPuzzle.Proofs.Binary64
import EquationPuzzle.Proofs.Evaluation.Rows
import EquationPuzzle.Proofs.Evaluation.Precedence
import EquationPuzzle.Proofs.Evaluation.Bounds
import EquationPuzzle.Proofs.Grammar.Reading
import EquationPuzzle.Proofs.Allocation.Refusal
import EquationPuzzle.Proofs.Allocation.Course
import EquationPuzzle.Proofs.Allocation.Conduct
import EquationPuzzle.Proofs.Directory.Rollback
import EquationPuzzle.Proofs.Directory.Opening
import EquationPuzzle.Proofs.Evaluation.Exact
import EquationPuzzle.Proofs.Evaluation.Simple
import EquationPuzzle.Proofs.Chance
import EquationPuzzle.Proofs.Generator.Layouts
import EquationPuzzle.Proofs.Generator.Candidates
import EquationPuzzle.Proofs.Generator.Reach
import EquationPuzzle.Proofs.Keyboard
import EquationPuzzle.Proofs.Solution
import EquationPuzzle.Proofs.Inventory.History
import EquationPuzzle.Proofs.Directory.Sharing
import EquationPuzzle.Proofs.Tally
import EquationPuzzle.Proofs.Feedback.Scoring
import EquationPuzzle.Proofs.Feedback.Counts
import EquationPuzzle.Proofs.Evaluation.Range
import EquationPuzzle.Proofs.Evaluation.Fractions
import EquationPuzzle.Proofs.Evaluation.Targets
import EquationPuzzle.Proofs.Directory.Integrity
import EquationPuzzle.Proofs.Json.Scalars
import EquationPuzzle.Proofs.Json.Values
import EquationPuzzle.Proofs.Json.Forms
import EquationPuzzle.Proofs.Solution.Checkers
import EquationPuzzle.Proofs.Directory.Obstruction
import EquationPuzzle.Proofs.Allocation.Resolution
import EquationPuzzle.Proofs.Store.Contended
import EquationPuzzle.Proofs.Allocation.Pregeneration
import EquationPuzzle.Proofs.Directory.Contract
import EquationPuzzle.Proofs.Directory.Claims
import EquationPuzzle.Proofs.Inventory.Batches
import EquationPuzzle.Proofs.Keyboard.Merging
import EquationPuzzle.Proofs.Allocation.Contention
import EquationPuzzle.Proofs.Solution.Recognition
import EquationPuzzle.Proofs.Evaluation.Magnitudes
import EquationPuzzle.Proofs.Evaluation.Outcomes
import EquationPuzzle.Proofs.Evaluation.Integers
import EquationPuzzle.Proofs.Calendar.Succession
import EquationPuzzle.Proofs.Allocation.Progress
import EquationPuzzle.Proofs.Generator.Budget
import EquationPuzzle.Proofs.CommandLine.Guess
import EquationPuzzle.Proofs.CommandLine.Check
import EquationPuzzle.Proofs.Toml.Lines
import EquationPuzzle.Proofs.Config.File
import EquationPuzzle.Proofs.Tally.Counting
