import ExpressionArt.Main
import ExpressionArt.Number.Literal
import ExpressionArt.Proofs.Generator
import ExpressionArt.Proofs.Synthesis.Replay
import ExpressionArt.Proofs.Text.Templates
import ExpressionArt.Proofs.Vocabulary.Readability
import ExpressionArt.Proofs.Gallery.Navigation
import ExpressionArt.Proofs.Number.Parts
import ExpressionArt.Proofs.Number.Shortest
import ExpressionArt.Proofs.Number.Text
import ExpressionArt.Proofs.Events.CsvLog
import ExpressionArt.Proofs.Random.Collisions
import ExpressionArt.Proofs.Machine.Acceptance
import ExpressionArt.Events.QueuedLog
import ExpressionArt.Proofs.Events.Fairness
import ExpressionArt.Proofs.Timing.Calls
import ExpressionArt.Proofs.CommandLine.Runs
import ExpressionArt.Proofs.Grammar.Validation
import ExpressionArt.Proofs.Synthesis.Budgets
import ExpressionArt.Proofs.Synthesis.Consumption
import ExpressionArt.Proofs.Synthesis.Reachability
import ExpressionArt.Proofs.Vocabulary.Grids
import ExpressionArt.Proofs.Events.FanOut
import ExpressionArt.Proofs.Picture.Channels
import ExpressionArt.Proofs.Random.Exactness
import ExpressionArt.Proofs.Picture.Color
import ExpressionArt.Proofs.Picture.Resolution
import ExpressionArt.Proofs.Scalar.Modulo
import ExpressionArt.Proofs.Scalar.Range
import ExpressionArt.Proofs.Timing.Reports
import ExpressionArt.Proofs.Events.SharedLog
