import RadarTimeline.CommandLine.Options
import RadarTimeline.CommandLine.Run
import RadarTimeline.Console.Call
import RadarTimeline.Console.Channels
import RadarTimeline.Console.Control
import RadarTimeline.Console.CoreCommands
import RadarTimeline.Console.Evaluation
import RadarTimeline.Console.Fault
import RadarTimeline.Console.Handler
import RadarTimeline.Console.Operators
import RadarTimeline.Console.Procedure
import RadarTimeline.Console.Run
import RadarTimeline.Console.Scope
import RadarTimeline.Console.Substitution
import RadarTimeline.Console.Timestamp
import RadarTimeline.Controller.Fault
import RadarTimeline.Controller.Line
import RadarTimeline.Controller.Machine
import RadarTimeline.Controller.Mnemonic
import RadarTimeline.Controller.Statement
import RadarTimeline.Controller.Subcycles
import RadarTimeline.Experiment.Load
import RadarTimeline.Experiment.Range
import RadarTimeline.Experiment.Report
import RadarTimeline.Experiment.Timeline
import RadarTimeline.Expr.Arithmetic
import RadarTimeline.Expr.Eval
import RadarTimeline.Expr.Fault
import RadarTimeline.Expr.Token
import RadarTimeline.Expr.Tree
import RadarTimeline.Expr.Value
import RadarTimeline.Files.Path
import RadarTimeline.Files.Search
import RadarTimeline.Files.Tree
import RadarTimeline.Json
import RadarTimeline.Log
import RadarTimeline.Main
import RadarTimeline.Number.Binary
import RadarTimeline.Number.Decimal
import RadarTimeline.Number.Layout
import RadarTimeline.Number.Position
import RadarTimeline.Number.Power
import RadarTimeline.Number.Reading
import RadarTimeline.Proofs.Console.Answers
import RadarTimeline.Proofs.Console.Bounds
import RadarTimeline.Proofs.Console.CallLog
import RadarTimeline.Proofs.Console.Commands
import RadarTimeline.Proofs.Console.Cycle
import RadarTimeline.Proofs.Console.ExperimentScript
import RadarTimeline.Proofs.Console.Experiments
import RadarTimeline.Proofs.Console.FailedLoads
import RadarTimeline.Proofs.Console.Failures
import RadarTimeline.Proofs.Console.Follows
import RadarTimeline.Proofs.Console.Handlers
import RadarTimeline.Proofs.Console.Interpreter
import RadarTimeline.Proofs.Console.Invocations
import RadarTimeline.Proofs.Console.Isolation
import RadarTimeline.Proofs.Console.Jumps
import RadarTimeline.Proofs.Console.LoadOrder
import RadarTimeline.Proofs.Console.Loaders
import RadarTimeline.Proofs.Console.Loading
import RadarTimeline.Proofs.Console.LoopBoundary
import RadarTimeline.Proofs.Console.Nesting
import RadarTimeline.Proofs.Console.Pursuit
import RadarTimeline.Proofs.Console.Quiet
import RadarTimeline.Proofs.Console.References
import RadarTimeline.Proofs.Console.Run
import RadarTimeline.Proofs.Console.Scopes
import RadarTimeline.Proofs.Console.TextEquality
import RadarTimeline.Proofs.Console.Trail
import RadarTimeline.Proofs.Console.Unwinding
import RadarTimeline.Proofs.Controller.Acceptance
import RadarTimeline.Proofs.Controller.AnyCalls
import RadarTimeline.Proofs.Controller.Chronology
import RadarTimeline.Proofs.Controller.Coherence
import RadarTimeline.Proofs.Controller.Effect
import RadarTimeline.Proofs.Controller.Failure
import RadarTimeline.Proofs.Controller.Heedless
import RadarTimeline.Proofs.Controller.HeldPhase
import RadarTimeline.Proofs.Controller.Padding
import RadarTimeline.Proofs.Controller.Program
import RadarTimeline.Proofs.Controller.ProgramErrors
import RadarTimeline.Proofs.Controller.Reading
import RadarTimeline.Proofs.Controller.Replay
import RadarTimeline.Proofs.Controller.Snapshot
import RadarTimeline.Proofs.Controller.SourceLines
import RadarTimeline.Proofs.Controller.Times
import RadarTimeline.Proofs.Controller.Transition
import RadarTimeline.Proofs.Controller.Tuning
import RadarTimeline.Proofs.Controller.Untouched
import RadarTimeline.Proofs.Experiment.Assembly
import RadarTimeline.Proofs.Experiment.ChannelFrequencies
import RadarTimeline.Proofs.Experiment.Overlaps
import RadarTimeline.Proofs.Experiment.PhaseCover
import RadarTimeline.Proofs.Expr.DecimalText
import RadarTimeline.Proofs.Expr.IntegerLiterals
import RadarTimeline.Proofs.Expr.IntegerValues
import RadarTimeline.Proofs.Expr.Layout
import RadarTimeline.Proofs.Expr.Lexing
import RadarTimeline.Proofs.Expr.Parsing
import RadarTimeline.Proofs.Expr.Rendering
import RadarTimeline.Proofs.Expr.Scanning
import RadarTimeline.Proofs.Expr.ValueText
import RadarTimeline.Proofs.Expr.Writing
import RadarTimeline.Proofs.Number.Magnitude
import RadarTimeline.Proofs.Number.Order
import RadarTimeline.Proofs.Number.Parts
import RadarTimeline.Proofs.Number.Shortest
import RadarTimeline.Proofs.Script.Groups
import RadarTimeline.Proofs.Script.ListElements
import RadarTimeline.Proofs.Script.ListWords
import RadarTimeline.Proofs.Script.ReferenceWords
import RadarTimeline.Proofs.Script.Spans
import RadarTimeline.Proofs.Script.Steps
import RadarTimeline.Proofs.Script.WordKinds
import RadarTimeline.Proofs.Script.WordText
import RadarTimeline.Proofs.Timing.FrequencyRecord
import RadarTimeline.Proofs.Timing.FrequencyWindow
import RadarTimeline.Proofs.Timing.PhaseInEffect
import RadarTimeline.Proofs.Timing.Toggle
import RadarTimeline.Receiver.FrequencyTable
import RadarTimeline.Receiver.Mixer
import RadarTimeline.Script.Bracket
import RadarTimeline.Script.ListText
import RadarTimeline.Script.Reader
import RadarTimeline.Script.Word
import RadarTimeline.Service.Call
import RadarTimeline.Service.Offers
import RadarTimeline.Session.State
import RadarTimeline.Site
import RadarTimeline.Text.Blank
import RadarTimeline.Text.Case
import RadarTimeline.Text.CaseTable
import RadarTimeline.Text.Search
import RadarTimeline.Text.Units
import RadarTimeline.Timing.FrequencyHistory
import RadarTimeline.Timing.Interval
import RadarTimeline.Timing.PhaseHistory
import RadarTimeline.Timing.Stream
import RadarTimeline.Proofs.Script.WrittenCommands
import RadarTimeline.Proofs.Expr.Comparison
import RadarTimeline.Proofs.Expr.OperandOrder
import RadarTimeline.Proofs.Expr.Demand
import RadarTimeline.Proofs.Script.CrlfWords
import RadarTimeline.Proofs.Script.CrlfSteps
import RadarTimeline.Proofs.Script.CrlfScripts
import RadarTimeline.Proofs.Console.Arguments
import RadarTimeline.Proofs.Console.Fragments
import RadarTimeline.Proofs.Console.AppendedLists
import RadarTimeline.Proofs.Number.Rounding
import RadarTimeline.Proofs.Number.Integers
import RadarTimeline.Proofs.Expr.IntegerText
import RadarTimeline.Proofs.Expr.Extremes
import RadarTimeline.Proofs.Expr.Sums
import RadarTimeline.Proofs.Console.IntegerArithmetic
import RadarTimeline.Proofs.Text.Pieces
import RadarTimeline.Proofs.Number.Indices
import RadarTimeline.Proofs.Controller.LineLayouts
import RadarTimeline.Proofs.Controller.ProgramLines
import RadarTimeline.Proofs.Receiver.FrequencyFiles
import RadarTimeline.Proofs.Timing.RecordedFrequencies
import RadarTimeline.Proofs.Timing.StepLine
import RadarTimeline.Proofs.Timing.RecordedEvents
import RadarTimeline.Proofs.Controller.Transmissions
import RadarTimeline.Proofs.Timing.BaudLength
import RadarTimeline.Proofs.Number.Scaled
import RadarTimeline.Proofs.Console.ReadBack
import RadarTimeline.Proofs.Timing.StreamCalls
import RadarTimeline.Proofs.Controller.SubcycleCalls
import RadarTimeline.Proofs.Script.BraceBalance
import RadarTimeline.Proofs.Console.Calendar
import RadarTimeline.Proofs.Number.Values
import RadarTimeline.Proofs.Console.PrintedInstants
