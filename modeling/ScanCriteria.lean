import ScanCriteria.Calendar.Blank
import ScanCriteria.Calendar.Day
import ScanCriteria.Calendar.Moment
import ScanCriteria.Calendar.Reading
import ScanCriteria.Command.Arguments
import ScanCriteria.Command.Program
import ScanCriteria.Command.Report
import ScanCriteria.Command.Run
import ScanCriteria.Criterion.Agreement
import ScanCriteria.Criterion.Basic
import ScanCriteria.Criterion.Document
import ScanCriteria.Entries
import ScanCriteria.Field
import ScanCriteria.Json.Numeral
import ScanCriteria.Json.Reader
import ScanCriteria.Json.Text
import ScanCriteria.Json.Value
import ScanCriteria.Kind
import ScanCriteria.Limits
import ScanCriteria.Log.Buffer
import ScanCriteria.Log.Code
import ScanCriteria.Log.Event
import ScanCriteria.Log.Level
import ScanCriteria.Log.Service
import ScanCriteria.Main
import ScanCriteria.Number.Double
import ScanCriteria.Number.Layout
import ScanCriteria.Number.Rounding
import ScanCriteria.Number.Shortest
import ScanCriteria.Operator
import ScanCriteria.Preferences
import ScanCriteria.Reader
import ScanCriteria.Session.Basic
import ScanCriteria.Session.Conversion
import ScanCriteria.SubField
import ScanCriteria.Terminal
import ScanCriteria.Wire.Fault
import ScanCriteria.Wire.FieldTuple
import ScanCriteria.Wire.Literal
import ScanCriteria.Wire.Parse
import ScanCriteria.Wire.Progress
import ScanCriteria.Wire.Serialize
import ScanCriteria.Wire.Tag
import ScanCriteria.Wire.Write
import ScanCriteria.Proofs.Calendar.Digits
import ScanCriteria.Proofs.Calendar.TextForm
import ScanCriteria.Proofs.Calendar.Forms
import ScanCriteria.Proofs.Calendar.Instant
import ScanCriteria.Proofs.Number.Whole
import ScanCriteria.Proofs.Wire.FieldGrammar
import ScanCriteria.Proofs.Wire.FieldReading
import ScanCriteria.Proofs.Criterion.Nodes
import ScanCriteria.Proofs.Criterion.Tests
import ScanCriteria.Proofs.Criterion.TestDocuments
import ScanCriteria.Proofs.Wire.Tuples
import ScanCriteria.Proofs.Wire.Grammar
import ScanCriteria.Proofs.Wire.Soundness
import ScanCriteria.Proofs.Wire.Acceptance
import ScanCriteria.Proofs.Wire.FieldWire
import ScanCriteria.Proofs.Wire.Recovery
import ScanCriteria.Proofs.Wire.Nulls
import ScanCriteria.Proofs.Command.RoundTrip
import ScanCriteria.Proofs.Wire.RoundTrip
import ScanCriteria.Proofs.Wire.Parts
import ScanCriteria.Proofs.Wire.Layouts
import ScanCriteria.Proofs.Wire.Stripping
import ScanCriteria.Proofs.Wire.Trail
import ScanCriteria.Proofs.Wire.OpenTuples
import ScanCriteria.Proofs.Wire.Guarded
import ScanCriteria.Proofs.Wire.LimitFaults
import ScanCriteria.Proofs.Wire.Steps
import ScanCriteria.Proofs.Wire.Rewriting
import ScanCriteria.Proofs.Wire.FailFast
import ScanCriteria.Proofs.Wire.Continuation
import ScanCriteria.Proofs.Log.Window
import ScanCriteria.Proofs.Session.Attribution
import ScanCriteria.Proofs.Session.Delivery
import ScanCriteria.Proofs.Session.Refusal
import ScanCriteria.Proofs.Session.Losses
import ScanCriteria.Proofs.Session.Recall
import ScanCriteria.Proofs.Session.Installation
import ScanCriteria.Proofs.Criterion.Documents
import ScanCriteria.Proofs.Command.Runs
import ScanCriteria.Proofs.Json.Text
import ScanCriteria.Proofs.Command.ReportLines
import ScanCriteria.Proofs.Command.Output
import ScanCriteria.Proofs.Command.TrailLines
import ScanCriteria.Proofs.Log.Messages
import ScanCriteria.Proofs.Session.Scopes
