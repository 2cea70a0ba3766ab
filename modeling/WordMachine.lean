import WordMachine.Text.Blank
import WordMachine.Text.Lines
import WordMachine.Text.Digit
import WordMachine.Text.Similar
import WordMachine.Text.Capital
import WordMachine.Word
import WordMachine.Vocabulary
import WordMachine.Address
import WordMachine.Diagnostic
import WordMachine.Warning
import WordMachine.Source.Token
import WordMachine.Source.LineParser
import WordMachine.Layout
import WordMachine.Generator
import WordMachine.Assembler
import WordMachine.Listing
import WordMachine.Legacy.Program
import WordMachine.Machine.Run
import WordMachine.Machine.Trace
import WordMachine.Text.Utf8
import WordMachine.Text.Control
import WordMachine.Files.Tree
import WordMachine.Settings
import WordMachine.Command.Session
import WordMachine.Main
import WordMachine.Proofs.Machine.Reachable
import WordMachine.Proofs.Machine.Implemented
import WordMachine.Proofs.Machine.Operations
import WordMachine.Proofs.Machine.Effects
import WordMachine.Proofs.Machine.Soundness
import WordMachine.Proofs.Machine.StepCases
import WordMachine.Proofs.Machine.StepOutcome
import WordMachine.Proofs.Machine.Limit
import WordMachine.Proofs.Machine.Calls
import WordMachine.Proofs.Machine.Consistency
import WordMachine.Proofs.Results
import WordMachine.Proofs.Numeric.Value
import WordMachine.Proofs.Text.Numeral
import WordMachine.Proofs.Text.Lines
import WordMachine.Proofs.Text.Words
import WordMachine.Proofs.Codec
import WordMachine.Proofs.Source.Constant
import WordMachine.Proofs.Source.Parsed
import WordMachine.Proofs.Source.Lexing
import WordMachine.Proofs.Source.Scanning
import WordMachine.Proofs.Source.Reading
import WordMachine.Proofs.Source.Parts
import WordMachine.Proofs.Source.PlainLine
import WordMachine.Proofs.Source.WrittenLine
import WordMachine.Proofs.Source.WrittenInstruction
import WordMachine.Proofs.Source.Numbers
import WordMachine.Proofs.Source.Commented
import WordMachine.Proofs.Source.Annotated
import WordMachine.Proofs.Legacy.Pieces
import WordMachine.Proofs.Legacy.Words
import WordMachine.Proofs.Legacy.WrittenLine
import WordMachine.Proofs.Layout.Plan
import WordMachine.Proofs.Layout.Collector
import WordMachine.Proofs.Layout.FirstPass
import WordMachine.Proofs.Layout.Tables
import WordMachine.Proofs.Layout.SecondPass
import WordMachine.Proofs.Layout.Acceptance
import WordMachine.Proofs.Layout.Reports
import WordMachine.Proofs.Layout.Refusal
import WordMachine.Proofs.Layout.Undefined
import WordMachine.Proofs.Layout.Clashes
import WordMachine.Proofs.Layout.Reuse
import WordMachine.Proofs.Layout.Padded
import WordMachine.Proofs.Assembly.Assembled
import WordMachine.Proofs.Assembly.Faithful
import WordMachine.Proofs.Assembly.Occupancy
import WordMachine.Proofs.Assembly.Reassembly
import WordMachine.Proofs.Assembly.Straight
import WordMachine.Proofs.Assembly.LastSource
import WordMachine.Proofs.Assembly.Standing
import WordMachine.Proofs.Assembly.Comments
import WordMachine.Proofs.Text.Shown
import WordMachine.Proofs.Machine.Rendering
import WordMachine.Proofs.Machine.Legibility
import WordMachine.Proofs.Machine.Tracing
import WordMachine.Proofs.Machine.History
import WordMachine.Proofs.Machine.Frame
import WordMachine.Proofs.Machine.Consumption
import WordMachine.Proofs.Address
import WordMachine.Proofs.Machine.AddressFaults
import WordMachine.Proofs.Machine.Reader
import WordMachine.Proofs.Machine.PlainStep
import WordMachine.Proofs.Machine.MemorySize
import WordMachine.Proofs.Machine.StoreLoad
import WordMachine.Proofs.Machine.IntegerArithmetic
import WordMachine.Proofs.Programs.SumRun
import WordMachine.Proofs.Programs.SumSource
import WordMachine.Proofs.Files.Tree
import WordMachine.Proofs.Command.OneFile
import WordMachine.Proofs.Command.AllFiles
import WordMachine.Proofs.Command.Input
import WordMachine.Proofs.Command.WrittenFiles
import WordMachine.Proofs.Command.Environment
import WordMachine.Proofs.Machine.IndexArithmetic
import WordMachine.Proofs.Machine.Shifts
import WordMachine.Proofs.Machine.Comparisons
import WordMachine.Proofs.StoredReal.Grid
import WordMachine.Proofs.StoredReal.Rounding
import WordMachine.Proofs.StoredReal.Order
import WordMachine.Proofs.StoredReal.Range
import WordMachine.Proofs.Machine.RandomDraws
import WordMachine.Proofs.Charset.TextCodec
import WordMachine.Proofs.Numeric.Exactness
import WordMachine.Proofs.StoredReal.Parts
import WordMachine.Proofs.Machine.NumberParts
import WordMachine.Proofs.Layout.ErrorLimit
import WordMachine.Proofs.Legacy.TrailingText
import WordMachine.Proofs.Legacy.FreeComments
import WordMachine.Proofs.Legacy.Locations
import WordMachine.Proofs.Assembly.Listings
import WordMachine.Proofs.Assembly.LabelTables
import WordMachine.Proofs.Source.Complaints
import WordMachine.Proofs.Source.OperandPlaces
import WordMachine.Proofs.Legacy.Complaints
import WordMachine.Proofs.Layout.Sites
import WordMachine.Proofs.Assembly.Diagnostics
