import ScriptKit.Builder
import ScriptKit.Bytes.BitSize
import ScriptKit.Bytes.Fixed
import ScriptKit.Bytes.Hex
import ScriptKit.Bytes.LittleEndian
import ScriptKit.Bytes.Scan
import ScriptKit.Bytes.Text
import ScriptKit.Call.Basic
import ScriptKit.Call.Json
import ScriptKit.Call.Recover
import ScriptKit.Call.Stack
import ScriptKit.CommandLine.FileStore
import ScriptKit.CommandLine.Options
import ScriptKit.CommandLine.Path
import ScriptKit.CommandLine.Report
import ScriptKit.CommandLine.Run
import ScriptKit.Emission
import ScriptKit.Fault
import ScriptKit.Fee
import ScriptKit.Instruction.Basic
import ScriptKit.Instruction.Push
import ScriptKit.Instruction.Reader
import ScriptKit.Json.Basic
import ScriptKit.Json.Decimal
import ScriptKit.Json.Fault
import ScriptKit.Json.Printer
import ScriptKit.Json.Reader.Basic
import ScriptKit.Json.Reader.Scalar
import ScriptKit.Json.Reader.Value
import ScriptKit.Json.Record
import ScriptKit.Listing.Assemble
import ScriptKit.Listing.Basic
import ScriptKit.Listing.Diagnostic
import ScriptKit.Listing.Kind
import ScriptKit.Listing.Parse
import ScriptKit.Listing.Print
import ScriptKit.Listing.Scan
import ScriptKit.Lookup
import ScriptKit.Main
import ScriptKit.Opcode
import ScriptKit.Param.Basic
import ScriptKit.Param.Json
import ScriptKit.Param.Type
import ScriptKit.Proofs.Builder
import ScriptKit.Proofs.Bytes.BitSize
import ScriptKit.Proofs.Bytes.Fixed
import ScriptKit.Proofs.Bytes.FixedWidth
import ScriptKit.Proofs.Bytes.Hex
import ScriptKit.Proofs.Bytes.LittleEndian
import ScriptKit.Proofs.Bytes.Scan
import ScriptKit.Proofs.Bytes.Text
import ScriptKit.Proofs.Call.Grammar
import ScriptKit.Proofs.Call.Machine
import ScriptKit.Proofs.Call.NormalForm
import ScriptKit.Proofs.Call.RoundTrip
import ScriptKit.Proofs.Call.StackEffect
import ScriptKit.Proofs.CommandLine.Build
import ScriptKit.Proofs.CommandLine.FileStore
import ScriptKit.Proofs.CommandLine.Notice
import ScriptKit.Proofs.CommandLine.Path
import ScriptKit.Proofs.CommandLine.Report
import ScriptKit.Proofs.CommandLine.ScriptText
import ScriptKit.Proofs.Emission
import ScriptKit.Proofs.Except
import ScriptKit.Proofs.Fee
import ScriptKit.Proofs.Fee.Account
import ScriptKit.Proofs.Fee.Calls
import ScriptKit.Proofs.Fee.Checks
import ScriptKit.Proofs.Fee.Pieces
import ScriptKit.Proofs.Instruction.Canonical
import ScriptKit.Proofs.Instruction.Codec
import ScriptKit.Proofs.Instruction.Cursor
import ScriptKit.Proofs.Instruction.Draining
import ScriptKit.Proofs.Instruction.Push
import ScriptKit.Proofs.Instruction.Reader
import ScriptKit.Proofs.Instruction.Shortest
import ScriptKit.Proofs.Instruction.Truncation
import ScriptKit.Proofs.Listing.Alternatives
import ScriptKit.Proofs.Listing.Assembler
import ScriptKit.Proofs.Listing.Check
import ScriptKit.Proofs.Listing.Commented.Argument
import ScriptKit.Proofs.Listing.Commented.Near
import ScriptKit.Proofs.Listing.Commented.Parser
import ScriptKit.Proofs.Listing.Commented.Text
import ScriptKit.Proofs.Listing.FaultSpans
import ScriptKit.Proofs.Listing.Faultless
import ScriptKit.Proofs.Listing.Honesty
import ScriptKit.Proofs.Listing.Integer
import ScriptKit.Proofs.Listing.IntegerLiteral
import ScriptKit.Proofs.Listing.Line
import ScriptKit.Proofs.Listing.Lines.Beside
import ScriptKit.Proofs.Listing.Lines.Grammar
import ScriptKit.Proofs.Listing.Lines.Recovery
import ScriptKit.Proofs.Listing.Lines.Text
import ScriptKit.Proofs.Listing.Literal
import ScriptKit.Proofs.Listing.Meaning
import ScriptKit.Proofs.Listing.Offsets
import ScriptKit.Proofs.Listing.Outcome
import ScriptKit.Proofs.Listing.Pieces
import ScriptKit.Proofs.Listing.Placement
import ScriptKit.Proofs.Listing.PushForms
import ScriptKit.Proofs.Listing.QuotedText
import ScriptKit.Proofs.Listing.Reading
import ScriptKit.Proofs.Listing.Repetition
import ScriptKit.Proofs.Listing.RoundTrip
import ScriptKit.Proofs.Listing.StandIn
import ScriptKit.Proofs.Listing.StatementLines
import ScriptKit.Proofs.Listing.TextLiteral
import ScriptKit.Proofs.Listing.Trivia
import ScriptKit.Proofs.Listing.Unplaced
import ScriptKit.Proofs.Opcode
import ScriptKit.Proofs.Param.Decimal
import ScriptKit.Proofs.Param.Json
import ScriptKit.Proofs.Service
import ScriptKit.Proofs.Text.Boundary
import ScriptKit.Proofs.Text.Char
import ScriptKit.Proofs.Text.Newline
import ScriptKit.Proofs.Text.Numeral
import ScriptKit.Proofs.Text.Position
import ScriptKit.Proofs.Text.Radix
import ScriptKit.Proofs.Text.Utf8
import ScriptKit.Proofs.Witness.Account
import ScriptKit.Proofs.Witness.Language
import ScriptKit.Proofs.Witness.Multisig
import ScriptKit.Proofs.Witness.Pricing
import ScriptKit.Proofs.Witness.Signature
import ScriptKit.Service
import ScriptKit.Text.Blank
import ScriptKit.Text.Columns
import ScriptKit.Text.Emoji
import ScriptKit.Text.Hidden
import ScriptKit.Text.Ligature
import ScriptKit.Text.Numeral
import ScriptKit.Text.Position
import ScriptKit.Text.Quoted
import ScriptKit.Text.Utf8
import ScriptKit.Text.Width
import ScriptKit.Witness
