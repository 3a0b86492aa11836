import LogicMill.Text.Bytes
import LogicMill.Text.Utf8
import LogicMill.Capacity
import LogicMill.Symbol
import LogicMill.Instruction
import LogicMill.StateTable
import LogicMill.Ring
import LogicMill.Tape
import LogicMill.Tape.Render
import LogicMill.Program
import LogicMill.Trouble
import LogicMill.Log.Level
import LogicMill.Machine
import LogicMill.Rules.Report
import LogicMill.Rules.Parser
import LogicMill.Rules.Assembler
import LogicMill.Sink
import LogicMill.Rules.Listing
import LogicMill.Text.Numeral
import LogicMill.Input
import LogicMill.Files
import LogicMill.Source
import LogicMill.Text.Printable
import LogicMill.Text.Quoted
import LogicMill.Log.Record
import LogicMill.Cli.Flag
import LogicMill.Cli.Options
import LogicMill.Toml.Scalar
import LogicMill.Toml.Quotation
import LogicMill.Toml.Statement
import LogicMill.Toml.Document
import LogicMill.Settings
import LogicMill.Cli.Help
import LogicMill.Cli.Failure
import LogicMill.Cli.Site
import LogicMill.Cli.Session
import LogicMill.Cli.Batch
import LogicMill.Cli.Dialogue
import LogicMill.Cli.Execute
import LogicMill.Main
import LogicMill.Proofs.Utf8
import LogicMill.Proofs.StateTable
import LogicMill.Proofs.Grammar
import LogicMill.Proofs.Scan
import LogicMill.Proofs.Reading
import LogicMill.Proofs.NextRule
import LogicMill.Proofs.Assembly
import LogicMill.Proofs.Listing
import LogicMill.Proofs.Ideal
import LogicMill.Proofs.RingView
import LogicMill.Proofs.Run
import LogicMill.Proofs.Cut
import LogicMill.Proofs.Unbounded
import LogicMill.Proofs.Resumption
import LogicMill.Proofs.Calls
import LogicMill.Proofs.Places
import LogicMill.Proofs.Concatenation
import LogicMill.Proofs.Interning
import LogicMill.Proofs.WellFormed
import LogicMill.Proofs.Renaming
import LogicMill.Proofs.Usage
import LogicMill.Proofs.Relisting
import LogicMill.Proofs.Mending
import LogicMill.Proofs.Rotation
import LogicMill.Proofs.Encoding
import LogicMill.Proofs.Storing
import LogicMill.Proofs.Stages
import LogicMill.Proofs.Invocation
import LogicMill.Proofs.Building
import LogicMill.Proofs.Gaps
import LogicMill.Proofs.NormalForm
import LogicMill.Proofs.Transcript
import LogicMill.Proofs.Dialogue
import LogicMill.Proofs.FirstLine
import LogicMill.Proofs.TapeText
import LogicMill.Proofs.Trace
import LogicMill.Proofs.Limits
import LogicMill.Proofs.Rearrangement
import LogicMill.Proofs.Locality
import LogicMill.Proofs.LineEnds
import LogicMill.Proofs.Truncation
import LogicMill.Proofs.Addressing
import LogicMill.Proofs.Tokens
import LogicMill.Proofs.Acceptance
