import MultiTape.Symbol
import MultiTape.Move
import MultiTape.Ascending
import MultiTape.SearchTree
import MultiTape.StateSet
import MultiTape.Alphabet
import MultiTape.Rule
import MultiTape.Error
import MultiTape.Tape.Basic
import MultiTape.Tape.View
import MultiTape.Table.Bindings
import MultiTape.Table.Basic
import MultiTape.Text.Whitespace
import MultiTape.Text.Unprintable
import MultiTape.Text.Literal
import MultiTape.Text.Terminal
import MultiTape.Text.Digest
import MultiTape.Text.Numeral
import MultiTape.Text.Span
import MultiTape.Text.Excerpt
import MultiTape.Csv.Basic
import MultiTape.Csv.Scan
import MultiTape.Csv.Row
import MultiTape.Csv.Lemmas
import MultiTape.Description.Basic
import MultiTape.Description.Fault
import MultiTape.Description.Reader
import MultiTape.Description.Finding
import MultiTape.Description.Parse
import MultiTape.Machine.Configuration
import MultiTape.Machine.Basic
import MultiTape.Machine.Event
import MultiTape.Machine.Build
import MultiTape.Machine.Run
import MultiTape.Machine.Transcript
import MultiTape.Json.Basic
import MultiTape.Json.Read
import MultiTape.Json.Encode
import MultiTape.Json.Decode
import MultiTape.Files.Tree
import MultiTape.Files.Load
import MultiTape.CommandLine.Options
import MultiTape.CommandLine.Session
import MultiTape.Main
import MultiTape.Proofs.Tape.Indexed
import MultiTape.Proofs.Table.Registration
import MultiTape.Proofs.Table.RawRules
import MultiTape.Proofs.Table.StrictOrder
import MultiTape.Proofs.Machine.InfiniteTapes
import MultiTape.Proofs.Machine.Halting
import MultiTape.Proofs.Machine.Budget
import MultiTape.Proofs.Machine.StrictBuild
import MultiTape.Proofs.Machine.Trace
import MultiTape.Proofs.Machine.Reset
import MultiTape.Proofs.Csv.RoundTrip
import MultiTape.Proofs.Csv.Grammar
import MultiTape.Proofs.Csv.Language
import MultiTape.Proofs.Description.Reading
import MultiTape.Proofs.Description.Rendering
import MultiTape.Proofs.Description.Buildable
import MultiTape.Proofs.CommandLine.ExitCode
import MultiTape.Proofs.Machine.Wildcards
import MultiTape.Proofs.CommandLine.Strictness
import MultiTape.Proofs.Machine.Examined
import MultiTape.Proofs.Transcript.Caret
import MultiTape.Proofs.Tape.ClosedForm
import MultiTape.Proofs.Csv.Places
import MultiTape.Proofs.Machine.Bounds
import MultiTape.Proofs.Table.WriteOnce
import MultiTape.Proofs.Description.FirstFault
import MultiTape.Proofs.Table.RuleLists
import MultiTape.Proofs.Description.Assembly
import MultiTape.Proofs.Description.Arity
import MultiTape.Proofs.Table.Recoding
import MultiTape.Proofs.Machine.Recoding
import MultiTape.Proofs.Machine.TapeOrder
import MultiTape.Proofs.Machine.StateNames
import MultiTape.Proofs.Files.Content
import MultiTape.Proofs.Transcript.Unambiguous
import MultiTape.Proofs.Files.Listing
import MultiTape.Proofs.Json.RoundTrip
import MultiTape.Proofs.CommandLine.OutputModes
