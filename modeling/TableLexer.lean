import TableLexer.Alphabet
import TableLexer.Automaton.Basic
import TableLexer.Automaton.Error
import TableLexer.Automaton.Rules
import TableLexer.Automaton.Session
import TableLexer.Automaton.Transitions
import TableLexer.Files.Error
import TableLexer.Files.Path
import TableLexer.Files.Tree
import TableLexer.Journal
import TableLexer.Json.Decode
import TableLexer.Json.Lexer
import TableLexer.Json.Number
import TableLexer.Json.Piece
import TableLexer.Json.Printer
import TableLexer.Json.Reader
import TableLexer.Json.Value
import TableLexer.Lexical.Archive
import TableLexer.Lexical.Rules
import TableLexer.Lexical.State
import TableLexer.Lexical.Table
import TableLexer.Lexicon.Archive
import TableLexer.Lexicon.Basic
import TableLexer.Lexicon.History
import TableLexer.Lexicon.LexemeTable
import TableLexer.Main
import TableLexer.Program.Export
import TableLexer.Program.Fuzz
import TableLexer.Program.Lex
import TableLexer.Program.Script
import TableLexer.Proofs.Alphabet.FirstNamed
import TableLexer.Proofs.Automaton.Application
import TableLexer.Proofs.Automaton.Clashes
import TableLexer.Proofs.Automaton.Declaration
import TableLexer.Proofs.Automaton.Effect
import TableLexer.Proofs.Automaton.Log
import TableLexer.Proofs.Automaton.Numbering
import TableLexer.Proofs.Automaton.Operations
import TableLexer.Proofs.Automaton.Reordering
import TableLexer.Proofs.Automaton.Resolution
import TableLexer.Proofs.Automaton.Totality
import TableLexer.Proofs.Files.Keeping
import TableLexer.Proofs.Files.Writing
import TableLexer.Proofs.Json.Archives
import TableLexer.Proofs.Json.Fields
import TableLexer.Proofs.Json.Layout
import TableLexer.Proofs.Json.RoundTrip
import TableLexer.Proofs.Json.Scalar
import TableLexer.Proofs.Lexical.Declared
import TableLexer.Proofs.Lexical.Exported
import TableLexer.Proofs.Lexical.NextState
import TableLexer.Proofs.Lexical.StandardTable
import TableLexer.Proofs.Lexical.WellFormed
import TableLexer.Proofs.Lexicon.Archive
import TableLexer.Proofs.Lexicon.FirstSeen
import TableLexer.Proofs.Lexicon.Growth
import TableLexer.Proofs.Lexicon.Registration
import TableLexer.Proofs.Lexicon.Restoring
import TableLexer.Proofs.Lexicon.Uses
import TableLexer.Proofs.Lists.EraseDups
import TableLexer.Proofs.Program.Agreement
import TableLexer.Proofs.Program.Keeping
import TableLexer.Proofs.Program.Replaying
import TableLexer.Proofs.Program.Running
import TableLexer.Proofs.Records.Unambiguous
import TableLexer.Proofs.Sample.Draws
import TableLexer.Proofs.Sample.Soundness
import TableLexer.Proofs.Scan.Accounting
import TableLexer.Proofs.Scan.Assembly
import TableLexer.Proofs.Scan.Conservation
import TableLexer.Proofs.Scan.Delivery
import TableLexer.Proofs.Scan.Displaced
import TableLexer.Proofs.Scan.Driver
import TableLexer.Proofs.Scan.Ending
import TableLexer.Proofs.Scan.Feed
import TableLexer.Proofs.Scan.FirstRejection
import TableLexer.Proofs.Scan.Foreign
import TableLexer.Proofs.Scan.Independence
import TableLexer.Proofs.Scan.Joining
import TableLexer.Proofs.Scan.LineEnds
import TableLexer.Proofs.Scan.LongestMatch
import TableLexer.Proofs.Scan.Pending
import TableLexer.Proofs.Scan.Places
import TableLexer.Proofs.Scan.Pointing
import TableLexer.Proofs.Scan.Policies
import TableLexer.Proofs.Scan.Progress
import TableLexer.Proofs.Scan.Reachable
import TableLexer.Proofs.Scan.Reading
import TableLexer.Proofs.Scan.Recognition
import TableLexer.Proofs.Scan.Recording
import TableLexer.Proofs.Scan.Relocation
import TableLexer.Proofs.Scan.Retracing
import TableLexer.Proofs.Scan.Reuse
import TableLexer.Proofs.Scan.Simulation
import TableLexer.Proofs.Scan.Size
import TableLexer.Proofs.Scan.Spacing
import TableLexer.Proofs.Scan.Tracing
import TableLexer.Proofs.Scan.Unbroken
import TableLexer.Proofs.Text.Chars
import TableLexer.Proofs.Text.Lines
import TableLexer.RandomSource
import TableLexer.Records
import TableLexer.Sample
import TableLexer.Scan.Basis
import TableLexer.Scan.Error
import TableLexer.Scan.Finding
import TableLexer.Scan.Move
import TableLexer.Scan.Report
import TableLexer.Scan.Scanner
import TableLexer.Scan.Stream
import TableLexer.Settings
import TableLexer.Text.Blank
import TableLexer.Text.Lines
import TableLexer.Text.Printable
import TableLexer.Text.Quoted
import TableLexer.Text.Utf8
import TableLexer.Time
import TableLexer.Token
