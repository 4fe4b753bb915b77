import TableLexer.Lexical.Table
import TableLexer.Scan.Move
import TableLexer.Scan.Report
namespace TableLexer

open Scan

structure ScanOptions where
  policy : Policy
  trace : Bool
deriving DecidableEq, Repr

def ScanOptions.standard : ScanOptions := ⟨.failFast, false⟩

/-- A table, how to scan with it, and where the last scan left off. -/
structure Scanner where
  table : Lexical.Table
  options : ScanOptions
  cursor : Cursor

namespace Scanner

def ofTable (table : Lexical.Table) (options : ScanOptions) : Scanner :=
  ⟨table, options, ⟨Session.start table.machine, ⟨1, 1⟩⟩⟩

def standard (options : ScanOptions) : Except AutomatonError Scanner :=
  Lexical.Table.standard.result.map fun table => ofTable table options

def basis (s : Scanner) : Basis := ⟨s.table.machine, s.table.alphabet, s.options.policy⟩

/-- All that one scan changes, and why it gave up if it did. -/
structure Outcome where
  scanner : Scanner
  lexicon : Lexicon
  report : Report
  observed : List Token
  journal : Journal
  failure? : Option LexError

def move (s : Scanner) (source : String) : Move := s.cursor.run s.basis (stream source)

def doneRemark (r : Report) : Remark :=
  ⟨.debug, "[lex] scanned " ++ toString r.tokens.size ++ " tokens, " ++
    toString r.diagnostics.size ++ " diagnostics"⟩

/-- Adds to `report` whatever is found, also when the scan gives up. -/
def scanOnto (s : Scanner) (source : String) (k : Lexicon) (report : Report) : Outcome :=
  let m := s.move source
  let r := (Recording.mk k report #[] #[]).addAll s.options.trace m.findings
  { scanner := { s with cursor := m.cursor }
    lexicon := r.lexicon
    report := r.report
    observed := r.observed.toList
    journal := r.journal.toList ++ if m.failure?.isSome then [] else [doneRemark r.report]
    failure? := m.failure? }

def scan (s : Scanner) (source : String) (k : Lexicon) : Outcome :=
  s.scanOnto source k Report.empty

end Scanner

end TableLexer
