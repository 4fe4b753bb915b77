import TableLexer.Lexicon.Basic
import TableLexer.Scan.Finding
namespace TableLexer.Scan

structure Diagnostic where
  rejection : Rejection
  token : Token
deriving DecidableEq, Repr

def Diagnostic.message (d : Diagnostic) : String := d.rejection.cause.message

structure Report where
  tokens : Array Token
  diagnostics : Array Diagnostic
  traces : Array TokenTrace
deriving DecidableEq, Repr

def Report.empty : Report := ⟨#[], #[], #[]⟩

/-- Findings as they are written down: interned, reported, and shown to whoever watches. -/
structure Recording where
  lexicon : Lexicon
  report : Report
  observed : Array Token
  journal : Array Remark
deriving DecidableEq, Repr

namespace Recording

def rejectRemark (r : Rejection) : Remark :=
  ⟨.warn, "[lex] " ++ r.cause.message ++ ": " ++ Text.Quoted.string r.lexeme ++ " at " ++
    r.position.text ++ "; resuming"⟩

def addToken (r : Recording) (lexeme : String) (terminal : Terminal) : Token × Recording :=
  let (token, lexicon) := r.lexicon.register lexeme terminal
  (token, {
    lexicon
    report := { r.report with tokens := r.report.tokens.push token }
    observed := r.observed.push token
    journal := r.journal.push (Lexicon.registerRemark lexeme token) })

def addTrace (r : Recording) (trace : TokenTrace) : Recording :=
  { r with report := { r.report with traces := r.report.traces.push trace } }

def addDiagnostic (r : Recording) (d : Diagnostic) : Recording :=
  { r with
    report := { r.report with diagnostics := r.report.diagnostics.push d }
    journal := r.journal.push (rejectRemark d.rejection) }

def add (tracing : Bool) (r : Recording) : Finding → Recording
  | .reached trace =>
    let r := if tracing then r.addTrace trace else r
    if trace.terminal = .illegal then r else (r.addToken trace.lexeme trace.terminal).2
  | .rejected rejection =>
    let (token, r) := r.addToken rejection.lexeme .illegal
    r.addDiagnostic ⟨rejection, token⟩

def addAll (tracing : Bool) (r : Recording) (findings : Array Finding) : Recording :=
  findings.foldl (add tracing) r

end Recording

end TableLexer.Scan
