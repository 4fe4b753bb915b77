namespace TableLexer

/-- How much a journal entry matters, the gravest first. -/
inductive Severity where
  | error
  | warn
  | debug
deriving DecidableEq, Repr

namespace Severity

def rank : Severity → Nat
  | error => 0
  | warn => 1
  | debug => 2

def label : Severity → String
  | error => "ERROR"
  | warn => "WARN"
  | debug => "DEBUG"

end Severity

/-- A remark made while working. It never decides what is answered. -/
structure Remark where
  severity : Severity
  message : String
deriving DecidableEq, Repr

abbrev Journal := List Remark

namespace Journal

def atLeast (threshold : Severity) (j : Journal) : Journal :=
  j.filter fun r => r.severity.rank ≤ threshold.rank

def lines (j : Journal) : List String :=
  j.map fun r => r.severity.label ++ " " ++ r.message

end Journal

end TableLexer
