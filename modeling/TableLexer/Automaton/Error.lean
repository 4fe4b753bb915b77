import TableLexer.Text.Quoted
namespace TableLexer

/-- What can be wrong with a table. No text that is scanned causes any of these. -/
inductive AutomatonError where
  | duplicateState (state : String)
  | unknownState (state : String)
  | undefinedTransition (state : String) (symbol : Char)
  | conflictingRule (state : String) (symbol : Char) (first second : String)
  | incomplete (missing : List (String × Char))
deriving DecidableEq, Repr

namespace AutomatonError

open Text

def message : AutomatonError → String
  | duplicateState state => "state `" ++ state ++ "` already declared"
  | unknownState state => "state `" ++ state ++ "` is not declared"
  | undefinedTransition state symbol =>
    "no transition from `" ++ state ++ "` on " ++ Quoted.char symbol
  | conflictingRule state symbol first second =>
    "conflicting rules for (`" ++ state ++ "`, " ++ Quoted.char symbol ++ "): `" ++ first ++
      "` vs `" ++ second ++ "`"
  | incomplete missing =>
    "transition function is not total: " ++ toString missing.length ++ " missing entries"

end AutomatonError

end TableLexer
