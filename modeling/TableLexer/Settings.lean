import TableLexer.Lexicon.Basic
import TableLexer.Files.Error
import TableLexer.Scan.Scanner
import TableLexer.Text.Blank
namespace TableLexer

open Scan

inductive SettingsError where
  | invalidValue (key value : String)
  | keywords (path : String) (source : ReadError)
deriving DecidableEq, Repr

namespace SettingsError

def message : SettingsError → String
  | invalidValue key value => "invalid value " ++ Text.Quoted.string value ++ " for " ++ key
  | keywords path source => "failed to read keywords from " ++ path ++ ": " ++ source.message

def cause? : SettingsError → Option String
  | invalidValue _ _ => none
  | keywords _ source => some source.message

end SettingsError

/-- Settings read from the environment. `keywords?` is the path of a list of reserved words. -/
structure Settings where
  policy : Policy
  trace : Bool
  keywords? : Option String
deriving DecidableEq, Repr

namespace Settings

def standard : Settings := ⟨.failFast, false, none⟩

def policyVariable : String := "SIMPLELEX_POLICY"

def traceVariable : String := "SIMPLELEX_TRACE"

def keywordsVariable : String := "SIMPLELEX_KEYWORDS"

/-- An empty value is as good as none. -/
def readPolicy? (value : String) : Option Policy :=
  if Text.trim value = "" then some .failFast else Policy.ofKey? (Text.trim value)

def readFlag? (value : String) : Option Bool :=
  let word := Text.trim value
  if word ∈ ["1", "true"] then some true
  else if word ∈ ["0", "false", ""] then some false
  else none

def readVariable {α : Type} (read? : String → Option α) (key : String) (otherwise : α)
    (value? : Option String) : Except SettingsError α :=
  match value? with
  | none => .ok otherwise
  | some value =>
    match read? value with
    | some a => .ok a
    | none => .error (.invalidValue key value)

def ofLookup (get : String → Option String) : Except SettingsError Settings := do
  let policy ← readVariable readPolicy? policyVariable .failFast (get policyVariable)
  let trace ← readVariable readFlag? traceVariable false (get traceVariable)
  return ⟨policy, trace, (get keywordsVariable).filter fun path => path != ""⟩

def options (s : Settings) : ScanOptions := ⟨s.policy, s.trace⟩

/-- Reserved words are told apart by white space alone. -/
def parseReserved (text : String) : List String := Text.words text

def reservedFrom (path : String) : Except ReadError String → Except SettingsError (List String)
  | .ok text => .ok (parseReserved text)
  | .error e => .error (.keywords path e)

/-- The chosen reserved words, or the usual ones. -/
def reserved (s : Settings) (read : String → Except ReadError String) :
    Except SettingsError (List String) :=
  match s.keywords? with
  | none => .ok Lexicon.defaultReserved
  | some path => reservedFrom path (read path)

end Settings

end TableLexer
