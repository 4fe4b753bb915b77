import TableLexer.Alphabet
import TableLexer.Automaton.Session
import TableLexer.Lexical.State
namespace TableLexer.Scan

open Lexical

/-- What to do about text that is no token: give up, or reject it and go on behind it. -/
inductive Policy where
  | failFast
  | recover
deriving DecidableEq, Repr

namespace Policy

def all : List Policy := [failFast, recover]

def key : Policy → String
  | failFast => "fail-fast"
  | recover => "recover"

def ofKey? (s : String) : Option Policy := all.find? fun p => p.key = s

end Policy

/-- What a scan goes by. -/
structure Basis where
  machine : Machine State
  alphabet : Alphabet
  policy : Policy

end TableLexer.Scan
