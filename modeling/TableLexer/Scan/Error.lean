import TableLexer.Automaton.Error
import TableLexer.Scan.Stream
namespace TableLexer

open Text Scan

/-- Why a scan gave up. -/
inductive LexError where
  | illegal (position : Position) (lexeme : String)
  | outsideAlphabet (position : Position) (symbol : Char)
  | unterminated (start : Position) (lexeme : String) (state : String)
  | automaton (error : AutomatonError)
deriving DecidableEq, Repr

namespace LexError

def message : LexError → String
  | illegal position lexeme =>
    "illegal input " ++ Quoted.string lexeme ++ " at " ++ position.text
  | outsideAlphabet position symbol =>
    "character " ++ Quoted.char symbol ++ " at " ++ position.text ++ " is outside the alphabet"
  | unterminated start lexeme state =>
    "input ended inside a token " ++ Quoted.string lexeme ++ " (state `" ++ state ++
      "`) started at " ++ start.text
  | automaton error => error.message

end LexError

end TableLexer
