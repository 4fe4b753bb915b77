import TableLexer.Automaton.Session
import TableLexer.Lexical.State
import TableLexer.Scan.Stream
namespace TableLexer.Scan

open Lexical

/-- A run of the table into a final state. -/
structure TokenTrace where
  lexeme : String
  terminal : Terminal
  steps : Array (Step State)
deriving DecidableEq, Repr

inductive Cause where
  | illegal
  | outsideAlphabet
  | unterminated (state : State)
deriving DecidableEq, Repr

def Cause.message : Cause → String
  | illegal => "illegal input"
  | outsideAlphabet => "character outside the alphabet"
  | unterminated state => "input ended inside a token (state `" ++ state.name ++ "`)"

/-- Text that is no token, and where it was noticed. -/
structure Rejection where
  position : Position
  lexeme : String
  cause : Cause
deriving DecidableEq, Repr

/-- What a scan comes upon. Only traces that end legally are tokens; the text behind an illegal
one is rejected on its own. -/
inductive Finding where
  | reached (trace : TokenTrace)
  | rejected (rejection : Rejection)
deriving DecidableEq, Repr

end TableLexer.Scan
