import TableLexer.Automaton.Transitions
import TableLexer.Token
namespace TableLexer.Lexical

/-- Where the recognition of a token stands. -/
inductive State where
  | initial
  | identifier
  | constantNoDot
  | constantWithDot
  | dot
  | quoteOpen
  | stringBody
  | quoteClose
  | less
  | greater
  | equal
  | colon
  | slash
  | star
  | comma
  | semicolon
  | plus
  | minus
  | openParen
  | closeParen
  | openBracket
  | closeBracket
  | openBrace
  | closeBrace
  | lessEqual
  | notEqual
  | greaterEqual
  | equalEqual
  | assign
  | blockOpen
  | lineOpen
  | power
  | illegal
  | identifierEnd
  | constantEnd
  | strEnd
  | symbolEnd
  | commentEnd
deriving DecidableEq, Repr

namespace State

/-- The order of declaration. -/
def all : List State :=
  [initial, identifier, constantNoDot, constantWithDot, dot, quoteOpen, stringBody, quoteClose,
    less, greater, equal, colon, slash, star, comma, semicolon, plus, minus, openParen, closeParen,
    openBracket, closeBracket, openBrace, closeBrace, lessEqual, notEqual, greaterEqual,
    equalEqual, assign, blockOpen, lineOpen, power, illegal, identifierEnd, constantEnd, strEnd,
    symbolEnd, commentEnd]

def position (s : State) : Nat := s.ctorIdx

def id (s : State) : StateId := StateId.ofPosition s.position

def ofId? (id : StateId) : Option State := all[id.position]?

def name : State → String
  | initial => "initial"
  | identifier => "identifier"
  | constantNoDot => "constant_no_dot"
  | constantWithDot => "constant_with_dot"
  | dot => "dot"
  | quoteOpen => "quote_open"
  | stringBody => "string_body"
  | quoteClose => "quote_close"
  | less => "<"
  | greater => ">"
  | equal => "="
  | colon => ":"
  | slash => "/"
  | star => "*"
  | comma => ","
  | semicolon => ";"
  | plus => "+"
  | minus => "-"
  | openParen => "("
  | closeParen => ")"
  | openBracket => "["
  | closeBracket => "]"
  | openBrace => "\x7b"
  | closeBrace => "\x7d"
  | lessEqual => "<="
  | notEqual => "<>"
  | greaterEqual => ">="
  | equalEqual => "=="
  | assign => ":="
  | blockOpen => "/*"
  | lineOpen => "//"
  | power => "**"
  | illegal => "illegal"
  | identifierEnd => "identifier_end"
  | constantEnd => "constant_end"
  | strEnd => "str_end"
  | symbolEnd => "symbol_end"
  | commentEnd => "comment_end"

def ofName? (name : String) : Option State := all.find? fun s => s.name = name

/-- What a token that stops here has ended as. -/
def terminal? : State → Option Terminal
  | illegal => some .illegal
  | identifierEnd => some .identifierEnd
  | constantEnd => some .constantEnd
  | strEnd => some .strEnd
  | symbolEnd => some .symbolEnd
  | commentEnd => some .commentEnd
  | _ => none

def isFinal (s : State) : Bool := s.terminal?.isSome

end State

end TableLexer.Lexical
