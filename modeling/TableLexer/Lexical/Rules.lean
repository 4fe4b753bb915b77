import TableLexer.Automaton.Rules
import TableLexer.Lexical.State
namespace TableLexer.Lexical

open Alphabet State

/-- The characters that begin an operator or a punctuation mark. -/
def symbolStarts : List (Char × State) :=
  [('<', less), ('>', greater), ('=', equal), (':', colon), ('/', slash), ('*', star),
    (',', comma), (';', semicolon), ('+', plus), ('-', minus), ('(', openParen),
    (')', closeParen), ('[', openBracket), (']', closeBracket), ('\x7b', openBrace),
    ('\x7d', closeBrace)]

/-- The operators of two characters, after the state of the first one. -/
def compounds : List (State × Char × State) :=
  [(less, '=', lessEqual), (less, '>', notEqual), (greater, '=', greaterEqual),
    (equal, '=', equalEqual), (colon, '=', assign), (slash, '*', blockOpen),
    (slash, '/', lineOpen), (star, '*', power)]

def general (source target : State) (symbols : List Char) : Rule :=
  ⟨.general, source.name, target.name, symbols⟩

def specific (source target : State) (symbols : List Char) : Rule :=
  ⟨.specific, source.name, target.name, symbols⟩

def initialRules (a : Alphabet) : List Rule :=
  [general initial illegal a.symbols,
    specific initial initial (a.select isBlank),
    specific initial identifier (a.select isWordStart),
    specific initial constantNoDot (a.select Char.isDigit),
    specific initial dot ['.'],
    specific initial quoteOpen ['\'']] ++
  symbolStarts.map fun (c, s) => specific initial s [c]

def identifierRules (a : Alphabet) : List Rule :=
  [general identifier identifierEnd a.symbols,
    specific identifier identifier (a.select isWord)]

/-- A letter or an underscore right behind a number, or a second dot in it, makes it illegal. -/
def constantRules (a : Alphabet) : List Rule :=
  [general constantNoDot constantEnd a.symbols,
    specific constantNoDot constantNoDot (a.select Char.isDigit),
    specific constantNoDot constantWithDot ['.'],
    specific constantNoDot illegal (a.select isWordStart),
    general constantWithDot constantEnd a.symbols,
    specific constantWithDot constantWithDot (a.select Char.isDigit),
    specific constantWithDot illegal (a.select isWordStart ++ ['.']),
    general dot symbolEnd a.symbols,
    specific dot constantWithDot (a.select Char.isDigit)]

def stringRules (a : Alphabet) : List Rule :=
  [general quoteOpen stringBody a.symbols,
    specific quoteOpen quoteClose ['\''],
    general stringBody stringBody a.symbols,
    specific stringBody quoteClose ['\''],
    general quoteClose strEnd a.symbols]

def symbolRules (a : Alphabet) : List Rule :=
  (symbolStarts.map fun (_, s) => general s symbolEnd a.symbols) ++
  compounds.flatMap fun (first, c, compound) =>
    [specific first compound [c], general compound symbolEnd a.symbols]

/-- A final state is never left. -/
def finalRules (a : Alphabet) : List Rule :=
  (all.filter isFinal).map fun s => general s s a.symbols

def rules (a : Alphabet) : List Rule :=
  initialRules a ++ identifierRules a ++ constantRules a ++ stringRules a ++ symbolRules a ++
    finalRules a

end TableLexer.Lexical
