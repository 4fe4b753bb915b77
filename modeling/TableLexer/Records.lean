import TableLexer.Lexicon.Basic
import TableLexer.Automaton.Session
import TableLexer.Text.Utf8
import TableLexer.Time
namespace TableLexer.Records

/-- One token a line. -/
def tokenStream (tokens : List Token) : String :=
  String.join (tokens.map fun t => t.text ++ "\n")

/-- A line of the stream: when it was written, and a token. -/
def stampedToken (time : Time) (t : Token) : String := time.text ++ " " ++ t.text ++ "\n"

def tableHeader (c : Category) : String := toString c.id ++ ": " ++ c.name ++ "\n"

def tableEntry (entry : Nat × String) : String :=
  "    " ++ toString entry.1 ++ ": " ++ entry.2 ++ "\n"

def internedTable (k : Lexicon) (c : Category) : String :=
  tableHeader c ++ String.join ((k.table c).entries.map tableEntry)

/-- The categories in order, each with the lexemes of its table behind it. -/
def internedTables (k : Lexicon) : String :=
  String.join (Category.all.map (internedTable k))

def stepLine {σ : Type} (name : σ → String) (s : Step σ) : String :=
  "(" ++ name s.source ++ "," ++ s.symbol.toString ++ ")-->" ++ name s.target ++
    ", current-lex=" ++ s.lexeme ++ "\n"

def dashes : String := "----------------------"

/-- The steps of one token, and its lexeme between two rows of dashes. -/
def transcript {σ : Type} (name : σ → String) (steps : List (Step σ)) (lexeme : String) : String :=
  String.join (steps.map (stepLine name)) ++ dashes ++ lexeme ++ dashes ++ "\n\n"

/-- What became of a text that was written out. -/
structure Written where
  text : String
  complete : Bool
deriving DecidableEq, Repr

/-- Writes to a place that may hold only so many bytes. A character that is cut becomes U+FFFD. -/
def write (capacity? : Option Nat) (text : String) : Written :=
  match capacity? with
  | none => ⟨text, true⟩
  | some capacity =>
    if text.utf8ByteSize ≤ capacity then ⟨text, true⟩
    else ⟨Text.Utf8.decodeLossy (text.toUTF8.extract 0 capacity), false⟩

end TableLexer.Records
