import TableLexer.Lexicon.LexemeTable
import TableLexer.Journal
import TableLexer.Text.Quoted
import TableLexer.Token
namespace TableLexer

/-- The interned lexemes of every category, and all tokens handed out so far. -/
structure Lexicon where
  tables : ByCategory LexemeTable
  tokens : Array Token
deriving DecidableEq, Repr

namespace Lexicon

def defaultReserved : List String :=
  ["and", "array", "begin", "bool", "call", "case", "char", "constant", "do", "else", "end",
    "false", "for", "if", "input", "integer", "not", "of", "or", "output", "procedure", "program",
    "read", "real", "repeat", "set", "then", "to", "true", "until", "var", "while", "write"]

def table (k : Lexicon) (c : Category) : LexemeTable := k.tables.get c

/-- The reserved words fill the table of keywords, in order; a repeated word keeps its first
place. -/
def ofReserved (words : List String) : Lexicon where
  tables := (ByCategory.replicate LexemeTable.empty).set .keyword (LexemeTable.ofLexemes words)
  tokens := #[]

def reservedJournalFrom (t : LexemeTable) : List String → Journal
  | [] => []
  | w :: rest =>
    if (t.get? w).isSome then
      ⟨.warn, "[canon] reserved word " ++ Text.Quoted.string w ++
        " listed twice; keeping first index"⟩ :: reservedJournalFrom t rest
    else reservedJournalFrom (t.intern w).2 rest

/-- One remark for every repetition. -/
def reservedJournal (words : List String) : Journal :=
  reservedJournalFrom LexemeTable.empty words

def isReserved (k : Lexicon) (lexeme : String) : Bool :=
  ((k.table .keyword).get? lexeme).isSome

/-- Only what ended as an identifier can be a keyword. -/
def categoryOf (k : Lexicon) (lexeme : String) (terminal : Terminal) : Category :=
  if terminal = .identifierEnd && k.isReserved lexeme then .keyword else terminal.category

def register (k : Lexicon) (lexeme : String) (terminal : Terminal) :
    Token × Lexicon :=
  let category := k.categoryOf lexeme terminal
  let (index, table) := (k.table category).intern lexeme
  (⟨category, index⟩, ⟨k.tables.set category table, k.tokens.push ⟨category, index⟩⟩)

def registerRemark (lexeme : String) (token : Token) : Remark :=
  ⟨.debug, "[canon] " ++ Text.Quoted.string lexeme ++ " -> " ++ token.text⟩

def lexeme? (k : Lexicon) (t : Token) : Option String := (k.table t.category).lexeme? t.index

end Lexicon

end TableLexer
