import TableLexer.Lexicon.Basic
import TableLexer.Json.Decode
import TableLexer.Json.Reader
import TableLexer.Json.Printer
namespace TableLexer

open Json

/-- Indices on file have 64 bits. -/
def Token.indexBound : Nat := 0x10000000000000000

def Token.toJson (t : Token) : Json :=
  ofFields [("category", ofText t.category.key), ("index", ofNat t.index)]

def Token.ofJson? (j : Json) : Option Token := do
  match ← j.record? ["category", "index"] with
  | [category, index] =>
    return ⟨← category.variant?.bind Category.ofKey?, ← index.natBelow? Token.indexBound⟩
  | _ => none

structure ArchivedTable where
  category : Category
  name : String
  entries : List String
deriving DecidableEq, Repr

namespace ArchivedTable

def toJson (t : ArchivedTable) : Json :=
  ofFields [("category", ofText t.category.key), ("name", ofText t.name),
    ("entries", ofList ofText t.entries)]

def ofJson? (j : Json) : Option ArchivedTable := do
  match ← j.record? ["category", "name", "entries"] with
  | [category, name, entries] =>
    return ⟨← category.variant?.bind Category.ofKey?, ← name.text?, ← entries.listOf? text?⟩
  | _ => none

end ArchivedTable

/-- A lexicon on file. What is read from one need not fit together. -/
structure LexiconArchive where
  tokens : List Token
  tables : List ArchivedTable
deriving DecidableEq, Repr

inductive RestoreError where
  | repeatedCategory (c : Category)
  | repeatedEntry (entry : String) (c : Category)
  | danglingToken (t : Token)
deriving DecidableEq, Repr

def RestoreError.message : RestoreError → String
  | repeatedCategory c => "category " ++ c.name ++ " listed twice"
  | repeatedEntry entry c => Text.Quoted.string entry ++ " interned twice in " ++ c.name
  | danglingToken t => "token " ++ t.text ++ " points past its table"

namespace LexiconArchive

def ofLexicon (k : Lexicon) : LexiconArchive where
  tokens := k.tokens.toList
  tables := Category.all.map fun c => ⟨c, c.name, (k.table c).lexemes⟩

def toJson (a : LexiconArchive) : Json :=
  ofFields [("tokens", ofList Token.toJson a.tokens),
    ("tables", ofList ArchivedTable.toJson a.tables)]

def ofJson? (j : Json) : Option LexiconArchive := do
  match ← j.record? ["tokens", "tables"] with
  | [tokens, tables] =>
    return ⟨← tokens.listOf? Token.ofJson?, ← tables.listOf? ArchivedTable.ofJson?⟩
  | _ => none

def load? (data : ByteArray) : Option LexiconArchive := (parseBytes data).toOption.bind ofJson?

/-- The tables without their names. No category may have a second one. -/
def contents (taken : List (Category × List String)) :
    List ArchivedTable → Except RestoreError (List (Category × List String))
  | [] => .ok taken
  | t :: rest =>
    if taken.any fun (c, _) => c = t.category then .error (.repeatedCategory t.category)
    else contents (taken ++ [(t.category, t.entries)]) rest

/-- Interns the entries on file for a category, none of which may be in its table already. -/
def internNew (c : Category) (t : LexemeTable) : List String → Except RestoreError LexemeTable
  | [] => .ok t
  | e :: rest =>
    if (t.get? e).isSome then .error (.repeatedEntry e c) else internNew c (t.intern e).2 rest

def fillTables (filled : ByCategory LexemeTable) :
    List (Category × List String) → Except RestoreError (ByCategory LexemeTable)
  | [] => .ok filled
  | (c, entries) :: rest => do
    let table ← internNew c (filled.get c) entries
    fillTables (filled.set c table) rest

/-- A token must not point past what its table was filled with. -/
def withTokens (tokens : List Token) (tables : ByCategory LexemeTable) :
    Except RestoreError Lexicon :=
  let k : Lexicon := ⟨tables, tokens.toArray⟩
  match tokens.find? fun t => (k.lexeme? t).isNone with
  | some t => .error (.danglingToken t)
  | none => .ok k

/-- Refuses an archive that no lexicon could have written, names apart. -/
def restore (a : LexiconArchive) : Except RestoreError Lexicon := do
  let tables ← contents [] a.tables
  let filled ← fillTables (ByCategory.replicate LexemeTable.empty) tables
  withTokens a.tokens filled

end LexiconArchive

end TableLexer
