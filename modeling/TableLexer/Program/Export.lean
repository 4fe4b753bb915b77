import TableLexer.Lexical.Archive
import TableLexer.Program.Script
namespace TableLexer.Program

def giveUp (what path : String) (e : OsError) : Script :=
  .sayLine .err ("error: failed to " ++ what ++ " " ++ path ++ ": " ++ e.message) (.exit 1)

def tableLines (t : Lexical.Table) : List String :=
  ("[gen_lex_tables] " ++ toString t.automaton.states.size ++ " states (" ++
    toString t.automaton.finalStates.length ++ " final) x " ++ toString t.alphabet.size ++
    " symbols, " ++ toString t.shadowed.length ++ " defaults overridden") ::
  t.unreachable.map fun s =>
    "[gen_lex_tables] note: state `" ++ s.name ++ "` is unreachable"

def exportTo (path : String) : Script :=
  .sayLine .out "[gen_lex_tables] building lexical table…" <|
    match Lexical.Table.standard.result with
    | .error e => .sayLine .err ("error: " ++ e.message) (.exit 1)
    | .ok table =>
      .say .out (String.join ((tableLines table).map fun line => line ++ "\n")) <|
        .writeText path (TableArchive.ofTable table).toJson.pretty fun
          | .error e => giveUp "write" path e
          | .ok _ => .sayLine .out ("[gen_lex_tables] wrote " ++ path) (.exit 0)

/-- Builds the table of the language and writes it to a file. -/
def exportTable (args : List String) : Script :=
  let path := args.headD "tables/lexer_tables.json"
  match Path.parent? path with
  | none => exportTo path
  | some parent =>
    .makeDirectories parent fun
      | .error e => giveUp "create" parent e
      | .ok _ => exportTo path

end TableLexer.Program
