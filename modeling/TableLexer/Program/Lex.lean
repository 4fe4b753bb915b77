import TableLexer.Lexicon.Archive
import TableLexer.Settings
import TableLexer.Lexicon.History
import TableLexer.Program.Script
import TableLexer.Records
namespace TableLexer.Program

open Scan

structure LexRequest where
  source : String
  stem : String
  outDir : String
deriving DecidableEq, Repr

namespace LexRequest

/-- Without a second argument the output goes where the source is. -/
def ofArgs (args : List String) : Except Failure LexRequest :=
  match args with
  | [] => .error ⟨"usage: simplelex <source> [out_dir]", none⟩
  | source :: rest =>
    match Path.fileStem? source with
    | none => .error ⟨"invalid source filename: " ++ Text.Quoted.string source, none⟩
    | some stem =>
      .ok ⟨source, stem, (rest.head? <|> Path.parent? source).getD ""⟩

def output (q : LexRequest) (extension : String) : String :=
  Path.join q.outDir (q.stem ++ "." ++ extension)

end LexRequest

def createFailure (path : String) (e : OsError) : Failure := ⟨"create " ++ path, some e.message⟩

def plainFailure (e : OsError) : Failure := ⟨e.message, none⟩

/-- A file of a run, and what is said if it cannot be created. -/
structure Output where
  path : String
  text : String
  uncreated : OsError → Failure

def Output.named (path text : String) : Output := ⟨path, text, createFailure path⟩

def writeAll (next : Script) : List Output → Script
  | [] => next
  | o :: rest =>
    .create o.path fun
      | .error e => .fail (o.uncreated e)
      | .ok _ =>
        .append o.path o.text fun
          | .error e => .fail (plainFailure e)
          | .ok _ => writeAll next rest

def transcripts (traces : List TokenTrace) : String :=
  String.join (traces.map fun t =>
    Records.transcript Lexical.State.name t.steps.toList t.lexeme)

/-- The files of a run beside the token stream. They hold what was found before a failure, too. -/
def lexOutputs (q : LexRequest) (trace : Bool) (o : Scanner.Outcome) : List Output :=
  (if trace then [Output.named (q.output "log") (transcripts o.report.traces.toList)] else []) ++
  [Output.named (q.output "lex") (Records.tokenStream o.lexicon.tokens.toList),
    Output.named (q.output "set") (Records.internedTables o.lexicon),
    ⟨q.output "json", (LexiconArchive.ofLexicon o.lexicon).toJson.pretty, plainFailure⟩]

def diagnosticLine (q : LexRequest) (d : Diagnostic) : String :=
  "[simplelex] " ++ q.source ++ ":" ++ d.rejection.position.text ++ ": " ++ d.message ++ " " ++
    Text.Quoted.string d.rejection.lexeme ++ "\n"

def summary (q : LexRequest) (o : Scanner.Outcome) : String :=
  "[simplelex] " ++ toString o.lexicon.histogram.total ++ " tokens (" ++
    toString o.report.diagnostics.size ++ " diagnostics) -> " ++ q.output "lex"

def finishLex (q : LexRequest) (o : Scanner.Outcome) : Script :=
  match o.failure? with
  | some e => .fail ⟨"lexing " ++ q.source, some e.message⟩
  | none =>
    .say .err (String.join (o.report.diagnostics.toList.map (diagnosticLine q)))
      (.sayLine .out (summary q o) (.exit 0))

/-- Writes each token down with the time, as long as that works. -/
def writeStream (path : String) (next : Option OsError → Script) : List Token → Script
  | [] => next none
  | t :: rest =>
    .now fun time =>
      .append path (Records.stampedToken time t) fun
        | .error e => next (some e)
        | .ok _ => writeStream path next rest

/-- What is left to do when all tokens have been recognized. -/
def writeScanned (q : LexRequest) (trace : Bool) (text : String) (o : Scanner.Outcome)
    (error? : Option OsError) : Script :=
  .elapsed fun elapsed =>
    .sayLine .out ("[simplelex] " ++ q.source ++ " (" ++ toString text.utf8ByteSize ++
        " bytes) scanned in " ++ elapsed ++ " ms") <|
      match error? with
      | some e => .fail ⟨"write " ++ q.output "stream", some e.message⟩
      | none => writeAll (finishLex q o) (lexOutputs q trace o)

def lexScanner (q : LexRequest) (trace : Bool) (reserved : List String) (text : String) :
    Except AutomatonError Scanner → Script
  | .error e => .fail ⟨"lexical table is defective", some e.message⟩
  | .ok scanner =>
    let o := scanner.scan text (Lexicon.ofReserved reserved)
    writeStream (q.output "stream") (writeScanned q trace text o) o.observed

/-- The stream is there before the scan begins. -/
def lexText (q : LexRequest) (options : ScanOptions) (reserved : List String) (text : String) :
    Script :=
  .create (q.output "stream") fun
    | .error e => .fail (createFailure (q.output "stream") e)
    | .ok _ => lexScanner q options.trace reserved text (Scanner.standard options)

def readSource (q : LexRequest) (next : String → Script) : Script :=
  .readText q.source fun
    | .error e => .fail ⟨"read " ++ q.source, some e.message⟩
    | .ok text => next text

def settingsFailure (e : SettingsError) : Failure := ⟨e.message, e.cause?⟩

def readReserved (settings : Settings) (next : List String → Script) : Script :=
  match settings.keywords? with
  | none => next Lexicon.defaultReserved
  | some path =>
    .readText path fun content =>
      match Settings.reservedFrom path content with
      | .error e => .fail (settingsFailure e)
      | .ok words => next words

def lexWith (q : LexRequest) (env : String → Option String) : Script :=
  match Settings.ofLookup env with
  | .error e => .fail (settingsFailure e)
  | .ok settings =>
    readReserved settings fun reserved => readSource q (lexText q settings.options reserved)

/-- Scans a source file and writes its tokens next to it or into a directory. -/
def lex (args : List String) (env : String → Option String) : Script :=
  match LexRequest.ofArgs args with
  | .error f => .fail f
  | .ok q =>
    if q.outDir = "" then lexWith q env
    else
      .makeDirectories q.outDir fun
        | .error e => .fail (createFailure q.outDir e)
        | .ok _ => lexWith q env

end TableLexer.Program
