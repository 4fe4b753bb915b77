import TableLexer.Sample
import TableLexer.Json.Decode
import TableLexer.Json.Printer
import TableLexer.Json.Reader
import TableLexer.Program.Export
import TableLexer.Scan.Scanner
namespace TableLexer.Program

open Scan Json

/-- The name of a token's category and its lexeme. -/
abbrev NamedLexeme := String × String

namespace NamedLexeme

def toJson (t : NamedLexeme) : Json := ofFields [("kind", ofText t.1), ("text", ofText t.2)]

def ofJson? (j : Json) : Option NamedLexeme := do
  match ← j.record? ["kind", "text"] with
  | [kind, text] => return (← kind.text?, ← text.text?)
  | _ => none

def show? : Option NamedLexeme → String
  | none => "None"
  | some (kind, text) =>
    "Some((" ++ Text.Quoted.string kind ++ ", " ++ Text.Quoted.string text ++ "))"

end NamedLexeme

/-- The tokens that a scan of a stored case must yield. -/
structure Golden where
  tokens : List NamedLexeme
deriving DecidableEq, Repr

inductive GoldenError where
  | text (fault : Json.Fault)
  | shape
deriving DecidableEq, Repr

namespace GoldenError

def message (e : GoldenError) (content : String) : String :=
  match e with
  | text fault => fault.message content
  | shape => "not a list of tokens"

end GoldenError

namespace Golden

def toJson (g : Golden) : Json := ofFields [("tokens", ofList NamedLexeme.toJson g.tokens)]

def ofJson? (j : Json) : Option Golden := do
  match ← j.record? ["tokens"] with
  | [tokens] => return ⟨← tokens.listOf? NamedLexeme.ofJson?⟩
  | _ => none

def load (content : String) : Except GoldenError Golden :=
  match parse content with
  | .error fault => .error (.text fault)
  | .ok j =>
    match ofJson? j with
    | none => .error .shape
    | some g => .ok g

/-- The stored tokens of a case lie next to it. -/
def pathFor (casePath : String) : String := Path.withExtension casePath "tokens.json"

end Golden

/-- An entry that its own table does not find where it stands. -/
def misplaced? (k : Lexicon) : Option String :=
  Category.all.findSome? fun c =>
    ((k.table c).entries.find? fun (i, lexeme) => (k.table c).get? lexeme != some i).map
      fun (i, lexeme) =>
        c.name ++ " table: " ++ Text.Quoted.string lexeme ++ " not at index " ++ toString i

def namedLexemes (k : Lexicon) (tokens : List Token) : List NamedLexeme :=
  tokens.map fun t => (t.category.name, (k.lexeme? t).getD "")

/-- How many tokens a scan found, if it did not fail, and what it comes to. -/
abbrev CaseScan := Option Nat × Except String (List NamedLexeme)

def scanCaseWith (source : String) : Except AutomatonError Scanner → CaseScan
  | .error e => (none, .error e.message)
  | .ok scanner =>
    let o := scanner.scan source (Lexicon.ofReserved Lexicon.defaultReserved)
    match o.failure?, misplaced? o.lexicon with
    | some e, _ => (none, .error e.message)
    | none, some problem => (some o.report.tokens.size, .error problem)
    | none, none =>
      (some o.report.tokens.size, .ok (namedLexemes o.lexicon o.report.tokens.toList))

/-- Scans `source` and checks the tables that this fills. -/
def scanCase (source : String) : CaseScan :=
  scanCaseWith source (Scanner.standard ScanOptions.standard)

def sayScanned (source : String) (count? : Option Nat) (next : Script) : Script :=
  match count? with
  | none => next
  | some count =>
    .elapsed fun elapsed =>
      .sayLine .err ("[fuzz] " ++ toString source.utf8ByteSize ++ " bytes -> " ++
        toString count ++ " tokens in " ++ elapsed ++ " ms") next

def comparisonLine (got want : List NamedLexeme) (i : Nat) : String :=
  (if got[i]? = want[i]? then "ok " else "ERR") ++ " #" ++ Text.padLeft 6 (toString i) ++ " got=" ++
    NamedLexeme.show? got[i]? ++ " want=" ++ NamedLexeme.show? want[i]?

def firstDifference? (got want : List NamedLexeme) : Option Nat :=
  (List.range (max got.length want.length)).find? fun i => got[i]? != want[i]?

/-- What to say about two lists that differ: where, and what stands around there. -/
def mismatchLines (label : String) (got want : List NamedLexeme) (i : Nat) : List String :=
  let low := i - 2
  let high := min (i + 3) (max got.length want.length)
  ("[" ++ label ++ "] mismatch at token " ++ toString i ++ " (got " ++ toString got.length ++
    " tokens, want " ++ toString want.length ++ ")") ::
  (List.range' low (high - low)).map (comparisonLine got want)

/-- Goes on only if the lists agree. -/
def compare (label : String) (got want : List NamedLexeme) (next : Script) : Script :=
  match firstDifference? got want with
  | none => next
  | some i =>
    .say .err (String.join ((mismatchLines label got want i).map fun line => line ++ "\n"))
      (.exit 1)

/-- A missing or unreadable file counts as no golden tokens. -/
def readGolden (path : String) (next : Option Golden → Script) : Script :=
  .readText path fun
    | .error _ => next none
    | .ok content =>
      match Golden.load content with
      | .ok g => next (some g)
      | .error e =>
        .sayLine .err ("[golden] failed to parse " ++ path ++ ": " ++ e.message content) (next none)

def judgeReplay (got : List NamedLexeme) : Option Golden → Script
  | none => .exit 0
  | some golden =>
    compare "golden" got golden.tokens (.sayLine .err "[replay] matches golden" (.exit 0))

def replayScan (path source : String) : CaseScan → Script
  | (count?, result) =>
    sayScanned source count? <|
      match result with
      | .error problem => .sayLine .err ("[replay] " ++ problem) (.exit 1)
      | .ok got => readGolden (Golden.pathFor path) (judgeReplay got)

def replaySource (path source : String) : Script := replayScan path source (scanCase source)

/-- Scans one stored case and compares it with its golden tokens. -/
def replay (path : String) : Script :=
  .sayLine .err ("[replay] reading " ++ path) <|
    .readText path fun
      | .error e =>
        .sayLine .err ("error: failed to read " ++ path ++ ": " ++ e.message) (.exit 1)
      | .ok source => replaySource path source

structure FuzzOptions where
  length : Nat
  rounds : Nat
  seed : Nat
  saveTo? : Option String
deriving DecidableEq, Repr

namespace FuzzOptions

/-- Numbers have 64 bits. -/
def bound : Nat := 0x10000000000000000

/-- Digits, with a plus sign before them at most. -/
def readNat? (bound : Nat) (s : String) : Option Nat :=
  let digits :=
    match s.toList with
    | '+' :: rest => rest
    | cs => cs
  if digits.isEmpty || !digits.all Char.isDigit then none
  else
    let n := Nat.ofDigitChars 10 digits 0
    if n < bound then some n else none

/-- A value that is no number of 64 bits is as good as none. -/
def readNat (env : String → Option String) (key : String) (otherwise : Nat) : Nat :=
  ((env key).bind (readNat? bound)).getD otherwise

def ofEnv (env : String → Option String) : FuzzOptions where
  length := readNat env "FUZZ_LEN" 100000
  rounds := readNat env "FUZZ_ITERS" 3
  seed := readNat env "FUZZ_SEED" 42
  saveTo? := if env "FUZZ_SAVE" = some "1" then some ((env "FUZZ_DIR").getD "fuzz-cases") else none

end FuzzOptions

def expectedLexemes (g : Sample) : List NamedLexeme :=
  g.expected.toList.map fun (category, text) => (category.name, text)

def caseName (options : FuzzOptions) (round : Nat) (g : Sample) : String :=
  "fuzz_seed" ++ toString options.seed ++ "_iter" ++ toString round ++ "_n" ++
    toString g.source.utf8ByteSize ++ ".simple"

/-- A case that cannot be written is passed over in silence. -/
def storeCase (options : FuzzOptions) (round : Nat) (g : Sample) (next : Script) : Script :=
  match options.saveTo? with
  | none => next
  | some directory =>
    let path := Path.join directory (caseName options round g)
    .writeText path g.source fun _ =>
      .writeText (Golden.pathFor path) (Golden.toJson ⟨expectedLexemes g⟩).pretty fun _ =>
        .sayLine .err ("[save] wrote " ++ path) next

def checkScan (round : Nat) (g : Sample) (next : Script) : CaseScan → Script
  | (count?, result) =>
    sayScanned g.source count? <|
      match result with
      | .error problem =>
        .sayLine .err ("[fuzz] iter " ++ toString round ++ ": " ++ problem) (.exit 1)
      | .ok got => compare ("iter " ++ toString round) got (expectedLexemes g) next

def checkCase (round : Nat) (g : Sample) (next : Script) : Script :=
  checkScan round g next (scanCase g.source)

def fuzzRounds {ρ : Type} [RandomSource ρ] (options : FuzzOptions) : Nat → Nat → ρ → Script
  | 0, _, _ => .sayLine .err "[fuzz] all iterations matched" (.exit 0)
  | left + 1, round, r =>
    let (g, r) := Sample.generate options.length r
    storeCase options round g (checkCase round g (fuzzRounds options left (round + 1) r))

/-- Scans generated sources and compares what is found with what they were made from. -/
def fuzzGenerated {ρ : Type} [RandomSource ρ] (options : FuzzOptions) (r : ρ) : Script :=
  .sayLine .err ("[fuzz] len=" ++ toString options.length ++ " iters=" ++
    toString options.rounds ++ " seed=" ++ toString options.seed) <|
    match options.saveTo? with
    | none => fuzzRounds options options.rounds 0 r
    | some directory =>
      .makeDirectories directory fun
        | .error e => giveUp "create" directory e
        | .ok _ => fuzzRounds options options.rounds 0 r

def fuzz (env : String → Option String) : Script :=
  match env "FUZZ_INPUT" with
  | some path => replay path
  | none =>
    let options := FuzzOptions.ofEnv env
    fuzzGenerated options (SplitMix.mk options.seed.toUInt64)

end TableLexer.Program
