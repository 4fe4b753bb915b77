import Std.Time.DateTime.Timestamp
import TableLexer.Program.Export
import TableLexer.Program.Fuzz
import TableLexer.Program.Lex
open TableLexer

namespace TableLexer

def osError : IO.Error → OsError
  | .noFileOrDirectory .. => .notFound
  | .alreadyExists .. => .alreadyExists
  | .inappropriateType _ code _ => if code = 20 then .notDirectory else .isDirectory
  | e => .other (toString e)

def attempt {α : Type} (action : IO α) : IO (Except OsError α) := do
  try
    return .ok (← action)
  catch e => return .error (osError e)

/-- A clock set to before the epoch counts as standing at it. -/
def timeOfDay : IO Time := do
  let nanos := (← Std.Time.Timestamp.now).toNanosecondsSinceUnixEpoch.val.toNat
  return ⟨nanos / 1000000000, Fin.ofNat _ (nanos / 1000)⟩

/-- Milliseconds since `since`, with three places. -/
def elapsedText (since : Nat) : IO String := do
  let micros := ((← IO.monoNanosNow) - since) / 1000
  return toString (micros / 1000) ++ "." ++ Text.padLeft 3 (toString (micros % 1000))

def perform (since : Nat) : Script → IO UInt32
  | .exit code => return code.toUInt32
  | .say channel text next => do
    match channel with
    | .out => IO.print text
    | .err => IO.eprint text
    perform since next
  | .now next => do perform since (next (← timeOfDay))
  | .elapsed next => do perform since (next (← elapsedText since))
  | .read path next => do
    perform since (next (← attempt (IO.FS.readBinFile path)))
  | .create path next => do
    perform since (next (← attempt (IO.FS.writeFile path "")))
  | .append path text next => do
    let add : IO Unit := IO.FS.withFile path .append fun file => file.putStr text
    perform since (next (← attempt add))
  | .makeDirectories path next => do
    perform since (next (← attempt (if path = "" then pure () else IO.FS.createDirAll path)))

def settingNames : List String :=
  [Settings.policyVariable, Settings.traceVariable, Settings.keywordsVariable, "FUZZ_INPUT",
    "FUZZ_LEN", "FUZZ_ITERS", "FUZZ_SEED", "FUZZ_SAVE", "FUZZ_DIR"]

def readSettings : IO (List (String × Option String)) :=
  settingNames.mapM fun name => return (name, ← IO.getEnv name)

end TableLexer

/-- `tables` and `fuzz` as a first argument ask for another program than the scan. -/
def main (args : List String) : IO UInt32 := do
  let values ← readSettings
  let env := fun name => (values.lookup name).join
  let since ← IO.monoNanosNow
  match args with
  | "tables" :: rest => perform since (Program.exportTable rest)
  | "fuzz" :: _ => perform since (Program.fuzz env)
  | rest => perform since (Program.lex rest env)
