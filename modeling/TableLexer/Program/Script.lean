import TableLexer.Files.Tree
import TableLexer.Time
namespace TableLexer

inductive Channel where
  | out
  | err
deriving DecidableEq, Repr

/-- What the clocks show, time after time: the time of day, and how long the program has run. -/
structure Clock where
  now : Nat → Time
  elapsed : Nat → String

namespace Clock

def nextNow (clock : Clock) : Clock := { clock with now := fun i => clock.now (i + 1) }

def nextElapsed (clock : Clock) : Clock := { clock with elapsed := fun i => clock.elapsed (i + 1) }

end Clock

/-- A program, as what it asks of the world, one request after the other. -/
inductive Script where
  | exit (code : Nat)
  | say (channel : Channel) (text : String) (next : Script)
  | now (next : Time → Script)
  | elapsed (next : String → Script)
  | read (path : String) (next : Except OsError ByteArray → Script)
  | create (path : String) (next : Except OsError Unit → Script)
  | append (path text : String) (next : Except OsError Unit → Script)
  | makeDirectories (path : String) (next : Except OsError Unit → Script)

/-- Why a program gives up. -/
structure Failure where
  message : String
  cause? : Option String
deriving DecidableEq, Repr

def Failure.text (f : Failure) : String :=
  "Error: " ++ f.message ++ "\n" ++
    match f.cause? with
    | none => ""
    | some cause => "\nCaused by:\n    " ++ cause ++ "\n"

namespace Script

def fail (f : Failure) : Script := .say .err f.text (.exit 1)

def sayLine (channel : Channel) (line : String) (next : Script) : Script :=
  .say channel (line ++ "\n") next

def readText (path : String) (next : Except ReadError String → Script) : Script :=
  .read path fun content => next (ReadError.textOf content)

/-- Writes a file in one go, where it does not matter which step fails. -/
def writeText (path text : String) (next : Except OsError Unit → Script) : Script :=
  .create path fun
    | .error e => next (.error e)
    | .ok _ => .append path text next

/-- A world to run in, and what has been said there. -/
structure World where
  files : FileTree
  out : String
  err : String

namespace World

def say (w : World) (channel : Channel) (text : String) : World :=
  match channel with
  | .out => { w with out := w.out ++ text }
  | .err => { w with err := w.err ++ text }

/-- Keeps the files as they were if nothing could be written. -/
def write (w : World) : Except OsError FileTree → World × Except OsError Unit
  | .ok files => ({ w with files }, .ok ())
  | .error e => (w, .error e)

def change (w : World) : FileTree.Changed → World × Except OsError Unit
  | (files, none) => ({ w with files }, .ok ())
  | (files, some e) => ({ w with files }, .error e)

end World

/-- The world afterwards and the exit code. -/
def run (clock : Clock) : Script → World → World × Nat
  | .exit code, w => (w, code)
  | .say channel text next, w => next.run clock (w.say channel text)
  | .now next, w => (next (clock.now 0)).run clock.nextNow w
  | .elapsed next, w => (next (clock.elapsed 0)).run clock.nextElapsed w
  | .read path next, w => (next (w.files.read path)).run clock w
  | .create path next, w =>
    let (w', answer) := w.write (w.files.write path .empty)
    (next answer).run clock w'
  | .append path text next, w =>
    let (w', answer) := w.write (w.files.append path text.toUTF8)
    (next answer).run clock w'
  | .makeDirectories path next, w =>
    let (w', answer) := w.change (w.files.makeDirectories path)
    (next answer).run clock w'

end Script

end TableLexer
