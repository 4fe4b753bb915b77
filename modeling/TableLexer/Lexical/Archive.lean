import TableLexer.Json.Decode
import TableLexer.Json.Reader
import TableLexer.Json.Printer
import TableLexer.Lexical.Table
namespace TableLexer

open Json

def NamedState.toJson (s : NamedState) : Json :=
  ofFields [("name", ofText s.name), ("is_final", ofBool s.isFinal)]

def NamedState.ofJson? (j : Json) : Option NamedState := do
  match ← j.record? ["name", "is_final"] with
  | [name, isFinal] => return ⟨← name.text?, ← isFinal.bool?⟩
  | _ => none

abbrev NamedTransition := String × Char × String

namespace NamedTransition

def toJson (t : NamedTransition) : Json :=
  .array [ofText t.1, ofText t.2.1.toString, ofText t.2.2]

def ofJson? (j : Json) : Option NamedTransition := do
  match ← j.items? with
  | [source, symbol, target] => return (← source.text?, ← symbol.char?, ← target.text?)
  | _ => none

end NamedTransition

/-- A table on file: every transition by the names of its states. -/
structure TableArchive where
  alphabet : String
  states : List NamedState
  transitions : List NamedTransition
deriving DecidableEq, Repr

namespace TableArchive

def ofTable (t : Lexical.Table) : TableArchive where
  alphabet := String.ofList t.alphabet.symbols
  states := t.automaton.stateIds.map fun s => ⟨t.automaton.name s, t.automaton.isFinal s⟩
  transitions := t.automaton.stateIds.flatMap fun s =>
    t.alphabet.symbols.filterMap fun c =>
      (t.automaton.target? s c).map fun target =>
        (t.automaton.name s, c, t.automaton.name target)

def toJson (a : TableArchive) : Json :=
  ofFields [("alphabet", ofText a.alphabet), ("states", ofList NamedState.toJson a.states),
    ("transitions", ofList NamedTransition.toJson a.transitions)]

def ofJson? (j : Json) : Option TableArchive := do
  match ← j.record? ["alphabet", "states", "transitions"] with
  | [alphabet, states, transitions] =>
    return ⟨← alphabet.text?, ← states.listOf? NamedState.ofJson?,
      ← transitions.listOf? NamedTransition.ofJson?⟩
  | _ => none

def load? (data : ByteArray) : Option TableArchive := (parseBytes data).toOption.bind ofJson?

end TableArchive

end TableLexer
