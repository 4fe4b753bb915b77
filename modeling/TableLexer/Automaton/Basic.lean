import TableLexer.Alphabet
import TableLexer.Journal
import TableLexer.Automaton.Error
import TableLexer.Automaton.Session
import TableLexer.Automaton.Transitions
namespace TableLexer

structure NamedState where
  name : String
  isFinal : Bool
deriving DecidableEq, Repr

/-- Named states, the transitions between them, and the run in progress. -/
structure Automaton where
  states : Array NamedState
  byName : Std.TreeMap String StateId
  transitions : Transitions
  session : Session StateId

namespace Automaton

def initialName : String := "initial"

/-- Only the initial state, which is not final. -/
def empty : Automaton where
  states := #[⟨initialName, false⟩]
  byName := (∅ : Std.TreeMap String StateId).insert initialName StateId.initial
  transitions := Transitions.empty
  session := ⟨StateId.initial, "", #[]⟩

def name (a : Automaton) (s : StateId) : String :=
  match a.states[s.position]? with
  | some info => info.name
  | none => "<invalid>"

def isFinal (a : Automaton) (s : StateId) : Bool :=
  match a.states[s.position]? with
  | some info => info.isFinal
  | none => false

def stateId? (a : Automaton) (name : String) : Option StateId := a.byName[name]?

def target? (a : Automaton) (s : StateId) (c : Char) : Option StateId := a.transitions.target? s c

def machine (a : Automaton) : Machine StateId := ⟨StateId.initial, a.target?, a.isFinal⟩

def stateIds (a : Automaton) : List StateId := (List.range a.states.size).map StateId.ofPosition

def finalStates (a : Automaton) : List StateId := a.stateIds.filter a.isFinal

def addState (a : Automaton) (name : String) (isFinal : Bool) :
    Except AutomatonError (StateId × Automaton) :=
  if a.byName.contains name then .error (.duplicateState name)
  else
    let id := StateId.ofPosition a.states.size
    .ok (id, { a with
      states := a.states.push ⟨name, isFinal⟩
      byName := a.byName.insert name id })

def lookup (a : Automaton) (name : String) : Except AutomatonError StateId :=
  match a.stateId? name with
  | some id => .ok id
  | none => .error (.unknownState name)

/-- Replaces what was declared before for the same state and symbol. -/
def connect (a : Automaton) (source target : String) (symbols : List Char) :
    Except AutomatonError Automaton := do
  let s ← a.lookup source
  let t ← a.lookup target
  return { a with transitions := symbols.foldl (fun m c => m.insert s c t) a.transitions }

/-- Takes one symbol. The answer says whether a final state was reached. -/
def advance (a : Automaton) (c : Char) : Except AutomatonError (Bool × Automaton) :=
  match a.session.advance? a.machine c with
  | some session => .ok (a.isFinal session.current, { a with session })
  | none => .error (.undefinedTransition (a.name a.session.current) c)

def restart (a : Automaton) : Automaton := { a with session := Session.start a.machine }

def gaps (a : Automaton) (alphabet : Alphabet) : List (StateId × Char) :=
  a.stateIds.flatMap fun s =>
    (alphabet.symbols.filter fun c => (a.target? s c).isNone).map fun c => (s, c)

def isTotal (a : Automaton) (alphabet : Alphabet) : Bool := (a.gaps alphabet).isEmpty

/-- One remark for every missing transition. -/
def gapsJournal (a : Automaton) (alphabet : Alphabet) : Journal :=
  (a.gaps alphabet).map fun (s, c) =>
    ⟨.error, "transition mapping: (" ++ a.name s ++ ", " ++ Text.Quoted.char c ++
      ") |--> new_state does not exist"⟩

end Automaton

end TableLexer
