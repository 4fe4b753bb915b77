import TableLexer.Lexical.Rules
namespace TableLexer.Lexical

/-- The automaton of the language's tokens, together with what its rules were laid over. -/
structure Table where
  automaton : Automaton
  alphabet : Alphabet
  shadowed : List Overridden

namespace Table

/-- What building a table came to, with the remarks made on the way. -/
structure Built where
  result : Except AutomatonError Table
  journal : Journal

def addStates : Except AutomatonError Automaton :=
  State.all.tail.foldlM (fun a s => (a.addState s.name s.isFinal).map Prod.snd) Automaton.empty

def gapNames (a : Automaton) (alphabet : Alphabet) : List (String × Char) :=
  (a.gaps alphabet).map fun (s, c) => (a.name s, c)

def readyRemark (t : Table) : Remark :=
  ⟨.debug, "[tables] lexical table ready: " ++ toString t.automaton.states.size ++ " states x " ++
    toString t.alphabet.size ++ " symbols, " ++ toString t.shadowed.length ++
    " overrides applied"⟩

/-- Fails if a state lacks a transition on a symbol of the alphabet. -/
def build (alphabet : Alphabet) : Built :=
  match addStates with
  | .error e => ⟨.error e, []⟩
  | .ok bare =>
    let applied := bare.applyRules (rules alphabet)
    let journal := applied.journal (rules alphabet)
    match applied.result with
    | .error e => ⟨.error e, journal⟩
    | .ok resolution =>
      if applied.automaton.isTotal alphabet then
        let table : Table := ⟨applied.automaton, alphabet, resolution.shadowed⟩
        ⟨.ok table, journal ++ [table.readyRemark]⟩
      else
        ⟨.error (.incomplete (gapNames applied.automaton alphabet)),
          journal ++ applied.automaton.gapsJournal alphabet⟩

def standard : Built := build Alphabet.standard

def next? (t : Table) (s : State) (c : Char) : Option State :=
  (t.automaton.target? s.id c).bind State.ofId?

def machine (t : Table) : Machine State := ⟨.initial, t.next?, State.isFinal⟩

def successors (t : Table) (s : State) : List State :=
  (t.alphabet.symbols.filterMap (t.next? s)).eraseDups

/-- The states within `n` transitions of those in `seen`. -/
def reachableWithin (t : Table) : Nat → List State → List State
  | 0, seen => seen
  | n + 1, seen =>
    t.reachableWithin n (seen ++ (seen.flatMap t.successors).eraseDups.filter (· ∉ seen))

def reachable (t : Table) : List State := t.reachableWithin State.all.length [.initial]

/-- The states that no input leads to. -/
def unreachable (t : Table) : List State :=
  State.all.filter (· ∉ t.reachable)

end Table

end TableLexer.Lexical
