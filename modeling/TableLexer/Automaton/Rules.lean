import Std.Data.TreeSet
import TableLexer.Automaton.Basic
namespace TableLexer

inductive Layer where
  | general
  | specific
deriving DecidableEq, Repr

/-- On each of `symbols`, `source` leads to `target`. A specific rule wins over a general one,
wherever the two stand. -/
structure Rule where
  layer : Layer
  source : String
  target : String
  symbols : List Char
deriving DecidableEq, Repr

/-- A general target that a specific rule replaced by another. -/
structure Overridden where
  state : String
  symbol : Char
  general : String
  specific : String
deriving DecidableEq, Repr

structure Resolution where
  entries : List (String × Char × String)
  shadowed : List Overridden
deriving DecidableEq, Repr

namespace Rule

/-- A state and a symbol. -/
abbrev Cell := String × Char

/-- What a rule says about one of its symbols. -/
structure Declaration where
  layer : Layer
  cell : Cell
  target : String
deriving DecidableEq, Repr

def declarations (r : Rule) : List Declaration :=
  r.symbols.map fun c => ⟨r.layer, (r.source, c), r.target⟩

def compareCells : Cell → Cell → Ordering := compareLex (compareOn Prod.snd) (compareOn Prod.fst)

instance : Std.TransCmp compareCells :=
  inferInstanceAs (Std.TransCmp (compareLex (compareOn Prod.snd) (compareOn Prod.fst)))

theorem compareCells_eq_iff {a b : Cell} : compareCells a b = .eq ↔ a = b := by
  rcases a with ⟨s, c⟩
  rcases b with ⟨t, d⟩
  simp [compareCells, compareLex, compareOn, Ordering.then_eq_eq,
    Std.LawfulEqCmp.compare_eq_iff_eq, and_comm]

abbrev Targets := Std.TreeMap Cell String compareCells

/-- What has been declared so far, layer by layer, and the cells in the order they came up. Which
these are is also kept as a set. -/
structure Draft where
  general : Targets
  specific : Targets
  cells : Array Cell
  seen : Std.TreeSet Cell compareCells

namespace Draft

def empty : Draft := ⟨∅, ∅, #[], ∅⟩

def layer (d : Draft) : Layer → Targets
  | .general => d.general
  | .specific => d.specific

def put (d : Draft) (layer : Layer) (cell : Cell) (target : String) : Draft :=
  let cells := if d.seen.contains cell then d.cells else d.cells.push cell
  let seen := d.seen.insert cell
  match layer with
  | .general => { d with cells, seen, general := d.general.insert cell target }
  | .specific => { d with cells, seen, specific := d.specific.insert cell target }

theorem layer_put (d : Draft) (l l' : Layer) (cell cell' : Cell) (target : String) :
    ((d.put l cell target).layer l')[cell']? =
      if l = l' ∧ cell = cell' then some target else (d.layer l')[cell']? := by
  cases l <;> cases l' <;>
    simp [put, layer, Std.TreeMap.getElem?_insert, compareCells_eq_iff]

theorem cells_put (d : Draft) (l : Layer) (cell : Cell) (target : String) :
    (d.put l cell target).cells = if cell ∈ d.seen then d.cells else d.cells.push cell := by
  cases l <;> simp [put]

theorem mem_seen_put {d : Draft} {l : Layer} {cell cell' : Cell} {target : String} :
    cell' ∈ (d.put l cell target).seen ↔ cell = cell' ∨ cell' ∈ d.seen := by
  cases l <;> simp [put, compareCells_eq_iff]

/-- The first target that a layer gives a cell must be the only one. -/
def declare (d : Draft) (x : Declaration) : Except AutomatonError Draft :=
  match (d.layer x.layer)[x.cell]? with
  | some first =>
    if first = x.target then .ok (d.put x.layer x.cell x.target)
    else .error (.conflictingRule x.cell.1 x.cell.2 first x.target)
  | none => .ok (d.put x.layer x.cell x.target)

def target? (d : Draft) (cell : Cell) : Option String := d.specific[cell]? <|> d.general[cell]?

def shadowed? (d : Draft) (cell : Cell) : Option Overridden :=
  match d.general[cell]?, d.specific[cell]? with
  | some g, some s => if g = s then none else some ⟨cell.1, cell.2, g, s⟩
  | _, _ => none

def resolution (d : Draft) : Resolution where
  entries := d.cells.toList.filterMap fun cell =>
    (d.target? cell).map fun target => (cell.1, cell.2, target)
  shadowed := d.cells.toList.filterMap d.shadowed?

end Draft

/-- Fails at the first declaration that disagrees with an earlier one of its own layer. -/
def resolve (rules : List Rule) : Except AutomatonError Resolution := do
  let draft ← (rules.flatMap declarations).foldlM Draft.declare Draft.empty
  return draft.resolution

end Rule

namespace Automaton

/-- What declaring in turn came to. The automaton keeps what was declared before a failure. -/
structure Applied where
  automaton : Automaton
  result : Except AutomatonError Resolution

def connectAll (a : Automaton) :
    List (String × Char × String) → Automaton × Option AutomatonError
  | [] => (a, none)
  | (source, c, target) :: rest =>
    match a.connect source target [c] with
    | .ok a' => a'.connectAll rest
    | .error e => (a, some e)

def applyRules (a : Automaton) (rules : List Rule) : Applied :=
  match Rule.resolve rules with
  | .error e => ⟨a, .error e⟩
  | .ok resolution =>
    match a.connectAll resolution.entries with
    | (a', none) => ⟨a', .ok resolution⟩
    | (a', some e) => ⟨a', .error e⟩

def Applied.journal (applied : Applied) (rules : List Rule) : Journal :=
  match applied.result with
  | .error _ => []
  | .ok r =>
    [⟨.debug, "[automaton] applied " ++ toString rules.length ++ " rules: " ++
      toString r.entries.length ++ " entries, " ++ toString r.shadowed.length ++
      " shadowed defaults"⟩]

end Automaton

end TableLexer
