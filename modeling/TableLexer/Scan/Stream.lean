import TableLexer.Text.Lines
namespace TableLexer.Scan

/-- Lines and columns count from 1, columns in characters. -/
structure Position where
  line : Nat
  column : Nat
deriving DecidableEq, Repr

def Position.text (p : Position) : String := toString p.line ++ ":" ++ toString p.column

def placeLine (line : Nat) (cs : List Char) : List (Position × Char) :=
  cs.zipIdx.map fun (c, i) => (⟨line, i + 1⟩, c)

/-- What a scan reads: every line with a space behind it, so that a line end is a blank to the
tokens before it. -/
def stream (source : String) : List (Position × Char) :=
  (Text.splitLines source.toList).zipIdx.flatMap fun (line, i) => placeLine (i + 1) (line ++ [' '])

end TableLexer.Scan
