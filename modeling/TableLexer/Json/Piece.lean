import TableLexer.Json.Value
namespace TableLexer.Json

/-- What JSON text is made of, blanks left out. -/
inductive Piece where
  | openArray
  | closeArray
  | openObject
  | closeObject
  | comma
  | colon
  | scalar (s : Scalar)
deriving DecidableEq, Repr

mutual

def pieces : Json → List Piece
  | .scalar s => [.scalar s]
  | .array items => .openArray :: itemPieces items
  | .object fields => .openObject :: fieldPieces fields

def itemPieces : List Json → List Piece
  | [] => [.closeArray]
  | j :: rest => pieces j ++ (if rest.isEmpty then [] else [.comma]) ++ itemPieces rest

def fieldPieces : List (Option String × Json) → List Piece
  | [] => [.closeObject]
  | (key, j) :: rest =>
    .scalar (.text key) :: .colon :: pieces j ++ (if rest.isEmpty then [] else [.comma]) ++
      fieldPieces rest

end

end TableLexer.Json
