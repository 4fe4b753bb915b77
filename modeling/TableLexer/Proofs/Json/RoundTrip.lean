import TableLexer.Json.Reader
import TableLexer.Proofs.Json.Layout
namespace TableLexer.Json

namespace Reader

/-- Reads pieces from the left. -/
def read (r : Reader) (ps : List Piece) : Option Reader := ps.foldlM step r

theorem read_cons {r s : Reader} {p : Piece} (h : r.step p = some s) (ps : List Piece) :
    r.read (p :: ps) = s.read ps := by
  rw [read, List.foldlM_cons, h]
  rfl

theorem read_firstItem (stack : List Frame) (j : Json) (ps : List Piece) :
    (firstItem stack).read (pieces j ++ ps) =
      (value (.array [] :: stack)).read (pieces j ++ ps) := by
  cases j <;> rfl

mutual

/-- A value is read back from its pieces. -/
theorem read_pieces (j : Json) (stack : List Frame) (ps : List Piece) :
    (value stack).read (pieces j ++ ps) = (after j stack).read ps := by
  match j with
  | .scalar s => rfl
  | .array [] => rfl
  | .array (i :: items) =>
    have hopen : (value stack).step .openArray = some (.firstItem stack) := rfl
    rw [pieces, List.cons_append, read_cons hopen, itemPieces, List.append_assoc, List.append_assoc,
      read_firstItem, read_pieces i]
    exact read_itemPieces i items [] stack ps
  | .object [] => rfl
  | .object ((key, i) :: fields) =>
    have hopen : (value stack).step .openObject = some (.firstKey stack) := rfl
    have hkey : (firstKey stack).step (.scalar (.text key)) = some (.colon stack [] key) := rfl
    have hcolon : (colon stack [] key).step .colon = some (.value (.object [] key :: stack)) := rfl
    rw [pieces, List.cons_append, read_cons hopen, fieldPieces]
    simp only [List.cons_append, List.append_assoc]
    rw [read_cons hkey, read_cons hcolon, read_pieces i]
    exact read_fieldPieces key i fields [] stack ps

theorem read_itemPieces (j : Json) (rest : List Json) (done : List Json) (stack : List Frame)
    (ps : List Piece) :
    (after j (.array done :: stack)).read
        ((if rest.isEmpty then [] else [.comma]) ++ (itemPieces rest ++ ps)) =
      (after (.array ((j :: done).reverse ++ rest)) stack).read ps := by
  match rest with
  | [] =>
    have hclose : (after j (.array done :: stack)).step .closeArray =
        some (.after (.array (j :: done).reverse) stack) := rfl
    rw [List.append_nil]
    exact read_cons hclose ps
  | i :: rest =>
    have hcomma : (after j (.array done :: stack)).step .comma =
        some (.value (.array (j :: done) :: stack)) := rfl
    -- the item goes to those that are done, which are kept in reverse
    have hrest := read_itemPieces i rest (j :: done) stack ps
    rw [List.reverse_cons, List.append_assoc, List.singleton_append] at hrest
    rw [← hrest, ← read_pieces i, ← read_cons hcomma, itemPieces]
    simp only [List.append_assoc]
    rfl

theorem read_fieldPieces (key : Option String) (j : Json) (rest : List (Option String × Json))
    (done : List (Option String × Json)) (stack : List Frame) (ps : List Piece) :
    (after j (.object done key :: stack)).read
        ((if rest.isEmpty then [] else [.comma]) ++ (fieldPieces rest ++ ps)) =
      (after (.object (((key, j) :: done).reverse ++ rest)) stack).read ps := by
  match rest with
  | [] =>
    have hclose : (after j (.object done key :: stack)).step .closeObject =
        some (.after (.object ((key, j) :: done).reverse) stack) := rfl
    rw [List.append_nil]
    exact read_cons hclose ps
  | (key', i) :: rest =>
    have hcomma : (after j (.object done key :: stack)).step .comma =
        some (.nextKey stack ((key, j) :: done)) := rfl
    have hkey : (nextKey stack ((key, j) :: done)).step (.scalar (.text key')) =
        some (.colon stack ((key, j) :: done) key') := rfl
    have hcolon : (colon stack ((key, j) :: done) key').step .colon =
        some (.value (.object ((key, j) :: done) key' :: stack)) := rfl
    have hrest := read_fieldPieces key' i rest ((key, j) :: done) stack ps
    rw [List.reverse_cons, List.append_assoc, List.singleton_append] at hrest
    rw [← hrest, ← read_pieces i, ← read_cons hcolon, ← read_cons hkey, ← read_cons hcomma,
      fieldPieces]
    simp only [List.cons_append, List.append_assoc]
    rfl

end

end Reader

theorem ofPieces_pieces (j : Json) : ofPieces (pieces j) = .ok j := by
  have h := Reader.read_pieces j [] []
  rw [List.append_nil, Reader.read] at h
  rw [ofPieces, h]
  rfl

/-- What is written on one line is read back. -/
theorem parse_compact (j : Json) : parse j.compact = .ok j := by
  rw [parse, compact, String.toList_ofList, parseChars, lex_compact]
  exact ofPieces_pieces j

theorem parse_pretty (j : Json) : parse j.pretty = .ok j := by
  rw [parse, pretty, String.toList_ofList, parseChars, lex_pretty]
  exact ofPieces_pieces j

theorem decode_toUTF8 (s : String) : Text.Utf8.decode s.toUTF8 = s.toList.map some := by
  rw [Text.Utf8.decode, Text.fromUTF8?_toUTF8]

theorem parseBytes_toUTF8 (s : String) : parseBytes s.toUTF8 = parse s := by
  rw [parseBytes, decode_toUTF8, parse]

end TableLexer.Json
