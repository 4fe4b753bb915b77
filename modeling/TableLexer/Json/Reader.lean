import TableLexer.Json.Lexer
import TableLexer.Text.Utf8
namespace TableLexer.Json

/-- A collection that is still open, its last part first. -/
inductive Frame where
  | array (done : List Json)
  | object (done : List (Option String × Json)) (key : Option String)
deriving Repr

/-- What must come next, and inside which collections. -/
inductive Reader where
  | value (stack : List Frame)
  | firstItem (stack : List Frame)
  | firstKey (stack : List Frame)
  | nextKey (stack : List Frame) (done : List (Option String × Json))
  | colon (stack : List Frame) (done : List (Option String × Json)) (key : Option String)
  | after (value : Json) (stack : List Frame)
deriving Repr

namespace Reader

def begin (stack : List Frame) : Piece → Option Reader
  | .scalar s => some (.after (.scalar s) stack)
  | .openArray => some (.firstItem stack)
  | .openObject => some (.firstKey stack)
  | _ => none

def step : Reader → Piece → Option Reader
  | .value stack, piece => begin stack piece
  | .firstItem stack, .closeArray => some (.after (.array []) stack)
  | .firstItem stack, piece => begin (.array [] :: stack) piece
  | .firstKey stack, .closeObject => some (.after (.object []) stack)
  | .firstKey stack, .scalar (.text key) => some (.colon stack [] key)
  | .nextKey stack done, .scalar (.text key) => some (.colon stack done key)
  | .colon stack done key, .colon => some (.value (.object done key :: stack))
  | .after v (.array done :: stack), .comma => some (.value (.array (v :: done) :: stack))
  | .after v (.array done :: stack), .closeArray =>
    some (.after (.array (v :: done).reverse) stack)
  | .after v (.object done key :: stack), .comma => some (.nextKey stack ((key, v) :: done))
  | .after v (.object done key :: stack), .closeObject =>
    some (.after (.object ((key, v) :: done).reverse) stack)
  | _, _ => none

end Reader

/-- The innermost thing that is still open where a text ends. -/
inductive Inside where
  | value
  | list
  | object
  | text
deriving DecidableEq, Repr

inductive Fault where
  | ended (inside : Inside)
  | malformed
deriving DecidableEq, Repr

def Reader.finish : Reader → Except Fault Json
  | .after v [] => .ok v
  | .after _ (.array _ :: _) => .error (.ended .list)
  | .after _ (.object _ _ :: _) => .error (.ended .object)
  | .firstItem _ => .error (.ended .list)
  | .firstKey _ => .error (.ended .object)
  | .colon _ _ _ => .error (.ended .object)
  | .nextKey _ _ => .error (.ended .value)
  | .value _ => .error (.ended .value)

def ofPieces (ps : List Piece) : Except Fault Json :=
  match ps.foldlM Reader.step (Reader.value []) with
  | some reader => reader.finish
  | none => .error .malformed

def parseChars (cs : List (Option Char)) : Except Fault Json :=
  match lex cs with
  | .whole ps => ofPieces ps
  | .insideText => .error (.ended .text)
  | .malformed => .error .malformed

def parse (text : String) : Except Fault Json := parseChars (text.toList.map some)

def parseBytes (data : ByteArray) : Except Fault Json := parseChars (Text.Utf8.decode data)

def Inside.describe : Inside → String
  | value => "a value"
  | list => "a list"
  | object => "an object"
  | text => "a string"

/-- The line and the byte column that a text ends in. -/
def endPosition (text : String) : Nat × Nat :=
  let lines := text.splitOn "\n"
  (lines.length, (lines.getLastD "").utf8ByteSize)

def Fault.message (f : Fault) (text : String) : String :=
  let (line, column) := endPosition text
  let place := " at line " ++ toString line ++ " column " ++ toString column
  match f with
  | .ended inside => "EOF while parsing " ++ inside.describe ++ place
  | .malformed => "expected value" ++ place

end TableLexer.Json
