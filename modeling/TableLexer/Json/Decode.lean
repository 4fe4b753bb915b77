import TableLexer.Json.Value
namespace TableLexer.Json

def text? : Json → Option String
  | .scalar (.text s) => s
  | _ => none

def bool? : Json → Option Bool
  | .scalar (.bool b) => some b
  | _ => none

/-- A natural number below `bound`. -/
def natBelow? (bound : Nat) : Json → Option Nat
  | .scalar (.number (some n)) => if n < bound then some n else none
  | _ => none

def items? : Json → Option (List Json)
  | .array items => some items
  | _ => none

def listOf? {α : Type} (f : Json → Option α) (j : Json) : Option (List α) :=
  j.items?.bind fun items => items.mapM f

/-- Text of exactly one character. -/
def char? (j : Json) : Option Char :=
  match j.text?.map String.toList with
  | some [c] => some c
  | _ => none

/-- A word from a fixed set, alone or as the only key of an object, with null behind it. -/
def variant? : Json → Option String
  | .scalar (.text s) => s
  | .object [(key, .scalar .null)] => key
  | _ => none

def field? (name : String) (fields : List (Option String × Json)) : Option Json :=
  match fields.filter fun field => field.1 = some name with
  | [(_, value)] => some value
  | _ => none

/-- The values of a record's fields, in the order of `names`. A record is an object, which may
have other fields too, or an array of just these values. -/
def record? (names : List String) : Json → Option (List Json)
  | .scalar _ => none
  | .array items => if items.length = names.length then some items else none
  | .object fields =>
    if fields.all fun field => field.1.isSome then names.mapM fun name => field? name fields
    else none

end TableLexer.Json
