namespace TableLexer.Json

/-- `none` stands for a number that is no natural number, and for text that is no Unicode text. -/
inductive Scalar where
  | null
  | bool (b : Bool)
  | number (value? : Option Nat)
  | text (value? : Option String)
deriving DecidableEq, Repr

end TableLexer.Json

namespace TableLexer

/-- The fields of an object keep their order and may share a key. -/
inductive Json where
  | scalar (s : Json.Scalar)
  | array (items : List Json)
  | object (fields : List (Option String × Json))
deriving Repr

namespace Json

def ofBool (b : Bool) : Json := .scalar (.bool b)

def ofNat (n : Nat) : Json := .scalar (.number (some n))

def ofText (s : String) : Json := .scalar (.text (some s))

def ofList {α : Type} (f : α → Json) (xs : List α) : Json := .array (xs.map f)

/-- An object whose keys are Unicode text. -/
def ofFields (fields : List (String × Json)) : Json :=
  .object (fields.map fun (key, value) => (some key, value))

end Json

end TableLexer
