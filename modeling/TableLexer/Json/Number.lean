import TableLexer.Json.Value
namespace TableLexer.Json

/-- What stands behind a fraction, if there is one. A point without digits is an error. -/
def afterFraction? : List Char → Option (List Char)
  | '.' :: rest =>
    if (rest.takeWhile Char.isDigit).isEmpty then none else some (rest.dropWhile Char.isDigit)
  | cs => some cs

def dropSign : List Char → List Char
  | '+' :: rest => rest
  | '-' :: rest => rest
  | cs => cs

/-- What stands behind an exponent, if there is one. -/
def afterExponent? : List Char → Option (List Char)
  | [] => some []
  | c :: rest =>
    if c == 'e' || c == 'E' then
      let digits := dropSign rest
      if (digits.takeWhile Char.isDigit).isEmpty then none
      else some (digits.dropWhile Char.isDigit)
    else some (c :: rest)

/-- No digits, or further ones behind a leading zero. -/
def badWhole : List Char → Bool
  | [] => true
  | [_] => false
  | c :: _ => c == '0'

/-- A number is natural if it is written with digits only. -/
def Scalar.ofNumber? (cs : List Char) : Option Scalar :=
  let negative := cs.head? == some '-'
  let unsigned := if negative then cs.tail else cs
  let whole := unsigned.takeWhile Char.isDigit
  let rest := unsigned.dropWhile Char.isDigit
  if badWhole whole then none
  else
    match (afterFraction? rest).bind afterExponent? with
    | some [] =>
      some (.number
        (if negative || !rest.isEmpty then none else some (Nat.ofDigitChars 10 whole 0)))
    | _ => none

/-- A scalar that is no text. -/
def Scalar.ofWord? (cs : List Char) : Option Scalar :=
  if cs = "null".toList then some .null
  else if cs = "true".toList then some (.bool true)
  else if cs = "false".toList then some (.bool false)
  else ofNumber? cs

end TableLexer.Json
