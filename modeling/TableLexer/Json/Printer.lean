import TableLexer.Json.Value
namespace TableLexer.Json

def hexDigit (n : Nat) : Char := Nat.digitChar n

def escapeChar (c : Char) : List Char :=
  if c = '"' then ['\\', '"']
  else if c = '\\' then ['\\', '\\']
  else if c = '\x08' then ['\\', 'b']
  else if c = '\x0c' then ['\\', 'f']
  else if c = '\n' then ['\\', 'n']
  else if c = '\r' then ['\\', 'r']
  else if c = '\t' then ['\\', 't']
  else if c.toNat < 0x20 then
    ['\\', 'u', '0', '0', hexDigit (c.toNat / 16), hexDigit (c.toNat % 16)]
  else [c]

def quote (s : String) : List Char := '"' :: s.toList.flatMap escapeChar ++ ['"']

/-- A number that is no natural number is written as -0, text that is no Unicode text as a lone
surrogate: each is one of the ways to write it. -/
def Scalar.print : Scalar → List Char
  | null => "null".toList
  | bool b => (if b then "true" else "false").toList
  | number (some n) => Nat.toDigits 10 n
  | number none => "-0".toList
  | text (some s) => quote s
  | text none => "\"\\ud800\"".toList

mutual

def compactChars : Json → List Char
  | .scalar s => s.print
  | .array items => '[' :: compactItems items
  | .object fields => '\x7b' :: compactFields fields

def compactItems : List Json → List Char
  | [] => [']']
  | j :: rest => compactChars j ++ (if rest.isEmpty then [] else [',']) ++ compactItems rest

def compactFields : List (Option String × Json) → List Char
  | [] => ['\x7d']
  | (key, j) :: rest =>
    (Scalar.text key).print ++ ':' :: compactChars j ++ (if rest.isEmpty then [] else [',']) ++
      compactFields rest

end

def newline (depth : Nat) : List Char := '\n' :: List.replicate (2 * depth) ' '

mutual

def prettyChars (depth : Nat) : Json → List Char
  | .scalar s => s.print
  | .array [] => ['[', ']']
  | .array (j :: rest) => '[' :: prettyItems depth (j :: rest)
  | .object [] => ['\x7b', '\x7d']
  | .object (field :: rest) => '\x7b' :: prettyFields depth (field :: rest)

def prettyItems (depth : Nat) : List Json → List Char
  | [] => newline depth ++ [']']
  | j :: rest =>
    newline (depth + 1) ++ prettyChars (depth + 1) j ++ (if rest.isEmpty then [] else [',']) ++
      prettyItems depth rest

def prettyFields (depth : Nat) : List (Option String × Json) → List Char
  | [] => newline depth ++ ['\x7d']
  | (key, j) :: rest =>
    newline (depth + 1) ++ (Scalar.text key).print ++ ':' :: ' ' :: prettyChars (depth + 1) j ++
      (if rest.isEmpty then [] else [',']) ++ prettyFields depth rest

end

/-- On one line, without blanks. -/
def compact (j : Json) : String := String.ofList (compactChars j)

/-- One part a line, each level two spaces further in. -/
def pretty (j : Json) : String := String.ofList (prettyChars 0 j)

end TableLexer.Json
