import TableLexer.Text.Printable
namespace TableLexer.Text.Quoted

def hexDigits (n : Nat) : String := String.ofList (Nat.toDigits 16 n)

/-- How a character is shown in a text that `delimiters` would end. -/
def escape (delimiters : List Char) (c : Char) : String :=
  if c = '\x00' then "\\0"
  else if c = '\t' then "\\t"
  else if c = '\n' then "\\n"
  else if c = '\r' then "\\r"
  else if c = '\\' then "\\\\"
  else if c ∈ delimiters then "\\" ++ c.toString
  else if isPlain c then c.toString
  else "\\u\x7b" ++ hexDigits c.toNat ++ "\x7d"

def string (s : String) : String :=
  "\"" ++ String.join (s.toList.map (escape ['"'])) ++ "\""

def char (c : Char) : String := "'" ++ escape ['\''] c ++ "'"

end TableLexer.Text.Quoted
