namespace TableLexer.Text

/-- The lines of a text. A line feed ends a line, and a carriage return right before it belongs
to the line end; a text that ends in a line feed has no further, empty line. -/
def splitLines : List Char → List (List Char)
  | [] => []
  | '\n' :: rest => [] :: splitLines rest
  | '\r' :: '\n' :: rest => [] :: splitLines rest
  | c :: rest =>
    match splitLines rest with
    | [] => [[c]]
    | line :: lines => (c :: line) :: lines

def lines (s : String) : List String := (splitLines s.toList).map String.ofList

end TableLexer.Text
