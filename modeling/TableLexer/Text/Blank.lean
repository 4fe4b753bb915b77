namespace TableLexer.Text

/-- The Unicode property White_Space. -/
def isSpace (c : Char) : Bool :=
  let n := c.toNat
  (9 ≤ n && n ≤ 13) || n == 0x20 || n == 0x85 || n == 0xA0 || n == 0x1680 ||
    (0x2000 ≤ n && n ≤ 0x200A) || n == 0x2028 || n == 0x2029 || n == 0x202F || n == 0x205F ||
    n == 0x3000

def trimChars (cs : List Char) : List Char :=
  ((cs.dropWhile isSpace).reverse.dropWhile isSpace).reverse

/-- Without the white space at both ends. -/
def trim (s : String) : String := String.ofList (trimChars s.toList)

/-- `open?` holds the word that the characters before have begun. -/
def splitWords : Option (List Char) → List Char → List (List Char)
  | none, [] => []
  | some word, [] => [word]
  | none, c :: rest => if isSpace c then splitWords none rest else splitWords (some [c]) rest
  | some word, c :: rest =>
    if isSpace c then word :: splitWords none rest else splitWords (some (word ++ [c])) rest

/-- The maximal runs without white space. -/
def words (s : String) : List String := (splitWords none s.toList).map String.ofList

end TableLexer.Text
