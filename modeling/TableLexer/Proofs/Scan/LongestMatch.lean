import TableLexer.Alphabet
import TableLexer.Token
namespace TableLexer.Scan.LongestMatch

open Alphabet

/-- The first token of a text: how it ends, its lexeme, and what stands behind it. -/
structure Match where
  terminal : Terminal
  lexeme : List Char
  rest : List Char
deriving DecidableEq, Repr

/-- The characters that are a symbol alone or begin one. -/
def operators : List Char :=
  ['<', '>', '=', ':', '/', '*', ',', ';', '+', '-', '(', ')', '[', ']', '\x7b', '\x7d']

/-- The symbols of two characters. -/
def pairs : List (Char × Char) :=
  [('<', '='), ('<', '>'), ('>', '='), ('=', '='), (':', '='), ('/', '*'), ('/', '/'), ('*', '*')]

def word (c : Char) (rest : List Char) : Match :=
  ⟨.identifierEnd, c :: rest.takeWhile isWord, rest.dropWhile isWord⟩

/-- A number is spoilt by a letter or an underscore right behind it, and by a second dot. -/
def endNumber (dotted : Bool) (lexeme : List Char) : List Char → Match
  | [] => ⟨.constantEnd, lexeme, []⟩
  | c :: rest =>
    if isWordStart c || (dotted && c == '.') then ⟨.illegal, lexeme ++ [c], rest⟩
    else ⟨.constantEnd, lexeme, c :: rest⟩

/-- A number from its dot on. -/
def fraction (whole rest : List Char) : Match :=
  endNumber true (whole ++ '.' :: rest.takeWhile Char.isDigit) (rest.dropWhile Char.isDigit)

def number (c : Char) (rest : List Char) : Match :=
  let whole := c :: rest.takeWhile Char.isDigit
  match rest.dropWhile Char.isDigit with
  | '.' :: behind => fraction whole behind
  | behind => endNumber false whole behind

/-- A dot begins a number if a digit follows. -/
def dot : List Char → Match
  | [] => ⟨.symbolEnd, ['.'], []⟩
  | c :: rest => if c.isDigit then fraction [] (c :: rest) else ⟨.symbolEnd, ['.'], c :: rest⟩

/-- What may stand between two quotes. -/
def isQuotable (c : Char) : Bool := c != '\'' && standard.contains c

/-- A string goes to the next quote. A character outside the alphabet, or the end of the text,
makes all that was read of it illegal. -/
def quoted (rest : List Char) : Match :=
  let opened := '\'' :: rest.takeWhile isQuotable
  match rest.dropWhile isQuotable with
  | [] => ⟨.illegal, opened, []⟩
  | c :: behind => ⟨if c = '\'' then .strEnd else .illegal, opened ++ [c], behind⟩

/-- Two characters if they make a symbol together, else one. -/
def operator (c : Char) : List Char → Match
  | [] => ⟨.symbolEnd, [c], []⟩
  | d :: rest =>
    if (c, d) ∈ pairs then ⟨.symbolEnd, [c, d], rest⟩ else ⟨.symbolEnd, [c], d :: rest⟩

/-- The first token of a text that begins with `c`, which is no blank. -/
def first (c : Char) (rest : List Char) : Match :=
  if isWordStart c then word c rest
  else if c.isDigit then number c rest
  else if c = '.' then dot rest
  else if c = '\'' then quoted rest
  else if c ∈ operators then operator c rest
  else ⟨.illegal, [c], rest⟩

theorem endNumber_split (dotted : Bool) (lexeme rest : List Char) :
    (endNumber dotted lexeme rest).lexeme ++ (endNumber dotted lexeme rest).rest =
      lexeme ++ rest := by
  unfold endNumber
  split
  · rfl
  · split <;> simp

theorem fraction_split (whole rest : List Char) :
    (fraction whole rest).lexeme ++ (fraction whole rest).rest = whole ++ '.' :: rest := by
  rw [fraction, endNumber_split]
  simp

theorem number_split (c : Char) (rest : List Char) :
    (number c rest).lexeme ++ (number c rest).rest = c :: rest := by
  have h : rest.takeWhile Char.isDigit ++ rest.dropWhile Char.isDigit = rest :=
    List.takeWhile_append_dropWhile
  unfold number
  dsimp only
  split
  · next behind hb => rw [fraction_split, List.cons_append, ← hb, h]
  · rw [endNumber_split, List.cons_append, h]

theorem quoted_split (rest : List Char) :
    (quoted rest).lexeme ++ (quoted rest).rest = '\'' :: rest := by
  have h : rest.takeWhile isQuotable ++ rest.dropWhile isQuotable = rest :=
    List.takeWhile_append_dropWhile
  unfold quoted
  dsimp only
  split
  · next hb => rw [List.cons_append, ← hb, h]
  · next c behind hb =>
    dsimp only
    rw [List.append_assoc, List.singleton_append, List.cons_append, ← hb, h]

theorem first_split (c : Char) (rest : List Char) :
    (first c rest).lexeme ++ (first c rest).rest = c :: rest := by
  unfold first
  split
  · simp [word]
  split
  · exact number_split c rest
  split
  · next h =>
    subst h
    unfold dot
    split
    · rfl
    · split
      · rw [fraction_split, List.nil_append]
      · rfl
  split
  · next h => subst h; exact quoted_split rest
  split
  · unfold operator
    split
    · rfl
    · split <;> rfl
  · rfl

theorem endNumber_lexeme_ne_nil (dotted : Bool) {lexeme : List Char} (h : lexeme ≠ [])
    (rest : List Char) : (endNumber dotted lexeme rest).lexeme ≠ [] := by
  unfold endNumber
  split
  · exact h
  · split
    · simp
    · exact h

theorem fraction_lexeme_ne_nil (whole rest : List Char) : (fraction whole rest).lexeme ≠ [] :=
  endNumber_lexeme_ne_nil true (by simp) _

theorem first_lexeme_ne_nil (c : Char) (rest : List Char) : (first c rest).lexeme ≠ [] := by
  unfold first
  split
  · simp [word]
  split
  · unfold number
    dsimp only
    split
    · exact fraction_lexeme_ne_nil _ _
    · exact endNumber_lexeme_ne_nil false (by simp) _
  split
  · unfold dot
    split
    · simp
    · split
      · exact fraction_lexeme_ne_nil _ _
      · simp
  split
  · unfold quoted
    dsimp only
    split <;> simp
  split
  · unfold operator
    split
    · simp
    · split <;> simp
  · simp

theorem first_rest_length (c : Char) (rest : List Char) :
    (first c rest).rest.length < (c :: rest).length := by
  have hsplit := congrArg List.length (first_split c rest)
  have hpos := List.length_pos_iff.mpr (first_lexeme_ne_nil c rest)
  rw [List.length_append] at hsplit
  omega

/-- All tokens of a text, the first one first. -/
def tokens : List Char → List (Terminal × String)
  | [] => []
  | c :: rest =>
    if isBlank c then tokens rest
    else
      ((first c rest).terminal, String.ofList (first c rest).lexeme) ::
        tokens (first c rest).rest
termination_by text => text.length
decreasing_by
  · simp
  · exact first_rest_length c rest

theorem tokens_nil : tokens [] = [] := by rw [tokens]

theorem tokens_of_isBlank {c : Char} (h : isBlank c) (rest : List Char) :
    tokens (c :: rest) = tokens rest := by
  rw [tokens, if_pos h]

theorem tokens_of_first {c : Char} (h : isBlank c = false) (rest : List Char) :
    tokens (c :: rest) =
      ((first c rest).terminal, String.ofList (first c rest).lexeme) ::
        tokens (first c rest).rest := by
  rw [tokens, if_neg (by simp [h])]

/-- An identifier that is a reserved word is a keyword. -/
def category (reserved : List String) (token : Terminal × String) : Category :=
  if token.1 = .identifierEnd ∧ token.2 ∈ reserved then .keyword else token.1.category

/-- The categories and lexemes of a text's tokens. -/
def lex (reserved : List String) (text : List Char) : List (Category × String) :=
  (tokens text).map fun token => (category reserved token, token.2)

example : lex ["if"] "if>=1.y'".toList =
    [(.keyword, "if"), (.symbol, ">="), (.illegal, "1.y"), (.illegal, "'")] := by cbv

end TableLexer.Scan.LongestMatch
