namespace TableLexer

inductive Category where
  | constant
  | str
  | symbol
  | comment
  | identifier
  | keyword
  | illegal
deriving DecidableEq, Repr

namespace Category

def all : List Category := [constant, str, symbol, comment, identifier, keyword, illegal]

/-- The number that stands for the category in a token stream. -/
def id : Category → Nat
  | constant => 10
  | str => 20
  | symbol => 30
  | comment => 40
  | identifier => 50
  | keyword => 60
  | illegal => 70

/-- The position in `all`. -/
def slot (c : Category) : Nat := c.id / 10 - 1

def name : Category → String
  | constant => "constant_end"
  | str => "str_end"
  | symbol => "symbol_end"
  | comment => "comment_end"
  | identifier => "identifier_end"
  | keyword => "keyword_end"
  | illegal => "illegal"

/-- The word for the category in a JSON file. -/
def key : Category → String
  | constant => "constant"
  | str => "str"
  | symbol => "symbol"
  | comment => "comment"
  | identifier => "identifier"
  | keyword => "keyword"
  | illegal => "illegal"

def ofId? (n : Nat) : Option Category := all.find? fun c => c.id = n

def ofKey? (s : String) : Option Category := all.find? fun c => c.key = s

end Category

/-- How a token can end. -/
inductive Terminal where
  | identifierEnd
  | constantEnd
  | strEnd
  | symbolEnd
  | commentEnd
  | illegal
deriving DecidableEq, Repr

namespace Terminal

def all : List Terminal := [identifierEnd, constantEnd, strEnd, symbolEnd, commentEnd, illegal]

/-- The category of a token that no reserved word is. -/
def category : Terminal → Category
  | identifierEnd => .identifier
  | constantEnd => .constant
  | strEnd => .str
  | symbolEnd => .symbol
  | commentEnd => .comment
  | illegal => .illegal

def key : Terminal → String
  | identifierEnd => "identifier_end"
  | constantEnd => "constant_end"
  | strEnd => "str_end"
  | symbolEnd => "symbol_end"
  | commentEnd => "comment_end"
  | illegal => "illegal"

def ofKey? (s : String) : Option Terminal := all.find? fun t => t.key = s

end Terminal

/-- A category and a position in that category's table of lexemes. -/
structure Token where
  category : Category
  index : Nat
deriving DecidableEq, Repr

def Token.text (t : Token) : String :=
  "<" ++ toString t.category.id ++ "," ++ toString t.index ++ ">"

/-- One value for each category. -/
structure ByCategory (α : Type) where
  constant : α
  str : α
  symbol : α
  comment : α
  identifier : α
  keyword : α
  illegal : α
deriving DecidableEq, Repr

namespace ByCategory

variable {α : Type}

def replicate (a : α) : ByCategory α := ⟨a, a, a, a, a, a, a⟩

def get (t : ByCategory α) : Category → α
  | .constant => t.constant
  | .str => t.str
  | .symbol => t.symbol
  | .comment => t.comment
  | .identifier => t.identifier
  | .keyword => t.keyword
  | .illegal => t.illegal

def set (t : ByCategory α) (c : Category) (a : α) : ByCategory α :=
  match c with
  | .constant => { t with constant := a }
  | .str => { t with str := a }
  | .symbol => { t with symbol := a }
  | .comment => { t with comment := a }
  | .identifier => { t with identifier := a }
  | .keyword => { t with keyword := a }
  | .illegal => { t with illegal := a }

def toList (t : ByCategory α) : List α := Category.all.map t.get

theorem get_replicate (a : α) (c : Category) : (replicate a).get c = a := by cases c <;> rfl

theorem get_set (t : ByCategory α) (c d : Category) (a : α) :
    (t.set c a).get d = if d = c then a else t.get d := by
  cases c <;> cases d <;> rfl

theorem ext_get {t u : ByCategory α} (h : ∀ c, t.get c = u.get c) : t = u := by
  cases t; cases u
  simp only [mk.injEq]
  exact ⟨h .constant, h .str, h .symbol, h .comment, h .identifier, h .keyword, h .illegal⟩

end ByCategory

end TableLexer
