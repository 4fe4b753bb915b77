namespace TableLexer

/-- A deterministic machine over symbols. A pair without a successor stops it. -/
structure Machine (σ : Type) where
  initial : σ
  next? : σ → Char → Option σ
  isFinal : σ → Bool

/-- One symbol taken, with the lexeme as it stood afterwards. -/
structure Step (σ : Type) where
  source : σ
  symbol : Char
  target : σ
  lexeme : String
deriving DecidableEq, Repr

/-- The run of a machine since it was last in its initial state by a restart. -/
structure Session (σ : Type) where
  current : σ
  lexeme : String
  steps : Array (Step σ)
deriving DecidableEq, Repr

namespace Session

variable {σ : Type}

def start (m : Machine σ) : Session σ := ⟨m.initial, "", #[]⟩

/-- Symbols that lead to the initial state or end a token stay out of the lexeme. -/
def extend [DecidableEq σ] (m : Machine σ) (lexeme : String) (target : σ) (c : Char) : String :=
  if m.isFinal target || target = m.initial then lexeme else lexeme.push c

def advance? [DecidableEq σ] (m : Machine σ) (s : Session σ) (c : Char) : Option (Session σ) :=
  (m.next? s.current c).map fun target =>
    let lexeme := extend m s.lexeme target c
    ⟨target, lexeme, s.steps.push ⟨s.current, c, target, lexeme⟩⟩

end Session

end TableLexer
