import TableLexer.Lexicon.Basic
namespace TableLexer

namespace Lexicon

/-- Every token handed out, with its lexeme, in order. -/
def history (k : Lexicon) : List (Token × String) :=
  k.tokens.toList.map fun t => (t, (k.lexeme? t).getD "")

/-- Gives the history to a consumer, one token at a time. -/
def feed {σ : Type} (k : Lexicon) (consume : σ → Token → String → σ) (start : σ) : σ :=
  k.history.foldl (fun s (token, lexeme) => consume s token lexeme) start

end Lexicon

/-- Token counts by category. -/
abbrev Histogram := ByCategory Nat

namespace Histogram

def empty : Histogram := ByCategory.replicate 0

def consume (h : Histogram) (token : Token) (_ : String) : Histogram :=
  h.set token.category (h.get token.category + 1)

def total (h : Histogram) : Nat := h.toList.foldl (· + ·) 0

end Histogram

def Lexicon.histogram (k : Lexicon) : Histogram :=
  k.feed Histogram.consume Histogram.empty

end TableLexer
