namespace TableLexer

/-- The symbols a table is defined on, each once, in the order they were first named. Which of the
ASCII characters are among them is also marked by their code. -/
structure Alphabet where
  symbols : List Char
  ascii : Vector Bool 128
  nodup : symbols.Nodup
  ascii_eq : ∀ (c : Char) (h : c.toNat < 128), ascii[c.toNat] = symbols.contains c
deriving DecidableEq, Repr

namespace Alphabet

def isWord (c : Char) : Bool := c.isAlpha || c.isDigit || c == '_'

def isWordStart (c : Char) : Bool := c.isAlpha || c == '_'

def isBlank (c : Char) : Bool := c == ' ' || c == '\t'

def empty : Alphabet where
  symbols := []
  ascii := .replicate 128 false
  nodup := List.nodup_nil
  ascii_eq _ := Vector.getElem_replicate

/-- Marks answer for ASCII, and the list of symbols for all else. -/
def contains (a : Alphabet) (c : Char) : Bool :=
  if h : c.toNat < 128 then a.ascii[c.toNat] else a.symbols.contains c

theorem contains_eq (a : Alphabet) (c : Char) : a.contains c = a.symbols.contains c := by
  unfold contains
  split
  · next h => exact a.ascii_eq c h
  · rfl

theorem contains_iff {a : Alphabet} {c : Char} : a.contains c ↔ c ∈ a.symbols := by
  rw [contains_eq]
  exact List.contains_iff_mem

theorem nodup_concat (a : Alphabet) {c : Char} (h : c ∉ a.symbols) : (a.symbols ++ [c]).Nodup :=
  (List.perm_append_singleton c a.symbols).nodup_iff.mpr (List.nodup_cons.mpr ⟨h, a.nodup⟩)

theorem getElem_set_ascii (a : Alphabet) {c : Char} (hc : c.toNat < 128) (d : Char)
    (hd : d.toNat < 128) :
    (a.ascii.set c.toNat true)[d.toNat] = (a.symbols ++ [c]).contains d := by
  rw [Vector.getElem_set, a.ascii_eq d hd]
  by_cases h : c = d
  · simp [h]
  · have hcode : c.toNat ≠ d.toNat := mt Char.toNat_inj.mp h
    rw [if_neg hcode]
    simp [Ne.symm h]

theorem ascii_eq_of_foreign (a : Alphabet) {c : Char} (hc : ¬ c.toNat < 128) (d : Char)
    (hd : d.toNat < 128) : a.ascii[d.toNat] = (a.symbols ++ [c]).contains d := by
  have hne : d ≠ c := fun h => hc (h ▸ hd)
  rw [a.ascii_eq d hd]
  simp [hne]

/-- Names one more symbol. It goes behind the others if it is new. -/
def insert (a : Alphabet) (c : Char) : Alphabet :=
  if hc : c.toNat < 128 then
    if h : a.ascii[c.toNat] then a
    else
      { symbols := a.symbols ++ [c]
        ascii := a.ascii.set c.toNat true
        nodup := a.nodup_concat (by simpa [a.ascii_eq c hc] using h)
        ascii_eq := a.getElem_set_ascii hc }
  else if h : a.symbols.contains c then a
  else
    { a with
      symbols := a.symbols ++ [c]
      nodup := a.nodup_concat (by simpa using h)
      ascii_eq := a.ascii_eq_of_foreign hc }

theorem symbols_insert (a : Alphabet) (c : Char) :
    (a.insert c).symbols = if c ∈ a.symbols then a.symbols else a.symbols ++ [c] := by
  simp only [← List.contains_iff_mem, insert]
  split
  · next hc =>
    simp only [← a.ascii_eq c hc]
    split <;> rfl
  · split <;> rfl

def ofSymbols (symbols : List Char) : Alphabet := symbols.foldl insert empty

theorem mem_insert {a : Alphabet} {c d : Char} :
    d ∈ (a.insert c).symbols ↔ d ∈ a.symbols ∨ d = c := by
  rw [symbols_insert]
  split <;> simp_all

theorem mem_foldl_insert {symbols : List Char} {a : Alphabet} {c : Char} :
    c ∈ (symbols.foldl insert a).symbols ↔ c ∈ a.symbols ∨ c ∈ symbols := by
  induction symbols generalizing a with
  | nil => simp
  | cons d symbols ih => rw [List.foldl_cons, ih, mem_insert, List.mem_cons, or_assoc]

theorem mem_ofSymbols {symbols : List Char} {c : Char} :
    c ∈ (ofSymbols symbols).symbols ↔ c ∈ symbols := by
  rw [ofSymbols, mem_foldl_insert]
  simp [empty]

theorem contains_ofSymbols (symbols : List Char) (c : Char) :
    (ofSymbols symbols).contains c = symbols.contains c := by
  rw [Bool.eq_iff_iff, contains_iff, mem_ofSymbols, List.contains_iff_mem]

/-- Every symbol the language's tokens are written with. Line ends are not among them. -/
def sigma : String :=
  "abcdefghijklmnopqrstuvwxyz" ++ "ABCDEFGHIJKLMNOPQRSTUVWXYZ" ++ "0123456789." ++
    "+-*/,;:=_\"'\\<>\x7b\x7d()[]!?@#$%^& \t"

def standard : Alphabet := ofSymbols sigma.toList

def size (a : Alphabet) : Nat := a.symbols.length

def isEmpty (a : Alphabet) : Bool := a.symbols.isEmpty

def select (a : Alphabet) (p : Char → Bool) : List Char := a.symbols.filter p

end Alphabet

end TableLexer
