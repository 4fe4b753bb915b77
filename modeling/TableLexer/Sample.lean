import TableLexer.Lexicon.Basic
import TableLexer.RandomSource
namespace TableLexer

/-- A source text and the tokens that a scan of it must yield. -/
structure Sample where
  source : String
  expected : Array (Category × String)
deriving DecidableEq, Repr

namespace Sample

open RandomSource

variable {ρ : Type} [RandomSource ρ]

def symbols : List String :=
  ["<", ">", "=", ":", "/", "*", ",", ";", "+", "-", "(", ")", "[", "]", "\x7b", "\x7d", "<=",
    "<>", ">=", "==", ":=", "**", "."]

def separators : List String := [" ", " ", " ", "  ", "\t", "\n", " \n "]

def wordHeads : List Char := "abcdefghijklmnopqrstuvwxyzABCDEFGHIJKLMNOPQRSTUVWXYZ_".toList

def wordTails : List Char := wordHeads ++ "0123456789".toList

def stringChars : List Char :=
  "abcdefXYZ0123456789 .,;:=+-*/<>()[]\x7b\x7d!?@#$%^&_\"".toList

/-- One of `items`, or `otherwise` if there are none. -/
def pick {α : Type} (items : List α) (otherwise : α) (r : ρ) : α × ρ :=
  if h : 0 < items.length then
    let (i, r) := below items.length h r
    (items[i], r)
  else (otherwise, r)

def pickChars (chars : List Char) : Nat → ρ → List Char × ρ
  | 0, r => ([], r)
  | n + 1, r =>
    let (c, r) := pick chars ' ' r
    let (rest, r) := pickChars chars n r
    (c :: rest, r)

/-- Never a reserved word. -/
def identifier (r : ρ) : String × ρ :=
  let (head, r) := pick wordHeads ' ' r
  let (count, r) := below 8 (by decide) r
  let (tail, r) := pickChars wordTails count.val r
  let word := String.ofList (head :: tail)
  (if word ∈ Lexicon.defaultReserved then "v_" ++ word else word, r)

/-- Digits, with a point in them or before them two times out of three. -/
def number (r : ρ) : String × ρ :=
  let (whole, r) := below 100000 (by decide) r
  let (form, r) := below 3 (by decide) r
  if form.val = 0 then (toString whole.val, r)
  else
    let (fraction, r) := below 1000 (by decide) r
    let tail := "." ++ toString fraction.val
    (if form.val = 1 then toString whole.val ++ tail else tail, r)

def quoted (r : ρ) : String × ρ :=
  let (count, r) := below 12 (by decide) r
  let (inner, r) := pickChars stringChars count.val r
  (String.ofList ('\'' :: inner ++ ['\'']), r)

/-- Of ten tokens three are identifiers, one a keyword, two numbers, one a string, and three
symbols. -/
def token (r : ρ) : (Category × String) × ρ :=
  let (kind, r) := below 10 (by decide) r
  let (category, text, r) :=
    if kind.val < 3 then (Category.identifier, identifier r)
    else if kind.val < 4 then (.keyword, pick Lexicon.defaultReserved "" r)
    else if kind.val < 6 then (.constant, number r)
    else if kind.val < 7 then (.str, quoted r)
    else (.symbol, pick symbols "" r)
  ((category, text), r)

/-- Pairs that stay apart without a separator: a symbol behind a word, and a word behind a symbol,
the point excepted, which would begin a number. -/
def glueable : Category × String → Category → Bool
  | (.identifier, _), .symbol => true
  | (.keyword, _), .symbol => true
  | (.constant, _), .symbol => true
  | (.str, _), .symbol => true
  | (.symbol, text), .identifier => text != "."
  | (.symbol, text), .keyword => text != "."
  | _, _ => false

/-- A symbol follows at once only if it begins no longer one. -/
def followsAtOnce : Category × String → Bool
  | (.symbol, text) => text ∈ [",", ";", "+", "-", "(", ")", "[", "]", "\x7b", "\x7d"]
  | _ => true

/-- What is put before the next token. The coin is tossed only where leaving it out would do. -/
def separator (last? : Option (Category × String)) (next : Category × String) (r : ρ) :
    String × ρ :=
  match last? with
  | none => ("", r)
  | some last =>
    if glueable last next.1 && followsAtOnce next then
      let (glue, r) := coin r
      if glue then ("", r) else pick separators " " r
    else pick separators " " r

def addToken (g : Sample) (r : ρ) : Sample × ρ :=
  let (next, r) := token r
  let (gap, r) := separator g.expected.back? next r
  (⟨g.source ++ gap ++ next.2, g.expected.push next⟩, r)

/-- Adds tokens until the source has `length` bytes. Each adds at least one, so `length` rounds are
enough. -/
def grow (length : Nat) : Nat → Sample → ρ → Sample × ρ
  | 0, g, r => (g, r)
  | rounds + 1, g, r =>
    if g.source.utf8ByteSize < length then
      let (g, r) := g.addToken r
      grow length rounds g r
    else (g, r)

def generate (length : Nat) (r : ρ) : Sample × ρ :=
  let (g, r) := grow length length ⟨"", #[]⟩ r
  ({ g with source := g.source ++ "\n" }, r)

end Sample

end TableLexer
